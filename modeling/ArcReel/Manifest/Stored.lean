import ArcReel.Manifest.Adapters
import ArcReel.Manifest.RoundTrip

/-! What a manifest file holds, and what the operations on it read and write. -/

namespace ArcReel.Manifest
open Lib

variable {p : Primitives} {codec : DocumentCodec}

section Dictionaries

variable {entries other : Entries}

theorem size_eq_zero_iff : entries.size = 0 ↔ ∀ key, entries.get? key = none := by
  constructor
  · intro none key
    rw [Dict.get?, List.length_eq_zero_iff.mp none]
    rfl
  · intro none
    have perm : entries.entries.Perm (Dict.empty : Entries).entries := Dict.perm_of_get?_eq none
    exact perm.length_eq

theorem size_eq_zero_congr (same : ∀ key, entries.get? key = other.get? key) :
    entries.size = 0 ↔ other.size = 0 := by
  rw [size_eq_zero_iff, size_eq_zero_iff]
  exact forall_congr' fun key => by rw [same]

theorem Entries.sound_iff : entries.Sound p ↔ ∀ key entry, entries.get? key = some entry →
    (∃ source : ArtifactKey p, source.Encodable ∧ key = source.wire) ∧ entry.Canonical p := by
  constructor
  · intro sound key entry stored
    have member := (Dict.get?_eq_some_iff _ _ _).mp stored
    exact ⟨sound.keys _ member, sound.canonical _ member⟩
  · intro all
    exact ⟨fun entry member => (all _ _ ((Dict.get?_eq_some_iff _ _ _).mpr member)).1,
      fun entry member => (all _ _ ((Dict.get?_eq_some_iff _ _ _).mpr member)).2⟩

theorem sound_empty : Entries.Sound p .empty :=
  ⟨fun _ member => (nomatch member), fun _ member => (nomatch member)⟩

theorem valid_empty : Entries.Valid p .empty := ⟨sound_empty, rfl⟩

/-- A change of one key to a canonical entry or to nothing. -/
def SoundChange (p : Primitives) (change : Str × Option ManifestEntry) : Prop :=
  (∃ source : ArtifactKey p, source.Encodable ∧ change.1 = source.wire) ∧
    ∀ entry, change.2 = some entry → entry.Canonical p

theorem get?_applyChange (entries : Entries) (change : Str × Option ManifestEntry) (key : Str) :
    (applyChange entries change).get? key = if key = change.1 then change.2 else entries.get? key := by
  obtain ⟨changed, value⟩ := change
  cases value with
  | none => exact entries.get?_erase changed key
  | some entry => exact entries.get?_set changed key entry

theorem Entries.Sound.applyChange (sound : entries.Sound p) {change : Str × Option ManifestEntry}
    (fine : SoundChange p change) : Entries.Sound p (applyChange entries change) := by
  rw [Entries.sound_iff] at sound ⊢
  intro key entry stored
  rw [get?_applyChange] at stored
  split at stored
  · next same => exact ⟨same ▸ fine.1, fine.2 entry stored⟩
  · exact sound key entry stored

theorem Entries.Sound.applyChanges (sound : entries.Sound p) {changes : List (Str × Option ManifestEntry)}
    (fine : ∀ change ∈ changes, SoundChange p change) :
    Entries.Sound p (applyChanges entries changes) := by
  induction changes generalizing entries with
  | nil => exact sound
  | cons change changes ih =>
    obtain ⟨here, later⟩ := List.forall_mem_cons.mp fine
    exact ih (sound.applyChange here) later

theorem applyChanges_congr (same : ∀ key, entries.get? key = other.get? key)
    (changes : List (Str × Option ManifestEntry)) (key : Str) :
    (applyChanges entries changes).get? key = (applyChanges other changes).get? key := by
  induction changes generalizing entries other with
  | nil => exact same key
  | cons change changes ih =>
    refine ih fun key => ?_
    rw [get?_applyChange, get?_applyChange, same]

theorem get?_applyChanges_of_not_mem {changes : List (Str × Option ManifestEntry)} {key : Str}
    (absent : key ∉ changes.map Prod.fst) (entries : Entries) :
    (applyChanges entries changes).get? key = entries.get? key := by
  induction changes generalizing entries with
  | nil => rfl
  | cons change changes ih =>
    rw [List.map_cons, List.mem_cons, not_or] at absent
    obtain ⟨apart, rest⟩ := absent
    exact (ih rest _).trans (by rw [get?_applyChange, if_neg apart])

/-- Changes of different keys, each under its own key. -/
theorem get?_applyChanges_of_mem {changes : List (Str × Option ManifestEntry)}
    (distinct : (changes.map Prod.fst).Nodup) {change : Str × Option ManifestEntry}
    (member : change ∈ changes) (entries : Entries) :
    (applyChanges entries changes).get? change.1 = change.2 := by
  induction changes generalizing entries with
  | nil => cases member
  | cons first changes ih =>
    obtain ⟨apart, rest⟩ := List.nodup_cons.mp distinct
    rcases List.mem_cons.mp member with rfl | later
    · exact (get?_applyChanges_of_not_mem apart _).trans (by rw [get?_applyChange, if_pos rfl])
    · exact ih rest later _

end Dictionaries

section Encodings

/-- Canonical claims under keys that can be written. -/
def ValidClaims (claims : Claims p) : Prop :=
  ∀ claim ∈ claims.entries, claim.1.Encodable ∧ claim.2.Canonical p

def ValidChanges (changes : Changes p) : Prop :=
  ∀ change ∈ changes.entries, change.1.Encodable ∧ ∀ entry, change.2 = some entry → entry.Canonical p

/-- The claims under the encodings of their keys. -/
def wireEntries (claims : Claims p) (valid : ValidClaims claims) : Entries where
  entries := claims.entries.map wireClaim
  distinct := nodup_wireClaim (fun claim member => (valid claim member).1) claims.distinct

theorem ofEntries_eq {κ ν : Type} [DecidableEq κ] {entries : List (κ × ν)}
    (distinct : (entries.map Prod.fst).Nodup) : Dict.ofEntries entries = ⟨entries, distinct⟩ := by
  have listed := Dict.entries_ofEntries distinct
  cases whole : Dict.ofEntries entries with
  | mk inner distinct' =>
    rw [whole] at listed
    cases listed
    rfl

theorem targetEntries_valid {claims : Claims p} (valid : ValidClaims claims) :
    targetEntries claims = .ok (wireEntries claims valid) := by
  have encoded := (encodeTargetEntries_eq_ok_iff claims.distinct).mpr ⟨valid, rfl⟩
  rw [targetEntries, encoded, Except.map, ofEntries_eq]
  rfl

theorem wireEntries_sound {claims : Claims p} (valid : ValidClaims claims) :
    (wireEntries claims valid).Sound p := by
  constructor
  · intro entry member
    obtain ⟨claim, listed, rfl⟩ := List.mem_map.mp member
    exact ⟨claim.1, (valid claim listed).1, rfl⟩
  · intro entry member
    obtain ⟨claim, listed, rfl⟩ := List.mem_map.mp member
    exact (valid claim listed).2

/-- The changes under the encodings of their keys. -/
def wireChanges (changes : Changes p) : List (Str × Option ManifestEntry) :=
  changes.entries.map fun change => (change.1.wire, change.2)

theorem mem_presentClaims {changes : Changes p} {claim : ArtifactKey p × ManifestEntry} :
    claim ∈ presentClaims changes ↔ (claim.1, some claim.2) ∈ changes.entries := by
  rw [presentClaims, List.mem_filterMap]
  constructor
  · rintro ⟨⟨key, value⟩, member, found⟩
    cases value with
    | none => cases found
    | some entry =>
      cases Option.some.inj found
      exact member
  · intro member
    exact ⟨_, member, rfl⟩

theorem nodup_presentClaims (changes : Changes p) : ((presentClaims changes).map Prod.fst).Nodup := by
  have listed : (presentClaims changes).map Prod.fst =
      changes.entries.filterMap fun change => change.2.map fun _ => change.1 := by
    rw [presentClaims, List.map_filterMap]
    refine List.filterMap_congr fun change _ => ?_
    cases change.2 <;> rfl
  have sub : ((presentClaims changes).map Prod.fst).Sublist (changes.entries.map Prod.fst) := by
    rw [listed]
    generalize changes.entries = entries
    induction entries with
    | nil => exact List.Sublist.refl _
    | cons change entries ih =>
      rw [List.filterMap_cons, List.map_cons]
      cases change.2 with
      | none => exact ih.cons _
      | some entry => exact ih.cons_cons _
  exact sub.nodup changes.distinct

theorem encodeOptionalEntries_valid {changes : Changes p} (valid : ValidChanges changes) :
    encodeOptionalEntries changes = .ok (wireChanges changes) := by
  have present : ∀ claim ∈ presentClaims changes, claim.1.Encodable ∧ claim.2.Canonical p := by
    intro claim member
    have fine := valid _ (mem_presentClaims.mp member)
    exact ⟨fine.1, fine.2 _ rfl⟩
  have encoded := (encodeTargetEntries_eq_ok_iff (nodup_presentClaims changes)).mpr ⟨present, rfl⟩
  rw [encodeOptionalEntries, encoded]
  change changes.entries.mapM _ = _
  rw [mapM_eq_ok, wireChanges, List.forall₂_map_right_iff, List.forall₂_same]
  intro change member
  obtain ⟨encodable, -⟩ := valid change member
  rw [ArtifactKey.encode_eq_ok_iff.mpr ⟨encodable, rfl⟩]
  change Except.ok _ = _
  refine congrArg Except.ok (Prod.ext rfl ?_)
  cases value : change.2 with
  | none => rfl
  | some entry =>
    have listed : (change.1, entry) ∈ presentClaims changes := mem_presentClaims.mpr (value ▸ member)
    have found := lookup_wire encodable fun claim member => (present claim member).1
    exact found.trans ((Dict.lookup_eq_some_iff (nodup_presentClaims changes) _ _).mpr listed)

theorem wireChanges_sound {changes : Changes p} (valid : ValidChanges changes) :
    ∀ change ∈ wireChanges changes, SoundChange p change := by
  intro change member
  obtain ⟨source, listed, rfl⟩ := List.mem_map.mp member
  exact ⟨⟨source.1, (valid source listed).1, rfl⟩, (valid source listed).2⟩

theorem nodup_wireChanges {changes : Changes p} (valid : ValidChanges changes) :
    ((wireChanges changes).map Prod.fst).Nodup := by
  rw [wireChanges, List.map_map]
  have keys : changes.entries.map (Prod.fst ∘ fun change => (change.1.wire, change.2)) =
      (changes.entries.map Prod.fst).map ArtifactKey.wire := by
    rw [List.map_map]
    rfl
  rw [keys]
  refine changes.distinct.map_on ?_
  intro key member other member' same
  obtain ⟨change, listed, rfl⟩ := List.mem_map.mp member
  obtain ⟨change', listed', rfl⟩ := List.mem_map.mp member'
  exact ArtifactKey.wire_injective (valid change listed).1 (valid change' listed').1 same

end Encodings

section Represents

/-- The file holds the entries; without entries there may be no file. -/
def Represents (p : Primitives) (file : Project.File codec) (entries : Entries) : Prop :=
  entries.Valid p ∧ ((file = none ∧ entries.size = 0) ∨
    file = some (codec.document (manifestDocument entries)))

variable {file : Project.File codec} {entries other updated : Entries}

theorem represents_none : Represents p (none : Project.File codec) .empty :=
  ⟨valid_empty, Or.inl ⟨rfl, rfl⟩⟩

theorem Represents.congr (represents : Represents p file entries)
    (same : ∀ key, entries.get? key = other.get? key) : Represents p file other := by
  obtain ⟨valid, absent | stored⟩ := represents
  · exact ⟨valid.congr same, Or.inl ⟨absent.1, (size_eq_zero_congr same).mp absent.2⟩⟩
  · exact ⟨valid.congr same, Or.inr (by rw [stored, manifestDocument_congr same])⟩

/-- Loading gives the entries, in the order of the document. -/
theorem Represents.load (represents : Represents p file entries) :
    ∃ loaded, Project.load p file = .ok loaded ∧ ∀ key, loaded.get? key = entries.get? key := by
  obtain ⟨valid, ⟨rfl, empty⟩ | rfl⟩ := represents
  · exact ⟨.empty, rfl, fun key => (size_eq_zero_iff.mp empty key).symm⟩
  · exact ⟨_, parse_manifestDocument valid, entries.get?_ordered⟩

/-- The file has the bytes of the update when it is there and nothing changes. -/
theorem Represents.bytes_iff (represents : Represents p file entries) (valid : updated.Valid p) :
    file = some (codec.document (manifestDocument updated)) ↔
      file.isSome = true ∧ updated.same entries = true := by
  rw [Entries.same_iff]
  obtain ⟨held, ⟨rfl, -⟩ | rfl⟩ := represents
  · simp
  · constructor
    · intro bytes
      exact ⟨rfl, document_injective valid held (Option.some.inj bytes).symm⟩
    · rintro ⟨-, same⟩
      rw [manifestDocument_congr same]

/-- What replacing the file does. -/
theorem Represents.replaceFile (represents : Represents p file entries) (sound : updated.Sound p)
    (fault : Fault) :
    Project.replaceFile p fault file updated =
      if uniquePaths p updated.values then
        if file.isSome = true ∧ updated.same entries = true then (.ok false, file)
        else Project.write fault file (some (codec.document (manifestDocument updated)))
      else (.error .manifestError, file) := by
  rw [Project.replaceFile, serializeManifest_sound sound]
  by_cases unique : uniquePaths p updated.values = true
  · have bytes := represents.bytes_iff ⟨sound, unique⟩
    simp only [unique, if_true, bytes]
  · simp only [unique]
    rfl

end Represents

end ArcReel.Manifest
