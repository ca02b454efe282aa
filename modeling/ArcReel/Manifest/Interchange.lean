import ArcReel.Manifest.Stored

/-! The manifest in memory and the manifest in a file answer alike, except about a manifest file
without entries. -/

namespace ArcReel.Manifest
open Lib

variable {p : Primitives} {codec : DocumentCodec}

section Replies

def Reply.Same : Reply p → Reply p → Prop
  | .entry found, .entry found' => found = found'
  | .snapshot claims, .snapshot claims' => ∀ key, claims.get? key = claims'.get? key
  | .flag value, .flag value' => value = value'
  | _, _ => False

/-- Both raise, or both return the same. -/
def Agree (reply other : Except PyError (Reply p)) : Prop :=
  match reply, other with
  | .ok reply, .ok other => reply.Same other
  | .error _, .error _ => True
  | _, _ => False

/-- Valid keys and entries, and artifacts that are there. -/
def Operation.Valid (present : Str → Bool) : Operation p → Prop
  | .getEntry key => key.Encodable
  | .snapshotEntries => True
  | .putEntry key entry => key.Encodable ∧ entry.Canonical p
  | .deleteEntry key => key.Encodable
  | .replaceEntriesIfMatches expected replacements =>
    ValidChanges expected ∧ ValidChanges replacements
  | .replaceSnapshotIfMatches expected replacement => ValidClaims expected ∧ ValidClaims replacement
  | .replaceEntries claims =>
    ValidClaims claims ∧ ∀ claim ∈ claims.entries, present claim.2.artifactPath = true

/-- The operation asks for the empty manifest where the file tells its two forms apart. -/
def TellsEmpty (file : Project.File codec) : Operation p → Prop
  | .replaceEntries claims => file = none ∧ claims.size = 0
  | .replaceEntriesIfMatches expected replacements =>
    file = some (codec.document (manifestDocument .empty)) ∧
      (∀ change ∈ expected.entries, change.2 = none) ∧ ∀ change ∈ replacements.entries, change.2 = none
  | _ => False

end Replies

section Steps

variable {file : Project.File codec} {entries : Entries}

/-- The update in memory: nothing when nothing changes. -/
def memoryUpdate (p : Primitives) (entries updated : Entries) : Except PyError Bool × Entries :=
  if updated.same entries then (.ok false, entries)
  else if uniquePaths p updated.values then (.ok true, updated)
  else (.error .manifestError, entries)

/-- The stores answer alike and hold the same. -/
def InStep (p : Primitives) (memory : Except PyError Bool × Entries)
    (project : Except PyError Bool × Project.File codec) : Prop :=
  (∀ value, memory.1 = .ok value ↔ project.1 = .ok value) ∧ Represents p project.2 memory.2

theorem Represents.empty_of_none (represents : Represents p (none : Project.File codec) entries) :
    entries.size = 0 := by
  obtain ⟨-, absent | stored⟩ := represents
  · exact absent.2
  · cases stored

/-- A replacement of the file is the update in memory, unless it writes the first file without
entries. -/
theorem update_inStep (represents : Represents p file entries) {updated other : Entries}
    (sound : updated.Sound p) (same : ∀ key, updated.get? key = other.get? key)
    (telling : file = none → updated.size ≠ 0) :
    InStep p (memoryUpdate p entries updated) (Project.replaceFile p .none file other) := by
  have unchanged : other.same entries = updated.same entries := by
    rw [Bool.eq_iff_iff, Entries.same_iff, Entries.same_iff]
    exact forall_congr' fun key => by rw [same]
  have unique : uniquePaths p other.values = uniquePaths p updated.values :=
    uniquePaths_values (Dict.perm_of_get?_eq same).symm
  rw [represents.replaceFile (sound.congr same), memoryUpdate, unchanged, unique]
  cases equal : updated.same entries with
  | true =>
    have held := Entries.same_iff.mp equal
    have known : file.isSome = true := by
      cases stored : file with
      | none =>
        rw [stored] at represents
        exact absurd ((size_eq_zero_congr held).mpr represents.empty_of_none) (telling stored)
      | some bytes => rfl
    have passes : uniquePaths p updated.values = true :=
      (represents.1.congr fun key => (held key).symm).unique
    simp only [if_true, passes, known, and_self]
    exact ⟨fun value => Iff.rfl, represents⟩
  | false =>
    cases passes : uniquePaths p updated.values with
    | false => exact ⟨fun value => by simp, represents⟩
    | true =>
      refine ⟨fun value => by simp [Project.write], ⟨sound, passes⟩, Or.inr ?_⟩
      simp [Project.write, manifestDocument_congr same]

theorem putEntry_inStep (represents : Represents p file entries) {key : ArtifactKey p}
    (encodable : key.Encodable) {entry : ManifestEntry} (canonical : entry.Canonical p) :
    InStep p (Memory.putEntry entries key entry) (Project.putEntry .none file key entry) := by
  obtain ⟨loaded, load, same⟩ := represents.load
  have encoded := ArtifactKey.encode_eq_ok_iff.mpr ⟨encodable, rfl⟩
  have fine : SoundChange p (key.wire, some entry) :=
    ⟨⟨key, encodable, rfl⟩, fun other found => Option.some.inj found ▸ canonical⟩
  have sound : Entries.Sound p (entries.set key.wire entry) :=
    represents.1.toSound.applyChange fine
  have sets : ∀ other, (entries.set key.wire entry).get? other =
      (loaded.set key.wire entry).get? other := by
    intro other
    rw [Dict.get?_set, Dict.get?_set, same]
  have known : Entries.same (entries.set key.wire entry) entries = true ↔
      entries.get? key.wire = some entry := by
    rw [Entries.same_iff]
    constructor
    · intro equal
      rw [← equal, Dict.get?_set, if_pos rfl]
    · intro found other
      rw [Dict.set_eq_self found]
  have memory : Memory.putEntry entries key entry =
      memoryUpdate p entries (entries.set key.wire entry) := by
    simp only [Memory.putEntry, encoded, memoryUpdate, known]
  have project : Project.putEntry .none file key entry =
      Project.replaceFile p .none file (loaded.set key.wire entry) := by
    simp only [Project.putEntry, load, encoded]
    split
    · next found =>
      have held := (represents.congr fun key => (same key).symm)
      have soundLoaded : Entries.Sound p (loaded.set key.wire entry) := sound.congr sets
      rw [held.replaceFile soundLoaded, Dict.set_eq_self found.1, if_pos held.1.unique, if_pos]
      exact ⟨found.2, Entries.same_iff.mpr fun _ => rfl⟩
    · rfl
  rw [memory, project]
  refine update_inStep represents sound sets fun _ => ?_
  rw [Ne, size_eq_zero_iff]
  intro nothing
  have stored := nothing key.wire
  rw [Dict.get?_set, if_pos rfl] at stored
  cases stored

theorem Entries.Valid.erase (valid : entries.Valid p) (key : Str) :
    Entries.Valid p (entries.erase key) := by
  refine ⟨⟨fun entry member => ?_, fun entry member => ?_⟩, ?_⟩
  · exact valid.keys entry ((Dict.mem_entries_filter _ _ _).mp member).1
  · exact valid.canonical entry ((Dict.mem_entries_filter _ _ _).mp member).1
  · have fewer : (entries.erase key).values.Sublist entries.values :=
      List.filter_sublist.map Prod.snd
    have whole := of_decide_eq_true valid.unique
    exact decide_eq_true ((fewer.map _).nodup whole)

theorem deleteEntry_inStep (represents : Represents p file entries) {key : ArtifactKey p}
    (encodable : key.Encodable) :
    InStep p (Memory.deleteEntry entries key) (Project.deleteEntry .none file key) := by
  obtain ⟨loaded, load, same⟩ := represents.load
  have encoded := ArtifactKey.encode_eq_ok_iff.mpr ⟨encodable, rfl⟩
  have erases : ∀ other, (entries.erase key.wire).get? other =
      (loaded.erase key.wire).get? other := by
    intro other
    rw [Dict.get?_erase, Dict.get?_erase, same]
  simp only [Memory.deleteEntry, Project.deleteEntry, load, encoded, same]
  cases found : entries.get? key.wire with
  | none =>
    refine ⟨fun value => by simp, represents.congr fun other => ?_⟩
    rw [Dict.get?_erase]
    split
    · next here => rw [here, found]
    · rfl
  | some entry =>
    have valid := represents.1.erase key.wire
    rw [if_neg (by simp)]
    split
    · next gone =>
      exact ⟨fun value => by simp [Project.write],
        valid, Or.inl ⟨rfl, (size_eq_zero_congr erases).mpr gone⟩⟩
    · next left =>
      have changed : Entries.same (entries.erase key.wire) entries = false := by
        rw [← Bool.not_eq_true, Entries.same_iff]
        intro equal
        have stored := equal key.wire
        rw [Dict.get?_erase, if_pos rfl, found] at stored
        cases stored
      have update : memoryUpdate p entries (entries.erase key.wire) =
          (.ok true, entries.erase key.wire) := by
        rw [memoryUpdate, changed, valid.unique]
        rfl
      have step := update_inStep represents valid.toSound erases
        fun _ => mt (size_eq_zero_congr erases).mp left
      rw [update] at step
      exact step

theorem matchesExpected_congr {other : Entries} (same : ∀ key, other.get? key = entries.get? key)
    (expected : List (Str × Option ManifestEntry)) :
    matchesExpected other expected = matchesExpected entries expected := by
  simp only [matchesExpected, same]

/-- The file that holds no entries. -/
theorem Represents.emptyFile_iff (represents : Represents p file entries) :
    file = some (codec.document (manifestDocument .empty)) ↔ file.isSome = true ∧ entries.size = 0 := by
  rw [represents.bytes_iff valid_empty, Entries.same_iff, size_eq_zero_iff]
  exact and_congr_right fun _ => forall_congr' fun key => eq_comm

theorem matches_of_empty {expected : Changes p} (empty : entries.size = 0) :
    matchesExpected entries (wireChanges expected) = true ↔
      ∀ change ∈ expected.entries, change.2 = none := by
  rw [matchesExpected, List.all_eq_true, wireChanges, List.forall_mem_map]
  refine forall₂_congr fun change _ => ?_
  rw [decide_eq_true_eq, size_eq_zero_iff.mp empty]
  exact eq_comm

theorem applyChanges_of_empty {replacements : Changes p} (valid : ValidChanges replacements)
    (empty : entries.size = 0) :
    (applyChanges entries (wireChanges replacements)).size = 0 ↔
      ∀ change ∈ replacements.entries, change.2 = none := by
  have distinct := nodup_wireChanges valid
  rw [size_eq_zero_iff]
  constructor
  · intro nothing change member
    have listed : (change.1.wire, change.2) ∈ wireChanges replacements :=
      List.mem_map.mpr ⟨change, member, rfl⟩
    exact (get?_applyChanges_of_mem distinct listed entries).symm.trans (nothing change.1.wire)
  · intro removals key
    by_cases changed : key ∈ (wireChanges replacements).map Prod.fst
    · obtain ⟨wired, listed, rfl⟩ := List.mem_map.mp changed
      obtain ⟨change, member, rfl⟩ := List.mem_map.mp listed
      exact (get?_applyChanges_of_mem distinct listed entries).trans (removals change member)
    · exact (get?_applyChanges_of_not_mem changed entries).trans (size_eq_zero_iff.mp empty key)

/-- A comparison and replacement of some entries. The replies differ about the removal of a file
without entries. -/
theorem replaceEntriesIfMatches_inStep (represents : Represents p file entries)
    {expected replacements : Changes p} (expectedValid : ValidChanges expected)
    (valid : ValidChanges replacements) :
    Represents p (Project.replaceEntriesIfMatches .none file expected replacements).2
        (Memory.replaceEntriesIfMatches entries expected replacements).2 ∧
      ((∀ value, (Memory.replaceEntriesIfMatches entries expected replacements).1 = .ok value ↔
          (Project.replaceEntriesIfMatches .none file expected replacements).1 = .ok value) ↔
        ¬TellsEmpty file (.replaceEntriesIfMatches expected replacements)) := by
  obtain ⟨loaded, load, same⟩ := represents.load
  have updates := applyChanges_congr (fun key => (same key).symm) (wireChanges replacements)
  have sound := represents.1.toSound.applyChanges (wireChanges_sound valid)
  have matched := matchesExpected_congr same (wireChanges expected)
  have memory : Memory.replaceEntriesIfMatches entries expected replacements =
      if matchesExpected entries (wireChanges expected) = false then (.ok false, entries)
      else memoryUpdate p entries (applyChanges entries (wireChanges replacements)) := by
    simp only [Memory.replaceEntriesIfMatches, encodeOptionalEntries_valid expectedValid,
      encodeOptionalEntries_valid valid, memoryUpdate]
  simp only [memory, Project.replaceEntriesIfMatches, encodeOptionalEntries_valid expectedValid,
    encodeOptionalEntries_valid valid, load, matched]
  cases hits : matchesExpected entries (wireChanges expected) with
  | false =>
    refine ⟨represents, iff_of_true (fun value => Iff.rfl) ?_⟩
    rintro ⟨stored, absent, -⟩
    have empty := (represents.emptyFile_iff.mp stored).2
    rw [(matches_of_empty empty).mpr absent] at hits
    cases hits
  | true =>
    simp only [Bool.true_eq_false, if_false]
    by_cases cleared : (applyChanges loaded (wireChanges replacements)).size = 0
    · have gone := (size_eq_zero_congr updates).mpr cleared
      rw [if_pos cleared]
      by_cases bare : entries.size = 0
      · have equal : (applyChanges entries (wireChanges replacements)).same entries = true := by
          rw [Entries.same_iff]
          intro key
          rw [size_eq_zero_iff.mp gone, size_eq_zero_iff.mp bare]
        rw [memoryUpdate, if_pos equal]
        cases stored : file with
        | none =>
          rw [stored] at represents
          refine ⟨represents, iff_of_true (fun value => Iff.rfl) ?_⟩
          rintro ⟨absent, -⟩
          cases absent
        | some bytes =>
          refine ⟨⟨represents.1, Or.inl ⟨rfl, bare⟩⟩, iff_of_false ?_ ?_⟩
          · intro agree
            have differ := (agree false).mp rfl
            simp [Project.unlink, Project.write] at differ
          · rw [not_not, ← stored]
            refine ⟨represents.emptyFile_iff.mpr ⟨by rw [stored]; rfl, bare⟩, ?_, ?_⟩
            · exact (matches_of_empty bare).mp hits
            · exact (applyChanges_of_empty valid bare).mp gone
      · have changed : (applyChanges entries (wireChanges replacements)).same entries = false := by
          rw [← Bool.not_eq_true, Entries.same_iff]
          intro equal
          exact bare ((size_eq_zero_congr equal).mp gone)
        have unique : uniquePaths p (applyChanges entries (wireChanges replacements)).values = true := by
          have nothing := List.length_eq_zero_iff.mp gone
          rw [Dict.values, nothing]
          rfl
        rw [memoryUpdate, changed, unique]
        cases stored : file with
        | none =>
          rw [stored] at represents
          exact absurd represents.empty_of_none bare
        | some bytes =>
          refine ⟨⟨⟨sound, unique⟩, Or.inl ⟨rfl, gone⟩⟩, iff_of_true ?_ ?_⟩
          · intro value
            exact Iff.rfl
          · rintro ⟨absent, -⟩
            exact bare (represents.emptyFile_iff.mp (stored.trans absent)).2
    · have step := update_inStep represents sound updates
        fun _ => mt (size_eq_zero_congr updates).mp cleared
      rw [if_neg cleared]
      refine ⟨step.2, iff_of_true step.1 ?_⟩
      rintro ⟨stored, -, removals⟩
      have bare := (represents.emptyFile_iff.mp stored).2
      exact cleared ((size_eq_zero_congr updates).mp ((applyChanges_of_empty valid bare).mpr removals))

/-- A comparison and replacement of the whole manifest. -/
theorem replaceSnapshotIfMatches_inStep (represents : Represents p file entries)
    {expected replacement : Claims p} (expectedValid : ValidClaims expected)
    (valid : ValidClaims replacement) :
    InStep p (Memory.replaceSnapshotIfMatches entries expected replacement)
      (Project.replaceSnapshotIfMatches .none file expected replacement) := by
  obtain ⟨loaded, load, same⟩ := represents.load
  have sound := wireEntries_sound valid
  have compares : ∀ other, loaded.same other = entries.same other := by
    intro other
    rw [Bool.eq_iff_iff, Entries.same_iff, Entries.same_iff]
    exact forall_congr' fun key => by rw [same]
  simp only [Memory.replaceSnapshotIfMatches, Project.replaceSnapshotIfMatches,
    targetEntries_valid expectedValid, targetEntries_valid valid, serializeManifest_sound sound, load]
  cases unique : uniquePaths p (wireEntries replacement valid).values with
  | false => exact ⟨fun value => by simp, represents⟩
  | true =>
    have fine : Entries.Valid p (wireEntries replacement valid) := ⟨sound, unique⟩
    simp only [Bool.true_eq_false, if_false, if_true, compares]
    cases hits : entries.same (wireEntries expected expectedValid) with
    | false => exact ⟨fun value => Iff.rfl, represents⟩
    | true =>
      simp only [Bool.true_eq_false, if_false]
      cases equal : entries.same (wireEntries replacement valid) with
      | true => exact ⟨fun value => Iff.rfl, represents.congr (Entries.same_iff.mp equal)⟩
      | false =>
        simp only [Bool.false_eq_true, if_false]
        by_cases gone : (wireEntries replacement valid).size = 0
        · rw [if_pos gone]
          cases stored : file with
          | none => exact ⟨fun value => Iff.rfl, fine, Or.inl ⟨rfl, gone⟩⟩
          | some bytes => exact ⟨fun value => Iff.rfl, fine, Or.inl ⟨rfl, gone⟩⟩
        · rw [if_neg gone]
          split
          · next bytes => exact ⟨fun value => Iff.rfl, fine, Or.inr bytes⟩
          · exact ⟨fun value => Iff.rfl, fine, Or.inr rfl⟩

/-- A replacement of the whole manifest. The replies differ about the first file without
entries. -/
theorem replaceEntries_inStep (represents : Represents p file entries) {claims : Claims p}
    (valid : ValidClaims claims) {present : Str → Bool}
    (there : ∀ claim ∈ claims.entries, present claim.2.artifactPath = true) :
    Represents p (Project.replaceEntries present .none file claims).2
        (Memory.replaceEntries entries claims).2 ∧
      ((∀ value, (Memory.replaceEntries entries claims).1 = .ok value ↔
          (Project.replaceEntries present .none file claims).1 = .ok value) ↔
        ¬TellsEmpty file (.replaceEntries claims)) := by
  obtain ⟨loaded, load, same⟩ := represents.load
  have sound := wireEntries_sound valid
  have found : ((wireEntries claims valid).values.any fun entry => !present entry.artifactPath) =
      false := by
    rw [List.any_eq_false]
    intro entry member
    obtain ⟨stored, listed, rfl⟩ := List.mem_map.mp member
    obtain ⟨claim, source, rfl⟩ := List.mem_map.mp listed
    simpa [wireClaim] using there claim source
  have symmetric : entries.same (wireEntries claims valid) =
      (wireEntries claims valid).same entries := by
    rw [Bool.eq_iff_iff, Entries.same_iff, Entries.same_iff]
    exact forall_congr' fun key => eq_comm
  have sizes : (wireEntries claims valid).size = claims.size := by
    rw [Dict.size, Dict.size]
    exact List.length_map _
  have memory : Memory.replaceEntries entries claims =
      memoryUpdate p entries (wireEntries claims valid) := by
    simp only [Memory.replaceEntries, targetEntries_valid valid, memoryUpdate, symmetric]
    cases equal : (wireEntries claims valid).same entries with
    | true =>
      have unique := (represents.1.congr fun key => (Entries.same_iff.mp equal key).symm).unique
      rw [unique]
      rfl
    | false => cases uniquePaths p (wireEntries claims valid).values <;> rfl
  have project : Project.replaceEntries present .none file claims =
      Project.replaceFile p .none file (wireEntries claims valid) := by
    simp only [Project.replaceEntries, targetEntries_valid valid, found,
      serializeManifest_sound sound, load]
    cases unique : uniquePaths p (wireEntries claims valid).values with
    | true => rfl
    | false =>
      rw [represents.replaceFile sound, unique]
      rfl
  rw [memory, project]
  by_cases tells : file = none ∧ claims.size = 0
  · have gone := sizes.trans tells.2
    have nothing := List.length_eq_zero_iff.mp gone
    have unique : uniquePaths p (wireEntries claims valid).values = true := by
      rw [Dict.values, nothing]
      rfl
    rw [tells.1] at represents
    have equal : (wireEntries claims valid).same entries = true := by
      rw [Entries.same_iff]
      intro key
      rw [size_eq_zero_iff.mp gone, size_eq_zero_iff.mp represents.empty_of_none]
    rw [tells.1, represents.replaceFile sound, unique, memoryUpdate, if_pos equal]
    refine ⟨⟨represents.1, Or.inr ?_⟩, iff_of_false ?_ (not_not.mpr ⟨rfl, tells.2⟩)⟩
    · exact congrArg (fun document => some (codec.document document))
        (manifestDocument_congr (Entries.same_iff.mp equal))
    · intro agree
      have differ := (agree false).mp rfl
      simp [Project.write] at differ
  · have step := update_inStep represents sound (fun _ => rfl) fun absent gone =>
      tells ⟨absent, sizes.symm.trans gone⟩
    exact ⟨step.2, iff_of_true step.1 tells⟩

/-- The entries are claims under the encodings of their keys. -/
theorem exists_wired {stored : List (Str × ManifestEntry)}
    (keys : ∀ entry ∈ stored, ∃ key : ArtifactKey p, key.Encodable ∧ entry.1 = key.wire) :
    ∃ claims : List (ArtifactKey p × ManifestEntry), stored = claims.map wireClaim ∧
      ∀ claim ∈ claims, claim.1.Encodable := by
  induction stored with
  | nil => exact ⟨[], rfl, fun _ member => (nomatch member)⟩
  | cons entry stored ih =>
    obtain ⟨⟨key, encodable, wire⟩, later⟩ := List.forall_mem_cons.mp keys
    obtain ⟨claims, rfl, encodables⟩ := ih later
    refine ⟨(key, entry.2) :: claims, ?_, List.forall_mem_cons.mpr ⟨encodable, encodables⟩⟩
    rw [List.map_cons, wireClaim, ← wire]

/-- A snapshot has what is stored under the encoding of each key. -/
theorem decodeEntries_valid (valid : entries.Valid p) :
    ∃ claims, decodeEntries p entries = .ok claims ∧ ∀ key entry,
      claims.get? key = some entry ↔ key.Encodable ∧ entries.get? key.wire = some entry := by
  obtain ⟨claims, wired, encodables⟩ := exists_wired valid.keys
  have distinct : (claims.map Prod.fst).Nodup := by
    have apart := entries.distinct
    rw [wired, List.map_map] at apart
    refine List.Nodup.of_map ArtifactKey.wire ?_
    rw [List.map_map]
    exact apart
  refine ⟨.ofEntries claims, ?_, ?_⟩
  · have mapped : (claims.map wireClaim).mapM (fun entry => do
        let key ← ArtifactKey.decode p entry.1
        return (key, entry.2)) = Except.ok claims := by
      rw [mapM_eq_ok, List.forall₂_map_left_iff, List.forall₂_same]
      intro claim member
      have encoded := ArtifactKey.encode_eq_ok_iff.mpr ⟨encodables claim member, rfl⟩
      rw [wireClaim, ArtifactKey.decode_encode encoded]
      rfl
    rw [decodeEntries, wired, mapped]
    rfl
  · intro key entry
    rw [ofEntries_eq distinct, Dict.get?_eq_some_iff, Dict.get?_eq_some_iff, wired, List.mem_map]
    constructor
    · intro member
      exact ⟨encodables _ member, _, member, rfl⟩
    · rintro ⟨encodable, claim, member, whole⟩
      obtain ⟨wires, values⟩ := Prod.mk.inj whole
      have same := ArtifactKey.wire_injective (encodables claim member) encodable wires
      rw [← same, ← values]
      exact member

end Steps

section Runs

variable {file : Project.File codec} {entries : Entries} {present : Str → Bool}

theorem agree_flag {reply other : Except PyError Bool} :
    Agree (reply.map .flag : Except PyError (Reply p)) (other.map .flag) ↔
      ∀ value, reply = .ok value ↔ other = .ok value := by
  cases reply with
  | error e =>
    cases other with
    | error e' => simp [Except.map, Agree]
    | ok value => simp [Except.map, Agree]
  | ok value =>
    cases other with
    | error e' => simp [Except.map, Agree]
    | ok value' =>
      simp only [Except.map, Agree, Reply.Same, Except.ok.injEq]
      exact ⟨fun same other => by rw [same], fun both => ((both value).mp rfl).symm⟩

/-- One operation: the stores go on holding the same, and they answer alike unless the file tells
its two empty forms apart. -/
theorem step_agrees (represents : Represents p file entries) {operation : Operation p}
    (valid : operation.Valid present) :
    Represents p (Project.step present .none file operation).2 (Memory.step entries operation).2 ∧
      (Agree (Memory.step entries operation).1 (Project.step present .none file operation).1 ↔
        ¬TellsEmpty file operation) := by
  obtain ⟨loaded, load, same⟩ := represents.load
  cases operation with
  | getEntry key =>
    have encoded := ArtifactKey.encode_eq_ok_iff.mpr ⟨valid, rfl⟩
    refine ⟨represents, iff_of_true ?_ not_false⟩
    simp only [Memory.step, Project.step, load, encoded, Except.map]
    exact (same key.wire).symm
  | snapshotEntries =>
    have held := represents.congr fun key => (same key).symm
    obtain ⟨claims, decoded, found⟩ := decodeEntries_valid represents.1
    obtain ⟨claims', decoded', found'⟩ := decodeEntries_valid held.1
    refine ⟨represents, iff_of_true ?_ not_false⟩
    have read : (Project.load p file >>= decodeEntries p) = .ok claims' := by
      rw [load]
      exact decoded'
    simp only [Memory.step, Project.step, read, decoded, Except.map]
    intro key
    refine Option.ext fun entry => ?_
    rw [found, found', same]
  | putEntry key entry =>
    have step := putEntry_inStep represents valid.1 valid.2
    exact ⟨step.2, iff_of_true (agree_flag.mpr step.1) not_false⟩
  | deleteEntry key =>
    have step := deleteEntry_inStep represents valid
    exact ⟨step.2, iff_of_true (agree_flag.mpr step.1) not_false⟩
  | replaceEntriesIfMatches expected replacements =>
    have step := replaceEntriesIfMatches_inStep represents valid.1 valid.2
    exact ⟨step.1, agree_flag.trans step.2⟩
  | replaceSnapshotIfMatches expected replacement =>
    have step := replaceSnapshotIfMatches_inStep represents valid.1 valid.2
    exact ⟨step.2, iff_of_true (agree_flag.mpr step.1) not_false⟩
  | replaceEntries claims =>
    have step := replaceEntries_inStep represents valid.1 valid.2
    exact ⟨step.1, agree_flag.trans step.2⟩

/-- The replies to one operation after another, and what is left. -/
def Memory.run (entries : Entries) : List (Operation p) → List (Except PyError (Reply p)) × Entries
  | [] => ([], entries)
  | operation :: operations =>
    let (reply, entries) := Memory.step entries operation
    let (replies, entries) := Memory.run entries operations
    (reply :: replies, entries)

def Project.run (present : Str → Bool) (file : Project.File codec) :
    List (Operation p) → List (Except PyError (Reply p)) × Project.File codec
  | [] => ([], file)
  | operation :: operations =>
    let (reply, file) := Project.step present .none file operation
    let (replies, file) := Project.run present file operations
    (reply :: replies, file)

/-- Some operation of the run is asked where the file tells its two empty forms apart. -/
def TellsEmptyIn (present : Str → Bool) (file : Project.File codec)
    (operations : List (Operation p)) : Prop :=
  ∃ front operation back, operations = front ++ operation :: back ∧
    TellsEmpty (Project.run present file front).2 operation

theorem tellsEmptyIn_cons {operation : Operation p} {operations : List (Operation p)} :
    TellsEmptyIn present file (operation :: operations) ↔ TellsEmpty file operation ∨
      TellsEmptyIn present (Project.step present .none file operation).2 operations := by
  constructor
  · rintro ⟨front, asked, back, whole, tells⟩
    cases front with
    | nil =>
      rw [(List.cons.inj whole).1]
      exact Or.inl tells
    | cons first front =>
      rw [(List.cons.inj whole).1]
      exact Or.inr ⟨front, asked, back, (List.cons.inj whole).2, tells⟩
  · rintro (tells | ⟨front, asked, back, rfl, tells⟩)
    · exact ⟨[], operation, operations, rfl, tells⟩
    · exact ⟨operation :: front, asked, back, rfl, tells⟩

theorem run_agrees {operations : List (Operation p)}
    (valid : ∀ operation ∈ operations, operation.Valid present)
    (represents : Represents p file entries) :
    Represents p (Project.run present file operations).2 (Memory.run entries operations).2 ∧
      (List.Forall₂ Agree (Memory.run entries operations).1 (Project.run present file operations).1 ↔
        ¬TellsEmptyIn present file operations) := by
  induction operations generalizing file entries with
  | nil =>
    refine ⟨represents, iff_of_true .nil ?_⟩
    rintro ⟨front, operation, back, whole, -⟩
    exact absurd whole.symm (by simp)
  | cons operation operations ih =>
    obtain ⟨here, later⟩ := List.forall_mem_cons.mp valid
    obtain ⟨held, agrees⟩ := step_agrees represents here
    obtain ⟨left, agree⟩ := ih later held
    refine ⟨left, ?_⟩
    rw [tellsEmptyIn_cons, not_or, ← agrees, ← agree]
    exact List.forall₂_cons

/-- The replies agree at every step exactly when no step asks for the empty manifest where the file
tells its two forms apart; the manifests are the same in any case. -/
theorem adapters_agree_iff (codec : DocumentCodec) (present : Str → Bool)
    (operations : List (Operation p))
    (valid : ∀ operation ∈ operations, operation.Valid present) :
    Represents p (Project.run present (none : Project.File codec) operations).2
        (Memory.run .empty operations).2 ∧
      (List.Forall₂ Agree (Memory.run .empty operations).1
          (Project.run present (none : Project.File codec) operations).1 ↔
        ¬TellsEmptyIn present (none : Project.File codec) operations) :=
  run_agrees valid represents_none

def emptyDocumentText : Str :=
  text "\x7b\n  \"entries\": \x7b\x7d,\n  \"hash_algorithm\": \"sha256-v1\",\n  \"schema_version\": 1\n\x7d\n"

theorem emptyDocumentText_injective :
    Function.Injective (standIn (manifestDocument .empty) emptyDocumentText) :=
  standIn_injective _ (by decide)

/-- Documents in which the manifest without entries has its text. -/
noncomputable def sampleDocuments : DocumentCodec where
  Bytes := Str
  same := inferInstance
  document := standIn (manifestDocument .empty) emptyDocumentText
  parse := Function.partialInv (standIn (manifestDocument .empty) emptyDocumentText)
  parse_document value _ := Function.partialInv_left emptyDocumentText_injective value

/-- Replaces the manifest by no entries and then removes nothing from it. -/
def clearing : List (Operation sample) :=
  [.replaceEntries .empty, .replaceEntriesIfMatches .empty .empty]

theorem clearing_agree_iff :
    Represents sample (Project.run (fun _ => true) (none : Project.File sampleDocuments) clearing).2
        (Memory.run .empty clearing).2 ∧
      (List.Forall₂ Agree (Memory.run .empty clearing).1
          (Project.run (fun _ => true) (none : Project.File sampleDocuments) clearing).1 ↔
        ¬TellsEmptyIn (fun _ => true) (none : Project.File sampleDocuments) clearing) := by
  refine adapters_agree_iff sampleDocuments (fun _ => true) clearing ?_
  simp [clearing, Operation.Valid, ValidClaims, ValidChanges, Dict.empty]

/-- In a new project the first step changes nothing in memory and writes a file without entries;
the second changes nothing in memory and removes that file. -/
theorem empty_manifest_told_apart :
    (Memory.run .empty clearing).1 = [.ok (.flag false), .ok (.flag false)] ∧
      (Project.run (fun _ => true) (none : Project.File sampleDocuments) clearing).1 =
        [.ok (.flag true), .ok (.flag true)] := by
  have first : Project.step (fun _ => true) .none (none : Project.File sampleDocuments)
      (.replaceEntries (.empty : Claims sample)) =
        (.ok (.flag true), some (sampleDocuments.document (manifestDocument .empty))) := by
    have valid : ValidClaims (.empty : Claims sample) := fun _ member => (nomatch member)
    have wired : wireEntries .empty valid = .empty := rfl
    have unique : uniquePaths sample (.empty : Entries).values = true := rfl
    have unread : Project.load sample (none : Project.File sampleDocuments) = .ok .empty := rfl
    have start : Represents sample (none : Project.File sampleDocuments) .empty := represents_none
    have replaced := start.replaceFile sound_empty .none
    rw [if_pos unique, if_neg (by simp)] at replaced
    simp only [Project.step, Project.replaceEntries, targetEntries_valid valid, wired,
      serializeManifest_sound sound_empty, unique, if_true, unread, replaced]
    rfl
  have load : Project.load sample (some (sampleDocuments.document (manifestDocument .empty))) =
      .ok (Entries.ordered .empty) := parse_manifestDocument valid_empty
  have second : Project.step (fun _ => true) .none
      (some (sampleDocuments.document (manifestDocument .empty)))
      (.replaceEntriesIfMatches (.empty : Changes sample) .empty) = (.ok (.flag true), none) := by
    simp only [Project.step, Project.replaceEntriesIfMatches, load]
    rfl
  refine ⟨rfl, ?_⟩
  simp only [clearing, Project.run, first, second]

end Runs

end ArcReel.Manifest
