import ArcReel.Manifest.Transactions

/-! Whatever write fails, the manifest file goes on holding a valid manifest, and a rolled back
operation leaves it as it was. -/

namespace ArcReel.Manifest
open Lib Project

variable {p : Primitives} {codec : DocumentCodec}

section Outcomes

variable {file : File codec} {entries updated : Entries} {fault : Fault}

/-- An operation that would leave `updated` refuses two claims of one path, has nothing to change, or
makes its one write. -/
inductive Outcome (p : Primitives) (fault : Fault) (file : File codec) (entries updated : Entries) :
    Except PyError Bool × File codec → Prop
  | refused (e : PyError) : uniquePaths p updated.values = false →
      Outcome p fault file entries updated (.error e, file)
  | unchanged (value : Bool) : (∀ key, updated.get? key = entries.get? key) →
      Outcome p fault file entries updated (.ok value, file)
  | written (content : File codec) : Represents p content updated →
      Outcome p fault file entries updated (write fault file content)

/-- A replacement of the file has an outcome. -/
theorem replaceFile_outcome (represents : Represents p file entries) (sound : updated.Sound p)
    {other : Entries} (same : ∀ key, updated.get? key = other.get? key) :
    Outcome p fault file entries updated (replaceFile p fault file other) := by
  have paths := uniquePaths_values (p := p) (Dict.perm_of_get?_eq same)
  rw [represents.replaceFile (sound.congr same)]
  split
  · next unique =>
    have valid : updated.Valid p := ⟨sound, paths.trans unique⟩
    split
    · next held =>
      refine .unchanged false fun key => ?_
      rw [same, Entries.same_iff.mp held.2]
    · exact .written _ ⟨valid, Or.inr (by rw [manifestDocument_congr same])⟩
  · next shared => exact .refused _ (paths.trans (Bool.eq_false_iff.mpr shared))

theorem putEntry_outcome (represents : Represents p file entries) {key : ArtifactKey p}
    (encodable : key.Encodable) {entry : ManifestEntry} (canonical : entry.Canonical p) :
    Outcome p fault file entries (entries.set key.wire entry) (putEntry fault file key entry) := by
  obtain ⟨loaded, load, same⟩ := represents.load
  have encoded := ArtifactKey.encode_eq_ok_iff.mpr ⟨encodable, rfl⟩
  have fine : SoundChange p (key.wire, some entry) :=
    ⟨⟨key, encodable, rfl⟩, fun other found => Option.some.inj found ▸ canonical⟩
  have sound : Entries.Sound p (entries.set key.wire entry) := represents.1.toSound.applyChange fine
  simp only [putEntry, load, encoded]
  split
  · next found =>
    refine .unchanged false fun other => ?_
    rw [same] at found
    rw [Dict.set_eq_self found.1]
  · refine replaceFile_outcome represents sound fun other => ?_
    rw [Dict.get?_set, Dict.get?_set, same]

theorem deleteEntry_outcome (represents : Represents p file entries) {key : ArtifactKey p}
    (encodable : key.Encodable) :
    Outcome p fault file entries (entries.erase key.wire) (deleteEntry fault file key) := by
  obtain ⟨loaded, load, same⟩ := represents.load
  have encoded := ArtifactKey.encode_eq_ok_iff.mpr ⟨encodable, rfl⟩
  have valid := represents.1.erase key.wire
  have erases : ∀ other, (entries.erase key.wire).get? other =
      (loaded.erase key.wire).get? other := by
    intro other
    rw [Dict.get?_erase, Dict.get?_erase, same]
  simp only [deleteEntry, load, encoded]
  split
  · next absent =>
    refine .unchanged false fun other => ?_
    rw [Dict.get?_erase]
    split
    · next here => rw [here, ← same, absent]
    · rfl
  · split
    · next gone => exact .written none ⟨valid, Or.inl ⟨rfl, (size_eq_zero_congr erases).mpr gone⟩⟩
    · exact replaceFile_outcome represents valid.toSound erases

theorem unlink_outcome (represents : Represents p file entries) (gone : updated.size = 0) :
    Outcome p fault file entries updated (unlink fault file) := by
  have nothing := List.length_eq_zero_iff.mp gone
  have valid : updated.Valid p := by
    refine ⟨⟨fun entry member => ?_, fun entry member => ?_⟩, ?_⟩
    · rw [nothing] at member
      cases member
    · rw [nothing] at member
      cases member
    · rw [Dict.values, nothing]
      rfl
  cases stored : file with
  | none =>
    rw [stored] at represents
    refine .unchanged false fun key => ?_
    rw [size_eq_zero_iff.mp gone, size_eq_zero_iff.mp represents.empty_of_none]
  | some bytes => exact .written none ⟨valid, Or.inl ⟨rfl, gone⟩⟩

/-- A comparison and replacement returns `False`, or finds what it expects and has an outcome. -/
theorem replaceEntriesIfMatches_outcome (fault : Fault) (represents : Represents p file entries)
    {expected replacements : Changes p} (expectedValid : ValidChanges expected)
    (valid : ValidChanges replacements) :
    (matchesExpected entries (wireChanges expected) = false ∧
        replaceEntriesIfMatches fault file expected replacements = (.ok false, file)) ∨
      (matchesExpected entries (wireChanges expected) = true ∧
        Outcome p fault file entries (applyChanges entries (wireChanges replacements))
          (replaceEntriesIfMatches fault file expected replacements)) := by
  obtain ⟨loaded, load, same⟩ := represents.load
  have updates := applyChanges_congr (fun key => (same key).symm) (wireChanges replacements)
  have sound := represents.1.toSound.applyChanges (wireChanges_sound valid)
  simp only [replaceEntriesIfMatches, encodeOptionalEntries_valid expectedValid,
    encodeOptionalEntries_valid valid, load, matchesExpected_congr same]
  cases hits : matchesExpected entries (wireChanges expected) with
  | false => exact Or.inl ⟨rfl, rfl⟩
  | true =>
    refine Or.inr ⟨rfl, ?_⟩
    simp only [Bool.true_eq_false, if_false]
    split
    · next gone => exact unlink_outcome represents ((size_eq_zero_congr updates).mpr gone)
    · exact replaceFile_outcome represents sound updates

/-- What is left holds what was there or the update. -/
theorem Outcome.held {result : Except PyError Bool × File codec}
    (outcome : Outcome p fault file entries updated result) (represents : Represents p file entries) :
    Represents p result.2 entries ∨ Represents p result.2 updated := by
  cases outcome with
  | refused e shared => exact Or.inl represents
  | unchanged value same => exact Or.inl represents
  | written content held =>
    cases fault with
    | none => exact Or.inr held
    | before => exact Or.inl represents
    | after => exact Or.inr held

/-- An operation that returns has left the update. -/
theorem Outcome.returned {result : Except PyError Bool × File codec} {value : Bool}
    (outcome : Outcome p fault file entries updated result) (represents : Represents p file entries)
    (returns : result.1 = .ok value) : Represents p result.2 updated := by
  cases outcome with
  | refused e shared => cases returns
  | unchanged value same => exact represents.congr fun key => (same key).symm
  | written content held =>
    cases fault with
    | none => exact held
    | before => cases returns
    | after => cases returns

/-- An operation that has nothing to change has not written. -/
theorem Outcome.idle {result : Except PyError Bool × File codec}
    (outcome : Outcome p fault file entries updated result) (idle : result.1 = .ok false) :
    result.2 = file := by
  cases outcome with
  | refused e shared => rfl
  | unchanged value same => rfl
  | written content held => cases fault <;> cases idle

/-- Without a fault an operation only raises over two claims of one path. -/
theorem Outcome.returns {result : Except PyError Bool × File codec}
    (outcome : Outcome p .none file entries updated result)
    (unique : uniquePaths p updated.values = true) : ∃ value, result.1 = .ok value := by
  cases outcome with
  | refused e shared => exact absurd unique (Bool.eq_false_iff.mp shared)
  | unchanged value same => exact ⟨value, rfl⟩
  | written content held => exact ⟨true, rfl⟩

theorem Outcome.congr {result : Except PyError Bool × File codec} {other : Entries}
    (outcome : Outcome p fault file entries updated result)
    (same : ∀ key, updated.get? key = other.get? key) : Outcome p fault file entries other result := by
  cases outcome with
  | refused e shared =>
    exact .refused e ((uniquePaths_values (Dict.perm_of_get?_eq same)).symm.trans shared)
  | unchanged value held => exact .unchanged value fun key => (same key).symm.trans (held key)
  | written content held => exact .written content (held.congr same)

end Outcomes

section Refusals

variable {file : File codec} {fault : Fault}

theorem encodeOptionalEntries_eq_ok_iff {changes : Changes p}
    {encoded : List (Str × Option ManifestEntry)} :
    encodeOptionalEntries changes = .ok encoded ↔
      ValidChanges changes ∧ encoded = wireChanges changes := by
  constructor
  · intro passed
    obtain ⟨claims, targets, mapped⟩ := bind_eq_ok.mp passed
    have present := ((encodeTargetEntries_eq_ok_iff (nodup_presentClaims changes)).mp targets).1
    have valid : ValidChanges changes := by
      intro change member
      refine ⟨?_, fun entry found => (present (change.1, entry) (mem_presentClaims.mpr ?_)).2⟩
      · obtain ⟨wired, one⟩ := ok_of_mapM_eq_ok mapped change member
        obtain ⟨key, encode, -⟩ := bind_eq_ok.mp one
        exact (ArtifactKey.encode_eq_ok_iff.mp encode).1
      · rw [← found]
        exact member
    rw [encodeOptionalEntries_valid valid] at passed
    exact ⟨valid, (Except.ok.inj passed).symm⟩
  · rintro ⟨valid, rfl⟩
    exact encodeOptionalEntries_valid valid

theorem replaceEntriesIfMatches_invalid {expected replacements : Changes p}
    (invalid : ¬(ValidChanges expected ∧ ValidChanges replacements)) :
    ∃ e, replaceEntriesIfMatches fault file expected replacements = (.error e, file) := by
  rw [replaceEntriesIfMatches]
  cases first : encodeOptionalEntries expected with
  | error e => exact ⟨e, rfl⟩
  | ok encoded =>
    cases second : encodeOptionalEntries replacements with
    | error e => exact ⟨e, rfl⟩
    | ok encoded' =>
      refine absurd ⟨?_, ?_⟩ invalid
      · exact (encodeOptionalEntries_eq_ok_iff.mp first).1
      · exact (encodeOptionalEntries_eq_ok_iff.mp second).1

theorem targetEntries_eq_ok {claims : Claims p} {encoded : Entries}
    (passed : targetEntries claims = .ok encoded) :
    ∃ valid : ValidClaims claims, encoded = wireEntries claims valid := by
  rw [targetEntries] at passed
  cases targets : encodeTargetEntries claims.entries with
  | error e =>
    rw [targets] at passed
    cases passed
  | ok listed =>
    have valid : ValidClaims claims := ((encodeTargetEntries_eq_ok_iff claims.distinct).mp targets).1
    refine ⟨valid, ?_⟩
    have whole := targetEntries_valid valid
    rw [targetEntries] at whole
    exact Except.ok.inj (passed.symm.trans whole)

end Refusals

section Frames

variable {entries held : Entries} {file left : File codec} {names : ArtifactKey p → Prop}

/-- The entries of the keys that are not named are as they were. -/
def Untouched (names : ArtifactKey p → Prop) (entries held : Entries) : Prop :=
  ∀ key : ArtifactKey p, key.Encodable → ¬names key → held.get? key.wire = entries.get? key.wire

/-- What is left is a manifest that differs at the named keys only. -/
def Kept (names : ArtifactKey p → Prop) (entries : Entries) (left : File codec) : Prop :=
  ∃ held, Represents p left held ∧ Untouched names entries held

theorem Kept.same (represents : Represents p left entries) : Kept names entries left :=
  ⟨entries, represents, fun _ _ _ => rfl⟩

theorem untouched_set {key : ArtifactKey p} (encodable : key.Encodable) (entry : ManifestEntry) :
    Untouched (· = key) entries (entries.set key.wire entry) := by
  intro other encodable' apart
  rw [Dict.get?_set, if_neg]
  exact fun same => apart (ArtifactKey.wire_injective encodable' encodable same)

theorem untouched_erase {key : ArtifactKey p} (encodable : key.Encodable) :
    Untouched (· = key) entries (entries.erase key.wire) := by
  intro other encodable' apart
  rw [Dict.get?_erase, if_neg]
  exact fun same => apart (ArtifactKey.wire_injective encodable' encodable same)

theorem untouched_applyChanges {changes : Changes p} (valid : ValidChanges changes) :
    Untouched (· ∈ changes.keys) entries (applyChanges entries (wireChanges changes)) := by
  intro key encodable apart
  refine get?_applyChanges_of_not_mem (fun listed => apart ?_) entries
  obtain ⟨wired, listed, same⟩ := List.mem_map.mp listed
  obtain ⟨change, member, rfl⟩ := List.mem_map.mp listed
  rw [← ArtifactKey.wire_injective (valid change member).1 encodable same]
  exact List.mem_map.mpr ⟨change, member, rfl⟩

theorem Outcome.kept {fault : Fault} {result : Except PyError Bool × File codec}
    (outcome : Outcome p fault file entries held result) (represents : Represents p file entries)
    (untouched : Untouched names entries held) : Kept names entries result.2 := by
  rcases outcome.held represents with same | changed
  · exact .same same
  · exact ⟨held, changed, untouched⟩

end Frames

section Registrations

variable {file left : File codec} {entries held : Entries} {names : ArtifactKey p → Prop}
variable {fault rollback : Fault} {key : ArtifactKey p}

/-- An operation with a rollback: only the named keys differ, and none of them when it raises an
error of its own. -/
structure RolledBack (names : ArtifactKey p → Prop) (entries : Entries)
    (result : Except Raised Bool × File codec) : Prop where
  kept : Kept names entries result.2
  restored : ∀ e, result.1 = .error (.failed e) → Represents p result.2 entries

theorem RolledBack.same {reply : Except Raised Bool} (represents : Represents p left entries) :
    RolledBack names entries (reply, left) :=
  ⟨.same represents, fun _ _ => represents⟩

theorem getEntry_eq (represents : Represents p file entries) (encodable : key.Encodable) :
    getEntry file key = .ok (entries.get? key.wire) := by
  obtain ⟨loaded, load, same⟩ := represents.load
  rw [getEntry, load, ArtifactKey.encode_eq_ok_iff.mpr ⟨encodable, rfl⟩, ← same]
  rfl

theorem getEntry_eq_ok (represents : Represents p file entries) {found : Option ManifestEntry}
    (got : getEntry file key = .ok found) : key.Encodable ∧ found = entries.get? key.wire := by
  obtain ⟨loaded, -, rest⟩ := bind_eq_ok.mp got
  obtain ⟨encoded, encode, -⟩ := bind_eq_ok.mp rest
  have encodable := (ArtifactKey.encode_eq_ok_iff.mp encode).1
  rw [getEntry_eq represents encodable] at got
  exact ⟨encodable, (Except.ok.inj got).symm⟩

/-- Putting the prior claim back would leave the prior manifest. -/
theorem putBack_outcome (represents : Represents p left held) (prior : entries.Valid p)
    (encodable : key.Encodable) (others : ∀ wire ≠ key.wire, held.get? wire = entries.get? wire) :
    Outcome p rollback left held entries (putBack rollback left key (entries.get? key.wire)) := by
  cases previous : entries.get? key.wire with
  | none =>
    refine (deleteEntry_outcome represents encodable).congr fun wire => ?_
    rw [Dict.get?_erase]
    split
    · next here => rw [here, previous]
    · next apart => exact others wire apart
  | some entry =>
    have stored := (Dict.get?_eq_some_iff _ _ _).mp previous
    refine (putEntry_outcome represents encodable (prior.canonical _ stored)).congr fun wire => ?_
    rw [Dict.get?_set]
    split
    · next here => rw [here, previous]
    · next apart => exact others wire apart

/-- After a registration that raised, the prior claim is there or the rollback is incomplete. -/
theorem restoreEntry_rolledBack (prior : Represents p file entries) (encodable : key.Encodable)
    {expected : ManifestEntry} (raised : PyError)
    (either : Represents p left entries ∨ Represents p left (entries.set key.wire expected)) :
    RolledBack (· = key) entries
      (restoreEntry rollback left key expected (entries.get? key.wire) raised) := by
  have there : ∃ held, Represents p left held ∧
      (∀ wire ≠ key.wire, held.get? wire = entries.get? wire) ∧
      (held.get? key.wire ≠ some expected → Represents p left entries) := by
    cases either with
    | inl same => exact ⟨entries, same, fun _ _ => rfl, fun _ => same⟩
    | inr changed =>
      refine ⟨_, changed, fun wire apart => ?_, fun absent => absurd ?_ absent⟩
      · rw [Dict.get?_set, if_neg apart]
      · rw [Dict.get?_set, if_pos rfl]
  obtain ⟨held, represents, others, unclaimed⟩ := there
  have kept : Kept (· = key) entries left := by
    refine ⟨held, represents, fun other encodable' apart => others _ fun same => apart ?_⟩
    exact ArtifactKey.wire_injective encodable' encodable same
  simp only [restoreEntry, getEntry_eq represents encodable]
  split
  · have outcome : Outcome p rollback left held entries _ :=
      putBack_outcome represents prior.1 encodable others
    split
    · next value after whole =>
      rw [whole] at outcome
      exact .same (outcome.returned represents rfl)
    · next e after whole =>
      rw [whole] at outcome
      refine ⟨?_, fun e never => by cases never⟩
      rcases outcome.held represents with same | restored
      · obtain ⟨-, -, untouched⟩ := kept
        exact ⟨held, same, fun other encodable' apart => others _ fun wire =>
          apart (ArtifactKey.wire_injective encodable' encodable wire)⟩
      · exact .same restored
  · next unregistered => exact .same (unclaimed unregistered)

theorem registerDescriptorTransactionally_rolledBack (represents : Represents p file entries)
    (present : Str → Bool) (artifactPath : Str) (basis : BasisDescriptor) :
    RolledBack (· = key) entries
      (registerDescriptorTransactionally present fault rollback file key artifactPath basis) := by
  rw [registerDescriptorTransactionally]
  split
  · next previous path got normalized =>
    obtain ⟨encodable, rfl⟩ := getEntry_eq_ok represents got
    have canonical : ManifestEntry.Canonical p ⟨path, basis.digest⟩ := by
      obtain ⟨given, fine⟩ := (normalizeArtifactPath_eq_ok_iff p).mp normalized
      exact ⟨fine, basis.canonical⟩
    rw [registerDescriptor, normalized]
    dsimp only
    have outcome : Outcome p fault file entries _ _ :=
      putEntry_outcome represents encodable canonical
    cases present path with
    | false =>
      rw [if_neg Bool.false_ne_true]
      exact restoreEntry_rolledBack represents encodable _ (Or.inl represents)
    | true =>
      rw [if_pos rfl]
      split
      · next value after whole =>
        rw [whole] at outcome
        refine ⟨⟨_, outcome.returned represents rfl, untouched_set encodable _⟩, ?_⟩
        exact fun e never => by cases never
      · next e after whole =>
        rw [whole] at outcome
        exact restoreEntry_rolledBack represents encodable _ (outcome.held represents)
  · exact .same represents
  · exact .same represents

theorem registerEntryTransactionally_rolledBack (represents : Represents p file entries)
    (present : Str → Bool) (entry : ManifestEntry) :
    RolledBack (· = key) entries
      (registerEntryTransactionally present fault rollback file key entry) := by
  rw [registerEntryTransactionally]
  split
  · exact .same represents
  · next encoded targets =>
    obtain ⟨encodable, canonical⟩ :=
      ((encodeTargetEntries_eq_ok_iff (by simp)).mp targets).1 _ List.mem_cons_self
    split
    · rw [getEntry_eq represents encodable]
      dsimp only
      have outcome : Outcome p fault file entries _ _ :=
        putEntry_outcome represents encodable canonical
      split
      · next value after whole =>
        rw [whole] at outcome
        refine ⟨⟨_, outcome.returned represents rfl, untouched_set encodable _⟩, ?_⟩
        exact fun e never => by cases never
      · next e after whole =>
        rw [whole] at outcome
        exact restoreEntry_rolledBack represents encodable _ (outcome.held represents)
    · exact .same represents

end Registrations

end ArcReel.Manifest
