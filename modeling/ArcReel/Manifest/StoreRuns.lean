import ArcReel.Manifest.Rekeying

/-! Runs of manifest operations with failing writes: what the file holds after each of them. -/

namespace ArcReel.Manifest
open Lib Project

variable {p : Primitives} {codec : DocumentCodec}

section Faults

variable {file content : File codec} {fault : Fault}

theorem write_fault : (write fault file content).2 = file ∨
    (write fault file content).2 = (write .none file content).2 := by
  cases fault with
  | none => exact Or.inr rfl
  | before => exact Or.inl rfl
  | after => exact Or.inr rfl

theorem replaceFile_fault {entries : Entries} :
    (replaceFile p fault file entries).2 = file ∨
      (replaceFile p fault file entries).2 = (replaceFile p .none file entries).2 := by
  rw [replaceFile, replaceFile]
  cases serializeManifest p codec entries with
  | error e => exact Or.inl rfl
  | ok bytes =>
    dsimp only
    split
    · exact Or.inl rfl
    · exact write_fault

theorem unlink_fault : (unlink fault file).2 = file ∨
    (unlink fault file).2 = (unlink .none file).2 := by
  cases file with
  | none => exact Or.inl rfl
  | some bytes => exact write_fault

theorem replaceEntriesIfMatches_fault {expected replacements : Changes p} :
    (replaceEntriesIfMatches fault file expected replacements).2 = file ∨
      (replaceEntriesIfMatches fault file expected replacements).2 =
        (replaceEntriesIfMatches .none file expected replacements).2 := by
  unfold replaceEntriesIfMatches
  split
  · split
    · exact Or.inl rfl
    · split
      · exact unlink_fault
      · exact replaceFile_fault
  · exact Or.inl rfl
  · exact Or.inl rfl
  · exact Or.inl rfl

/-- A fault keeps an operation from its effect or follows it. -/
theorem step_fault {present : Str → Bool} {operation : Operation p} :
    (step present fault file operation).2 = file ∨
      (step present fault file operation).2 = (step present .none file operation).2 := by
  cases operation with
  | getEntry key => exact Or.inl rfl
  | snapshotEntries => exact Or.inl rfl
  | putEntry key entry =>
    simp only [step, Prod.map_snd, id_eq]
    unfold putEntry
    split
    · split
      · exact Or.inl rfl
      · exact replaceFile_fault
    · exact Or.inl rfl
    · exact Or.inl rfl
  | deleteEntry key =>
    simp only [step, Prod.map_snd, id_eq]
    unfold deleteEntry
    split
    · split
      · exact Or.inl rfl
      · split
        · exact write_fault
        · exact replaceFile_fault
    · exact Or.inl rfl
    · exact Or.inl rfl
  | replaceEntriesIfMatches expected replacements => exact replaceEntriesIfMatches_fault
  | replaceSnapshotIfMatches expected replacement =>
    simp only [step, Prod.map_snd, id_eq]
    unfold replaceSnapshotIfMatches
    split
    · split
      · split
        · exact Or.inl rfl
        · split
          · exact Or.inl rfl
          · split
            · exact unlink_fault
            · split
              · exact Or.inl rfl
              · exact write_fault
      · exact Or.inl rfl
      · exact Or.inl rfl
    · exact Or.inl rfl
    · exact Or.inl rfl
  | replaceEntries claims =>
    simp only [step, Prod.map_snd, id_eq]
    unfold replaceEntries
    split
    · exact Or.inl rfl
    · split
      · exact Or.inl rfl
      · split
        · exact replaceFile_fault
        · exact Or.inl rfl
        · exact Or.inl rfl

theorem compensate_fault {receipt : RekeyPlan p} :
    (compensate fault file receipt).2 = file ∨
      (compensate fault file receipt).2 = (compensate .none file receipt).2 := by
  have file_of (fault : Fault) (changed : receipt.changed = true) :
      (compensate fault file receipt).2 =
        (replaceEntriesIfMatches fault file receipt.after receipt.before).2 := by
    rw [compensate, if_pos changed]
    generalize replaceEntriesIfMatches fault file receipt.after receipt.before = result
    obtain ⟨reply, after⟩ := result
    cases reply with
    | error e => rfl
    | ok done =>
      cases done with
      | true => rfl
      | false =>
        dsimp only
        split <;> rfl
  by_cases changed : receipt.changed = true
  · rw [file_of fault changed, file_of .none changed]
    exact replaceEntriesIfMatches_fault
  · rw [compensate, if_neg changed]
    exact Or.inl rfl

end Faults

section Operations

variable {file : File codec} {entries : Entries} {fault : Fault} {present : Str → Bool}

/-- The keys whose entries an operation may write. -/
def Operation.Names : Operation p → ArtifactKey p → Prop
  | .getEntry _, _ | .snapshotEntries, _ => False
  | .putEntry named _, key | .deleteEntry named, key => key = named
  | .replaceEntriesIfMatches _ replacements, key => key ∈ replacements.keys
  | .replaceSnapshotIfMatches _ _, _ | .replaceEntries _, _ => True

/-- Entries are put with a canonical path and digest. -/
def Operation.Canonical : Operation p → Prop
  | .putEntry _ entry => entry.Canonical p
  | _ => True

theorem kept_of_whole {left : File codec} {updated : Entries} {names : ArtifactKey p → Prop}
    (either : Represents p left entries ∨ Represents p left updated) (whole : ∀ key, names key) :
    Kept names entries left := by
  cases either with
  | inl same => exact .same same
  | inr changed => exact ⟨updated, changed, fun key _ apart => absurd (whole key) apart⟩

theorem replaceEntries_held (represents : Represents p file entries) {claims : Claims p} :
    Represents p (replaceEntries present fault file claims).2 entries ∨
      ∃ updated, Represents p (replaceEntries present fault file claims).2 updated := by
  rw [replaceEntries]
  split
  · exact Or.inl represents
  · next target targets =>
    obtain ⟨valid, rfl⟩ := targetEntries_eq_ok targets
    split
    · exact Or.inl represents
    · split
      · have outcome : Outcome p fault file entries (wireEntries claims valid) _ :=
          replaceFile_outcome represents (wireEntries_sound valid) fun _ => rfl
        exact (outcome.held represents).imp_right fun changed => ⟨_, changed⟩
      · exact Or.inl represents
      · exact Or.inl represents

theorem replaceSnapshotIfMatches_held (represents : Represents p file entries)
    {expected replacement : Claims p} :
    Represents p (replaceSnapshotIfMatches fault file expected replacement).2 entries ∨
      ∃ updated, Represents p (replaceSnapshotIfMatches fault file expected replacement).2 updated := by
  unfold replaceSnapshotIfMatches
  split
  · next expecting target _ targets =>
    obtain ⟨valid, rfl⟩ := targetEntries_eq_ok targets
    have sound := wireEntries_sound valid
    split
    · next bytes current serialized loaded =>
      rw [serializeManifest_sound sound] at serialized
      split at serialized
      · next unique =>
        have written : Represents p (some bytes) (wireEntries replacement valid) :=
          ⟨⟨sound, unique⟩, Or.inr (by rw [Except.ok.inj serialized])⟩
        split
        · exact Or.inl represents
        · split
          · exact Or.inl represents
          · split
            · next gone =>
              have outcome : Outcome p fault file entries _ _ := unlink_outcome represents gone
              exact (outcome.held represents).imp_right fun changed => ⟨_, changed⟩
            · split
              · exact Or.inl represents
              · have outcome : Outcome p fault file entries _ _ := .written _ written
                exact (outcome.held represents).imp_right fun changed => ⟨_, changed⟩
      · cases serialized
    · exact Or.inl represents
    · exact Or.inl represents
  · exact Or.inl represents
  · exact Or.inl represents

/-- An operation leaves a manifest in which only the entries of the keys it names differ. -/
theorem step_kept (represents : Represents p file entries) {operation : Operation p}
    (canonical : operation.Canonical) :
    Kept operation.Names entries (step present fault file operation).2 := by
  cases operation with
  | getEntry key => exact .same represents
  | snapshotEntries => exact .same represents
  | putEntry key entry =>
    by_cases encodable : key.Encodable
    · have outcome : Outcome p fault file entries _ _ :=
        putEntry_outcome represents encodable canonical
      exact outcome.kept represents (untouched_set encodable entry)
    · obtain ⟨loaded, load, -⟩ := represents.load
      simp only [step, putEntry, load, ArtifactKey.encode_eq_error_iff.mpr ⟨encodable, rfl⟩]
      exact .same represents
  | deleteEntry key =>
    by_cases encodable : key.Encodable
    · have outcome : Outcome p fault file entries _ _ := deleteEntry_outcome represents encodable
      exact outcome.kept represents (untouched_erase encodable)
    · obtain ⟨loaded, load, -⟩ := represents.load
      simp only [step, deleteEntry, load, ArtifactKey.encode_eq_error_iff.mpr ⟨encodable, rfl⟩]
      exact .same represents
  | replaceEntriesIfMatches expected replacements =>
    by_cases valid : ValidChanges expected ∧ ValidChanges replacements
    · rcases replaceEntriesIfMatches_outcome fault represents valid.1 valid.2 with
        ⟨-, mismatch⟩ | ⟨-, outcome⟩
      · simp only [step, mismatch]
        exact .same represents
      · exact outcome.kept represents (untouched_applyChanges valid.2)
    · obtain ⟨e, raised⟩ := @replaceEntriesIfMatches_invalid _ _ file fault _ _ valid
      simp only [step, raised]
      exact .same represents
  | replaceSnapshotIfMatches expected replacement =>
    rcases replaceSnapshotIfMatches_held represents with same | ⟨updated, changed⟩
    · exact .same same
    · exact kept_of_whole (Or.inr changed) fun _ => trivial
  | replaceEntries claims =>
    rcases replaceEntries_held represents with same | ⟨updated, changed⟩
    · exact .same same
    · exact kept_of_whole (Or.inr changed) fun _ => trivial

end Operations

section Actions

variable {file : File codec} {entries : Entries} {present : Str → Bool}

/-- An operation of the store or of `ArtifactManifest`, and what becomes of its writes. -/
inductive Action (p : Primitives) where
  | adapter (fault : Fault) (operation : Operation p)
  | registerDescriptor (fault rollback : Fault) (key : ArtifactKey p) (artifactPath : Str)
    (basis : BasisDescriptor)
  | registerEntry (fault rollback : Fault) (key : ArtifactKey p) (entry : ManifestEntry)
  | forgetEntries (fault rollback : Fault) (keys : List (ArtifactKey p))
  | commit (fault rollback : Fault) (plan : RekeyPlan p)
  | compensate (fault : Fault) (receipt : RekeyPlan p)

namespace Action

def perform (present : Str → Bool) (file : File codec) :
    Action p → Except Raised (Reply p) × File codec
  | .adapter fault operation => (step present fault file operation).map (·.mapError .failed) id
  | .registerDescriptor fault rollback key artifactPath basis =>
    (registerDescriptorTransactionally present fault rollback file key artifactPath basis).map
      (·.map .flag) id
  | .registerEntry fault rollback key entry =>
    (registerEntryTransactionally present fault rollback file key entry).map (·.map .flag) id
  | .forgetEntries fault rollback keys =>
    (forgetEntriesTransactionally fault rollback file keys).map (·.map .flag) id
  | .commit fault rollback plan => (Project.commit fault rollback file plan).map (·.map .flag) id
  | .compensate fault receipt => (Project.compensate fault file receipt).map (·.map .flag) id

def Canonical : Action p → Prop
  | .adapter _ operation => operation.Canonical
  | _ => True

def Names : Action p → ArtifactKey p → Prop
  | .adapter _ operation => operation.Names
  | .registerDescriptor _ _ key _ _ | .registerEntry _ _ key _ => (· = key)
  | .forgetEntries _ _ keys => (· ∈ keys)
  | .commit _ _ plan | .compensate _ plan => (· ∈ plan.before.keys)

/-- The same operation without a failing write, where it has no rollback. -/
def faultless : Action p → Option (Action p)
  | .adapter _ operation => some (.adapter .none operation)
  | .compensate _ receipt => some (.compensate .none receipt)
  | _ => none

/-- What the file holds after one operation after another. -/
def run (present : Str → Bool) (file : File codec) (actions : List (Action p)) : File codec :=
  actions.foldl (fun file action => (action.perform present file).2) file

end Action

theorem RolledBack.flagged {names : ArtifactKey p → Prop} {result : Except Raised Bool × File codec}
    (rolledBack : RolledBack names entries result) :
    Kept names entries (result.map (·.map (Reply.flag (p := p))) id).2 ∧
      ∀ e, (result.map (·.map (Reply.flag (p := p))) id).1 = .error (.failed e) →
        Represents p (result.map (·.map (Reply.flag (p := p))) id).2 entries := by
  refine ⟨rolledBack.kept, fun e raised => ?_⟩
  obtain ⟨reply, left⟩ := result
  cases reply with
  | ok value => cases raised
  | error e' =>
    cases raised
    exact rolledBack.restored e rfl

/-- What an operation does to the manifest: it touches the keys it names; an operation with a
rollback that raises an error of its own restores everything, and any other one has either no effect
or the effect it has without a fault. -/
theorem perform_kept (represents : Represents p file entries) {action : Action p}
    (canonical : action.Canonical) :
    Kept action.Names entries (action.perform present file).2 ∧
      match action.faultless with
      | none => ∀ e, (action.perform present file).1 = .error (.failed e) →
          Represents p (action.perform present file).2 entries
      | some faultless => (action.perform present file).2 = file ∨
          (action.perform present file).2 = (faultless.perform present file).2 := by
  cases action with
  | adapter fault operation => exact ⟨step_kept represents canonical, step_fault⟩
  | registerDescriptor fault rollback key artifactPath basis =>
    exact (registerDescriptorTransactionally_rolledBack represents present artifactPath basis).flagged
  | registerEntry fault rollback key entry =>
    exact (registerEntryTransactionally_rolledBack represents present entry).flagged
  | forgetEntries fault rollback keys =>
    exact (forgetEntriesTransactionally_rolledBack represents keys).flagged
  | commit fault rollback plan => exact (commit_rolledBack represents).flagged
  | compensate fault receipt => exact ⟨compensate_kept represents, compensate_fault⟩

/-- A compensation right after the commit restores the entries when it returns, and without a fault
it returns. -/
theorem compensate_after_commit (represents : Represents p file entries) {fault rollback : Fault}
    {plan : RekeyPlan p} {left : File codec} {value : Bool}
    (committed : commit fault rollback file plan = (.ok value, left)) (again : Fault) :
    (∀ value, (compensate again left plan).1 = .ok value →
      Represents p (compensate again left plan).2 entries) ∧
      ∃ value, (compensate .none left plan).1 = .ok value := by
  by_cases changed : plan.changed = true
  · obtain ⟨valid, matched, after⟩ := commit_returned represents changed
      (congrArg Prod.fst committed : (commit fault rollback file plan).1 = .ok value)
    rw [committed] at after
    exact compensate_restores after represents.1 valid matched changed
  · rw [commit, if_neg changed] at committed
    cases committed
    rw [compensate, if_neg changed, compensate, if_neg changed]
    exact ⟨fun _ _ => represents, false, rfl⟩

theorem run_represents {actions : List (Action p)} (canonical : ∀ action ∈ actions, action.Canonical)
    (represents : Represents p file entries) :
    ∃ entries, Represents p (Action.run present file actions) entries := by
  induction actions generalizing file entries with
  | nil => exact ⟨entries, represents⟩
  | cons action actions ih =>
    obtain ⟨here, later⟩ := List.forall_mem_cons.mp canonical
    obtain ⟨⟨held, left, -⟩, -⟩ := @perform_kept _ _ _ _ present represents _ here
    exact ih later left

noncomputable def scriptKey : ArtifactKey sample where
  kind := .episodeScript
  components := [.number 1]
  canonical := rfl

def scriptEntry : ManifestEntry :=
  ⟨text "scripts/episode_1.json", text "sha256-v1:" ++ List.replicate 64 0x61⟩

theorem scriptKey_encodable : scriptKey.Encodable := by
  intro part member
  rw [List.mem_singleton.mp member]
  decide +kernel

theorem scriptEntry_canonical : scriptEntry.Canonical sample := by
  decide

end Actions

end ArcReel.Manifest
