import ArcReel.Review.Step1Gate

/-! No run of writes, migrations and confirmations of one episode lets a content pass that nobody
approved. -/

namespace ArcReel.Review
open Lib

section Stored

variable {episode : Int}

theorem isEpisode_put_review (entry review : Json) :
    isEpisode episode (entry.put "step1_review" review) = isEpisode episode entry := by
  unfold isEpisode
  rw [Json.isObj_put, Json.get_put_of_ne (by decide)]

theorem find?_updateFound {change : Json → Json}
    (same : ∀ entry, isEpisode episode (change entry) = isEpisode episode entry) (entries : List Json) :
    (updateFound episode change entries).find? (isEpisode episode) =
      (entries.find? (isEpisode episode)).map change := by
  induction entries with
  | nil => rfl
  | cons entry entries ih =>
    rw [updateFound]
    by_cases here : isEpisode episode entry = true
    · rw [if_pos here, List.find?_cons_of_pos (by rw [same, here]), List.find?_cons_of_pos here,
        Option.map_some]
    · rw [if_neg here, List.find?_cons_of_neg here, List.find?_cons_of_neg here, ih]

theorem isObj_of_findEpisode {project : Json} (found : (findEpisode episode project).isSome = true) :
    project.isObj = true := by
  cases project with
  | obj fields => rfl
  | _ => cases found

/-- A confirmation is what is stored afterwards. -/
theorem storedFingerprint_applied {project applied : Json} {fingerprint confirmedAt : String}
    (done : applyConfirmation episode project fingerprint confirmedAt = some applied) :
    storedFingerprint episode applied = .str fingerprint := by
  unfold applyConfirmation at done
  split_ifs at done with found
  obtain ⟨entry, there⟩ := Option.isSome_iff_exists.mp found
  rw [Option.some.injEq] at done
  have object : entry.isObj = true := by
    have matching := List.find?_some there
    rw [isEpisode, Bool.and_eq_true] at matching
    exact matching.1
  have after : findEpisode episode applied = some (entry.put "step1_review"
      (.obj [("fingerprint", .str fingerprint), ("confirmed_at", .str confirmedAt)])) := by
    rw [← done, findEpisode, episodesOf, Json.get_put_self (isObj_of_findEpisode found)]
    dsimp only
    rw [find?_updateFound fun entry => isEpisode_put_review entry _]
    rw [findEpisode] at there
    rw [there, Option.map_some]
  rw [storedFingerprint, storedReview, after, Option.map_some, Json.get_put_self object]
  rfl

theorem findEpisode_isSome_of_applied {project applied : Json} {fingerprint confirmedAt : String}
    (done : applyConfirmation episode project fingerprint confirmedAt = some applied) :
    (findEpisode episode project).isSome = true := by
  unfold applyConfirmation at done
  split_ifs at done with found
  exact found

theorem applyConfirmation_of_found {project : Json} (found : (findEpisode episode project).isSome = true)
    (fingerprint confirmedAt : String) :
    ∃ applied, applyConfirmation episode project fingerprint confirmedAt = some applied := by
  unfold applyConfirmation
  rw [if_pos found]
  exact ⟨_, rfl⟩

end Stored

section Approved

variable {β : Type} (storage : Storage β) (episode : Int)

/-- The fingerprints of contents that were confirmed, before or in the run, or that a migration with
warnings marked in an episode that had no fingerprint, and of what migrations without warnings make of
these. -/
inductive Approved (start : Gate β) (steps : List GateStep) : String → Prop
  | earlier {fingerprint} (stored : storedFingerprint episode start.project = .str fingerprint) :
      Approved start steps fingerprint
  | confirmed {front back confirmedAt s fingerprint} (split : steps = front ++ .confirm confirmedAt :: back)
      (reached : runSteps (gateStep storage episode) front start = some s)
      (listed : (findEpisode episode s.project).isSome = true)
      (live : liveFingerprint storage s = some fingerprint) : Approved start steps fingerprint
  | grandfathered {front back supportedDurations finish s content}
      (split : steps = front ++ .migrate supportedDurations finish :: back)
      (reached : runSteps (gateStep storage episode) front start = some s)
      (listed : (findEpisode episode s.project).isSome = true)
      (unstored : (storedFingerprint episode s.project).truthy = false)
      (read : draftContent storage s = some content)
      (warned : (migrateUnitDurations content supportedDurations).warnings ≠ []) :
      Approved start steps (storage.fingerprintOfData content)
  | migrated {content supportedDurations}
      (silent : (migrateUnitDurations content supportedDurations).warnings = [])
      (before : Approved start steps (storage.fingerprintOfData content)) :
      Approved start steps
        (storage.fingerprintOfData (migrateUnitDurations content supportedDurations).content)

variable {storage episode}

theorem Approved.append {start : Gate β} {steps : List GateStep} {fingerprint : String}
    (approved : Approved storage episode start steps fingerprint) (later : List GateStep) :
    Approved storage episode start (steps ++ later) fingerprint := by
  induction approved with
  | earlier stored => exact .earlier stored
  | confirmed split reached listed live =>
    exact .confirmed (by rw [split, List.append_assoc, List.cons_append]) reached listed live
  | grandfathered split reached listed unstored read warned =>
    exact .grandfathered (by rw [split, List.append_assoc, List.cons_append]) reached listed unstored read
      warned
  | migrated silent _ ih => exact .migrated silent ih

theorem eq_str_of_str? {json : Json} {value : String} (read : json.str? = some value) :
    json = .str value := by
  cases json with
  | str found => rw [Json.str?, Option.some.injEq] at read; rw [read]
  | _ => cases read

/-- How a migration changes what is stored. -/
theorem storedFingerprint_migrateProject (project content : Json) (migrated : Migrated) :
    let after := storedFingerprint episode (migrateProject storage episode project content migrated)
    after = storedFingerprint episode project ∨
      (migrated.warnings = [] ∧
        storedFingerprint episode project = .str (storage.fingerprintOfData content) ∧
        after = .str (storage.fingerprintOfData migrated.content)) ∨
      (migrated.warnings ≠ [] ∧ (findEpisode episode project).isSome = true ∧
        (storedFingerprint episode project).truthy = false ∧
        after = .str (storage.fingerprintOfData content)) := by
  intro after
  by_cases silent : migrated.warnings = []
  · have unfolded : migrateProject storage episode project content migrated =
        carryConfirmation storage episode project (storage.fingerprintOfData content)
          (storage.fingerprintOfData migrated.content) := by
      rw [migrateProject, silent]
      rfl
    by_cases stored : (storedFingerprint episode project).str? = some (storage.fingerprintOfData content)
    · rw [carryConfirmation, if_pos stored] at unfolded
      cases done : applyConfirmation episode project (storage.fingerprintOfData migrated.content)
          (storedConfirmedAt storage episode project) with
      | none =>
        rw [done, Option.getD_none] at unfolded
        exact .inl (congrArg (storedFingerprint episode) unfolded)
      | some applied =>
        rw [done, Option.getD_some] at unfolded
        refine .inr (.inl ⟨silent, eq_str_of_str? stored, ?_⟩)
        exact (congrArg (storedFingerprint episode) unfolded).trans (storedFingerprint_applied done)
    · rw [carryConfirmation, if_neg stored] at unfolded
      exact .inl (congrArg (storedFingerprint episode) unfolded)
  · have unfolded : migrateProject storage episode project content migrated =
        invalidateGrandfathered storage episode project (storage.fingerprintOfData content) := by
      rw [migrateProject, if_neg]
      rwa [List.isEmpty_iff]
    by_cases stored : (storedFingerprint episode project).truthy = true
    · rw [invalidateGrandfathered, if_pos stored] at unfolded
      exact .inl (congrArg (storedFingerprint episode) unfolded)
    · rw [invalidateGrandfathered, if_neg stored] at unfolded
      cases done : applyConfirmation episode project (storage.fingerprintOfData content)
          (storedConfirmedAt storage episode project) with
      | none =>
        rw [done, Option.getD_none] at unfolded
        exact .inl (congrArg (storedFingerprint episode) unfolded)
      | some applied =>
        rw [done, Option.getD_some] at unfolded
        refine .inr (.inr ⟨silent, findEpisode_isSome_of_applied done, Bool.eq_false_iff.mpr stored, ?_⟩)
        exact (congrArg (storedFingerprint episode) unfolded).trans (storedFingerprint_applied done)

/-- The project after a migration of a draft that is there. -/
theorem project_migrateStep1Draft {s : Gate β} {content : Json} (read : draftContent storage s = some content)
    (supportedDurations : List Int) (finish : MigrationEnd) :
    (migrateStep1Draft storage episode s supportedDurations finish).project =
      if (migrateUnitDurations content supportedDurations).changed then
        migrateProject storage episode s.project content (migrateUnitDurations content supportedDurations)
      else s.project := by
  rw [migrateStep1Draft, read]
  dsimp only
  cases (migrateUnitDurations content supportedDurations).changed with
  | false => rfl
  | true => cases finish <;> rfl

variable (storage episode) in
/-- What is stored is approved. -/
def StoredApproved (start : Gate β) (steps : List GateStep) (s : Gate β) : Prop :=
  runSteps (gateStep storage episode) steps start = some s ∧ ∀ fingerprint,
    storedFingerprint episode s.project = .str fingerprint → Approved storage episode start steps fingerprint

theorem storedApproved_step {start s t : Gate β} {done : List GateStep} {next : GateStep}
    (inv : StoredApproved storage episode start done s) (stepped : gateStep storage episode s next = some t) :
    StoredApproved storage episode start (done ++ [next]) t := by
  obtain ⟨reached, approved⟩ := inv
  refine ⟨runSteps_append.mpr ⟨s, reached, runSteps_cons.mpr ⟨t, stepped, rfl⟩⟩, ?_⟩
  intro fingerprint stored
  have kept : storedFingerprint episode t.project = storedFingerprint episode s.project →
      Approved storage episode start (done ++ [next]) fingerprint := by
    intro same
    exact (approved fingerprint (same.symm.trans stored)).append [next]
  cases next with
  | write content expected clearStep2Quarantine fault restores =>
    rw [gateStep, Option.some.injEq] at stepped
    exact kept (by rw [← stepped])
  | migrate supportedDurations finish =>
    rw [gateStep, Option.some.injEq] at stepped
    cases read : draftContent storage s with
    | none =>
      rw [migrateStep1Draft, read] at stepped
      dsimp only at stepped
      exact kept (by rw [← stepped])
    | some content =>
      have project : (migrateStep1Draft storage episode s supportedDurations finish).project = _ :=
        project_migrateStep1Draft read supportedDurations finish
      rw [stepped] at project
      split at project
      · rw [project] at stored kept
        rcases storedFingerprint_migrateProject s.project content
            (migrateUnitDurations content supportedDurations) with
          same | ⟨silent, was, is⟩ | ⟨warned, listed, unstored, is⟩
        · exact kept same
        · rw [is, Json.str.injEq] at stored
          rw [← stored]
          exact .migrated silent ((approved _ was).append _)
        · rw [is, Json.str.injEq] at stored
          rw [← stored]
          exact .grandfathered rfl reached listed unstored read warned
      · exact kept (by rw [project])
  | confirm confirmedAt =>
    rw [gateStep, Option.map_eq_some_iff] at stepped
    obtain ⟨live, there, result⟩ := stepped
    cases applied : applyConfirmation episode s.project live confirmedAt with
    | none =>
      rw [applied, Option.getD_none] at result
      exact kept (by rw [← result])
    | some project =>
      rw [applied, Option.getD_some] at result
      rw [← result, storedFingerprint_applied applied, Json.str.injEq] at stored
      rw [← stored]
      exact .confirmed rfl reached (findEpisode_isSome_of_applied applied) there

theorem storedApproved_run {start s : Gate β} {steps : List GateStep}
    (ran : runSteps (gateStep storage episode) steps start = some s) :
    StoredApproved storage episode start steps s := by
  have initial : StoredApproved storage episode start [] start := ⟨rfl, fun _ => .earlier⟩
  exact runSteps_induct_history (fun _ _ _ _ inv stepped => storedApproved_step inv stepped) initial ran

end Approved

section Status

variable {β : Type} {storage : Storage β} {episode : Int}

/-- A fingerprint is stored, of whatever. -/
def HasFingerprint (episode : Int) (project : Json) : Prop :=
  (storedFingerprint episode project).isNull = false

theorem hasFingerprint_applied {project applied : Json} {fingerprint confirmedAt : String}
    (done : applyConfirmation episode project fingerprint confirmedAt = some applied) :
    HasFingerprint episode applied := by
  rw [HasFingerprint, storedFingerprint_applied done]
  rfl

theorem hasFingerprint_migrateProject {project content : Json} {migrated : Migrated}
    (stored : HasFingerprint episode project) :
    HasFingerprint episode (migrateProject storage episode project content migrated) := by
  rw [HasFingerprint]
  rcases @storedFingerprint_migrateProject β storage episode project content migrated with same | ⟨_, _, is⟩ | ⟨_, _, _, is⟩
  · rw [same, stored]
  · rw [is]
    rfl
  · rw [is]
    rfl

/-- A fingerprint that is stored stays, or another one takes its place. -/
theorem hasFingerprint_step {s t : Gate β} {next : GateStep} (stored : HasFingerprint episode s.project)
    (stepped : gateStep storage episode s next = some t) : HasFingerprint episode t.project := by
  cases next with
  | write content expected clearStep2Quarantine fault restores =>
    rw [← Option.some.inj stepped]
    exact stored
  | migrate supportedDurations finish =>
    rw [← Option.some.inj stepped]
    cases read : draftContent storage s with
    | none =>
      rw [migrateStep1Draft, read]
      exact stored
    | some content =>
      rw [project_migrateStep1Draft read]
      split
      · exact hasFingerprint_migrateProject stored
      · exact stored
  | confirm confirmedAt =>
    rw [gateStep, Option.map_eq_some_iff] at stepped
    obtain ⟨live, _, result⟩ := stepped
    rw [← result]
    cases applied : applyConfirmation episode s.project live confirmedAt with
    | none => exact stored
    | some project => exact hasFingerprint_applied applied

/-- A migration with warnings leaves an episode of the ledger with a fingerprint. -/
theorem hasFingerprint_warned {s : Gate β} {content : Json} {supportedDurations : List Int}
    (listed : (findEpisode episode s.project).isSome = true) (read : draftContent storage s = some content)
    (warned : (migrateUnitDurations content supportedDurations).warnings ≠ []) (finish : MigrationEnd) :
    HasFingerprint episode (migrateStep1Draft storage episode s supportedDurations finish).project := by
  rw [project_migrateStep1Draft read, if_pos (changed_of_warnings warned), migrateProject, if_neg]
  · rw [invalidateGrandfathered]
    split
    · next truthy =>
      rw [HasFingerprint]
      cases stored : storedFingerprint episode s.project with
      | null =>
        rw [stored] at truthy
        cases truthy
      | _ => rfl
    · obtain ⟨applied, done⟩ := applyConfirmation_of_found listed (storage.fingerprintOfData content)
        (storedConfirmedAt storage episode s.project)
      rw [done]
      exact hasFingerprint_applied done
  · rwa [List.isEmpty_iff]

/-- With a fingerprint stored, only a content with that fingerprint counts as confirmed. -/
theorem stored_of_confirmed {s : Gate β} (stored : HasFingerprint episode s.project)
    (status : reviewStatus storage episode s = .confirmed) :
    ∃ live, liveFingerprint storage s = some live ∧ storedFingerprint episode s.project = .str live := by
  unfold reviewStatus at status
  split at status
  · cases status
  · next kind isKind =>
    split at status
    · cases status
    · split at status
      · cases status
      · next live there =>
        rw [HasFingerprint] at stored
        rw [stored] at status
        simp only [Bool.false_eq_true, if_false] at status
        split at status
        · next same =>
          refine ⟨live, ?_, eq_str_of_str? same⟩
          rw [liveFingerprint, isKind, Option.bind_some, there]
        · cases status

end Status

section Gate

variable {β : Type} {storage : Storage β} {episode : Int}

theorem writeStep1Locked_conflict {drafts : Files String β} {expected : Option String}
    (stale : expected ≠ contentFingerprint storage (drafts referenceStep1Name)) (content : Json)
    (clearStep2Quarantine : Bool) (fault : Option WriteFault) (restores : String → Bool) :
    writeStep1Locked storage drafts content (some expected) clearStep2Quarantine fault restores =
      (.conflict, drafts) := by
  rw [writeStep1Locked, if_pos]
  rw [Option.any_some, decide_eq_true_eq]
  exact stale

/-- A write that raises has changed nothing of the files that it writes. -/
theorem writeStep1Locked_raised {drafts : Files String β} {content : Json}
    {expected : Option (Option String)} {clearStep2Quarantine : Bool} {fault : Option WriteFault}
    {restores : String → Bool} {outcome : WriteOutcome} {files : Files String β}
    (wrote : writeStep1Locked storage drafts content expected clearStep2Quarantine fault restores =
      (outcome, files)) (failed : outcome = .conflict ∨ outcome = .raised) :
    files referenceStep1Name = drafts referenceStep1Name ∧
      files step2QuarantineName = drafts step2QuarantineName := by
  rw [writeStep1Locked] at wrote
  split at wrote
  · rw [Prod.mk.injEq] at wrote
    rw [wrote.2]
    exact ⟨rfl, rfl⟩
  · dsimp only at wrote
    split at wrote
    · rw [Prod.mk.injEq] at wrote
      rw [← wrote.1] at failed
      rcases failed with failed | failed <;> cases failed
    · next restored raised =>
      rw [Prod.mk.injEq] at wrote
      rw [← wrote.2]
      exact ⟨files_of_raised (by simp) raised, files_of_raised (by simp) raised⟩
    · rw [Prod.mk.injEq] at wrote
      rw [← wrote.1] at failed
      rcases failed with failed | failed <;> cases failed

variable (storage episode) in
/-- A migration with warnings took place, of an episode of the ledger. -/
def Warned (start : Gate β) (steps : List GateStep) : Prop :=
  ∃ front back supportedDurations finish s content,
    steps = front ++ .migrate supportedDurations finish :: back ∧
    runSteps (gateStep storage episode) front start = some s ∧
    (findEpisode episode s.project).isSome = true ∧ draftContent storage s = some content ∧
    (migrateUnitDurations content supportedDurations).warnings ≠ []

theorem hasFingerprint_of_warned {start s : Gate β} {steps : List GateStep}
    (ran : runSteps (gateStep storage episode) steps start = some s)
    (warned : Warned storage episode start steps) : HasFingerprint episode s.project := by
  obtain ⟨front, back, supportedDurations, finish, mid, content, split, reached, listed, read, warnings⟩ :=
    warned
  rw [split] at ran
  obtain ⟨found, first, rest⟩ := runSteps_append.mp ran
  rw [reached, Option.some.injEq] at first
  obtain ⟨after, stepped, later⟩ := runSteps_cons.mp rest
  rw [← first, gateStep, Option.some.injEq] at stepped
  have marked : HasFingerprint episode after.project := by
    rw [← stepped]
    exact hasFingerprint_warned listed read warnings finish
  have preserved : ∀ (s : Gate β) next t, HasFingerprint episode s.project →
      gateStep storage episode s next = some t → HasFingerprint episode t.project :=
    fun _ _ _ stored taken => hasFingerprint_step stored taken
  exact runSteps_induct preserved marked later

/-- In every state of every run: a write on a stale fingerprint is a conflict and changes nothing; with a
fingerprint stored, and after a migration with warnings, only approved contents are confirmed; and a write
that raises leaves its files as they were. -/
theorem step1_gate {start s : Gate β} {steps : List GateStep}
    (ran : runSteps (gateStep storage episode) steps start = some s) :
    (∀ content expected clearStep2Quarantine fault restores,
      expected ≠ contentFingerprint storage (s.drafts referenceStep1Name) →
        writeStep1Locked storage s.drafts content (some expected) clearStep2Quarantine fault restores =
          (.conflict, s.drafts)) ∧
    (HasFingerprint episode s.project → reviewStatus storage episode s = .confirmed →
      ∃ live, liveFingerprint storage s = some live ∧ Approved storage episode start steps live) ∧
    (Warned storage episode start steps → reviewStatus storage episode s = .confirmed →
      ∃ live, liveFingerprint storage s = some live ∧ Approved storage episode start steps live) ∧
    (∀ content expected clearStep2Quarantine fault restores outcome files,
      writeStep1Locked storage s.drafts content expected clearStep2Quarantine fault restores =
        (outcome, files) → outcome = .conflict ∨ outcome = .raised →
        files referenceStep1Name = s.drafts referenceStep1Name ∧
          files step2QuarantineName = s.drafts step2QuarantineName) := by
  have approved : HasFingerprint episode s.project → reviewStatus storage episode s = .confirmed →
      ∃ live, liveFingerprint storage s = some live ∧ Approved storage episode start steps live := by
    intro stored status
    obtain ⟨live, there, same⟩ := stored_of_confirmed stored status
    exact ⟨live, there, (storedApproved_run ran).2 live same⟩
  refine ⟨?_, approved, fun warned => approved (hasFingerprint_of_warned ran warned), ?_⟩
  · intro content expected clearStep2Quarantine fault restores stale
    exact writeStep1Locked_conflict stale content clearStep2Quarantine fault restores
  · intro content expected clearStep2Quarantine fault restores outcome files wrote failed
    exact writeStep1Locked_raised wrote failed

section Example

/-- One unit of 400 seconds, before the migration. -/
def legacyDraft : Json :=
  .obj [("units", .arr [.obj [("duration_seconds", .int 400), ("duration_override", .bool true)]])]

def isLegacy (data : Json) : Bool :=
  match data.get "units" with
  | .arr units => units.any fun unit => unit.has "duration_override"
  | _ => false

/-- Files are their contents. -/
def plainStorage : Storage Json where
  loads := some
  dumps := id
  fingerprintOfData data := if isLegacy data then "legacy" else "migrated"
  fingerprintOfBytes _ := ""
  equal a b := isLegacy a == isLegacy b
  str _ := ""

/-- An episode with a script, whose step1 was never confirmed. -/
def legacyGate : Gate Json where
  project := .obj [("content_mode", .str "drama"), ("generation_mode", .str "reference_video"),
    ("episodes", .arr [.obj [("episode", .int 1)]])]
  drafts name := if name = referenceStep1Name then some legacyDraft else none
  scripts _ := true

/-- A confirmed content is clamped by a migration, and the result waits for its review. -/
theorem clamped_content_waits :
    ∃ s, runSteps (gateStep plainStorage 1) [.confirm "now", .migrate [] (.write none fun _ => true)]
      legacyGate = some s ∧ reviewStatus plainStorage 1 s = .pendingReview ∧
      (reviewStatus plainStorage 1 s = .confirmed →
        ∃ live, liveFingerprint plainStorage s = some live ∧ Approved plainStorage 1 legacyGate
          [.confirm "now", .migrate [] (.write none fun _ => true)] live) := by
  have complete : ((runSteps (gateStep plainStorage 1) [.confirm "now", .migrate [] (.write none fun _ => true)]
      legacyGate).map fun s => (reviewStatus plainStorage 1 s, (storedFingerprint 1 s.project).isNull)) =
        some (.pendingReview, false) := by
    decide
  obtain ⟨s, ran, result⟩ := Option.map_eq_some_iff.mp complete
  rw [Prod.mk.injEq] at result
  exact ⟨s, ran, result.1, (step1_gate ran).2.1 result.2⟩

/-- A write that raises, and whose files cannot be restored. -/
def interrupted : WriteOutcome × Files String Json :=
  writeStep1Locked plainStorage legacyGate.drafts .null none true (some .afterReplace) fun _ => false

/-- A content that was never confirmed counts as confirmed, with its fingerprint stored, after a migration
that stops before its write; a content that a migration with warnings replaced is confirmed again when it
is written back; and a write whose rollback fails leaves what it wrote. -/
theorem old_content_passes :
    ((storedFingerprint 1 legacyGate.project).isNull = true ∧
      (runSteps (gateStep plainStorage 1) [.migrate [] .crash] legacyGate).map (fun s =>
        (reviewStatus plainStorage 1 s, (storedFingerprint 1 s.project).str?)) =
          some (.confirmed, some "legacy")) ∧
    ((migrateUnitDurations legacyDraft []).warnings.isEmpty = false ∧
      (runSteps (gateStep plainStorage 1) [.confirm "now", .migrate [] (.write none fun _ => true),
        .write legacyDraft none true none fun _ => true] legacyGate).map (reviewStatus plainStorage 1) =
          some .confirmed) ∧
    (interrupted.1 = .rollbackIncomplete ∧ (interrupted.2 referenceStep1Name).any Json.isNull = true) := by
  decide

end Example

end Gate

end ArcReel.Review
