import ArcReel.Billing.Ledger

/-! When a settled call row stays as it is. -/

namespace ArcReel.Billing
open Lib

variable {α : Type}

/-- The record block does not write over a row that is settled as a success. -/
def sparesSuccess (s : State α) : Event α → Bool
  | .blockWrites _ _ fate => !fate.effect || decide (s.row.status ≠ .success)
  | _ => true

/-- How often the row leaves `pending` in the run. -/
def leavesPending [Zero α] (tariff : Tariff α) : List (Event α) → State α → Nat
  | [], _ => 0
  | event :: events, s =>
    match step tariff s event with
    | none => 0
    | some t => (if s.row.status = .pending ∧ t.row.status ≠ .pending then 1 else 0) +
        leavesPending tariff events t

section Settling

variable {s t : State α}

/-- Whatever is being written settles the call. -/
structure Settles (s : State α) : Prop where
  block : ∀ finish seen, s.block = .finishing finish seen → finish.status ≠ .pending
  resumes : ∀ caller resume, s.resumes caller = some resume → resume.status ≠ .pending

theorem settles_start (row : ApiCall α) : Settles (State.start row) :=
  ⟨fun _ _ inside => (nomatch inside), fun _ _ resumed => (nomatch resumed)⟩

theorem afterFinish_settles {finish next : Finish α} {seen : Option (ApiCall α)} {fate : Fate}
    (after : Block.afterFinish finish fate = .finishing next seen) : next.status ≠ .pending := by
  cases fate with
  | done => cases after
  | cancelled effect => cases after
  | raises message effect =>
    simp only [Block.afterFinish] at after
    split at after
    · cases after
      exact fun never => by cases never
    · cases after

theorem setResume_settles (settles : Settles s) {caller : Nat} {resume : Option (Resume α)}
    (fine : ∀ found, resume = some found → found.status ≠ .pending) (other : Nat) (found : Resume α)
    (set : s.setResume caller resume other = some found) : found.status ≠ .pending := by
  unfold State.setResume at set
  split at set
  · exact fine found set
  · exact settles.resumes other found set

/-- A resume that has read the row has not changed it. -/
theorem beginResume_spec (settles : Settles s) {caller : Nat} {status : CallStatus}
    {settlement : SettlementInput α} (settling : status ≠ .pending)
    (began : s.beginResume caller status settlement = some t) : Settles t ∧ t.row = s.row := by
  unfold State.beginResume at began
  split at began
  · cases began
    refine ⟨⟨settles.block, setResume_settles settles ?_⟩, rfl⟩
    intro found same
    cases same
    exact settling
  · cases began

end Settling

section Steps

variable [Zero α] {tariff : Tariff α} {s t : State α} {event : Event α}

/-- What a step does to the row: it leaves it, or the block writes over it, or a resume settles a
pending one. -/
inductive RowStep (tariff : Tariff α) (s t : State α) (event : Event α) : Prop
  | same : t.row = s.row → RowStep tariff s t event
  | finished (finish : Finish α) (seen : ApiCall α) (finishedAt : Int)
      (price : CustomProviderPrice α) (fate : Fate) : event = .blockWrites finishedAt price fate →
      fate.effect = true → s.block = .finishing finish (some seen) → finish.status ≠ .pending →
      t.row = s.finish tariff finish seen finishedAt price → RowStep tariff s t event
  | finalized (resume : Resume α) (finishedAt : Int) (price : CustomProviderPrice α) :
      s.row.status = .pending → resume.status ≠ .pending →
      t.row = s.finalize tariff resume finishedAt price → RowStep tariff s t event

theorem step_spec (settles : Settles s) (stepped : step tariff s event = some t) :
    Settles t ∧ RowStep tariff s t event := by
  cases event with
  | succeed serviceTier result outputPath =>
    cases inside : s.block with
    | inside =>
      simp only [step, inside] at stepped
      cases stepped
      refine ⟨⟨fun finish seen same => ?_, settles.resumes⟩, .same rfl⟩
      cases same
      exact fun never => by cases never
    | _ => simp [step, inside] at stepped
  | raise message =>
    cases inside : s.block with
    | inside =>
      simp only [step, inside] at stepped
      cases stepped
      refine ⟨⟨fun finish seen same => ?_, settles.resumes⟩, .same rfl⟩
      cases same
      exact fun never => by cases never
    | _ => simp [step, inside] at stepped
  | leave =>
    cases inside : s.block with
    | inside =>
      simp only [step, inside] at stepped
      cases stepped
      exact ⟨⟨fun finish seen same => (nomatch same), settles.resumes⟩, .same rfl⟩
    | _ => simp [step, inside] at stepped
  | blockReads fate =>
    simp only [step] at stepped
    split at stepped
    · next finish reading =>
      cases stepped
      refine ⟨⟨fun next seen same => ?_, settles.resumes⟩, .same rfl⟩
      cases same
      exact settles.block _ _ reading
    · cases stepped
      exact ⟨⟨fun next seen same => afterFinish_settles same, settles.resumes⟩, .same rfl⟩
    · cases stepped
  | blockWrites finishedAt price fate =>
    simp only [step] at stepped
    split at stepped
    · next finish seen writing =>
      cases stepped
      refine ⟨⟨fun next seen same => afterFinish_settles same, settles.resumes⟩, ?_⟩
      cases effect : fate.effect with
      | true =>
        exact .finished finish seen finishedAt price fate rfl effect writing
          (settles.block _ _ writing) rfl
      | false => exact .same rfl
    · cases stepped
  | resumeSuccessReads caller serviceTier result =>
    obtain ⟨settled, row⟩ := beginResume_spec settles (fun never => by cases never) stepped
    exact ⟨settled, .same row⟩
  | resumeFailedReads caller =>
    obtain ⟨settled, row⟩ := beginResume_spec settles (fun never => by cases never) stepped
    exact ⟨settled, .same row⟩
  | resumeWrites caller finishedAt price fate =>
    simp only [step] at stepped
    split at stepped
    · next resume resuming =>
      cases stepped
      refine ⟨⟨settles.block, setResume_settles settles fun found never => (nomatch never)⟩, ?_⟩
      cases effect : fate.effect with
      | true =>
        by_cases pending : s.row.status = .pending
        · exact .finalized resume finishedAt price pending (settles.resumes _ _ resuming)
            rfl
        · exact .same (if_neg pending)
      | false => exact .same rfl
    · cases stepped

/-- A settled row is not made pending again. -/
theorem step_settled (settles : Settles s) (stepped : step tariff s event = some t)
    (settled : s.row.status ≠ .pending) : t.row.status ≠ .pending := by
  cases (step_spec settles stepped).2 with
  | same row => rwa [row]
  | finished finish seen finishedAt price fate asked effect writing settling row =>
    rw [row]
    exact settling
  | finalized resume finishedAt price pending settling row => exact absurd pending settled

/-- A success stays as it is where the block spares it. -/
theorem step_success (settles : Settles s) (stepped : step tariff s event = some t)
    (spares : sparesSuccess s event = true) (success : s.row.status = .success) : t.row = s.row := by
  cases (step_spec settles stepped).2 with
  | same row => exact row
  | finished finish seen finishedAt price fate asked effect writing settling row =>
    rw [asked, sparesSuccess, effect] at spares
    simp [success] at spares
  | finalized resume finishedAt price pending settling row =>
    rw [success] at pending
    cases pending

/-- A failure that the block writes over a success takes its charge back. -/
theorem step_overwrites {finish : Finish α} {seen : ApiCall α} {finishedAt : Int}
    {price : CustomProviderPrice α} {fate : Fate} (writing : s.block = .finishing finish (some seen))
    (failing : finish.status = .failed) (effect : fate.effect = true)
    (stepped : step tariff s (.blockWrites finishedAt price fate) = some t) :
    t.row.status = .failed := by
  simp only [step, writing, effect, if_true] at stepped
  cases stepped
  exact failing

end Steps

section Runs

variable [Zero α] {tariff : Tariff α} {s t : State α} {events : List (Event α)}

theorem leavesPending_le (settles : Settles s) (events : List (Event α)) :
    leavesPending tariff events s ≤ if s.row.status = .pending then 1 else 0 := by
  induction events generalizing s with
  | nil => exact Nat.zero_le _
  | cons event events ih =>
    rw [leavesPending]
    cases stepped : step tariff s event with
    | none => exact Nat.zero_le _
    | some t =>
      have later := ih (step_spec settles stepped).1
      dsimp only
      by_cases pending : s.row.status = .pending
      · by_cases still : t.row.status = .pending
        · rw [if_pos still] at later
          simpa [pending, still] using later
        · rw [if_neg still] at later
          simpa [pending, still] using later
      · have settled := step_settled settles stepped pending
        rw [if_neg settled] at later
        simpa [pending] using later

theorem run_settles (settles : Settles s) (ran : runSteps (step tariff) events s = some t) :
    Settles t :=
  runSteps_induct (fun _ _ _ settles stepped => (step_spec settles stepped).1) settles ran

theorem run_success (settles : Settles s) (spares : allSteps (step tariff) sparesSuccess events s = true)
    (success : s.row.status = .success) (ran : runSteps (step tariff) events s = some t) :
    t.row = s.row := by
  have kept : Settles t ∧ t.row = s.row := by
    have preserved (u : State α) (event : Event α) (v : State α) (held : Settles u ∧ u.row = s.row)
        (spared : sparesSuccess u event = true) (stepped : step tariff u event = some v) :
        Settles v ∧ v.row = s.row := by
      refine ⟨(step_spec held.1 stepped).1, ?_⟩
      rw [← held.2]
      exact step_success held.1 stepped spared (held.2 ▸ success)
    exact runSteps_induct_of preserved ⟨settles, rfl⟩ spares ran
  exact kept.2

end Runs

/-- In every run the row leaves `pending` at most once. If the block never writes over a success,
a success keeps its charge; a failure that it does write over one takes the charge back. -/
theorem settled_once [Zero α] (tariff : Tariff α) (row : ApiCall α) (front back : List (Event α))
    (s t : State α) (first : runSteps (step tariff) front (State.start row) = some s)
    (ran : runSteps (step tariff) back s = some t) :
    leavesPending tariff (front ++ back) (State.start row) ≤ 1 ∧
      (allSteps (step tariff) sparesSuccess (front ++ back) (State.start row) = true →
        s.row.status = .success → t.row.charge = s.row.charge) ∧
      ∀ finish seen finishedAt price fate u, s.row.status = .success →
        s.block = .finishing finish (some seen) → finish.status = .failed → fate.effect = true →
        step tariff s (.blockWrites finishedAt price fate) = some u → u.row.charge ≠ s.row.charge := by
  refine ⟨?_, ?_, ?_⟩
  · refine (leavesPending_le (settles_start row) _).trans ?_
    split
    · exact Nat.le_refl _
    · exact Nat.zero_le _
  · intro spares success
    rw [allSteps_append first, Bool.and_eq_true] at spares
    rw [run_success (run_settles (settles_start row) first) spares.2 success ran]
  · intro finish seen finishedAt price fate u success writing failing effect stepped same
    have failed := step_overwrites writing failing effect stepped
    have statuses : u.row.status = s.row.status := congrArg Charge.status same
    rw [failed, success] at statuses
    cases statuses

section Samples

/-- Every automatically calculated call costs 5. -/
private def flatTariff : Tariff Int where
  calculateCost _ _ _ := (5, "USD")
  elapsedMs finishedAt startedAt := finishedAt - startedAt

private def videoCall : ApiCall Int where
  callType := "video"
  model := some "veo"
  resolution := none
  durationSeconds := some 8
  aspectRatio := none
  generateAudio := some true
  status := .pending
  errorMessage := none
  outputPath := none
  startedAt := 0
  finishedAt := none
  durationMs := none
  costAmount := 0
  currency := "USD"
  provider := "gemini"
  usageTokens := none
  inputTokens := none
  outputTokens := none
  imageInputTokens := none
  imageOutputTokens := none
  textInputTokens := none
  textOutputTokens := none

private def noPrice : CustomProviderPrice Int := ⟨none, none, none⟩

private def videoDone : List (Event Int) :=
  [.succeed "default" (.video none (some true) (some 8)) none, .blockReads .done]

private def settledVideo : State Int :=
  (runSteps (step flatTariff) (videoDone ++ [.blockWrites 1000 noPrice .done])
    (State.start videoCall)).getD (State.start videoCall)

private def resumedVideo : State Int :=
  (runSteps (step flatTariff) [.resumeFailedReads 0, .resumeWrites 0 2000 noPrice .done]
    settledVideo).getD settledVideo

/-- A resume that comes too late. -/
theorem late_resume_settled_once : resumedVideo.row.charge = settledVideo.row.charge :=
  (settled_once flatTariff videoCall (videoDone ++ [.blockWrites 1000 noPrice .done])
    [.resumeFailedReads 0, .resumeWrites 0 2000 noPrice .done] settledVideo resumedVideo rfl rfl).2.1
    (by decide) (by decide)

/-- The success is committed, but its commit reports an error: the block settles the call again, as
a failure that costs nothing. -/
theorem paid_call_unsettled :
    ∃ s t : State Int,
      runSteps (step flatTariff) (videoDone ++ [.blockWrites 1000 noPrice (.raises ['x'] true)])
        (State.start videoCall) = some s ∧
      runSteps (step flatTariff) [.blockReads .done, .blockWrites 1001 noPrice .done] s = some t ∧
      s.row.charge = ⟨.success, 5, "USD", some 8, [none, none, none, none, none, none, none]⟩ ∧
      t.row.charge = ⟨.failed, 0, "USD", some 8, [none, none, none, none, none, none, none]⟩ :=
  ⟨_, _, rfl, rfl, by decide, by decide⟩

end Samples

end ArcReel.Billing
