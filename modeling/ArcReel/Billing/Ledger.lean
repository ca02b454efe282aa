import ArcReel.Billing.ApiCall
import ArcReel.Lib.Run

/-! One call row, the `Ledger.record` block that opened it, and resumes of the same call in other
processes. Each SELECT is a step, and so is each UPDATE with its commit. -/

namespace ArcReel.Billing
open Lib

variable {α : Type} [Zero α]

/-- The result objects of the backends. -/
inductive BackendResult where
  | image (usageTokens : Option Int) (quality : Option String) (imageInputTokens imageOutputTokens
      textInputTokens textOutputTokens : Option Int)
  | audio (characters : Option Int)
  | video (usageTokens : Option Int) (generateAudio : Option Bool) (durationSeconds : Option Int)
  | text (inputTokens outputTokens : Option Int)

/-- `_settlement_from_result`. -/
def settlementFromResult (serviceTier : String) : BackendResult → SettlementInput α
  | .image usageTokens quality imageInputTokens imageOutputTokens textInputTokens textOutputTokens =>
    { usageTokens, quality, imageInputTokens, imageOutputTokens, textInputTokens, textOutputTokens }
  | .audio characters => { usageTokens := characters }
  | .video usageTokens generateAudio durationSeconds =>
    { usageTokens, generateAudio, billedDurationSeconds := durationSeconds, serviceTier }
  | .text inputTokens outputTokens => { inputTokens, outputTokens }

/-- A settlement that the record block writes. -/
structure Finish (α : Type) where
  status : CallStatus
  settlement : SettlementInput α
  outputPath : Option String
  errorMessage : Option (List Char)

/-- `_finish_success` and `_finish_failed`. -/
def finishSuccess (settlement : SettlementInput α) (outputPath : Option String) : Finish α :=
  ⟨.success, settlement, outputPath, none⟩

def finishFailed (message : List Char) : Finish α := ⟨.failed, {}, none, some message⟩

/-- Where the record block is; `seen` is the row that `finish_call` has read. -/
inductive Block (α : Type) where
  | inside
  | finishing (finish : Finish α) (seen : Option (ApiCall α))
  | left

/-- A call of `resume_success` or `resume_failed` that has read the row. -/
structure Resume (α : Type) where
  status : CallStatus
  settlement : SettlementInput α
  seen : ApiCall α

structure State (α : Type) where
  row : ApiCall α
  block : Block α
  resumes : Nat → Option (Resume α)

/-- What becomes of a database call. -/
inductive Fate where
  | done
  | raises (message : List Char) (effect : Bool)
  | cancelled (effect : Bool)

def Fate.effect : Fate → Bool
  | .done => true
  | .raises _ effect | .cancelled effect => effect

inductive Event (α : Type) where
  /-- The block is left after `call.success(result)`. -/
  | succeed (serviceTier : String) (result : BackendResult) (outputPath : Option String)
  | raise (message : List Char)
  /-- The block is cancelled, or left without a result. -/
  | leave
  | blockReads (fate : Fate)
  | blockWrites (finishedAt : Int) (price : CustomProviderPrice α) (fate : Fate)
  | resumeSuccessReads (caller : Nat) (serviceTier : String) (result : BackendResult)
  | resumeFailedReads (caller : Nat)
  | resumeWrites (caller : Nat) (finishedAt : Int) (price : CustomProviderPrice α) (fate : Fate)

section Steps

variable (tariff : Tariff α)

/-- What follows an error or a cancellation in `finish_call`: a success that could not be written is
settled as failed. -/
def Block.afterFinish (finish : Finish α) : Fate → Block α
  | .done | .cancelled _ => .left
  | .raises message _ => if finish.status = .success then .finishing (finishFailed message) none else .left

def State.setResume (s : State α) (caller : Nat) (resume : Option (Resume α)) : Nat → Option (Resume α) :=
  fun other => if other = caller then resume else s.resumes other

/-- `finish_call` has no condition on the status. -/
def State.finish (s : State α) (finish : Finish α) (seen : ApiCall α) (finishedAt : Int)
    (price : CustomProviderPrice α) : ApiCall α :=
  finishedRow tariff seen finish.status finishedAt finish.settlement finish.outputPath
    finish.errorMessage price s.row

/-- `WHERE status = 'pending'`. -/
def State.finalize (s : State α) (resume : Resume α) (finishedAt : Int)
    (price : CustomProviderPrice α) : ApiCall α :=
  if s.row.status = .pending then
    finalizedRow tariff resume.seen resume.status finishedAt resume.settlement price s.row
  else s.row

def State.beginResume (s : State α) (caller : Nat) (status : CallStatus)
    (settlement : SettlementInput α) : Option (State α) :=
  match s.resumes caller with
  | none => some { s with resumes := s.setResume caller (some ⟨status, settlement, s.row⟩) }
  | some _ => none

def step (s : State α) : Event α → Option (State α)
  | .succeed serviceTier result outputPath =>
    match s.block with
    | .inside =>
      let finish := finishSuccess (settlementFromResult serviceTier result) outputPath
      some { s with block := .finishing finish none }
    | _ => none
  | .raise message =>
    match s.block with
    | .inside => some { s with block := .finishing (finishFailed message) none }
    | _ => none
  | .leave =>
    match s.block with
    | .inside => some { s with block := .left }
    | _ => none
  | .blockReads fate =>
    match s.block, fate with
    | .finishing finish none, .done => some { s with block := .finishing finish (some s.row) }
    | .finishing finish none, fate => some { s with block := .afterFinish finish fate }
    | _, _ => none
  | .blockWrites finishedAt price fate =>
    match s.block with
    | .finishing finish (some seen) => some { s with
        row := if fate.effect then s.finish tariff finish seen finishedAt price else s.row
        block := .afterFinish finish fate }
    | _ => none
  | .resumeSuccessReads caller serviceTier result =>
    s.beginResume caller .success (settlementFromResult serviceTier result)
  | .resumeFailedReads caller => s.beginResume caller .failed { costAmount := some 0 }
  | .resumeWrites caller finishedAt price fate =>
    match s.resumes caller with
    | some resume => some { s with
        row := if fate.effect then s.finalize tariff resume finishedAt price else s.row
        resumes := s.setResume caller none }
    | none => none

/-- The block has just been entered and the row is pending; nobody has resumed the call yet. -/
def State.start (row : ApiCall α) : State α := ⟨row, .inside, fun _ => none⟩

end Steps

end ArcReel.Billing
