import ArcReel.Queue.Repository

/-! The shape of the repository's programs: which statements open a method, and
what can follow the end of its transaction. -/

namespace ArcReel.Queue
open ArcReel.Lib.SqlSession

namespace Stmt

/-- The statements that a method executes before it has written any row. -/
def opening : Stmt → Bool
  | insertTask _ | selectClaimable _ _ _ | updateClaimed _ _ | updateSucceeded _ _ => true
  | markFailedRunning _ _ | selectForCancel _ | selectQueuedOf _ | cancelQueuedOf _ _ => true
  | selectRunning _ | requeueSingleTask _ | persistProviderJobId _ _ _ _ => true
  | persistExecutionCheckpoint _ _ _ | selectPayload _ _ _ _ | updatePayload _ _ _ => true
  | persistExecutionProviderId _ _ => true
  | _ => false

/-- The statement records an event for this task, whatever its status. -/
def announces (taskId : String) : Stmt → Bool
  | reloadTerminal named _ | reloadCancelled named => named == taskId
  | _ => false

def reloadsAmong : Stmt → Bool
  | reloadCancelledAmong _ _ => true
  | _ => false

def ends : Stmt → Bool
  | commit | rollback => true
  | _ => false

/-- The statement that follows the rollback of a duplicate insert. -/
def looksUp : Stmt → Bool
  | selectActiveDuplicate _ => true
  | _ => false

/-- Only the duplicate lookup follows the end of a transaction, and the bulk
reload is never left waiting behind another statement. -/
def Before (a b : Stmt) : Prop := (a.ends = true → b.looksUp = true) ∧ b.reloadsAmong = false

end Stmt

theorem dispatchCancel_opening {cancelledBy : CancelledBy} {t : Task} {stmt : Stmt}
    (member : stmt ∈ dispatchCancel cancelledBy t) : stmt.opening = false := by
  rcases mem_dispatchCancel.mp member with ⟨_, rfl⟩ | ⟨_, rfl⟩ | ⟨_, rfl⟩ <;> rfl

theorem looksUp_announces {next : Stmt} (looksUp : next.looksUp = true) (k : String) :
    next.announces k = false := by
  cases next with
  | selectActiveDuplicate request => rfl
  | _ => cases looksUp

theorem before_append {body tail : List Stmt}
    (plain : ∀ stmt ∈ body, stmt.ends = false ∧ stmt.reloadsAmong = false)
    (ordered : tail.Pairwise Stmt.Before) (single : ∀ stmt ∈ tail, stmt.reloadsAmong = false) :
    (body ++ tail).Pairwise Stmt.Before := by
  have begins : ∀ a ∈ body, ∀ b, b.reloadsAmong = false → Stmt.Before a b := by
    intro a member b among
    refine ⟨fun ends => ?_, among⟩
    rw [(plain a member).1] at ends
    cases ends
  refine List.pairwise_append.mpr ⟨?_, ordered, fun a member b later => begins a member b (single b later)⟩
  rw [List.pairwise_iff_forall_sublist]
  intro a b sub
  have inside := sub.subset
  exact begins a (inside (by simp)) b (plain b (inside (by simp))).2

theorem dispatchCancel_plain {cancelledBy : CancelledBy} {t : Task} {stmt : Stmt}
    (member : stmt ∈ dispatchCancel cancelledBy t) :
    stmt.ends = false ∧ stmt.reloadsAmong = false ∧ ∀ taskId, stmt.announces taskId = false := by
  rcases mem_dispatchCancel.mp member with ⟨_, rfl⟩ | ⟨_, rfl⟩ | ⟨_, rfl⟩ <;>
    exact ⟨rfl, rfl, fun _ => rfl⟩

variable (codec : TextCodec)

theorem eq_commit_of_action {now : Nat} {stmt : Stmt} (commits : action codec now stmt = .commit) :
    stmt = .commit := by
  cases stmt <;> simp only [action, reduceCtorEq] at commits
  rfl

/-- The three queries that open a method and schedule its first write. -/
inductive Schedules : Stmt → Stmt → Prop
  | claim (mediaType : String) (full excluded : List String) (taskId : String) (claimedAt : Nat) :
      Schedules (.selectClaimable mediaType full excluded) (.updateClaimed taskId claimedAt)
  | cancelAll (projectName : String) (taskIds : List String) :
      Schedules (.selectQueuedOf projectName) (.cancelQueuedOf projectName taskIds)
  | payload (taskId key value payloadJson : String) (raiseIfMissing : Bool) :
      Schedules (.selectPayload taskId key value raiseIfMissing)
        (.updatePayload taskId payloadJson raiseIfMissing)

theorem Schedules.query {stmt next : Stmt} (schedules : Schedules stmt next) (now : Nat) :
    stmt.opening = true ∧ ∃ answer, action codec now stmt = .query answer := by
  cases schedules <;> exact ⟨rfl, _, rfl⟩

/-- An opening statement that schedules another one has only read. -/
theorem push_opening {now : Nat} {stmt : Stmt} {table : List Task} {push : List Stmt}
    {emit : List Out} (answered : (action codec now stmt).answer table = .go push emit) :
    ∀ next ∈ push, next.opening = true → Schedules stmt next ∧ push = [next] := by
  cases stmt with
  | cascadeCancelDependents taskId =>
    obtain ⟨rfl, -⟩ := Next.go.inj answered
    intro next pushed opening
    obtain ⟨t, _, dispatched⟩ := List.mem_flatMap.mp pushed
    rw [dispatchCancel_opening dispatched] at opening
    cases opening
  | selectClaimable mediaType full excluded =>
    simp only [action, Action.answer] at answered
    split at answered <;> obtain ⟨rfl, -⟩ := Next.go.inj answered
    · simpa using fun _ => Schedules.claim mediaType full excluded _ now
    · simp
  | selectQueuedOf projectName =>
    obtain ⟨rfl, -⟩ := Next.go.inj answered
    simpa using fun _ => Schedules.cancelAll projectName _
  | selectPayload taskId key value raiseIfMissing =>
    simp only [action, Action.answer] at answered
    split at answered
    · obtain ⟨rfl, -⟩ := Next.go.inj answered
      simpa using fun _ => Schedules.payload taskId key value _ raiseIfMissing
    · split_ifs at answered
      obtain ⟨rfl, -⟩ := Next.go.inj answered
      simp
  | _ =>
    simp only [action, Action.answer] at answered
    repeat' split at answered
    all_goals
      simp only [Next.go.injEq, reduceCtorEq] at answered
      try
        obtain ⟨rfl, -⟩ := answered
        simp [Stmt.opening, mem_dispatchCancel, or_imp, forall_and]

theorem push_before {now : Nat} {stmt : Stmt} {table : List Task} {push : List Stmt}
    {emit : List Out} (answered : (action codec now stmt).answer table = .go push emit) :
    push.Pairwise Stmt.Before ∧ (stmt.opening = false → ∀ next ∈ push, next.ends = false) := by
  cases stmt with
  | cascadeCancelDependents taskId =>
    obtain ⟨rfl, -⟩ := Next.go.inj answered
    have plain : ∀ next ∈ (byQueuedAt (table.filter fun t =>
        t.dependencyTaskId == some taskId)).flatMap (dispatchCancel .cascade),
        next.ends = false ∧ next.reloadsAmong = false := by
      intro next member
      obtain ⟨t, _, dispatched⟩ := List.mem_flatMap.mp member
      exact ⟨(dispatchCancel_plain dispatched).1, (dispatchCancel_plain dispatched).2.1⟩
    refine ⟨?_, fun _ next member => (plain next member).1⟩
    rw [← List.append_nil (List.flatMap _ _)]
    exact before_append plain .nil (by simp)
  | cascadeFailedQueued taskId errorMessage =>
    obtain ⟨rfl, -⟩ := Next.go.inj answered
    refine ⟨?_, by simp [Stmt.ends]⟩
    rw [← List.append_nil (List.map _ _)]
    exact before_append (by simp [Stmt.ends, Stmt.reloadsAmong]) .nil (by simp)
  | selectForCancel taskId =>
    simp only [action, Action.answer] at answered
    split at answered
    next t _ =>
      obtain ⟨rfl, -⟩ := Next.go.inj answered
      refine ⟨before_append ?_ (by simp) (by simp [Stmt.reloadsAmong]), by simp [Stmt.opening]⟩
      intro next member
      exact ⟨(dispatchCancel_plain member).1, (dispatchCancel_plain member).2.1⟩
    next => cases answered
  | _ =>
    simp only [action, Action.answer] at answered
    repeat' split at answered
    all_goals
      simp only [Next.go.injEq, reduceCtorEq] at answered
      try
        obtain ⟨rfl, -⟩ := answered
        simp [Stmt.Before, Stmt.ends, Stmt.looksUp, Stmt.reloadsAmong, Stmt.opening]

theorem program_opening {op : Op} {stmt : Stmt} (member : stmt ∈ program op)
    (opening : stmt.opening = true) : program op = [stmt] := by
  cases op with
  | finalizeCancelled taskId cancelledBy =>
    simp only [program, List.mem_cons, List.not_mem_nil, or_false] at member
    rcases member with rfl | rfl <;> cases opening
  | _ => simp_all [program]

theorem program_before (op : Op) : (program op).Pairwise Stmt.Before := by
  cases op <;> simp [program, Stmt.Before, Stmt.ends, Stmt.reloadsAmong]

theorem program_announces (op : Op) (k : String) :
    ∀ stmt ∈ program op, stmt.announces k = false := by
  cases op <;> simp [program, Stmt.announces]

end ArcReel.Queue
