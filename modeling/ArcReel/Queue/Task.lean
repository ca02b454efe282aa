import Mathlib.Data.List.Sort
import Mathlib.Tactic

/-! The `tasks` table of the generation queue: its columns, the status sets of
the repository, and the row predicates that its statements share. -/

namespace ArcReel.Queue

inductive TaskStatus where
  | queued
  | running
  | cancelling
  | succeeded
  | failed
  | cancelled
  deriving DecidableEq, Repr

/-- Who asked for a cancellation: the column `cancelled_by`. -/
inductive CancelledBy where
  | user
  | cascade
  deriving DecidableEq, Repr

namespace TaskStatus

/-- `ACTIVE_TASK_STATUSES`. -/
def active : TaskStatus → Bool
  | queued | running | cancelling => true
  | succeeded | failed | cancelled => false

/-- `TERMINAL_TASK_STATUSES`. -/
def terminal : TaskStatus → Bool
  | succeeded | failed | cancelled => true
  | queued | running | cancelling => false

/-- The statuses a task can only have after a worker has claimed it. -/
def claimed : TaskStatus → Bool
  | running | cancelling | succeeded => true
  | queued | failed | cancelled => false

/-- A cancellation has been requested or has taken effect. -/
def cancelRequested : TaskStatus → Bool
  | cancelling | cancelled => true
  | queued | running | succeeded | failed => false

/-- The task ended without a result, so its dependents can never be claimed. -/
def dead : TaskStatus → Bool
  | failed | cancelled => true
  | queued | running | cancelling | succeeded => false

end TaskStatus

/-- A row of `tasks`. JSON columns hold their text; instants are clock readings. -/
structure Task where
  taskId : String
  projectName : String
  taskType : String
  mediaType : String
  resourceId : String
  resourceType : Option String
  scriptFile : Option String
  payloadJson : Option String
  status : TaskStatus
  resultJson : Option String
  errorMessage : Option String
  source : String
  dependencyTaskId : Option String
  dependencyGroup : Option String
  dependencyIndex : Option Int
  cancelledBy : Option CancelledBy
  providerId : Option String
  providerJobId : Option String
  providerEndpoint : Option String
  submittedBaseUrl : Option String
  executionCheckpointJson : Option String
  queuedAt : Nat
  startedAt : Option Nat
  finishedAt : Option Nat
  updatedAt : Nat
  userId : String
  deriving DecidableEq, Repr

/-- The key of the unique index `idx_tasks_dedupe_active`. -/
structure DedupeKey where
  projectName : String
  taskType : String
  resourceId : String
  scriptFile : String
  resourceType : String
  deriving DecidableEq, Repr

namespace Task

def dedupeKey (t : Task) : DedupeKey :=
  ⟨t.projectName, t.taskType, t.resourceId, t.scriptFile.getD "", t.resourceType.getD ""⟩

/-- `Task.task_id == task_id` and `Task.status.in_(statuses)`. -/
def hits (taskId : String) (statuses : TaskStatus → Bool) (t : Task) : Bool :=
  t.taskId == taskId && statuses t.status

/-- The rows that the primary key or the partial unique index keep apart from `t`. -/
def clashes (t other : Task) : Bool :=
  other.taskId == t.taskId ||
    (other.status.active && t.status.active && other.dedupeKey == t.dedupeKey)

/-- The waiting part of the claim condition: the dependency is absent or has succeeded. -/
def dependencyMet (table : List Task) (t : Task) : Bool :=
  match t.dependencyTaskId with
  | none => true
  | some d => table.any (fun q => q.taskId == d && q.status == .succeeded)

end Task

/-- `ORDER BY queued_at ASC`. -/
def byQueuedAt (table : List Task) : List Task :=
  table.insertionSort (fun a b => a.queuedAt ≤ b.queuedAt)

/-- `ORDER BY updated_at ASC`. -/
def byUpdatedAt (table : List Task) : List Task :=
  table.insertionSort (fun a b => a.updatedAt ≤ b.updatedAt)

theorem mem_byQueuedAt {table : List Task} {t : Task} : t ∈ byQueuedAt table ↔ t ∈ table :=
  (List.perm_insertionSort _ table).mem_iff

theorem mem_byUpdatedAt {table : List Task} {t : Task} : t ∈ byUpdatedAt table ↔ t ∈ table :=
  (List.perm_insertionSort _ table).mem_iff

def findTask (table : List Task) (taskId : String) : Option Task :=
  table.find? (fun t => t.taskId == taskId)

end ArcReel.Queue
