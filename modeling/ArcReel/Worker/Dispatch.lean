import ArcReel.Lib.Run
import ArcReel.Worker.SlotTable

/-! The claim loop and the orphan dispatchers of `lib.generation_worker`. A step
is the code between two awaits. -/

namespace ArcReel.Worker
open ArcReel.Lib

inductive Phase where
  | waiting
  | holding
  | ended
  deriving DecidableEq, Repr

/-- A run of `_run_one`: waiting for its permit, holding it, or over. -/
structure SubTask where
  taskId : String
  phase : Phase
  deriving DecidableEq, Repr

/-- A `_dispatch_provider_bucket`; `scheduled` are its tasks until it runs for the first time. -/
structure Dispatcher where
  provider : String
  scheduled : Option (List String)
  subTasks : List SubTask
  deriving DecidableEq, Repr

/-- The permits of the semaphore that are taken. -/
def Dispatcher.holders (dispatcher : Dispatcher) : Nat :=
  dispatcher.subTasks.countP fun task => task.phase == .holding

/-- What `_claim_tasks` awaits: `claim_next_task` with the providers whose pool is full, or the
provider of the task it has claimed. -/
inductive ClaimLoop where
  | idle
  | asking (media : String) (poolFull : List String)
  | resolving (media taskId : String)
  deriving DecidableEq, Repr

/-- `claims` counts the tasks that the claim loop has started; `finished` are those that are done. -/
structure State where
  slots : SlotTable
  claims : Nat
  finished : List Nat
  claimLoop : ClaimLoop
  dispatchers : List Dispatcher
  stopped : Bool

def State.start : State := ⟨.empty, 0, [], .idle, [], false⟩

namespace State

def subTask (s : State) (d n : Nat) : Option SubTask :=
  s.dispatchers[d]?.bind fun dispatcher => dispatcher.subTasks[n]?

def done (s : State) : Body → Bool
  | .claimed n => s.finished.contains n
  | .resumed d n => (s.subTask d n).any fun task => task.phase == .ended

def setPhase (s : State) (d n : Nat) (phase : Phase) : List Dispatcher :=
  s.dispatchers.modify d fun dispatcher =>
    { dispatcher with subTasks := dispatcher.subTasks.modify n fun task => { task with phase } }

end State

inductive Step where
  | askNext (media : String)
  /-- `claim_next_task` returns nothing, or a row and the `provider_id` that the queue has stored. -/
  | claimNext (row : Option (String × Option String))
  /-- `_extract_provider` answers, and the task is failed, requeued or started. -/
  | dispatchClaimed (provider : String)
  | finishClaimed (n : Nat)
  | drain
  /-- The orphan scan schedules a dispatcher for the resumable tasks of a provider. -/
  | scan (provider : String) (taskIds : List String)
  | startDispatcher (d : Nat)
  | acquire (d n : Nat)
  /-- The sub-task returns, raises or is cancelled. -/
  | finish (d n : Nat)
  /-- The sub-task is cancelled before its body has begun, so nothing is released. -/
  | discard (d n : Nat)
  | stop
  deriving DecidableEq, Repr

section Steps

variable (capacity : CapacityTable) (s : State)

def poolFullProviders (media : String) : List String :=
  (s.slots.occupiedProviders media).filter fun provider =>
    decide (0 < capacity.get provider media) &&
      !s.slots.hasRoom provider media (capacity.get provider media)

def askNext (media : String) : Option State :=
  if s.claimLoop = .idle then
    some { s with claimLoop := .asking media (poolFullProviders capacity s media) }
  else none

def claimNext (row : Option (String × Option String)) : Option State :=
  match s.claimLoop, row with
  | .asking _ _, none => some { s with claimLoop := .idle }
  | .asking media poolFull, some (taskId, providerId) =>
      if providerId.any poolFull.contains then none
      else some { s with claimLoop := .resolving media taskId }
  | _, _ => none

def dispatchClaimed (provider : String) : Option State :=
  match s.claimLoop with
  | .resolving media taskId =>
      let cap := capacity.get provider media
      if cap = 0 then some { s with claimLoop := .idle }
      else if !s.slots.hasRoom provider media cap then some { s with claimLoop := .idle }
      else some { s with
        claimLoop := .idle
        claims := s.claims + 1
        slots := s.slots.register provider media taskId (.claimed s.claims) false }
  | _ => none

def finishClaimed (n : Nat) : Option State :=
  if n < s.claims then some { s with finished := n :: s.finished } else none

def drain : State := { s with slots := (s.slots.drainFinished s.done).2 }

/-- The scan skips the tasks that are active in this process. -/
def scan (provider : String) (taskIds : List String) : State :=
  { s with dispatchers := s.dispatchers ++
      [⟨provider, some (taskIds.filter fun taskId => !s.slots.activeTaskIds.contains taskId), []⟩] }

def registerAll (d : Nat) (provider : String) :
    List String → Nat → SlotTable → SlotTable
  | [], _, table => table
  | taskId :: later, n, table =>
      registerAll d provider later (n + 1)
        (table.register provider "video" taskId (.resumed d n) true)

def startDispatcher (d : Nat) : Option State :=
  match s.dispatchers[d]? with
  | some ⟨provider, some taskIds, _⟩ =>
      if s.stopped || capacity.get provider "video" == 0 then
        some { s with dispatchers := s.dispatchers.set d ⟨provider, none, []⟩ }
      else
        some { s with
          slots := registerAll d provider taskIds 0 s.slots
          dispatchers := s.dispatchers.set d
            ⟨provider, none, taskIds.map fun taskId => ⟨taskId, .waiting⟩⟩ }
  | _ => none

def acquire (d n : Nat) : Option State :=
  match s.dispatchers[d]?, s.subTask d n with
  | some dispatcher, some ⟨taskId, .waiting⟩ =>
      if dispatcher.holders < capacity.get dispatcher.provider "video" then
        if s.stopped then
          some { s with
            slots := s.slots.release dispatcher.provider "video" taskId
            dispatchers := s.setPhase d n .ended }
        else
          some { s with
            slots := s.slots.promote dispatcher.provider "video" taskId
            dispatchers := s.setPhase d n .holding }
      else none
  | _, _ => none

def finish (d n : Nat) : Option State :=
  match s.dispatchers[d]?, s.subTask d n with
  | some dispatcher, some ⟨taskId, phase⟩ =>
      if phase = .ended then none
      else some { s with
        slots := s.slots.release dispatcher.provider "video" taskId
        dispatchers := s.setPhase d n .ended }
  | _, _ => none

def discard (d n : Nat) : Option State :=
  match s.subTask d n with
  | some ⟨_, .waiting⟩ => some { s with dispatchers := s.setPhase d n .ended }
  | _ => none

def step : Step → Option State
  | .askNext media => askNext capacity s media
  | .claimNext row => claimNext s row
  | .dispatchClaimed provider => dispatchClaimed capacity s provider
  | .finishClaimed n => finishClaimed s n
  | .drain => some (drain s)
  | .scan provider taskIds => some (scan s provider taskIds)
  | .startDispatcher d => startDispatcher capacity s d
  | .acquire d n => acquire capacity s d n
  | .finish d n => finish s d n
  | .discard d n => discard s d n
  | .stop => some { s with stopped := true }

end Steps

/-- The occupants of the bucket that are not pending. -/
def inflight (s : State) (provider : String) : Nat :=
  (s.slots.bucket provider "video").entries.countP fun entry => !entry.2.pending

/-- A sub-task of the dispatcher is alive on the task. -/
def Dispatcher.live (dispatcher : Dispatcher) (taskId : String) : Bool :=
  dispatcher.subTasks.any fun task => task.taskId == taskId && task.phase != .ended

/-- A dispatcher starts within the capacity, or on an empty bucket with tasks that no other
dispatcher of the provider is still running. -/
def fitsBucket (capacity : CapacityTable) (s : State) : Step → Bool
  | .startDispatcher d =>
      match s.dispatchers[d]? with
      | some ⟨provider, some taskIds, _⟩ =>
          decide ((s.slots.bucket provider "video").size + taskIds.length ≤
            capacity.get provider "video") ||
          (s.slots.bucket provider "video").size == 0 &&
            s.dispatchers.all fun other => other.provider != provider ||
              taskIds.all fun taskId => !other.live taskId
      | _ => true
  | _ => true

end ArcReel.Worker
