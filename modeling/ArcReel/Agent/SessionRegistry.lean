import ArcReel.Lib.Dict
import ArcReel.Lib.Run

/-! `SessionManager` of `server.agent_runtime.session_manager`: the registry of
sessions, the locks of `get_or_connect`, the capacity check and the ways in which
a session is torn down. A step is the code between two awaits. -/

namespace ArcReel.Agent.Registry
open ArcReel.Lib

inductive Status where
  | idle
  | running
  | completed
  | interrupted
  | error
  | closed
  deriving DecidableEq, Repr

/-- `ManagedSession`. `actorLive` holds from the start of the actor's task to its end, `processing`
from the start of the inbox task, and `resolved` once the id of the SDK is known. -/
structure Managed where
  sessionId : String
  status : Status
  lastActivity : Int
  actorLive : Bool
  processing : Bool
  resolved : Bool
  deriving DecidableEq, Repr

/-- Who makes a session: `send_new_session` with its temporary id, or `get_or_connect` with the lock
object that it holds. -/
inductive Target where
  | newSession (tempId : String)
  | connect (sessionId : String) (lock : Nat)
  deriving DecidableEq, Repr

def Target.sessionId : Target → String
  | .newSession tempId => tempId
  | .connect sessionId _ => sessionId

/-- What the caller of `_evict_one` does after it. -/
inductive Next where
  | done
  | build (target : Target)
  | patrol (now delay : Int) (rest : List (String × Nat))
  deriving DecidableEq, Repr

/-- The await at which a task stands. -/
inductive Phase where
  | waiting (sessionId : String) (lock : Nat) (hasMeta : Bool)
  | reading (target : Target)
  | checking (target : Target)
  | building (target : Target)
  | starting (target : Target) (managed : Nat)
  | sending (tempId : String) (managed : Nat)
  | cleaning (managed : Nat)
  | evicting (sessionId : String) (managed : Nat) (next : Next)
  | patrolling (now delay : Int) (rest : List (String × Nat))
  | shuttingDown (rest : List Nat)
  | finished
  deriving DecidableEq, Repr

/-- Session objects, lock objects and tasks are known by number; `held` names the task that holds a
lock object. -/
structure State where
  sessions : Dict String Nat
  disconnecting : List String
  connectLocks : Dict String Nat
  held : Dict Nat Nat
  managed : Dict Nat Managed
  tasks : Dict Nat Phase

def State.start : State := ⟨.empty, [], .empty, .empty, .empty, .empty⟩

inductive Step where
  | sendNewSession (task : Nat) (tempId : String)
  | getOrConnect (task : Nat) (sessionId : String) (hasMeta : Bool)
  | acquire (task : Nat)
  | readMeta (task : Nat) (found : Bool)
  | ensureCapacity (task : Nat)
  | buildFails (task : Nat)
  | register (task managed : Nat) (stored : Status) (time : Int)
  | started (task : Nat) (ok : Bool)
  | resolve (managed : Nat) (sdkId : String)
  | answered (task : Nat) (ok : Bool)
  | cleaned (task : Nat)
  | closeSession (task : Nat) (sessionId : String)
  | cleanupIdle (task : Nat) (sessionId : String)
  | evicted (task : Nat)
  | patrolOnce (task : Nat) (now delay : Int)
  | patrolNext (task : Nat)
  | cancelPatrol (task : Nat)
  | shutdownGracefully (task : Nat)
  | shutdownNext (task evictor : Nat)
  | turn (managed : Nat) (status : Status) (time : Int)
  | actorExits (managed : Nat)
  deriving DecidableEq, Repr

namespace State

def setPhase (s : State) (task : Nat) (phase : Phase) : State :=
  { s with tasks := s.tasks.set task phase }

def setManaged (s : State) (managed : Nat) (new : Managed) : State :=
  { s with managed := s.managed.set managed new }

/-- The session can be used: it is registered and not being disconnected. -/
def usable (s : State) (sessionId : String) : Bool :=
  decide (sessionId ∈ s.sessions.keys) && !s.disconnecting.contains sessionId

def isLive (s : State) (managed : Nat) : Bool := (s.managed.get? managed).any Managed.actorLive

/-- The sessions that `_ensure_capacity` counts. -/
def active (s : State) : List (Nat × Managed) :=
  (s.sessions.values.filterMap fun managed => (s.managed.get? managed).map fun m => (managed, m)).filter
    fun pair => !s.disconnecting.contains pair.2.sessionId

/-- The least recently active session that is not running. -/
def victim (s : State) : Option Nat :=
  let evictable := s.active.filter fun pair => pair.2.status != .running
  ((evictable.insertionSort fun a b => a.2.lastActivity ≤ b.2.lastActivity).head?).map Prod.fst

def release (s : State) : Target → State
  | .newSession _ => s
  | .connect _ lock => { s with held := s.held.erase lock }

/-- The call returns or raises. -/
def leave (s : State) (task : Nat) (target : Target) : State :=
  (s.release target).setPhase task .finished

def resume (s : State) (task : Nat) : Next → State
  | .done => s.setPhase task .finished
  | .build target => s.setPhase task (.building target)
  | .patrol now delay rest => s.setPhase task (.patrolling now delay rest)

/-- `_evict_one` to its first await. -/
def beginEvict (s : State) (task managed : Nat) (next : Next) : State :=
  match s.managed.get? managed with
  | none => s.resume task next
  | some m =>
      if s.disconnecting.contains m.sessionId then s.resume task next
      else { s with disconnecting := m.sessionId :: s.disconnecting }.setPhase task
        (.evicting m.sessionId managed next)

/-- The `finally` of `_evict_one`. -/
def endEvict (s : State) (sessionId : String) : State :=
  { s with
    sessions := s.sessions.erase sessionId
    connectLocks := s.connectLocks.erase sessionId
    disconnecting := s.disconnecting.filter fun other => other != sessionId }

/-- `get_or_connect` with its lock: check again, then go on. -/
def enterLock (s : State) (task : Nat) (sessionId : String) (lock : Nat) (hasMeta : Bool) : State :=
  if s.usable sessionId then s.setPhase task .finished
  else
    let target := Target.connect sessionId lock
    { s with held := s.held.set lock task }.setPhase task
      (if hasMeta then .checking target else .reading target)

end State

section Steps

variable (limit : Nat)

/-- A task that starts has a number of its own. -/
def begin (s : State) (task : Nat) (next : State) : Option State :=
  if task ∈ s.tasks.keys then none else some next

/-- One session of the list that `_patrol_once` has taken. -/
def patrolTurn (s : State) (task : Nat) (now delay : Int) : List (String × Nat) → State
  | [] => s.setPhase task .finished
  | (sessionId, managed) :: rest =>
      let skip := (s.managed.get? managed).all fun m => m.status == .running ||
        s.disconnecting.contains sessionId || decide (now - m.lastActivity ≤ delay * 2)
      match skip, s.sessions.get? sessionId with
      | false, some current => s.beginEvict task current (.patrol now delay rest)
      | _, _ => s.setPhase task (.patrolling now delay rest)

def resolveTurn (s : State) (managed : Nat) (m : Managed) (sdkId : String) : State :=
  if m.sessionId ≠ sdkId ∧ m.sessionId ∈ s.sessions.keys then
    { s with sessions := (s.sessions.erase m.sessionId).set sdkId managed }.setManaged managed
      { m with sessionId := sdkId, resolved := true }
  else s.setManaged managed { m with resolved := true }

def step (s : State) : Step → Option State
  | .sendNewSession task tempId =>
      begin s task (s.setPhase task (.checking (.newSession tempId)))
  | .getOrConnect task sessionId hasMeta =>
      begin s task <|
        if s.usable sessionId then s.setPhase task .finished
        else
          -- A new lock object gets the number of the task that makes it.
          let lock := (s.connectLocks.get? sessionId).getD task
          let s := { s with connectLocks := s.connectLocks.set sessionId lock }
          if lock ∈ s.held.keys then s.setPhase task (.waiting sessionId lock hasMeta)
          else s.enterLock task sessionId lock hasMeta
  | .acquire task =>
      match s.tasks.get? task with
      | some (.waiting sessionId lock hasMeta) =>
          if lock ∈ s.held.keys then none else some (s.enterLock task sessionId lock hasMeta)
      | _ => none
  | .readMeta task found =>
      match s.tasks.get? task with
      | some (.reading target) =>
          some (if found then s.setPhase task (.checking target) else s.leave task target)
      | _ => none
  | .ensureCapacity task =>
      match s.tasks.get? task with
      | some (.checking target) =>
          if s.active.length < limit then some (s.setPhase task (.building target))
          else match s.victim with
            | some managed => some (s.beginEvict task managed (.build target))
            | none => some (s.leave task target)
      | _ => none
  | .buildFails task =>
      match s.tasks.get? task with
      | some (.building target) => some (s.leave task target)
      | _ => none
  | .register task managed stored time =>
      match s.tasks.get? task with
      | some (.building target) =>
          if managed ∈ s.managed.keys then none
          else
            let m : Managed := match target with
              | .newSession tempId => ⟨tempId, .running, time, true, false, false⟩
              | .connect sessionId _ => ⟨sessionId, stored, time, true, false, true⟩
            some (({ s with sessions := s.sessions.set target.sessionId managed }.setManaged managed
              m).setPhase task (.starting target managed))
      | _ => none
  | .started task ok =>
      match s.tasks.get? task with
      | some (.starting target managed) => (s.managed.get? managed).bind fun m =>
          if ok then
            let s := s.setManaged managed { m with processing := true }
            some (match target with
              | .newSession tempId => s.setPhase task (.sending tempId managed)
              | .connect _ _ => s.leave task target)
          else if m.actorLive then none
          else some ({ s with sessions := s.sessions.erase target.sessionId }.leave task target)
      | _ => none
  | .resolve managed sdkId => (s.managed.get? managed).bind fun m =>
      if m.processing && !m.resolved then some (resolveTurn s managed m sdkId) else none
  | .answered task ok =>
      match s.tasks.get? task with
      | some (.sending tempId managed) => (s.managed.get? managed).bind fun m =>
          if ok then if m.resolved then some (s.setPhase task .finished) else none
          else some ({ s with sessions := (s.sessions.erase tempId).erase m.sessionId }.setPhase task
            (.cleaning managed))
      | _ => none
  | .cleaned task =>
      match s.tasks.get? task with
      | some (.cleaning managed) => if s.isLive managed then none else some (s.setPhase task .finished)
      | _ => none
  | .closeSession task sessionId =>
      begin s task <| match s.sessions.get? sessionId with
        | some managed => s.beginEvict task managed .done
        | none => s.setPhase task .finished
  | .cleanupIdle task sessionId =>
      begin s task <| match s.sessions.get? sessionId with
        | some managed =>
            if (s.managed.get? managed).any fun m => m.status != .running && m.status != .closed then
              s.beginEvict task managed .done
            else s.setPhase task .finished
        | none => s.setPhase task .finished
  | .evicted task =>
      match s.tasks.get? task with
      | some (.evicting sessionId managed next) =>
          if s.isLive managed then none else some ((s.endEvict sessionId).resume task next)
      | _ => none
  | .patrolOnce task now delay =>
      begin s task (s.setPhase task (.patrolling now delay s.sessions.entries))
  | .patrolNext task =>
      match s.tasks.get? task with
      | some (.patrolling now delay rest) => some (patrolTurn s task now delay rest)
      | _ => none
  | .cancelPatrol task =>
      match s.tasks.get? task with
      | some (.patrolling _ _ _) => some (s.setPhase task .finished)
      -- The cancellation ends the wait for the disconnect; later awaits swallow it.
      | some (.evicting sessionId managed (.patrol _ _ _)) =>
          if s.isLive managed then some ((s.endEvict sessionId).setPhase task .finished) else none
      | _ => none
  | .shutdownGracefully task =>
      begin s task (s.setPhase task (.shuttingDown s.sessions.values))
  | .shutdownNext task evictor =>
      match s.tasks.get? task with
      | some (.shuttingDown (managed :: rest)) =>
          if evictor ∈ s.tasks.keys then none
          else some ((s.setPhase task (.shuttingDown rest)).beginEvict evictor managed .done)
      | _ => none
  | .turn managed status time => (s.managed.get? managed).map fun m =>
      s.setManaged managed { m with status := status, lastActivity := time }
  | .actorExits managed => (s.managed.get? managed).map fun m =>
      s.setManaged managed { m with actorLive := false }

end Steps

end ArcReel.Agent.Registry
