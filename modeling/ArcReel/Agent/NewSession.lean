import ArcReel.Agent.EventLog

/-! `send_or_create` of `server.agent_runtime.service` for new chats: the map of
accepted client keys, the lock of a key, the look-up in the event log and the
creation of the session. A step is the code between two awaits. -/

namespace ArcReel.Agent.NewSession
open ArcReel.Lib ArcReel.Agent.EventLog

/-- An entry with the time at which its row was made. -/
structure Stamped (ε : Type) where
  entry : ε
  createdAt : Int
  deriving DecidableEq, Repr

/-- A row of the session metadata; `clientKey` is the key of the request that has created it. -/
structure SessionMeta where
  sessionId : String
  projectName : String
  clientKey : Option String
  deriving DecidableEq, Repr

/-- Where a call of `send_or_create` without session id stands. The first five are awaits of
`_find_accepted_new_session`, with and without the lock of the key. -/
inductive Phase (ε : Type) where
  | reading (locked : Bool)
  | mapped (locked : Bool) (sessionId : String)
  | matching (locked : Bool) (row : LogRow (Stamped ε))
  | recovering (locked : Bool)
  | recovered (locked : Bool) (row : LogRow (Stamped ε))
  | waiting
  | creating
  | created (sessionId : String)
  | appended (row : LogRow (Stamped ε))
  | accepted (row : LogRow (Stamped ε))
  | raised
  deriving DecidableEq, Repr

structure Call (ε : Type) where
  projectName : String
  clientKey : Option String
  entry : ε
  phase : Phase ε
  deriving DecidableEq, Repr

/-- `clientKeys` is the in-process map of accepted keys, oldest first; `locks` names the holder of
the lock of a key. -/
structure State (ε : Type) where
  sessions : List SessionMeta
  rows : List (LogRow (Stamped ε))
  clientKeys : Dict String String
  locks : Dict String Nat
  calls : Dict Nat (Call ε)

def State.start {ε : Type} : State ε := ⟨[], [], .empty, .empty, .empty⟩

inductive Step (ε : Type) where
  | sendOrCreate (id : Nat) (projectName : String) (clientKey : Option String) (entry : ε)
  | lookup (id : Nat) (pick : Nat)
  | acquire (id : Nat)
  | createMeta (id : Nat) (sessionId : String)
  | appendInitial (id : Nat) (createdAt : Int)
  | finish (id : Nat)
  | fail (id : Nat)
  | restart
  | sendMessage (sessionId : String) (clientKey : Option String) (entry : ε) (createdAt : Int)
  deriving DecidableEq, Repr

section Steps

variable {ε : Type} (maxKeys : Nat)

/-- A client key counts only if it is not empty. -/
def truthy (clientKey : Option String) : Option String := clientKey.filter fun key => !key.isEmpty

/-- The rows among which `find_new_session_by_client_key` returns one: with the key, number 0 and
the earliest time. -/
def oldest (rows : List (LogRow (Stamped ε))) (clientKey : String) : List (LogRow (Stamped ε)) :=
  let found := rows.filter fun row => row.clientKey == some clientKey && row.seq == 0
  found.filter fun row => found.all fun other => decide (row.payload.createdAt ≤ other.payload.createdAt)

def projectOf (sessions : List SessionMeta) (sessionId : String) : Option String :=
  (sessions.find? fun session => session.sessionId == sessionId).map SessionMeta.projectName

/-- `_new_session_matches_project`: a session without metadata does not block. -/
def matchesProject (sessions : List SessionMeta) (sessionId projectName : String) : Bool :=
  (projectOf sessions sessionId).all fun owner => owner == projectName

/-- `_record_new_session_client_key`. -/
def record (clientKeys : Dict String String) (clientKey sessionId : String) : Dict String String :=
  let moved := (clientKeys.erase clientKey).set clientKey sessionId
  moved.drop (moved.size - maxKeys)

namespace State

def setPhase (s : State ε) (id : Nat) (call : Call ε) (phase : Phase ε) : State ε :=
  { s with calls := s.calls.set id { call with phase := phase } }

/-- The call leaves the `async with` of the lock, if it is inside. -/
def release (s : State ε) (id : Nat) (call : Call ε) : State ε :=
  match truthy call.clientKey with
  | some key => if s.locks.get? key = some id then { s with locks := s.locks.erase key } else s
  | none => s

/-- A look-up has found nothing. -/
def missed (s : State ε) (id : Nat) (call : Call ε) (locked : Bool) : State ε :=
  s.setPhase id call (if locked then .creating else .waiting)

/-- The call returns `accepted`. -/
def accept (s : State ε) (id : Nat) (call : Call ε) (row : LogRow (Stamped ε)) : State ε :=
  (s.release id call).setPhase id call (.accepted row)

end State

/-- One await of `_find_accepted_new_session`; `pick` chooses among rows of the same time. -/
def lookupTurn (s : State ε) (id : Nat) (call : Call ε) (key : String) (pick : Nat) :
    Option (State ε) :=
  match call.phase with
  | .reading locked =>
      match s.clientKeys.get? key with
      | some sessionId => some (s.setPhase id call (.mapped locked sessionId))
      | none => some (s.setPhase id call (.recovering locked))
  | .mapped locked sessionId =>
      match findByClientKey s.rows sessionId key with
      | some row => some (s.setPhase id call (.matching locked row))
      | none =>
          let clientKeys := if s.clientKeys.get? key = some sessionId then s.clientKeys.erase key
            else s.clientKeys
          some ({ s with clientKeys := clientKeys }.setPhase id call (.recovering locked))
  | .matching locked row =>
      if matchesProject s.sessions row.sessionId call.projectName then
        some ({ s with clientKeys := record maxKeys s.clientKeys key row.sessionId }.accept id call row)
      else some (s.setPhase id call (.recovering locked))
  | .recovering locked =>
      match (oldest s.rows key)[pick]? with
      | some row => some (s.setPhase id call (.recovered locked row))
      | none => if (oldest s.rows key).isEmpty then some (s.missed id call locked) else none
  | .recovered locked row =>
      if matchesProject s.sessions row.sessionId call.projectName then
        let known := s.clientKeys.get? key
        let clientKeys := if known = none ∨ known = some row.sessionId then
          record maxKeys s.clientKeys key row.sessionId else s.clientKeys
        some ({ s with clientKeys := clientKeys }.accept id call row)
      else some (s.missed id call locked)
  | _ => none

def Call.isOver (call : Call ε) : Bool :=
  match call.phase with
  | .accepted _ | .raised => true
  | _ => false

def step (s : State ε) : Step ε → Option (State ε)
  | .sendOrCreate id projectName clientKey entry =>
      if id ∈ s.calls.keys then none
      else some { s with calls := s.calls.set id ⟨projectName, clientKey, entry,
        if (truthy clientKey).isSome then .reading false else .creating⟩ }
  | .lookup id pick => (s.calls.get? id).bind fun call =>
      (truthy call.clientKey).bind fun key => lookupTurn maxKeys s id call key pick
  | .acquire id => (s.calls.get? id).bind fun call =>
      match truthy call.clientKey, call.phase with
      | some key, .waiting =>
          if (s.locks.get? key).isSome then none
          else some ({ s with locks := s.locks.set key id }.setPhase id call (.reading true))
      | _, _ => none
  | .createMeta id sessionId => (s.calls.get? id).bind fun call =>
      match call.phase with
      | .creating =>
          -- The client hands out a new session id.
          if s.sessions.any (fun session => session.sessionId == sessionId) then none
          else
            let sessions := s.sessions ++ [⟨sessionId, call.projectName, call.clientKey⟩]
            some ({ s with sessions := sessions }.setPhase id call (.created sessionId))
      | _ => none
  | .appendInitial id createdAt => (s.calls.get? id).bind fun call =>
      match call.phase with
      | .created sessionId =>
          let row : LogRow (Stamped ε) := ⟨sessionId, nextSeq s.rows sessionId,
            ⟨call.entry, createdAt⟩, call.clientKey, s.rows.length⟩
          some ({ s with rows := s.rows ++ [row] }.setPhase id call (.appended row))
      | _ => none
  | .finish id => (s.calls.get? id).bind fun call =>
      match call.phase with
      | .appended row =>
          let clientKeys := match truthy call.clientKey with
            | some key => record maxKeys s.clientKeys key row.sessionId
            | none => s.clientKeys
          some ({ s with clientKeys := clientKeys }.accept id call row)
      | _ => none
  | .fail id => (s.calls.get? id).bind fun call =>
      if call.isOver then none else some ((s.release id call).setPhase id call .raised)
  | .restart => some { s with clientKeys := .empty, locks := .empty, calls := .empty }
  | .sendMessage sessionId clientKey entry createdAt =>
      if (projectOf s.sessions sessionId).isNone ||
          clientKey.any (fun key => (findByClientKey s.rows sessionId key).isSome) then some s
      else some { s with rows := s.rows ++ [⟨sessionId, nextSeq s.rows sessionId, ⟨entry, createdAt⟩,
        clientKey, s.rows.length⟩] }

end Steps

end ArcReel.Agent.NewSession
