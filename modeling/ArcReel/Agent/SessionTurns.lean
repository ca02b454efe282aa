import ArcReel.Agent.EventLog
import ArcReel.Agent.SessionActor
import ArcReel.Agent.SessionRegistry

/-! `send_message` of `server.agent_runtime.session_manager` on one resident session,
with the actor, the inbox task and `interrupt_session`. A step is the code between two
awaits. -/

namespace ArcReel.Agent.Turns
open ArcReel.Lib ArcReel.Agent.EventLog
open ArcReel.Agent.Registry (Status)

/-- Where a call of `send_message` stands. The number of a row is that of the user entry, and the
number of a command that of the prompt in the actor. -/
inductive CallPhase where
  | probing
  | appending
  | marking (seq : Option Int)
  | sending (seq : Option Int) (cmd : Nat)
  | compensating (seq : Int)
  | noting
  | returned (seq : Option Int) (cmd : Option Nat)
  | raised
  deriving DecidableEq, Repr

structure Call where
  clientKey : Option String
  hasEntry : Bool
  phase : CallPhase
  deriving DecidableEq, Repr

/-- What the inbox holds: a message of the turn of a prompt, or the notice that the actor has ended. -/
inductive Item where
  | result (cmd : Nat)
  | other
  | exit (fault : Option Actor.Fault)
  deriving DecidableEq, Repr

def Item.isResult : Item → Bool
  | .result _ => true
  | _ => false

/-- The payload of a row is the call whose user entry it is. `openTurns` are the prompts that the SDK
has accepted and whose turn has been neither finalised nor marked terminal; `resultSeen` says that the
stream of the present prompt has yielded its result. -/
structure State where
  rows : List (LogRow (Option Nat))
  status : Status
  actor : Actor.State
  inbox : List Item
  consuming : Bool
  calls : Dict Nat Call
  interruptCmd : Option Nat
  openTurns : List Nat
  resultSeen : Bool

def State.start : State := ⟨[], .idle, .start, [], true, .empty, none, [], false⟩

inductive Step where
  | sendMessage (id : Nat) (clientKey : Option String) (hasEntry : Bool)
  | probe (id : Nat)
  | append (id : Nat)
  | sendQuery (id : Nat)
  | answered (id : Nat)
  | compensate (id : Nat)
  | note (id : Nat)
  | actor (next : Actor.Step) (isResult : Bool)
  | process (final : Status)
  | logEntry
  | interruptSession
  | interruptDone
  deriving DecidableEq, Repr

section Steps

variable (sessionId : String)

namespace State

def setPhase (s : State) (id : Nat) (call : Call) (phase : CallPhase) : State :=
  { s with calls := s.calls.set id { call with phase := phase } }

/-- The check for a running session, and the code up to the next await. -/
def checkRunning (s : State) (id : Nat) (call : Call) : State :=
  if s.status = .running then s.setPhase id call .raised
  else s.setPhase id call (if call.hasEntry then .appending else .marking none)

/-- `append_user_entry`: an entry with the same key is returned and not sent again. -/
def appendUserEntry (s : State) (id : Nat) (call : Call) : State :=
  match call.clientKey.bind (findByClientKey s.rows sessionId) with
  | some row => s.setPhase id call (.returned (some row.seq) none)
  | none =>
      let seq := nextSeq s.rows sessionId
      let row : LogRow (Option Nat) := ⟨sessionId, seq, some id, call.clientKey, s.rows.length⟩
      { s with rows := s.rows ++ [row] }.setPhase id call (.marking (some seq))

/-- `send_query` to the wait for the command. -/
def sendQuery (s : State) (id : Nat) (call : Call) (seq : Option Int) : State :=
  { s with status := .running, actor := Actor.enqueue s.actor .query }.setPhase id call
    (.sending seq s.actor.commands.length)

/-- `send_query` after the wait: the call returns, or compensates its entry. -/
def answer (s : State) (id : Nat) (call : Call) (seq : Option Int) (cmd : Nat)
    (error : Option Actor.Fault) : State :=
  match error with
  | none => s.setPhase id call (.returned seq (some cmd))
  | some _ => { s with status := .error }.setPhase id call (seq.elim .noting .compensating)

/-- What the actor's callbacks put into the inbox. -/
def delivered (s : State) (next : Actor.Step) (isResult : Bool) : List Item :=
  match s.actor.phase, next with
  | .waiting drive, .wake none =>
      if drive.msgTask = .message then [if isResult then .result drive.query else .other] else []
  | .exiting earlier, .exited fault => [.exit (fault.or earlier)]
  | _, _ => []

/-- The prompt that `client.query` accepts in this step. -/
def acceptedPrompt (s : State) (next : Actor.Step) : Option Nat :=
  match s.actor.phase, next with
  | .querying cmd, .queried none _ => some cmd
  | _, _ => none

/-- The client: `receive_response` ends with the result message. -/
def clientAllows (s : State) : Actor.Step → Bool
  | .enqueue _ | .connected (some _) => false
  | .received msgTask => !s.resultSeen || msgTask == .raised .stopAsyncIteration
  | _ => true

def actorTurn (s : State) (next : Actor.Step) (isResult : Bool) : Option State :=
  if s.clientAllows next then
    (Actor.step s.actor next).map fun actor =>
      { s with
        actor := actor
        inbox := s.inbox ++ s.delivered next isResult
        openTurns := s.openTurns ++ (s.acceptedPrompt next).toList
        resultSeen := (s.resultSeen && (s.acceptedPrompt next).isNone) ||
          (s.delivered next isResult).any Item.isResult }
  else none

/-- One item of `_process_inbox`. -/
def processItem (s : State) (final : Status) : Option State :=
  match s.consuming, s.inbox with
  | true, .result cmd :: rest =>
      -- `_finalize_turn`; `resolve_result_status` never returns `running`.
      if final = .running then none
      else some { s with status := final, inbox := rest, openTurns := s.openTurns.erase cmd }
  | true, .other :: rest => some { s with inbox := rest }
  | true, .exit (some _) :: rest =>
      some { s with status := .error, inbox := rest, openTurns := [], consuming := false }
  | true, .exit none :: rest => some { s with inbox := rest, consuming := false }
  | _, _ => none

def interruptSession (s : State) : State :=
  if s.status = .running ∧ s.interruptCmd = none then
    { s with actor := Actor.enqueue s.actor .interrupt, interruptCmd := some s.actor.commands.length }
  else s

end State

def callTurn (s : State) (id : Nat)
    (turn : Call → CallPhase → Option State) : Option State :=
  (s.calls.get? id).bind fun call => turn call call.phase

def step (s : State) : Step → Option State
  | .sendMessage id clientKey hasEntry =>
      if id ∈ s.calls.keys then none
      else
        let call : Call := ⟨clientKey, hasEntry, .probing⟩
        if hasEntry && clientKey.isSome then some (s.setPhase id call .probing)
        else some (s.checkRunning id call)
  | .probe id => callTurn s id fun call phase =>
      if phase = .probing then
        match call.clientKey.bind (findByClientKey s.rows sessionId) with
        | some row => some (s.setPhase id call (.returned (some row.seq) none))
        | none => some (s.checkRunning id call)
      else none
  | .append id => callTurn s id fun call phase =>
      if phase = .appending then some (s.appendUserEntry sessionId id call) else none
  | .sendQuery id => callTurn s id fun call phase =>
      match phase with
      | .marking seq => some (s.sendQuery id call seq)
      | _ => none
  | .answered id => callTurn s id fun call phase =>
      match phase with
      | .sending seq cmd => s.actor.commands[cmd]?.bind fun row =>
          if row.sent then some (s.answer id call seq cmd row.error) else none
      | _ => none
  | .compensate id => callTurn s id fun call phase =>
      match phase with
      | .compensating seq =>
          some ({ s with rows := deleteEntry s.rows sessionId seq }.setPhase id call .noting)
      | _ => none
  | .note id => callTurn s id fun call phase =>
      if phase = .noting then some (s.setPhase id call .raised) else none
  | .actor next isResult => s.actorTurn next isResult
  | .process final => s.processItem final
  | .logEntry =>
      some { s with rows := s.rows ++ [⟨sessionId, nextSeq s.rows sessionId, none, none, s.rows.length⟩] }
  | .interruptSession => some s.interruptSession
  | .interruptDone => s.interruptCmd.bind fun cmd => s.actor.commands[cmd]?.bind fun row =>
      if row.done then
        some { s with interruptCmd := none, status := if row.error.isSome then .error else s.status }
      else none

end Steps

end ArcReel.Agent.Turns
