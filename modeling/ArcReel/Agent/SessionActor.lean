import ArcReel.Lib.Run

/-! `SessionActor` of `server.agent_runtime.session_actor`: one task that owns the
client and the queue of commands. A step is the code between two awaits, or one of
the two tasks that `_drive_query` waits for. -/

namespace ArcReel.Agent.Actor
open ArcReel.Lib

inductive CommandType where
  | query
  | interrupt
  | disconnect
  deriving DecidableEq, Repr

inductive Fault where
  | actorClosed
  | sessionBusy
  | stopAsyncIteration
  | raised (what : String)
  deriving DecidableEq, Repr

structure SessionCommand where
  type : CommandType
  sent : Bool
  done : Bool
  error : Option Fault
  accepted : Bool
  deriving DecidableEq, Repr

namespace SessionCommand

def new (type : CommandType) : SessionCommand := ⟨type, false, false, none, false⟩

def complete (error : Option Fault) (cmd : SessionCommand) : SessionCommand :=
  { cmd with error := error.or cmd.error, sent := true, done := true }

/-- Nobody waits for the command. -/
def released (cmd : SessionCommand) : Bool := cmd.sent && cmd.done

end SessionCommand

/-- The task that waits for the next message. -/
inductive MsgTask where
  | pending
  | message
  | raised (fault : Fault)
  deriving DecidableEq, Repr

/-- The task that waits for the next command. -/
inductive CmdTask where
  | pending
  | taken (cmd : Nat)
  deriving DecidableEq, Repr

/-- The variables of `_drive_query`. -/
structure Drive where
  query : Nat
  msgTask : MsgTask
  cmdTask : CmdTask
  pendingQuery : Option Nat
  deriving DecidableEq, Repr

/-- What the actor awaits: `__aenter__`, the queue, `client.query`, the two tasks,
`client.interrupt` for a command, or `__aexit__`. -/
inductive Phase where
  | connecting
  | idle
  | querying (cmd : Nat)
  | waiting (drive : Drive)
  | interrupting (drive : Drive) (cmd : Nat)
  | exiting (fault : Option Fault)
  | finished (fault : Option Fault)
  deriving DecidableEq, Repr

/-- Commands are named by the order of their `enqueue`. -/
structure State where
  commands : List SessionCommand
  queue : List Nat
  phase : Phase
  deriving DecidableEq, Repr

def State.start : State := ⟨[], [], .connecting⟩

namespace State

def complete (s : State) (cmd : Nat) (error : Option Fault) : State :=
  { s with commands := s.commands.modify cmd (SessionCommand.complete error) }

def setDone (s : State) (cmd : Nat) : State :=
  { s with commands := s.commands.modify cmd fun cmd => { cmd with done := true } }

def typeOf (s : State) (cmd : Nat) : Option CommandType := s.commands[cmd]?.map SessionCommand.type

/-- The body of the loop of `_command_loop` for one command. -/
def runCommand (s : State) (cmd : Nat) : State :=
  match s.typeOf cmd with
  | some .disconnect => { s.complete cmd none with phase := .exiting none }
  | some .query => { s with phase := .querying cmd }
  | some .interrupt => { s.complete cmd none with phase := .idle }
  | none => { s with phase := .idle }

/-- The next turn of `_command_loop` after `_drive_query` has returned. -/
def resume (s : State) : Option Nat → State
  | some deferred => s.runCommand deferred
  | none => { s with phase := .idle }

/-- The `finally` of `_drive_query`: a parked query that leaves with it is released. -/
def releasePending (s : State) (pendingQuery : Option Nat) : State :=
  match pendingQuery.bind fun cmd => s.commands[cmd]?.map fun row => (cmd, row) with
  | some (cmd, row) => if row.done then s else s.complete cmd (some (row.error.getD .actorClosed))
  | none => s

/-- An exception leaves `_drive_query` and `_command_loop`. -/
def raise (s : State) (drive : Drive) (fault : Fault) : State :=
  { (s.releasePending drive.pendingQuery).complete drive.query (some fault) with
    phase := .exiting (some fault) }

/-- The part of the loop of `_drive_query` that handles a finished `cmd_task`. -/
def handleCmd (s : State) (drive : Drive) : State :=
  match drive.cmdTask with
  | .pending => { s with phase := .waiting drive }
  | .taken cmd =>
      if s.typeOf cmd = some .query then
        match drive.pendingQuery with
        | some _ => { s.complete cmd (some .sessionBusy) with
            phase := .waiting { drive with cmdTask := .pending } }
        | none => { s with
            phase := .waiting { drive with cmdTask := .pending, pendingQuery := some cmd } }
      else { s with phase := .interrupting drive cmd }

/-- The end of the message stream. -/
def streamEnded (s : State) (drive : Drive) : State :=
  let s := s.setDone drive.query
  match drive.pendingQuery, drive.cmdTask with
  | some parked, .taken cmd => { s with queue := s.queue ++ [cmd] }.resume (some parked)
  | some parked, .pending => s.resume (some parked)
  | none, .taken cmd => s.resume (some cmd)
  | none, .pending => s.resume none

def drain (s : State) (fault : Option Fault) : State :=
  { s.queue.foldl (fun s cmd =>
      if s.commands[cmd]?.any SessionCommand.done then s
      else s.complete cmd (some (fault.getD .actorClosed))) s with
    queue := [], phase := .finished fault }

end State

/-- What the finished `msg_task` and the callback `on_message` make of it. -/
inductive Outcome where
  | nothing
  | consumed
  | stopped
  | raised (fault : Fault)
  deriving DecidableEq, Repr

def msgOutcome (msgTask : MsgTask) (onMessage : Option Fault) : Outcome :=
  match msgTask, onMessage with
  | .pending, _ => .nothing
  | .message, none => .consumed
  | .message, some .stopAsyncIteration => .stopped
  | .message, some fault => .raised fault
  | .raised .stopAsyncIteration, _ => .stopped
  | .raised fault, _ => .raised fault

inductive Step where
  | enqueue (type : CommandType)
  | connected (fault : Option Fault)
  | take
  | queried (fault receive : Option Fault)
  | received (msgTask : MsgTask)
  | cmdReady
  | wake (onMessage : Option Fault)
  | interrupted (fault : Option Fault)
  | exited (fault : Option Fault)
  deriving DecidableEq, Repr

/-- `enqueue` of the command that comes next. -/
def enqueue (s : State) (type : CommandType) : State :=
  match s.phase with
  | .finished fault => { s with
      commands := s.commands ++ [(SessionCommand.new type).complete (some (fault.getD .actorClosed))] }
  | _ => { s with
      commands := s.commands ++ [.new type], queue := s.queue ++ [s.commands.length] }

def accept (s : State) (cmd : Nat) : State :=
  { s with commands := s.commands.modify cmd fun cmd => { cmd with accepted := true, sent := true } }

/-- `client.query` has returned or raised, and then `receive_response` may raise at once. -/
def queried (s : State) (cmd : Nat) : Option Fault → Option Fault → State
  | none, none => { accept s cmd with phase := .waiting ⟨cmd, .pending, .pending, none⟩ }
  | none, some fault => { (accept s cmd).complete cmd (some fault) with phase := .exiting (some fault) }
  | some fault, _ => { s.complete cmd (some fault) with phase := .exiting (some fault) }

/-- `asyncio.wait` has returned. -/
def wake (s : State) (drive : Drive) (onMessage : Option Fault) : State :=
  match msgOutcome drive.msgTask onMessage with
  | .raised fault => s.raise drive fault
  | .stopped => s.streamEnded drive
  | .consumed => s.handleCmd { drive with msgTask := .pending }
  | .nothing => s.handleCmd drive

/-- `client.interrupt` has returned or raised. -/
def interrupted (s : State) (drive : Drive) (cmd : Nat) (fault : Option Fault) : State :=
  if s.typeOf cmd = some .interrupt then
    match fault with
    | some fault => (s.complete cmd (some fault)).raise drive fault
    | none => { s.complete cmd none with phase := .waiting { drive with cmdTask := .pending } }
  else
    match fault with
    | some fault => s.raise drive fault
    | none => ((s.setDone drive.query).releasePending drive.pendingQuery).resume (some cmd)

def step (s : State) : Step → Option State
  | .enqueue type => some (enqueue s type)
  | .connected fault =>
      match s.phase, fault with
      | .connecting, none => some { s with phase := .idle }
      | .connecting, some fault => some (s.drain (some fault))
      | _, _ => none
  | .take =>
      match s.phase, s.queue with
      | .idle, cmd :: later => some ({ s with queue := later }.runCommand cmd)
      | _, _ => none
  | .queried fault receive =>
      match s.phase with
      | .querying cmd => some (queried s cmd fault receive)
      | _ => none
  | .received msgTask =>
      match s.phase with
      | .waiting drive =>
          if drive.msgTask = .pending then
            some { s with phase := .waiting { drive with msgTask := msgTask } }
          else none
      | .interrupting drive cmd =>
          if drive.msgTask = .pending then
            some { s with phase := .interrupting { drive with msgTask := msgTask } cmd }
          else none
      | _ => none
  | .cmdReady =>
      match s.phase, s.queue with
      | .waiting drive, cmd :: later =>
          if drive.cmdTask = .pending then
            some { s with queue := later, phase := .waiting { drive with cmdTask := .taken cmd } }
          else none
      | _, _ => none
  | .wake onMessage =>
      match s.phase with
      | .waiting drive =>
          if drive.msgTask = .pending ∧ drive.cmdTask = .pending then none
          else some (wake s drive onMessage)
      | _ => none
  | .interrupted fault =>
      match s.phase with
      | .interrupting drive cmd => some (interrupted s drive cmd fault)
      | _ => none
  | .exited fault =>
      match s.phase with
      | .exiting earlier => some (s.drain (fault.or earlier))
      | _ => none

end ArcReel.Agent.Actor
