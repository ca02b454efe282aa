import ArcReel.Agent.EventLog

/-! `stream_entry_events` of `server.agent_runtime.service`, the appends of the inbox
and of `send_message` to its session, and the broadcasts that follow them. -/

namespace ArcReel.Agent.EntryStream
open ArcReel.Lib ArcReel.Agent.EventLog

/-- What a subscriber of the session's channel gets. -/
inductive Message (ε : Type) where
  | logEntry (row : LogRow ε)
  | logDelta
  | logTurnComplete
  | askUserQuestion
  | runtimeStatus (terminal : Bool)
  | result
  | other
  deriving DecidableEq, Repr

/-- What the stream yields. -/
inductive Event (ε : Type) where
  | entry (row : LogRow ε)
  | draft
  | question
  | delta
  | status
  deriving DecidableEq, Repr

def Message.row? {ε : Type} : Message ε → Option (LogRow ε)
  | .logEntry row => some row
  | _ => none

def Event.row? {ε : Type} : Event ε → Option (LogRow ε)
  | .entry row => some row
  | _ => none

@[simp] theorem Message.row?_logEntry {ε : Type} (row : LogRow ε) :
    (Message.logEntry row).row? = some row := rfl

@[simp] theorem Event.row?_entry {ε : Type} (row : LogRow ε) : (Event.entry row).row? = some row := rfl

/-- Where the stream stands: before it knows the status, before the subscription, before the read
of the log, in the loop over its rows (`live` tells whether it is subscribed), in the loop over
the channel, or at its end. -/
inductive Phase (ε : Type) where
  | starting
  | subscribing
  | listing (live : Bool)
  | replaying (live : Bool) (rest : List (LogRow ε))
  | following (pendingResult : Bool) (drainBeats : Nat)
  | ended
  deriving DecidableEq, Repr

/-- `answer` are the rows that the stream has read from the log. -/
structure Stream (ε : Type) where
  afterSeq : Int
  lastSeq : Int
  phase : Phase ε
  queue : Option (List (Message ε))
  answer : List (LogRow ε)
  yielded : List (Event ε)
  deriving DecidableEq, Repr

def Stream.start {ε : Type} (afterSeq : Int) : Stream ε :=
  ⟨afterSeq, afterSeq, .starting, none, [], []⟩

/-- The log of the session, the appends that are committed and not yet broadcast, and the stream. -/
structure State (ε : Type) where
  rows : List (LogRow ε)
  appends : Dict Nat (List (LogRow ε))
  stream : Stream ε

def State.start {ε : Type} (afterSeq : Int) : State ε := ⟨[], .empty, .start afterSeq⟩

inductive Step (ε : Type) where
  | commit (id : Nat) (entries : List ε) (clientKey : Option String)
  | broadcast (id : Nat)
  | announce (message : Message ε)
  | begin (running : Bool)
  | subscribe
  | list
  | yield
  | settle (questions : Nat) (running : Bool)
  | receive
  | heartbeat (running : Bool)
  | disconnect
  deriving DecidableEq, Repr

section Steps

variable {ε : Type} (sessionId : String)

/-- The channel puts a message into the queue of the subscriber. -/
def Stream.deliver (stream : Stream ε) (messages : List (Message ε)) : Stream ε :=
  { stream with queue := stream.queue.map (· ++ messages) }

def Stream.emit (stream : Stream ε) (events : List (Event ε)) (phase : Phase ε) : Stream ε :=
  { stream with yielded := stream.yielded ++ events, phase := phase }

/-- One turn of the loop over the channel. -/
def Stream.receive (stream : Stream ε) (pendingResult : Bool) (drainBeats : Nat) :
    Message ε → Stream ε
  | .logEntry row =>
      if stream.lastSeq < row.seq then
        { stream.emit [.entry row] (.following pendingResult drainBeats) with lastSeq := row.seq }
      else stream
  | .logDelta => stream.emit [.delta] (.following pendingResult drainBeats)
  | .logTurnComplete =>
      if pendingResult then stream.emit [.status] .ended
      else stream
  | .askUserQuestion => stream.emit [.question] (.following pendingResult drainBeats)
  | .runtimeStatus terminal => if terminal then stream.emit [.status] .ended else stream
  | .result => { stream with phase := .following true drainBeats }
  | .other => stream

/-- The idle beat of the channel. -/
def Stream.heartbeat (stream : Stream ε) (pendingResult : Bool) (drainBeats : Nat) (running : Bool) :
    Stream ε :=
  if pendingResult then
    if 2 ≤ drainBeats + 1 then stream.emit [.status] .ended
    else { stream with phase := .following pendingResult (drainBeats + 1) }
  else if running then stream
  else stream.emit [.status] .ended

/-- A step of the consumer alone. -/
def streamStep (rows : List (LogRow ε)) (stream : Stream ε) : Step ε → Option (Stream ε)
  | .begin running =>
      match stream.phase with
      | .starting => some { stream with phase := if running then .subscribing else .listing false }
      | _ => none
  | .subscribe =>
      match stream.phase with
      | .subscribing => some { stream with phase := .listing true, queue := some [] }
      | _ => none
  | .list =>
      match stream.phase with
      | .listing live =>
          let answer := listAfter rows sessionId stream.lastSeq
          some { stream with phase := .replaying live answer, answer := answer }
      | _ => none
  | .yield =>
      match stream.phase with
      | .replaying live (row :: rest) =>
          some { stream.emit [.entry row] (.replaying live rest) with
            lastSeq := max stream.lastSeq row.seq }
      | _ => none
  | .settle questions running =>
      match stream.phase with
      | .replaying false [] => some (stream.emit [.status] .ended)
      | .replaying true [] =>
          let opening := .draft :: List.replicate questions .question
          if running then some (stream.emit opening (.following false 0))
          else some (stream.emit (opening ++ [.status]) .ended)
      | _ => none
  | .receive =>
      match stream.phase, stream.queue with
      | .following pendingResult drainBeats, some (message :: later) =>
          some ({ stream with queue := some later }.receive pendingResult drainBeats message)
      | _, _ => none
  | .heartbeat running =>
      match stream.phase, stream.queue with
      | .following pendingResult drainBeats, some [] =>
          some (stream.heartbeat pendingResult drainBeats running)
      | _, _ => none
  | .disconnect =>
      match stream.phase with
      | .following _ _ => some { stream with phase := .ended }
      | _ => none
  | _ => none

/-- A commit numbers its entries from the largest number on; its broadcast sends them in order. -/
def step (s : State ε) : Step ε → Option (State ε)
  | .commit id entries clientKey =>
      if id ∈ s.appends.keys then none
      else
        let new := newRows sessionId clientKey (nextSeq s.rows sessionId) s.rows.length entries
        some { s with rows := s.rows ++ new, appends := s.appends.set id new }
  | .broadcast id => (s.appends.get? id).map fun rows =>
      { s with appends := s.appends.erase id, stream := s.stream.deliver (rows.map .logEntry) }
  | .announce (.logEntry _) => none
  | .announce message => some { s with stream := s.stream.deliver [message] }
  | next => (streamStep sessionId s.rows s.stream next).map fun stream => { s with stream := stream }

end Steps

/-- The entries that the stream has yielded. -/
def Stream.entries {ε : Type} (stream : Stream ε) : List (LogRow ε) :=
  stream.yielded.filterMap Event.row?

end ArcReel.Agent.EntryStream
