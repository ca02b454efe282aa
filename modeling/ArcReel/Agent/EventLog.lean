import Mathlib.Data.List.Sort
import ArcReel.Lib.Dict
import ArcReel.Lib.Run

/-! `EventLogStore` of `server.agent_runtime.event_log`: appends, idempotent user
entries, compensating deletes and cursor reads. A step is one statement of a call. -/

namespace ArcReel.Agent.EventLog
open ArcReel.Lib

/-- A row of the event log; `stamp` counts the rows that were written before it. -/
structure LogRow (ε : Type) where
  sessionId : String
  seq : Int
  payload : ε
  clientKey : Option String
  stamp : Nat
  deriving DecidableEq, Repr

section Statements

variable {ε : Type}

/-- `coalesce(max(seq), -1) + 1` of a session. -/
def nextSeq (rows : List (LogRow ε)) (sessionId : String) : Int :=
  ((rows.filter fun row => row.sessionId == sessionId).map LogRow.seq).foldl max (-1) + 1

def findByClientKey (rows : List (LogRow ε)) (sessionId clientKey : String) : Option (LogRow ε) :=
  rows.find? fun row => row.sessionId == sessionId && row.clientKey == some clientKey

def listAfter (rows : List (LogRow ε)) (sessionId : String) (afterSeq : Int) : List (LogRow ε) :=
  (rows.filter fun row => row.sessionId == sessionId && decide (afterSeq < row.seq)).insertionSort
    fun a b => a.seq ≤ b.seq

def deleteEntry (rows : List (LogRow ε)) (sessionId : String) (seq : Int) : List (LogRow ε) :=
  rows.filter fun row => !(row.sessionId == sessionId && row.seq == seq)

/-- The rows of consecutive entries. -/
def newRows (sessionId : String) (clientKey : Option String) :
    Int → Nat → List ε → List (LogRow ε)
  | _, _, [] => []
  | seq, stamp, entry :: later =>
      ⟨sessionId, seq, entry, clientKey, stamp⟩ :: newRows sessionId clientKey (seq + 1) (stamp + 1) later

/-- The primary key `(session_id, seq)` of a new row is taken. -/
def seqTaken (rows new : List (LogRow ε)) : Bool :=
  new.any fun row => rows.any fun other => other.sessionId == row.sessionId && other.seq == row.seq

/-- The unique index `(session_id, client_key)` refuses a new row. -/
def keyTaken (rows new : List (LogRow ε)) : Bool :=
  new.any fun row => row.clientKey.isSome &&
    rows.any fun other => other.sessionId == row.sessionId && other.clientKey == row.clientKey

end Statements

/-- Where a call of `append` or `append_user_entry` stands: before its look-up of the key, before
the `SELECT` of an attempt, before its `INSERT`, or before the look-up that follows a conflict of
the key. -/
inductive Phase (ε : Type) where
  | lookup
  | select (attempt : Nat)
  | insert (attempt : Nat) (seqStart : Int)
  | conflict
  | returned (entries : List (Int × ε)) (created : Bool)
  | raised
  deriving DecidableEq, Repr

def Phase.isOver {ε : Type} : Phase ε → Bool
  | .returned _ _ | .raised => true
  | _ => false

structure AppendCall (ε : Type) where
  sessionId : String
  entries : List ε
  clientKey : Option String
  phase : Phase ε
  deriving DecidableEq, Repr

/-- A reader of a session, with the answers it has got so far. -/
structure Reader (ε : Type) where
  sessionId : String
  cursor : Int
  reads : List (List (LogRow ε))
  deriving DecidableEq, Repr

/-- The table, every row that was ever written to it, the calls and the readers. -/
structure State (ε : Type) where
  rows : List (LogRow ε)
  written : List (LogRow ε)
  calls : Dict Nat (AppendCall ε)
  readers : Dict Nat (Reader ε)

def State.start {ε : Type} : State ε := ⟨[], [], .empty, .empty⟩

inductive Step (ε : Type) where
  | append (id : Nat) (sessionId : String) (entries : List ε) (clientKey : Option String)
  | appendUserEntry (id : Nat) (sessionId : String) (entry : ε) (clientKey : Option String)
  | turn (id : Nat) (keyFirst : Bool)
  | fail (id : Nat)
  | deleteEntry (sessionId : String) (seq : Int)
  | openReader (id : Nat) (sessionId : String)
  | read (id : Nat)
  deriving DecidableEq, Repr

def maxAppendRetry : Nat := 16

section Steps

variable {ε : Type} (uuid : ε → Option String)

def AppendCall.new (call : AppendCall ε) (seqStart : Int) (stamp : Nat) : List (LogRow ε) :=
  newRows call.sessionId (if call.entries.length = 1 then call.clientKey else none) seqStart stamp
    call.entries

/-- The entry under the key, if there is one. -/
def AppendCall.existing (call : AppendCall ε) (rows : List (LogRow ε)) : Option (LogRow ε) :=
  call.clientKey.bind (findByClientKey rows call.sessionId)

def State.setPhase (s : State ε) (id : Nat) (call : AppendCall ε) (phase : Phase ε) : State ε :=
  { s with calls := s.calls.set id { call with phase := phase } }

/-- The `INSERT` and commit of an attempt. If both constraints refuse it, `keyFirst` tells which
one the driver reports. -/
def insertTurn (s : State ε) (id : Nat) (call : AppendCall ε) (attempt : Nat) (seqStart : Int)
    (keyFirst : Bool) : State ε :=
  let new := call.new seqStart s.written.length
  if keyTaken s.rows new && (keyFirst || !seqTaken s.rows new) then s.setPhase id call .conflict
  else if seqTaken s.rows new then
    s.setPhase id call (if attempt + 1 = maxAppendRetry then .raised else .select (attempt + 1))
  else
    { s.setPhase id call (.returned (new.map fun row => (row.seq, row.payload)) true) with
      rows := s.rows ++ new, written := s.written ++ new }

def callTurn (s : State ε) (id : Nat) (call : AppendCall ε) (keyFirst : Bool) : Option (State ε) :=
  match call.phase with
  | .lookup =>
      match call.existing s.rows with
      | some row => some (s.setPhase id call (.returned [(row.seq, row.payload)] false))
      | none => some (s.setPhase id call (.select 0))
  | .select attempt => some (s.setPhase id call (.insert attempt (nextSeq s.rows call.sessionId)))
  | .insert attempt seqStart => some (insertTurn s id call attempt seqStart keyFirst)
  | .conflict =>
      match call.existing s.rows with
      | some row => some (s.setPhase id call (.returned [(row.seq, row.payload)]
          (call.entries.head?.any fun entry => uuid row.payload == uuid entry)))
      | none => some (s.setPhase id call .raised)
  | .returned _ _ | .raised => none

/-- The largest number of an answer, or the cursor. -/
def advance (cursor : Int) (answer : List (LogRow ε)) : Int :=
  (answer.map LogRow.seq).foldl max cursor

def Reader.read (reader : Reader ε) (rows : List (LogRow ε)) : Reader ε :=
  let answer := listAfter rows reader.sessionId reader.cursor
  { reader with cursor := advance reader.cursor answer, reads := reader.reads ++ [answer] }

def step (s : State ε) : Step ε → Option (State ε)
  | .append id sessionId entries clientKey =>
      if id ∈ s.calls.keys then none
      else some { s with calls := s.calls.set id ⟨sessionId, entries, clientKey,
        if entries.isEmpty then .returned [] false else .select 0⟩ }
  | .appendUserEntry id sessionId entry clientKey =>
      if id ∈ s.calls.keys then none
      else some { s with calls := s.calls.set id ⟨sessionId, [entry], clientKey,
        if clientKey.any fun key => !key.isEmpty then .lookup else .select 0⟩ }
  | .turn id keyFirst => (s.calls.get? id).bind fun call => callTurn uuid s id call keyFirst
  | .fail id => (s.calls.get? id).bind fun call =>
      if call.phase.isOver then none else some (s.setPhase id call .raised)
  | .deleteEntry sessionId seq => some { s with rows := EventLog.deleteEntry s.rows sessionId seq }
  | .openReader id sessionId =>
      if id ∈ s.readers.keys then none
      else some { s with readers := s.readers.set id ⟨sessionId, -1, []⟩ }
  | .read id => (s.readers.get? id).map fun reader =>
      { s with readers := s.readers.set id (reader.read s.rows) }

end Steps

section Rows

variable {ε : Type} {rows written : List (LogRow ε)} {sessionId : String}

theorem le_foldl_max (seqs : List Int) (low : Int) : low ≤ seqs.foldl max low := by
  induction seqs generalizing low with
  | nil => exact le_refl low
  | cons seq seqs ih => exact (le_max_left low seq).trans (ih (max low seq))

theorem le_foldl_max_of_mem {seqs : List Int} {seq : Int} (low : Int) (member : seq ∈ seqs) :
    seq ≤ seqs.foldl max low := by
  induction seqs generalizing low with
  | nil => cases member
  | cons head seqs ih =>
    cases List.mem_cons.mp member with
    | inl same =>
      rw [same]
      exact (le_max_right low head).trans (le_foldl_max seqs (max low head))
    | inr later => exact ih (max low head) later

theorem foldl_max_mem (seqs : List Int) (low : Int) :
    seqs.foldl max low = low ∨ seqs.foldl max low ∈ seqs := by
  induction seqs generalizing low with
  | nil => exact .inl rfl
  | cons head seqs ih =>
    rw [List.foldl_cons]
    cases ih (max low head) with
    | inr later => exact .inr (.tail head later)
    | inl same =>
      rw [same]
      cases le_total low head with
      | inl larger =>
        rw [max_eq_right larger]
        exact .inr (.head seqs)
      | inr smaller => exact .inl (max_eq_left smaller)

/-- The next number is 0 or follows the number of a row. -/
theorem nextSeq_cases (rows : List (LogRow ε)) (sessionId : String) :
    nextSeq rows sessionId = 0 ∨
      ∃ row ∈ rows, row.sessionId = sessionId ∧ row.seq = nextSeq rows sessionId - 1 := by
  unfold nextSeq
  cases foldl_max_mem ((rows.filter fun row => row.sessionId == sessionId).map LogRow.seq) (-1) with
  | inl empty =>
    rw [empty]
    exact .inl rfl
  | inr found =>
    obtain ⟨row, listed, same⟩ := List.mem_map.mp found
    have kept := List.mem_filter.mp listed
    exact .inr ⟨row, kept.1, beq_iff_eq.mp kept.2, by omega⟩

theorem lt_nextSeq {row : LogRow ε} (member : row ∈ rows) (named : row.sessionId = sessionId) :
    row.seq < nextSeq rows sessionId := by
  have listed : row.seq ∈ (rows.filter fun row => row.sessionId == sessionId).map LogRow.seq :=
    List.mem_map_of_mem (List.mem_filter.mpr ⟨member, beq_iff_eq.mpr named⟩)
  have le := le_foldl_max_of_mem (-1) listed
  unfold nextSeq
  omega

theorem mem_listAfter {afterSeq : Int} {row : LogRow ε} :
    row ∈ listAfter rows sessionId afterSeq ↔
      row ∈ rows ∧ row.sessionId = sessionId ∧ afterSeq < row.seq := by
  unfold listAfter
  simp [List.mem_insertionSort]

theorem nodup_listAfter {afterSeq : Int} (distinct : rows.Nodup) :
    (listAfter rows sessionId afterSeq).Nodup :=
  (List.perm_insertionSort _ _).nodup_iff.mpr (distinct.filter _)

/-- The new rows have consecutive numbers and stamps. -/
theorem mem_newRows {clientKey : Option String} {seq : Int} {stamp : Nat} {entries : List ε}
    {row : LogRow ε} (member : row ∈ newRows sessionId clientKey seq stamp entries) :
    row.sessionId = sessionId ∧ seq ≤ row.seq ∧ row.seq - seq = (row.stamp : Int) - stamp ∧
      row.seq < seq + entries.length := by
  induction entries generalizing seq stamp with
  | nil => cases member
  | cons entry entries ih =>
    rw [List.length_cons]
    push_cast
    cases List.mem_cons.mp member with
    | inl same =>
      rw [same]
      exact ⟨rfl, le_refl seq, by simp, by simp only; omega⟩
    | inr later =>
      have deeper := ih later
      push_cast at deeper
      exact ⟨deeper.1, by omega, by omega, by omega⟩

theorem newRows_seq_mem {clientKey : Option String} {entries : List ε} :
    ∀ (seq : Int) (stamp : Nat) (n : Int), seq ≤ n → n < seq + entries.length →
      ∃ row ∈ newRows sessionId clientKey seq stamp entries, row.seq = n := by
  induction entries with
  | nil =>
    intro seq stamp n low high
    rw [List.length_nil] at high
    omega
  | cons entry entries ih =>
    intro seq stamp n low high
    rw [List.length_cons] at high
    push_cast at high
    by_cases same : n = seq
    · exact ⟨_, .head _, same.symm⟩
    · obtain ⟨row, member, found⟩ := ih (seq + 1) (stamp + 1) n (by omega) (by omega)
      exact ⟨row, .tail _ member, found⟩

end Rows

end ArcReel.Agent.EventLog
