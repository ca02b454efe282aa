import ArcReel.Lib.Dict
import ArcReel.Lib.Json
import ArcReel.Lib.Run

/-! The session transcript store: one table of entries, one of summaries, and the `append` and
`delete` calls that write them. An append reads the next `seq` in one statement and inserts in a
later one; its INSERT, the summary fold and the commit take effect together. -/

namespace ArcReel.Transcript
open Lib

/-- The key the SDK passes; `subpath` may be missing from the dictionary. -/
structure SessionKey where
  projectKey : String
  sessionId : String
  subpath : Option String
  deriving DecidableEq

/-- A normalized key. -/
structure EntryKey where
  projectKey : String
  sessionId : String
  subpath : String
  deriving DecidableEq

def normalizeKey (key : SessionKey) : EntryKey :=
  ⟨key.projectKey, key.sessionId, key.subpath.getD ""⟩

def entryType (entry : Json) : String := (entry.get "type").str?.getD ""

def entryUuid (entry : Json) : Option String :=
  (entry.get "uuid").str?.filter (· ≠ "")

/-- A row of `agent_session_entries`. -/
structure Row where
  key : EntryKey
  seq : Nat
  uuid : Option String
  entryType : String
  payload : Json
  mtimeMs : Nat

/-- A row of `agent_session_summaries`, without its primary key. -/
structure Summary where
  mtimeMs : Nat
  data : Json

namespace Row

/-- Conflict on the partial unique index `uq_agent_entries_uuid`. -/
def sameUuid (row old : Row) : Bool :=
  old.key = row.key && row.uuid.isSome && old.uuid = row.uuid

/-- Conflict on the primary key. -/
def sameSeq (row old : Row) : Bool := old.key = row.key && old.seq = row.seq

end Row

/-- The rows `_append_once` hands to the INSERT. -/
def batchRows (key : EntryKey) (nowMs : Nat) : Nat → List Json → List Row
  | _, [] => []
  | seq, entry :: entries =>
    ⟨key, seq, entryUuid entry, entryType entry, entry, nowMs⟩ :: batchRows key nowMs (seq + 1) entries

/-- One row of `INSERT ... ON CONFLICT (uuid) DO NOTHING`; `none` is an IntegrityError. Of a row
in conflict with both indexes the database may look at the primary key first. -/
def insertRow (primaryFirst : Bool) (table : List Row) (row : Row) : Option (List Row) :=
  if table.any row.sameUuid then
    if primaryFirst && table.any row.sameSeq then none else some table
  else if table.any row.sameSeq then none
  else some (table ++ [row])

def insertEntries (primaryFirst : Bool) : List Row → List Row → Option (List Row)
  | table, [] => some table
  | table, row :: rows => (insertRow primaryFirst table row).bind (insertEntries primaryFirst · rows)

/-- `coalesce(max(seq), -1) + 1` over the rows of the key. -/
def seqStart (table : List Row) (key : EntryKey) : Nat :=
  ((table.filter (·.key = key)).map (·.seq + 1)).foldl max 0

def maxAppendRetry : Nat := 16

/-- Where an `append` call is: about to read the next `seq`, or about to insert from it. -/
inductive Phase where
  | select (attempt : Nat)
  | insert (attempt start : Nat)
  | returned
  | raised
  deriving DecidableEq

structure Call where
  key : EntryKey
  entries : List Json
  nowMs : Nat
  phase : Phase

/-- What was committed, in commit order. -/
inductive Event where
  | appended (key : EntryKey) (entries : List Json)
  | deleted (key : SessionKey)

structure State where
  rows : List Row
  summaries : Dict (String × String) Summary
  calls : Dict Nat Call
  log : List Event

def initial : State := ⟨[], .empty, .empty, []⟩

inductive Step where
  | append (call : Nat) (key : SessionKey) (entries : List Json) (nowMs : Nat)
  | select (call : Nat)
  | insert (call : Nat) (primaryFirst : Bool)
  | fail (call : Nat)
  | delete (key : SessionKey)

/-- The entries the DELETE statement of `delete` hits. -/
def hits (key : SessionKey) (entry : EntryKey) : Bool :=
  entry.projectKey = key.projectKey && entry.sessionId = key.sessionId &&
    match key.subpath with
    | none | some "" => true
    | some subpath => entry.subpath = subpath

def delete (s : State) (key : SessionKey) : State where
  rows := s.rows.filter fun row => !hits key row.key
  summaries := if key.subpath = none then s.summaries.erase (key.projectKey, key.sessionId)
    else s.summaries
  calls := s.calls
  log := s.log ++ [.deleted key]

section Fold

-- `fold_session_summary` of the SDK: the folded data, if there are any.
variable (fold : Option Summary → String × String → List Json → Option Json)

/-- Read, fold and write the summary of the session; subagent transcripts have none. -/
def foldSummary (summaries : Dict (String × String) Summary) (key : EntryKey) (entries : List Json)
    (nowMs : Nat) : Dict (String × String) Summary :=
  if key.subpath = "" then
    let id := (key.projectKey, key.sessionId)
    summaries.set id ⟨nowMs, (fold (summaries.get? id) id entries).getD (.obj [])⟩
  else summaries

def State.setPhase (s : State) (id : Nat) (call : Call) (phase : Phase) : State :=
  { s with calls := s.calls.set id { call with phase } }

/-- The INSERT of a call, with the fold and the commit after it; an IntegrityError starts the
next attempt, and leaves the call after the last one. -/
def insert (s : State) (id : Nat) (call : Call) (attempt start : Nat) (primaryFirst : Bool) : State :=
  match insertEntries primaryFirst s.rows (batchRows call.key call.nowMs start call.entries) with
  | some rows =>
    { rows
      summaries := foldSummary fold s.summaries call.key call.entries call.nowMs
      calls := s.calls.set id { call with phase := .returned }
      log := s.log ++ [.appended call.key call.entries] }
  | none =>
    if attempt = maxAppendRetry - 1 then s.setPhase id call .raised
    else s.setPhase id call (.select (attempt + 1))

def step (s : State) : Step → Option State
  | .append id key entries nowMs =>
    if (s.calls.get? id).isSome then none
    else
      let phase := if entries.isEmpty then .returned else .select 0
      some { s with calls := s.calls.set id ⟨normalizeKey key, entries, nowMs, phase⟩ }
  | .select id =>
    match s.calls.get? id with
    | some call =>
      match call.phase with
      | .select attempt => some (s.setPhase id call (.insert attempt (seqStart s.rows call.key)))
      | _ => none
    | none => none
  | .insert id primaryFirst =>
    match s.calls.get? id with
    | some call =>
      match call.phase with
      | .insert attempt start => some (insert fold s id call attempt start primaryFirst)
      | _ => none
    | none => none
  | .fail id =>
    match s.calls.get? id with
    | some call =>
      match call.phase with
      | .select _ | .insert _ _ => some (s.setPhase id call .raised)
      | _ => none
    | none => none
  | .delete key => some (delete s key)

end Fold

def rowsOf (rows : List Row) (key : EntryKey) : List Row := rows.filter (·.key = key)

/-- The payloads of the key in `seq` order; `none` when there are none. -/
def load (s : State) (key : EntryKey) : Option (List Json) :=
  let payloads := ((rowsOf s.rows key).insertionSort (·.seq ≤ ·.seq)).map Row.payload
  if payloads.isEmpty then none else some payloads

/-- The sessions with a main transcript, each with its latest `mtime`. -/
def listSessions (s : State) (project : String) : List (String × Nat) :=
  let found := s.rows.filter fun row => row.key.projectKey = project && row.key.subpath = ""
  (found.map (·.key.sessionId)).dedup.map fun session =>
    (session, ((found.filter (·.key.sessionId = session)).map (·.mtimeMs)).foldl max 0)

def listSessionSummaries (s : State) (project : String) : List (String × Nat × Json) :=
  (s.summaries.entries.filter fun entry => entry.1.1 = project).map fun entry =>
    (entry.1.2, entry.2.mtimeMs, entry.2.data)

/-- The entries appended to the key since the last delete that covers it. -/
def appendedSince (key : EntryKey) : List Event → List Json → List Json
  | [], entries => entries
  | .appended other batch :: log, entries =>
    appendedSince key log (if other = key then entries ++ batch else entries)
  | .deleted deleted :: log, entries =>
    appendedSince key log (if hits deleted key then [] else entries)

/-- A uuid that was seen before is not kept again. -/
def keepFirst (kept : List Json) (entry : Json) : List Json :=
  if kept.any fun old => (entryUuid entry).isSome && entryUuid old = entryUuid entry then kept
  else kept ++ [entry]

/-- What the transcript of the key should be. -/
def transcript (log : List Event) (key : EntryKey) : List Json :=
  (appendedSince key log []).foldl keepFirst []

end ArcReel.Transcript
