import ArcReel.Lib.JsonObject
import ArcReel.Transcript.Store

/-! `lib.agent_session_store.prefix_fork`: the entries of a session before one of its user messages,
under a new session id, one await of `copy_session_prefix` after the other. -/

namespace ArcReel.Agent
open Lib Transcript

def carriesToolResult (entry : Json) : Bool :=
  match entry.get "message" with
  | .obj fields =>
    match (Json.obj fields).get "content" with
    | .arr blocks => blocks.any fun block => block.isObj && (block.get "type").str? = some "tool_result"
    | _ => false
  | _ => false

/-- `none` is an `InvalidAnchorError`. -/
def prefixBeforeAnchor (anchorUuid : String) : List Json → Option (List Json)
  | [] => none
  | entry :: entries =>
    if (entry.get "uuid").str? ≠ some anchorUuid then (prefixBeforeAnchor anchorUuid entries).map (entry :: ·)
    else if entryType entry ≠ "user" || carriesToolResult entry then none
    else some []

/-- The agents whose results are in the prefix. -/
def prefixAgentIds (entries : List Json) : List String :=
  entries.filterMap fun entry =>
    match entry.get "toolUseResult" with
    | .obj fields => ((Json.obj fields).get "agentId").str?.filter (· ≠ "")
    | _ => none

/-- What follows the last slash. -/
def leaf (subpath : String) : String :=
  String.ofList (subpath.toList.reverse.takeWhile (· ≠ '/')).reverse

def matchesSubagent (subpath : String) (wanted : List String) : Bool :=
  "subagents/".toList.isPrefixOf subpath.toList && leaf subpath ∈ wanted

def rebind (entry : Json) (newSessionId : String) (origin : Json) : Json :=
  let rebound := if entry.has "sessionId" then entry.put "sessionId" (.str newSessionId) else entry
  if (entryUuid entry).isSome then rebound.put "forkedFrom" origin else rebound

/-- The entries of a prefix for the new session; the last one has a new timestamp. -/
def rebindPrefix (entries : List Json) (newSessionId : String) (origin : Json) (nowIso : String) : List Json :=
  let rebound := entries.map fun entry => rebind entry newSessionId origin
  match rebound.getLast? with
  | some last => rebound.dropLast ++ [last.put "timestamp" (.str nowIso)]
  | none => rebound

def isConversation (entry : Json) : Bool := entryType entry = "user" || entryType entry = "assistant"

/-- `store.load(..) or []`. -/
def loadEntries (rows : List Row) (key : EntryKey) : List Json :=
  ((rowsOf rows key).insertionSort (·.seq ≤ ·.seq)).map Row.payload

/-- The subpaths of a session that are not empty, each once. -/
def listSubkeys (rows : List Row) (projectKey sessionId : String) : List String :=
  ((rows.filter fun row => row.key.projectKey = projectKey && row.key.sessionId = sessionId &&
    row.key.subpath ≠ "").map fun row => row.key.subpath).dedup

/-- `store.append`: no entries are no transaction, and `none` is an `IntegrityError`. -/
def appendEntries (rows : List Row) (key : EntryKey) (entries : List Json) (nowMs : Nat) :
    Option (List Row) :=
  if entries.isEmpty then some rows
  else insertEntries false rows (batchRows key nowMs (seqStart rows key) entries)

/-- What a branch goes by once its anchor is found. -/
structure Job where
  newId : String
  projectName : String
  projectKey : String
  anchorUuid : String
  deriving DecidableEq

/-- Where the copy is: before which of its awaits. -/
inductive CopyStage where
  | load
  | append (entries : List Json)
  | subkeys (entries : List Json)
  | subLoad (subpaths : List String)
  | subAppend (subpath : String) (entries : List Json) (subpaths : List String)
  | done

inductive CopyStep where
  | go (rows : List Row) (stage : CopyStage)
  | invalidAnchor
  | failed

/-- The stage after the subpaths that are left. -/
def CopyStage.next : List String → CopyStage
  | [] => .done
  | subpaths => .subLoad subpaths

/-- The next await of the copy of `sessionId`, at the given clock readings. -/
def copyStep (sessionId : String) (job : Job) (rows : List Row) (nowMs : Nat) (nowIso : String) :
    CopyStage → CopyStep
  | .load =>
    match prefixBeforeAnchor job.anchorUuid (loadEntries rows ⟨job.projectKey, sessionId, ""⟩) with
    | none => .invalidAnchor
    | some entries => .go rows (if entries.any isConversation then .append entries else .done)
  | .append entries =>
    let origin := .obj [("sessionId", .str sessionId), ("messageUuid", .str job.anchorUuid)]
    match appendEntries rows ⟨job.projectKey, job.newId, ""⟩
        (rebindPrefix entries job.newId origin nowIso) nowMs with
    | some written =>
      .go written (if (prefixAgentIds entries).isEmpty then .done else .subkeys entries)
    | none => .failed
  | .subkeys entries =>
    let wanted := (prefixAgentIds entries).map fun agentId => "agent-" ++ agentId
    .go rows (.next ((listSubkeys rows job.projectKey sessionId).filter fun subpath =>
      matchesSubagent subpath wanted))
  | .subLoad [] => .go rows .done
  | .subLoad (subpath :: subpaths) =>
    let entries := loadEntries rows ⟨job.projectKey, sessionId, subpath⟩
    .go rows (if entries.isEmpty then .next subpaths else .subAppend subpath entries subpaths)
  | .subAppend subpath entries subpaths =>
    let origin := .obj [("sessionId", .str sessionId), ("messageUuid", .str job.anchorUuid)]
    match appendEntries rows ⟨job.projectKey, job.newId, subpath⟩
        (entries.map fun entry => rebind entry job.newId origin) nowMs with
    | some written => .go written (.next subpaths)
    | none => .failed
  | .done => .failed

section Rows

/-- The rows of a job: under its new id and its project. -/
def Job.owns (job : Job) (row : Row) : Prop :=
  row.key.sessionId = job.newId ∧ row.key.projectKey = job.projectKey

theorem mem_insertEntries {rows added table : List Row} {row : Row}
    (inserted : insertEntries false table added = some rows) (member : row ∈ rows) :
    row ∈ table ∨ row ∈ added := by
  induction added generalizing table with
  | nil =>
    rw [insertEntries, Option.some.injEq] at inserted
    rw [inserted]
    exact .inl member
  | cons first added ih =>
    rw [insertEntries, Option.bind_eq_some_iff] at inserted
    obtain ⟨between, one, rest⟩ := inserted
    rcases ih rest with old | later
    · rw [insertRow] at one
      split_ifs at one
      · rw [Option.some.injEq] at one
        rw [one]
        exact .inl old
      · rw [Option.some.injEq] at one
        rw [← one] at old
        rcases List.mem_append.mp old with old | new
        · exact .inl old
        · rw [List.mem_singleton.mp new]
          exact .inr List.mem_cons_self
    · exact .inr (List.mem_cons_of_mem _ later)

theorem key_batchRows {key : EntryKey} {nowMs seq : Nat} {entries : List Json} {row : Row}
    (member : row ∈ batchRows key nowMs seq entries) : row.key = key := by
  induction entries generalizing seq with
  | nil => cases member
  | cons entry entries ih =>
    rcases List.mem_cons.mp member with here | later
    · rw [here]
    · exact ih later

theorem mem_appendEntries {rows written : List Row} {key : EntryKey} {entries : List Json} {nowMs : Nat}
    {row : Row} (appended : appendEntries rows key entries nowMs = some written) (member : row ∈ written) :
    row ∈ rows ∨ row.key = key := by
  rw [appendEntries] at appended
  split_ifs at appended
  · rw [Option.some.injEq] at appended
    rw [appended]
    exact .inl member
  · exact (mem_insertEntries appended member).imp_right key_batchRows

/-- The copy writes rows of its job only. -/
theorem copyStep_rows {sessionId : String} {job : Job} {rows written : List Row} {nowMs : Nat}
    {nowIso : String} {stage next : CopyStage}
    (stepped : copyStep sessionId job rows nowMs nowIso stage = .go written next) {row : Row}
    (member : row ∈ written) : row ∈ rows ∨ job.owns row := by
  cases stage with
  | load =>
    rw [copyStep] at stepped
    split at stepped
    · cases stepped
    · rw [CopyStep.go.injEq] at stepped
      rw [stepped.1]
      exact .inl member
  | append entries =>
    rw [copyStep] at stepped
    split at stepped
    · next found =>
      rw [CopyStep.go.injEq] at stepped
      rw [stepped.1] at found
      exact (mem_appendEntries found member).imp_right fun key => ⟨by rw [key], by rw [key]⟩
    · cases stepped
  | subkeys entries =>
    rw [copyStep, CopyStep.go.injEq] at stepped
    rw [stepped.1]
    exact .inl member
  | subLoad subpaths =>
    cases subpaths with
    | nil =>
      rw [copyStep, CopyStep.go.injEq] at stepped
      rw [stepped.1]
      exact .inl member
    | cons subpath subpaths =>
      rw [copyStep, CopyStep.go.injEq] at stepped
      rw [stepped.1]
      exact .inl member
  | subAppend subpath entries subpaths =>
    rw [copyStep] at stepped
    split at stepped
    · next found =>
      rw [CopyStep.go.injEq] at stepped
      rw [stepped.1] at found
      exact (mem_appendEntries found member).imp_right fun key => ⟨by rw [key], by rw [key]⟩
    · cases stepped
  | done => cases stepped

/-- An anchor is refused before anything is written. -/
theorem stage_of_invalidAnchor {sessionId : String} {job : Job} {rows : List Row} {nowMs : Nat}
    {nowIso : String} {stage : CopyStage}
    (refused : copyStep sessionId job rows nowMs nowIso stage = .invalidAnchor) : stage = .load := by
  cases stage with
  | load => rfl
  | append entries =>
    rw [copyStep] at refused
    split at refused <;> cases refused
  | subkeys entries => cases refused
  | subLoad subpaths => cases subpaths <;> cases refused
  | subAppend subpath entries subpaths =>
    rw [copyStep] at refused
    split at refused <;> cases refused
  | done => cases refused

end Rows

end ArcReel.Agent
