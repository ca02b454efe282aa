import ArcReel.Queue.CascadeReason
import ArcReel.Queue.Cancellation

/-! The messages that a failing task stores with the tasks behind it, over the whole run of
`mark_failed`. -/

namespace ArcReel.Queue.TaskFailure
open ArcReel.Lib ArcReel.Lib.SqlSession

/-- The texts of the queue, written by the functions of this module. -/
def textCodec (json : Json.Module) (mergePayloadField : Option String → String → String → String) :
    TextCodec where
  boundReason text limit := String.ofList ((boundReason json text.toList limit).getD text.toList)
  encodeBoundedCascadeFailure dependencyTaskId reason :=
    String.ofList ((encodeBoundedCascadeFailure json dependencyTaskId.toList reason.toList).getD [])
  mergePayloadField := mergePayloadField

/-- What `mark_failed` may have done to a row: it is the failed task, or it waited for a row and
stores the message about it. -/
structure StoredRow (codec : TextCodec) (table : List Task) (target message : String) (t u : Task) :
    Prop where
  taskId : u.taskId = t.taskId
  dependencyTaskId : u.dependencyTaskId = t.dependencyTaskId
  changed : u = t ∨ t.taskId = target ∨ t.status = .queued ∧ u.status = .failed ∧
    ∃ q ∈ table, t.dependencyTaskId = some q.taskId ∧ u.errorMessage = some (codec.boundReason
      (codec.encodeBoundedCascadeFailure q.taskId message) maxErrorMessageLen)

/-- A statement of `mark_failed`, with the message that it passes on. -/
def Stmt.inFailure (codec : TextCodec) (table : List Task) (target message : String) : Stmt → Prop
  | .markFailedRunning taskId errorMessage => taskId = target ∧ errorMessage = message
  | .cascadeFailedQueued taskId errorMessage =>
      errorMessage = message ∧ ∃ q ∈ table, q.taskId = taskId
  | .markFailedQueuedDep taskId blockedMessage errorMessage => errorMessage = message ∧
      (∃ q ∈ table, q.taskId = taskId) ∧ ∀ t ∈ table, t.taskId = taskId →
        ∃ q ∈ table, t.dependencyTaskId = some q.taskId ∧
          blockedMessage = codec.encodeBoundedCascadeFailure q.taskId message
  | .reloadTerminal _ _ | .commit => True
  | _ => False

def StoredRows (codec : TextCodec) (table : List Task) (target message : String)
    (rows : List Task) : Prop :=
  ∃ g, rows = table.map g ∧ ∀ t ∈ table, StoredRow codec table target message t (g t)

structure Storing (codec : TextCodec) (table : List Task) (target message : String)
    (st : Solo Task Stmt Out) : Prop where
  working : StoredRows codec table target message st.working
  committed : StoredRows codec table target message st.committed
  within : ∀ stmt ∈ st.todo, Stmt.inFailure codec table target message stmt

section Run

variable {codec : TextCodec} {table : List Task} {target message : String}
  {st : Solo Task Stmt Out} {now : Nat} {stmt : Stmt} {rest : List Stmt}

theorem storing_start :
    Storing codec table target message (Solo.start table (program (.markFailed target message))) where
  working := ⟨id, (List.map_id table).symm, fun _ _ => ⟨rfl, rfl, .inl rfl⟩⟩
  committed := ⟨id, (List.map_id table).symm, fun _ _ => ⟨rfl, rfl, .inl rfl⟩⟩
  within := by
    intro stmt member
    obtain rfl := List.mem_singleton.mp member
    exact ⟨rfl, rfl⟩

/-- An update of the rows of one task. -/
theorem storedRows_touch {rows : List Task} {hits : Task → Bool} {write : Task → Task}
    (stored : StoredRows codec table target message rows)
    (keeps : ∀ u, (write u).taskId = u.taskId ∧ (write u).dependencyTaskId = u.dependencyTaskId)
    (changed : ∀ t ∈ table, ∀ u, StoredRow codec table target message t u → hits u = true →
      t.taskId = target ∨ t.status = .queued ∧ (write u).status = .failed ∧
        ∃ q ∈ table, t.dependencyTaskId = some q.taskId ∧
          (write u).errorMessage = some (codec.boundReason
            (codec.encodeBoundedCascadeFailure q.taskId message) maxErrorMessageLen)) :
    StoredRows codec table target message (rows.map fun u => if hits u then write u else u) := by
  obtain ⟨g, spelled, each⟩ := stored
  refine ⟨fun t => if hits (g t) then write (g t) else g t, by rw [spelled, List.map_map]; rfl, ?_⟩
  intro t member
  have row := each t member
  by_cases hit : hits (g t) = true
  · simp only [hit, if_true]
    refine ⟨(keeps _).1.trans row.taskId, (keeps _).2.trans row.dependencyTaskId, .inr ?_⟩
    exact changed t member (g t) row hit
  · simp only [hit]
    exact row

theorem storing_step (distinct : (table.map Task.taskId).Nodup)
    (inv : Storing codec table target message st) (waiting : st.todo = stmt :: rest) :
    Storing codec table target message (st.perform rest (action codec now stmt)) := by
  have here := inv.within stmt (by rw [waiting]; exact List.mem_cons_self)
  have later : ∀ next ∈ rest, Stmt.inFailure codec table target message next :=
    fun next member => inv.within next (by rw [waiting]; exact List.mem_cons_of_mem _ member)
  have pushed {push : List Stmt}
      (within : ∀ next ∈ push, Stmt.inFailure codec table target message next) :
      ∀ next ∈ push ++ rest, Stmt.inFailure codec table target message next :=
    fun next member => (List.mem_append.mp member).elim (within next) (later next)
  cases stmt with
  | markFailedRunning taskId errorMessage =>
    obtain ⟨rfl, rfl⟩ := here
    have rows : StoredRows codec table taskId errorMessage (st.working.map fun u =>
        if Task.hits taskId (· == .running) u then setFailed codec now errorMessage u else u) := by
      apply storedRows_touch inv.working
      · exact fun _ => ⟨rfl, rfl⟩
      · intro t member u row hit
        simp only [Task.hits, Bool.and_eq_true, beq_iff_eq] at hit
        exact .inl (row.taskId.symm.trans hit.1)
    by_cases none : st.working.countP (Task.hits taskId (· == .running)) = 0
    · have answered : (action codec now (.markFailedRunning taskId errorMessage)).answer st.working =
        .go [] [.affected 0] := if_pos none
      simp only [Solo.perform, answered]
      exact ⟨rows, inv.committed, later⟩
    · have answered : (action codec now (.markFailedRunning taskId errorMessage)).answer st.working =
        .go [.reloadTerminal taskId .failed, .cascadeFailedQueued taskId errorMessage, .commit]
          [.affected (st.working.countP (Task.hits taskId (· == .running)))] := if_neg none
      simp only [Solo.perform, answered]
      refine ⟨rows, inv.committed, pushed ?_⟩
      obtain ⟨u, inside, hit⟩ := List.countP_pos_iff.mp (Nat.pos_of_ne_zero none)
      obtain ⟨g, spelled, each⟩ := inv.working
      obtain ⟨t, member, rfl⟩ := List.mem_map.mp (spelled ▸ inside)
      simp only [Task.hits, Bool.and_eq_true, beq_iff_eq] at hit
      have named : t.taskId = taskId := (each t member).taskId.symm.trans hit.1
      intro next member'
      simp only [List.mem_cons, List.not_mem_nil, or_false] at member'
      rcases member' with rfl | rfl | rfl
      · trivial
      · exact ⟨rfl, t, member, named⟩
      · trivial
  | cascadeFailedQueued taskId errorMessage =>
    obtain ⟨rfl, q, memberQ, rfl⟩ := here
    obtain ⟨g, spelled, each⟩ := inv.working
    refine ⟨⟨g, spelled, each⟩, inv.committed, pushed ?_⟩
    intro next member
    obtain ⟨u, listed, rfl⟩ := List.mem_map.mp member
    rw [mem_byQueuedAt, List.mem_filter, Bool.and_eq_true, beq_iff_eq] at listed
    obtain ⟨t, memberT, rfl⟩ := List.mem_map.mp (spelled ▸ listed.1)
    have row := each t memberT
    refine ⟨rfl, ⟨t, memberT, row.taskId.symm⟩, fun t' member' named => ?_⟩
    have same : t' = t := List.inj_on_of_nodup_map distinct member' memberT (named.trans row.taskId)
    exact ⟨q, memberQ, by rw [same, ← row.dependencyTaskId]; exact listed.2.1, rfl⟩
  | markFailedQueuedDep taskId blockedMessage errorMessage =>
    obtain ⟨rfl, ⟨q, memberQ, named⟩, blocked⟩ := here
    have rows : StoredRows codec table target errorMessage (st.working.map fun u =>
        if Task.hits taskId (· == .queued) u then setFailed codec now blockedMessage u else u) := by
      apply storedRows_touch inv.working
      · exact fun _ => ⟨rfl, rfl⟩
      · intro t member u row hit
        simp only [Task.hits, Bool.and_eq_true, beq_iff_eq] at hit
        obtain ⟨above, memberA, depends, rfl⟩ := blocked t member (row.taskId.symm.trans hit.1)
        rcases row.changed with same | isTarget | ⟨-, failed, -⟩
        · exact .inr ⟨same ▸ hit.2, rfl, above, memberA, depends, rfl⟩
        · exact .inl isTarget
        · rw [failed] at hit
          cases hit.2
    by_cases none : st.working.countP (Task.hits taskId (· == .queued)) = 0
    · have answered : (action codec now (.markFailedQueuedDep taskId blockedMessage errorMessage)).answer
        st.working = .go [] [] := if_pos none
      simp only [Solo.perform, answered]
      exact ⟨rows, inv.committed, later⟩
    · have answered : (action codec now (.markFailedQueuedDep taskId blockedMessage errorMessage)).answer
        st.working = .go [.reloadTerminal taskId .failed, .cascadeFailedQueued taskId errorMessage] [] :=
        if_neg none
      simp only [Solo.perform, answered]
      refine ⟨rows, inv.committed, pushed ?_⟩
      intro next member
      simp only [List.mem_cons, List.not_mem_nil, or_false] at member
      rcases member with rfl | rfl
      · trivial
      · exact ⟨rfl, q, memberQ, named⟩
  | reloadTerminal taskId status =>
    cases found : findTask st.working taskId with
    | none =>
      have answered : (action codec now (.reloadTerminal taskId status)).answer st.working = .raise := by
        simp only [action, Action.answer, found]
      simp only [Solo.perform, answered]
      exact ⟨inv.committed, inv.committed, by simp⟩
    | some t =>
      have answered : (action codec now (.reloadTerminal taskId status)).answer st.working =
          .go [] (recordTerminalEvent taskId t.projectName t.taskType status) := by
        simp only [action, Action.answer, found]
      simp only [Solo.perform, answered]
      exact ⟨inv.working, inv.committed, later⟩
  | commit => exact ⟨inv.working, inv.working, later⟩
  | _ => exact absurd here id

end Run

section Messages

variable {json : Json.Module} {id root nested : List Char}

/-- A stored message fits, and it is parsed to the blocking task and the nested reason. -/
theorem storedMessage_parses (isId : IsTaskId id) (reason : nestedReason json root = some nested) :
    storedMessage json id root = some (cascadeEnvelope json id nested) ∧
      101 + (Json.escaped nested).length ≤ maxErrorMessageLen ∧
      ∃ params : Dict String Json,
        parseFailure json (cascadeEnvelope json id nested) = some (cascadeCode, params) ∧
        params.get? "dependency_task_id" = some (.str (String.ofList id)) ∧
        params.get? "reason" = some (.str (String.ofList nested)) := by
  have stored : storedMessage json id root = some (cascadeEnvelope json id nested) := by
    rw [storedMessage_eq isId, reason]
    rfl
  refine ⟨stored, ?_, ?_⟩
  · have length : (cascadeEnvelope json id nested).length = _ := length_of_taskId isId nested
    rw [← length]
    obtain ⟨blocked, bounded, cut⟩ := Option.bind_eq_some_iff.mp stored
    obtain ⟨result, same, short⟩ := boundReason_short json blocked maxErrorMessageLen
    rw [cut] at same
    exact Option.some.inj same ▸ short
  · have parses : ∃ dict : Dict String Json, parseFailure json (cascadeEnvelope json id nested) =
        some (cascadeCode, dict) ∧ dict.entries = byKey _ :=
      parseFailure_envelope cascadeCode_known (List.cons_ne_nil _ _)
        (by change ["dependency_task_id", "reason"].Nodup; decide) (by simp [Json.isScalar])
    obtain ⟨dict, parsed, entries⟩ := parses
    rw [cascade_sorted] at entries
    refine ⟨dict, parsed, ?_, ?_⟩
    · rw [Dict.get?_eq_some_iff, entries]
      exact List.mem_cons_self
    · rw [Dict.get?_eq_some_iff, entries]
      exact List.mem_cons_of_mem _ List.mem_cons_self

end Messages

/-- A running task and a task that waits for it. -/
def blockedTable : List Task :=
  [{ (EnqueueRequest.image "0123456789abcdef0123456789abcdef" "p" "r1" none).row 1 with
      status := .running },
    (EnqueueRequest.image "fedcba9876543210fedcba9876543210" "p" "r2"
      (some "0123456789abcdef0123456789abcdef")).row 2]

end ArcReel.Queue.TaskFailure
