import ArcReel.Queue.StateMachine

/-! Terminal notifications: which committed transactions publish which terminal
events, under any interleaving of sessions. -/

namespace ArcReel.Queue
open ArcReel.Lib.SqlSession Relation
set_option linter.unusedSectionVars false

/-- The event that announces the terminal status of a row. -/
def Task.terminalEvent (t : Task) : TerminalEvent := ⟨t.taskId, t.projectName, t.status, t.taskType⟩

/-- The terminal events for one task among the outputs of a session. -/
def eventsOf (taskId : String) (outs : List Out) : List TerminalEvent :=
  outs.filterMap fun
    | .terminalEvent event => if event.taskId = taskId then some event else none
    | _ => none

@[simp] theorem eventsOf_nil (taskId : String) : eventsOf taskId [] = [] := rfl

@[simp] theorem eventsOf_append (taskId : String) (first second : List Out) :
    eventsOf taskId (first ++ second) = eventsOf taskId first ++ eventsOf taskId second :=
  List.filterMap_append

/-- The events that a statement will record for a row in terminal status. -/
def owes (t : Task) : Stmt → List TerminalEvent
  | .reloadTerminal taskId status =>
      if taskId = t.taskId ∧ status.terminal = true then
        [⟨t.taskId, t.projectName, status, t.taskType⟩]
      else []
  | .reloadCancelled taskId =>
      if taskId = t.taskId then [⟨t.taskId, t.projectName, .cancelled, t.taskType⟩] else []
  | .reloadCancelledAmong projectName taskIds =>
      if t.taskId ∈ taskIds ∧ t.status = .cancelled then
        [⟨t.taskId, projectName, .cancelled, t.taskType⟩]
      else []
  | _ => []

theorem owes_eq_nil {t : Task} {stmt : Stmt} (unnamed : stmt.announces t.taskId = false)
    (single : stmt.reloadsAmong = false) : owes t stmt = [] := by
  cases stmt <;> simp_all [owes, Stmt.announces, Stmt.reloadsAmong]

theorem owes_flatMap_eq_nil {t : Task} {todo : List Stmt}
    (unnamed : ∀ stmt ∈ todo, stmt.announces t.taskId = false)
    (single : ∀ stmt ∈ todo, stmt.reloadsAmong = false) : todo.flatMap (owes t) = [] := by
  rw [List.flatMap_eq_nil_iff]
  exact fun stmt member => owes_eq_nil (unnamed stmt member) (single stmt member)

theorem owes_congr {t u : Task} (taskId : u.taskId = t.taskId)
    (projectName : u.projectName = t.projectName) (taskType : u.taskType = t.taskType)
    (status : u.status = t.status) : owes u = owes t := by
  funext stmt
  cases stmt <;> simp [owes, taskId, projectName, taskType, status]

variable (codec : TextCodec)

/-! What the answer of a statement records and owes. -/

theorem eventsOf_record (k taskId projectName taskType : String) (status : TaskStatus) :
    eventsOf k (recordTerminalEvent taskId projectName taskType status) =
      if taskId = k ∧ status.terminal = true then [⟨taskId, projectName, status, taskType⟩]
      else [] := by
  unfold recordTerminalEvent eventsOf
  by_cases terminal : status.terminal = true
  · by_cases same : taskId = k <;> simp [terminal, same]
  · simp [terminal]

theorem findTask_unique {table : List Task} (distinct : (table.map Task.taskId).Nodup) {t u : Task}
    (member : t ∈ table) (found : findTask table t.taskId = some u) : u = t := by
  have named : u.taskId = t.taskId := by simpa using List.find?_some found
  exact List.inj_on_of_nodup_map distinct (List.mem_of_find?_eq_some found) member named

/-- The events of the bulk reload in `cancel_all_queued`. -/
def reloadEvents (projectName : String) (taskIds : List String) (table : List Task) : List Out :=
  (table.filter fun t => taskIds.contains t.taskId && t.status == .cancelled).flatMap
    fun t => recordTerminalEvent t.taskId projectName t.taskType .cancelled

theorem eventsOf_reload_nil {table : List Task} {projectName k : String} {taskIds : List String}
    (absent : ∀ t ∈ table, t.taskId = k → k ∈ taskIds → t.status ≠ .cancelled) :
    eventsOf k (reloadEvents projectName taskIds table) = [] := by
  simp only [reloadEvents, eventsOf, List.filterMap_flatMap, List.flatMap_eq_nil_iff,
    List.mem_filter, Bool.and_eq_true, List.contains_iff_mem, beq_iff_eq]
  rintro t ⟨member, listed, cancelled⟩
  have other : t.taskId ≠ k := by
    rintro rfl
    exact absent t member rfl listed cancelled
  exact (eventsOf_record k t.taskId projectName t.taskType _).trans (if_neg (fun both => other both.1))

theorem eventsOf_reload {table : List Task} {projectName : String} {taskIds : List String}
    (distinct : (table.map Task.taskId).Nodup) {t : Task} (member : t ∈ table) :
    eventsOf t.taskId (reloadEvents projectName taskIds table) =
      owes t (.reloadCancelledAmong projectName taskIds) := by
  obtain ⟨front, back, rfl⟩ := List.append_of_mem member
  simp only [List.map_append, List.map_cons, List.nodup_append, List.nodup_cons, List.mem_map,
    List.mem_cons] at distinct
  obtain ⟨-, ⟨behind, -⟩, ahead⟩ := distinct
  have split : reloadEvents projectName taskIds (front ++ t :: back) =
      reloadEvents projectName taskIds front ++ reloadEvents projectName taskIds [t] ++
        reloadEvents projectName taskIds back := by
    simp [reloadEvents, List.filter_cons]
    split_ifs <;> simp
  have frontNil : eventsOf t.taskId (reloadEvents projectName taskIds front) = [] :=
    eventsOf_reload_nil fun r inFront same => absurd same (ahead r.taskId ⟨r, inFront, rfl⟩ _ (.inl rfl))
  have backNil : eventsOf t.taskId (reloadEvents projectName taskIds back) = [] :=
    eventsOf_reload_nil fun r inBack same => absurd ⟨r, inBack, same⟩ behind
  rw [split, eventsOf_append, eventsOf_append, frontNil, backNil, List.append_nil, List.nil_append]
  simp only [reloadEvents, owes, List.filter_cons, List.filter_nil, Bool.and_eq_true,
    List.contains_iff_mem, beq_iff_eq]
  split_ifs
  · simpa [TaskStatus.terminal] using
      eventsOf_record t.taskId t.taskId projectName t.taskType .cancelled
  · rfl

section Answers

variable {codec} {now : Nat} {stmt : Stmt} {table : List Task} {push : List Stmt} {emit : List Out}

/-- Only a write schedules the reload that records its events. -/
theorem query_push (query : ∃ answer, action codec now stmt = .query answer)
    (answered : (action codec now stmt).answer table = .go push emit) :
    ∀ next ∈ push, next.reloadsAmong = false ∧ ∀ k, next.announces k = false := by
  cases stmt with
  | cascadeCancelDependents taskId =>
    obtain ⟨rfl, -⟩ := Next.go.inj answered
    intro next member
    obtain ⟨t, _, dispatched⟩ := List.mem_flatMap.mp member
    exact (dispatchCancel_plain dispatched).2
  | selectForCancel taskId =>
    simp only [action, Action.answer] at answered
    split at answered
    next t _ =>
      obtain ⟨rfl, -⟩ := Next.go.inj answered
      intro next member
      rcases List.mem_append.mp member with dispatched | last
      · exact (dispatchCancel_plain dispatched).2
      · obtain rfl := List.mem_singleton.mp last
        exact ⟨rfl, fun _ => rfl⟩
    next => cases answered
  | _ =>
    simp only [action, Action.answer, reduceCtorEq, exists_false] at answered query
    repeat' split at answered
    all_goals
      simp only [Next.go.injEq, reduceCtorEq] at answered
      try
        obtain ⟨rfl, -⟩ := answered
        simp [Stmt.announces, Stmt.reloadsAmong]

theorem query_silent (query : ∃ answer, action codec now stmt = .query answer)
    (answered : (action codec now stmt).answer table = .go push emit)
    {k : String} (unnamed : stmt.announces k = false)
    (undisturbed : ∀ projectName taskIds, stmt = .reloadCancelledAmong projectName taskIds →
      ∀ t ∈ table, t.taskId = k → k ∈ taskIds → t.status ≠ .cancelled) :
    eventsOf k emit = [] := by
  cases stmt with
  | reloadTerminal taskId status =>
    have other : taskId ≠ k := by simpa [Stmt.announces] using unnamed
    simp only [action, Action.answer] at answered
    split at answered
    next t _ =>
      obtain ⟨-, rfl⟩ := Next.go.inj answered
      rw [eventsOf_record, if_neg fun both => other both.1]
    next => cases answered
  | reloadCancelled taskId =>
    have other : taskId ≠ k := by simpa [Stmt.announces] using unnamed
    simp only [action, Action.answer] at answered
    split at answered
    next t _ =>
      obtain ⟨-, rfl⟩ := Next.go.inj answered
      rw [eventsOf_append, eventsOf_record, if_neg fun both => other both.1]
      rfl
    next => cases answered
  | reloadCancelledAmong projectName taskIds =>
    obtain ⟨-, rfl⟩ := Next.go.inj answered
    exact eventsOf_reload_nil (undisturbed projectName taskIds rfl)
  | _ =>
    simp only [action, Action.answer, reduceCtorEq, exists_false] at answered query
    repeat' split at answered
    all_goals
      simp only [Next.go.injEq, reduceCtorEq] at answered
      try
        obtain ⟨-, rfl⟩ := answered
        rfl

/-- A query records exactly what it owed. -/
theorem query_owes (query : ∃ answer, action codec now stmt = .query answer)
    (answered : (action codec now stmt).answer table = .go push emit)
    (distinct : (table.map Task.taskId).Nodup) {t : Task} (member : t ∈ table) :
    eventsOf t.taskId emit ++ push.flatMap (owes t) = owes t stmt := by
  have later : push.flatMap (owes t) = [] :=
    owes_flatMap_eq_nil (fun next pushed => (query_push query answered next pushed).2 _)
      (fun next pushed => (query_push query answered next pushed).1)
  rw [later, List.append_nil]
  cases stmt with
  | reloadTerminal taskId status =>
    simp only [action, Action.answer] at answered
    split at answered
    next u found =>
      obtain ⟨-, rfl⟩ := Next.go.inj answered
      rw [eventsOf_record, owes]
      by_cases same : taskId = t.taskId
      · subst same
        rw [findTask_unique distinct member found]
      · rw [if_neg fun both => same both.1, if_neg fun both => same both.1]
    next => cases answered
  | reloadCancelled taskId =>
    simp only [action, Action.answer] at answered
    split at answered
    next u found =>
      obtain ⟨-, rfl⟩ := Next.go.inj answered
      rw [eventsOf_append, eventsOf_record, owes]
      by_cases same : taskId = t.taskId
      · subst same
        rw [findTask_unique distinct member found, if_pos rfl, if_pos ⟨rfl, rfl⟩]
        rfl
      · rw [if_neg fun both => same both.1, if_neg same]
        rfl
    next => cases answered
  | reloadCancelledAmong projectName taskIds =>
    obtain ⟨-, rfl⟩ := Next.go.inj answered
    exact eventsOf_reload distinct member
  | _ => exact query_silent query answered rfl (by simp)

/-! The answers of updates. -/

variable {hits : Task → Bool} {f : Task → Task} {answer : Nat → Next Stmt Out}

theorem update_silent (updates : action codec now stmt = .update hits f answer)
    (answered : (action codec now stmt).answer table = .go push emit) (k : String) :
    eventsOf k emit = [] := by
  cases stmt
  all_goals
    simp only [action, Action.answer, reduceCtorEq] at answered updates
    repeat' split at answered
  all_goals
    simp only [Next.go.injEq, reduceCtorEq] at answered
    try
      obtain ⟨-, rfl⟩ := answered
      rfl

/-- An update of one task by its id, when it has found the task in a live status. -/
theorem exists_hit {taskId : String} {statuses : TaskStatus → Bool}
    (live : ∀ status, statuses status = true → status.terminal = false)
    (found : ¬table.countP (Task.hits taskId statuses) = 0) :
    ∃ t ∈ table, Task.hits taskId statuses t = true ∧ t.taskId = taskId ∧
      t.status.terminal = false := by
  obtain ⟨t, member, hit⟩ := List.countP_pos_iff.mp (Nat.pos_of_ne_zero found)
  have both : t.taskId = taskId ∧ statuses t.status = true := by simpa [Task.hits] using hit
  exact ⟨t, member, hit, both.1, live _ both.2⟩

/-- An update of one task writes nothing, or it schedules a reload of the task it has written. -/
theorem single_answer {taskId : String} {statuses : TaskStatus → Bool} {reload : Stmt}
    {more : List Stmt} {missed : List Out} {done : Nat → List Out}
    (live : ∀ status, statuses status = true → status.terminal = false)
    (answered : (Action.update (Task.hits taskId statuses) f fun rows =>
      if rows = 0 then .go [] missed else .go (reload :: more) (done rows)).answer table =
        .go push emit) :
    (table.countP (Task.hits taskId statuses) = 0 ∧ push = []) ∨
      (∃ t ∈ table, Task.hits taskId statuses t = true ∧ t.taskId = taskId ∧
        t.status.terminal = false) ∧ push = reload :: more := by
  simp only [Action.answer] at answered
  split_ifs at answered with missing <;> obtain ⟨rfl, -⟩ := Next.go.inj answered
  · exact .inl ⟨missing, rfl⟩
  · exact .inr ⟨exists_hit live missing, rfl⟩

/-- The updates that end one task, with the task and the status they write. -/
def Stmt.endsTask : Stmt → Option (String × TaskStatus)
  | updateSucceeded taskId _ => some (taskId, .succeeded)
  | markFailedRunning taskId _ | markFailedQueuedDep taskId _ _ => some (taskId, .failed)
  | markCancelled taskId _ => some (taskId, .cancelled)
  | _ => none

/-- The statement that records the event of an update that ends a task. -/
def reloads (taskId : String) (status : TaskStatus) (reload : Stmt) : Prop :=
  reload = .reloadTerminal taskId status ∨ status = .cancelled ∧ reload = .reloadCancelled taskId

theorem endsTask_answer {taskId : String} {status : TaskStatus}
    (ending : stmt.endsTask = some (taskId, status))
    (updates : action codec now stmt = .update hits f answer)
    (answered : (action codec now stmt).answer table = .go push emit) :
    status.terminal = true ∧ (∀ t, hits t = true → t.taskId = taskId) ∧
      (∀ t, (f t).status = status) ∧
      ((table.countP hits = 0 ∧ push = []) ∨
        (∃ t ∈ table, hits t = true ∧ t.taskId = taskId ∧ t.status.terminal = false) ∧
          ∃ reload more, push = reload :: more ∧ reloads taskId status reload ∧
            ∀ next ∈ more, next.reloadsAmong = false ∧ ∀ k, next.announces k = false) := by
  cases stmt with
  | updateSucceeded taskId' resultJson =>
    obtain ⟨rfl, rfl⟩ := Prod.mk.inj (Option.some.inj ending)
    obtain ⟨rfl, rfl, -⟩ := Action.update.inj updates
    refine ⟨rfl, by simp +contextual [Task.hits], fun _ => rfl, ?_⟩
    rcases single_answer (by simp [TaskStatus.terminal]) answered with missed | ⟨found, rfl⟩
    · exact .inl missed
    · exact .inr ⟨found, _, _, rfl, .inl rfl, by simp [Stmt.reloadsAmong, Stmt.announces]⟩
  | markFailedRunning taskId' errorMessage =>
    obtain ⟨rfl, rfl⟩ := Prod.mk.inj (Option.some.inj ending)
    obtain ⟨rfl, rfl, -⟩ := Action.update.inj updates
    refine ⟨rfl, by simp +contextual [Task.hits], fun _ => rfl, ?_⟩
    rcases single_answer (by simp [TaskStatus.terminal]) answered with missed | ⟨found, rfl⟩
    · exact .inl missed
    · exact .inr ⟨found, _, _, rfl, .inl rfl, by simp [Stmt.reloadsAmong, Stmt.announces]⟩
  | markFailedQueuedDep taskId' blockedMessage errorMessage =>
    obtain ⟨rfl, rfl⟩ := Prod.mk.inj (Option.some.inj ending)
    obtain ⟨rfl, rfl, -⟩ := Action.update.inj updates
    refine ⟨rfl, by simp +contextual [Task.hits], fun _ => rfl, ?_⟩
    rcases single_answer (by simp [TaskStatus.terminal]) answered with missed | ⟨found, rfl⟩
    · exact .inl missed
    · exact .inr ⟨found, _, _, rfl, .inl rfl, by simp [Stmt.reloadsAmong, Stmt.announces]⟩
  | markCancelled taskId' cancelledBy =>
    obtain ⟨rfl, rfl⟩ := Prod.mk.inj (Option.some.inj ending)
    obtain ⟨rfl, rfl, -⟩ := Action.update.inj updates
    refine ⟨rfl, by simp +contextual [Task.hits], fun _ => rfl, ?_⟩
    have live : ∀ status : TaskStatus, (status == .queued || status == .cancelling ||
        status == .running) = true → status.terminal = false := by
      intro status
      cases status <;> decide
    rcases single_answer live answered with missed | ⟨found, rfl⟩
    · exact .inl missed
    · exact .inr ⟨found, _, _, rfl, .inr ⟨rfl, rfl⟩, by simp⟩
  | _ => cases ending

/-- The remaining updates end no task and record nothing. -/
theorem other_update (unending : stmt.endsTask = none)
    (single : ∀ projectName taskIds, stmt ≠ .cancelQueuedOf projectName taskIds)
    (updates : action codec now stmt = .update hits f answer)
    (answered : (action codec now stmt).answer table = .go push emit) :
    (∀ t, (f t).status.terminal = true → t.status.terminal = true) ∧
      ∀ next ∈ push, next.reloadsAmong = false ∧ ∀ k, next.announces k = false := by
  cases stmt with
  | cancelQueuedOf projectName taskIds => exact absurd rfl (single projectName taskIds)
  | updateSucceeded _ _ | markFailedRunning _ _ | markFailedQueuedDep _ _ _ | markCancelled _ _ =>
    cases unending
  | _ =>
    simp only [action, Action.answer, Action.update.injEq, reduceCtorEq] at answered updates
    all_goals
      obtain ⟨rfl, rfl, -⟩ := updates
      refine ⟨by simp [TaskStatus.terminal], ?_⟩
      repeat' split at answered
    all_goals
      simp only [Next.go.injEq, reduceCtorEq] at answered
    all_goals
      obtain ⟨rfl, -⟩ := answered
      simp [Stmt.reloadsAmong, Stmt.announces]

/-- An update that ends a task leaves exactly one event to be recorded. -/
theorem update_owes (updates : action codec now stmt = .update hits f answer)
    (answered : (action codec now stmt).answer table = .go push emit)
    (undisturbed : ∀ projectName taskIds, stmt = .cancelQueuedOf projectName taskIds →
      ∀ t ∈ table, t.projectName = projectName → t.status = .queued → t.taskId ∈ taskIds)
    {t : Task} (member : t ∈ table) (hit : hits t = true) (live : t.status.terminal = false)
    (ended : (f t).status.terminal = true) (taskId : (f t).taskId = t.taskId) :
    push.flatMap (owes (f t)) = [(f t).terminalEvent] := by
  cases ending : stmt.endsTask with
  | some target =>
    obtain ⟨taskId', status⟩ := target
    obtain ⟨terminal, named, written, missed | ⟨-, reload, more, rfl, reloading, plain⟩⟩ :=
      endsTask_answer ending updates answered
    · exact absurd missed.1 (Nat.pos_iff_ne_zero.mp (List.countP_pos_iff.mpr ⟨t, member, hit⟩))
    · have here : taskId' = (f t).taskId := by rw [taskId, named t hit]
      have first : owes (f t) reload = [(f t).terminalEvent] := by
        rcases reloading with rfl | ⟨rfl, rfl⟩
        · rw [owes, if_pos ⟨here, terminal⟩, Task.terminalEvent, written t]
        · rw [owes, if_pos here, Task.terminalEvent, written t]
      rw [List.flatMap_cons, first, owes_flatMap_eq_nil (fun next later => (plain next later).2 _)
        (fun next later => (plain next later).1), List.append_nil]
  | none =>
    by_cases bulk : ∃ projectName taskIds, stmt = .cancelQueuedOf projectName taskIds
    · obtain ⟨projectName, taskIds, rfl⟩ := bulk
      simp only [action, Action.update.injEq] at updates
      obtain ⟨rfl, rfl, -⟩ := updates
      obtain ⟨rfl, -⟩ := Next.go.inj answered
      have both : t.projectName = projectName ∧ t.status = .queued := by simpa using hit
      have listed := undisturbed projectName taskIds rfl t member both.1 both.2
      have nonempty : taskIds.isEmpty = false := by
        simpa using List.ne_nil_of_mem listed
      simp [nonempty, owes, listed, Task.terminalEvent, both.1]
    · have single : ∀ projectName taskIds, stmt ≠ .cancelQueuedOf projectName taskIds :=
        fun projectName taskIds same => bulk ⟨projectName, taskIds, same⟩
      have before := (other_update ending single updates answered).1 t ended
      rw [live] at before
      cases before

/-- An update announces a task only when it has just ended it. -/
theorem update_announces (updates : action codec now stmt = .update hits f answer)
    (answered : (action codec now stmt).answer table = .go push emit) {next : Stmt}
    (pushed : next ∈ push) {k : String} (named : next.announces k = true) :
    ∃ t ∈ table, hits t = true ∧ t.taskId = k ∧ t.status.terminal = false ∧
      (f t).status.terminal = true := by
  cases ending : stmt.endsTask with
  | some target =>
    obtain ⟨taskId, status⟩ := target
    obtain ⟨terminal, -, written, ⟨-, rfl⟩ | ⟨⟨t, member, hit, same, live⟩, reload, more, rfl,
      reloading, plain⟩⟩ := endsTask_answer ending updates answered
    · cases pushed
    · rcases List.mem_cons.mp pushed with rfl | later
      · refine ⟨t, member, hit, ?_, live, by rw [written t, terminal]⟩
        rcases reloading with rfl | ⟨-, rfl⟩ <;> simpa [Stmt.announces, same] using named
      · rw [(plain next later).2 k] at named
        cases named
  | none =>
    by_cases bulk : ∃ projectName taskIds, stmt = .cancelQueuedOf projectName taskIds
    · obtain ⟨projectName, taskIds, rfl⟩ := bulk
      obtain ⟨rfl, -⟩ := Next.go.inj answered
      have plain : next.announces k = false := by
        split_ifs at pushed <;> simp at pushed
        · rw [pushed]
          rfl
        · rcases pushed with rfl | rfl <;> rfl
      rw [plain] at named
      cases named
    · have single : ∀ projectName taskIds, stmt ≠ .cancelQueuedOf projectName taskIds :=
        fun projectName taskIds same => bulk ⟨projectName, taskIds, same⟩
      rw [((other_update ending single updates answered).2 next pushed).2 k] at named
      cases named

theorem update_among (updates : action codec now stmt = .update hits f answer)
    (answered : (action codec now stmt).answer table = .go push emit)
    (nested : stmt.opening = false) : ∀ next ∈ push, next.reloadsAmong = false := by
  have single : ∀ projectName taskIds, stmt ≠ .cancelQueuedOf projectName taskIds := by
    rintro projectName taskIds rfl
    cases nested
  cases ending : stmt.endsTask with
  | some target =>
    obtain ⟨taskId, status⟩ := target
    obtain ⟨-, -, -, ⟨-, rfl⟩ | ⟨-, reload, more, rfl, reloading, plain⟩⟩ :=
      endsTask_answer ending updates answered
    · simp
    · intro next pushed
      rcases List.mem_cons.mp pushed with rfl | later
      · rcases reloading with rfl | ⟨-, rfl⟩ <;> rfl
      · exact (plain next later).1
  | none => exact fun next pushed => ((other_update ending single updates answered).2 next pushed).1

end Answers

/-! The rows that a session is about to end, and what it owes for them. -/

section Accounts

variable {S : Type} [DecidableEq S]

def Entering (s : S) (c : Cell S Task) (t : Task) : Prop :=
  c.pending = some (s, t) ∧ t.status.terminal = true ∧
    ∀ old, c.committed = some old → old.status.terminal = false

/-- Each row that the session is about to end has one event recorded or owed,
and nothing else is recorded or owed. -/
structure Accounted (cells : List (Cell S Task)) (s : S) (todo : List Stmt) (log : List Out) :
    Prop where
  entered : ∀ c ∈ cells, ∀ t, Entering s c t →
    eventsOf t.taskId log ++ todo.flatMap (owes t) = [t.terminalEvent]
  only : ∀ k, (∀ c ∈ cells, ∀ t, Entering s c t → t.taskId ≠ k) →
    eventsOf k log = [] ∧ ∀ stmt ∈ todo, stmt.announces k = false

theorem Entering.view {s : S} {c : Cell S Task} {t : Task} (entering : Entering s c t) :
    c.view s = some t := by
  simp [Cell.view, entering.1]

theorem Entering.mem_rows {s : S} {cells : List (Cell S Task)} {c : Cell S Task} {t : Task}
    (member : c ∈ cells) (entering : Entering s c t) : t ∈ cells.filterMap (Cell.view s) :=
  List.mem_filterMap.mpr ⟨c, member, entering.view⟩

theorem not_entering {s : S} {cells : List (Cell S Task)} (unlocked : Unlocked s cells) :
    ∀ c ∈ cells, ∀ t, ¬Entering s c t :=
  fun c member t entering => unlocked c member t entering.1

/-- A visible terminal row whose committed version is not terminal is being ended. -/
theorem entering_of_view {s : S} {c : Cell S Task} {t : Task} (seen : c.view s = some t)
    (terminal : t.status.terminal = true)
    (live : ∀ old, c.committed = some old → old.status.terminal = false) : Entering s c t := by
  refine ⟨?_, terminal, live⟩
  unfold Cell.view at seen
  split at seen
  next owner row lock =>
    split_ifs at seen with own
    · obtain rfl := Option.some.inj seen
      rw [lock, own]
    · rw [live t seen] at terminal
      cases terminal
  next =>
    rw [live t seen] at terminal
    cases terminal

theorem accounted_unlocked {s : S} {cells : List (Cell S Task)} (unlocked : Unlocked s cells)
    {todo : List Stmt} {log : List Out} (silent : ∀ k, eventsOf k log = [])
    (unnamed : ∀ k, ∀ stmt ∈ todo, stmt.announces k = false) : Accounted cells s todo log where
  entered c member t entering := absurd entering (not_entering unlocked c member t)
  only k _ := ⟨silent k, unnamed k⟩

/-- Statements of other sessions leave a session's accounts alone. -/
theorem Accounted.transfer {s : S} {before after : List (Cell S Task)} {todo : List Stmt}
    {log : List Out} (accounts : Accounted before s todo log)
    (same : ∀ d t, d.pending = some (s, t) → (d ∈ after ↔ d ∈ before)) :
    Accounted after s todo log where
  entered c member t entering :=
    accounts.entered c ((same c t entering.1).mp member) t entering
  only k none_ := accounts.only k fun c member t entering =>
    none_ c ((same c t entering.1).mpr member) t entering

variable {codec} {now : Nat} {stmt : Stmt} {rest push : List Stmt} {log emit : List Out}
  {cells : List (Cell S Task)} {s : S}

theorem accounted_query (accounts : Accounted cells s (stmt :: rest) log)
    (distinct : KeysDistinct Task.taskId cells)
    (query : ∃ answer, action codec now stmt = .query answer)
    (answered : (action codec now stmt).answer (cells.filterMap (Cell.view s)) = .go push emit)
    (undisturbed : ∀ projectName taskIds, stmt = .reloadCancelledAmong projectName taskIds →
      ∀ c ∈ cells, ∀ t, c.view s = some t → t.taskId ∈ taskIds → t.status = .cancelled →
        Entering s c t) :
    Accounted cells s (push ++ rest) (log ++ emit) where
  entered c member t entering := by
    have balance := query_owes query answered (rows_nodup distinct s) (entering.mem_rows member)
    have before := accounts.entered c member t entering
    rw [List.flatMap_cons, ← balance] at before
    simpa [List.flatMap_append, List.append_assoc] using before
  only k none_ := by
    obtain ⟨silent, unnamed⟩ := accounts.only k none_
    refine ⟨?_, ?_⟩
    · rw [eventsOf_append, silent, List.nil_append]
      refine query_silent query answered (unnamed stmt (by simp)) ?_
      intro projectName taskIds same t member named listed cancelled
      obtain ⟨c, cell, seen⟩ := List.mem_filterMap.mp member
      exact none_ c cell t (undisturbed projectName taskIds same c cell t seen (named ▸ listed)
        cancelled) named
    · intro next member
      rcases List.mem_append.mp member with pushed | old
      · exact (query_push query answered next pushed).2 k
      · exact unnamed next (by simp [old])

variable {hits : Task → Bool} {f : Task → Task} {answer : Nat → Next Stmt Out}

/-- Where the rows that a session is about to end come from after an update of its own. -/
theorem entering_write {c : Cell S Task} {u : Task}
    (entering : Entering s (c.write s hits f) u) :
    Entering s c u ∨ ∃ t, c.view s = some t ∧ hits t = true ∧ u = f t ∧
      (Entering s c t ∨ t.status.terminal = false) := by
  have committed : (c.write s hits f).committed = c.committed := by
    unfold Cell.write
    split
    · split_ifs <;> rfl
    · rfl
  obtain ⟨lock, terminal, live⟩ := entering
  rw [committed] at live
  rcases Cell.write_pending lock with same | ⟨-, t, seen, hit, rfl⟩
  · exact .inl ⟨same, terminal, live⟩
  · refine .inr ⟨t, seen, hit, rfl, ?_⟩
    cases before : t.status.terminal with
    | true => exact .inl (entering_of_view seen before live)
    | false => exact .inr rfl

theorem write_hit {c : Cell S Task} {t : Task} (seen : c.view s = some t) (hit : hits t = true) :
    c.write s hits f = ⟨c.committed, some (s, f t)⟩ := by
  simp [Cell.write, seen, hit]

theorem write_miss {c : Cell S Task} {t : Task} (seen : c.view s = some t)
    (miss : hits t = false) : c.write s hits f = c := by
  simp [Cell.write, seen, miss]

/-- The committed version of a row that is visibly live is live as well. -/
theorem committed_live {c : Cell S Task} (sound : c.Sound Task.Attributed Transition) {t : Task}
    (seen : c.view s = some t) (live : t.status.terminal = false) :
    ∀ old, c.committed = some old → old.status.terminal = false := by
  intro old found
  by_contra ended
  have moved := (Cell.view_sound sound seen).2 old found
  rw [descends_terminal moved (by simpa using ended)] at live
  exact ended live

/-- A row being ended keeps its event under further updates. -/
theorem Transition.keeps_event {t u : Task} (moved : Transition t u)
    (terminal : t.status.terminal = true) :
    u.status = t.status ∧ u.terminalEvent = t.terminalEvent ∧ owes u = owes t := by
  have status := descends_terminal (.single moved) terminal
  refine ⟨status, ?_, owes_congr moved.taskId moved.projectName moved.taskType status⟩
  simp [Task.terminalEvent, moved.taskId, moved.projectName, moved.taskType, status]

theorem owes_update (updates : action codec now stmt = .update hits f answer) (t : Task) :
    owes t stmt = [] := by
  cases stmt with
  | reloadTerminal _ _ | reloadCancelled _ | reloadCancelledAmong _ _ => cases updates
  | _ => rfl

section Update

variable (sound : CellsSound Task.Attributed Transition cells)
  (distinct : KeysDistinct Task.taskId cells)
  (updates : action codec now stmt = .update hits f answer)
  (answered : (action codec now stmt).answer (cells.filterMap (Cell.view s)) = .go push emit)

include sound distinct updates answered

/-- A row that was already being ended stays accounted for. -/
theorem accounted_kept (accounts : Accounted cells s (stmt :: rest) log)
    (opens : stmt.opening = true → Unlocked s cells) {c : Cell S Task} (member : c ∈ cells)
    {t u : Task} (entering : Entering s c t) (same : owes u = owes t)
    (event : u.terminalEvent = t.terminalEvent) :
    eventsOf u.taskId (log ++ emit) ++ (push ++ rest).flatMap (owes u) = [u.terminalEvent] := by
  have taskId : u.taskId = t.taskId := congrArg TerminalEvent.taskId event
  have nested : stmt.opening = false := by
    by_contra opening
    exact not_entering (opens (by simpa using opening)) c member t entering
  have quiet : push.flatMap (owes t) = [] := by
    refine owes_flatMap_eq_nil ?_ (update_among updates answered nested)
    intro next pushed
    by_contra named
    obtain ⟨q, inRows, -, sameId, live, -⟩ :=
      update_announces updates answered pushed (by simpa using named)
    have this : q = t := List.inj_on_of_nodup_map (rows_nodup distinct s) inRows
      (entering.mem_rows member) sameId
    rw [this, entering.2.1] at live
    cases live
  have before := accounts.entered c member t entering
  rw [List.flatMap_cons, owes_update updates t, List.nil_append] at before
  rw [taskId, same, event, eventsOf_append, update_silent updates answered, List.append_nil,
    List.flatMap_append, quiet, List.nil_append, before]

/-- A row that the update ends has its one event owed by the statements it schedules. -/
theorem accounted_ended (accounts : Accounted cells s (stmt :: rest) log)
    (single : ∀ next ∈ rest, next.reloadsAmong = false)
    (undisturbed : ∀ projectName taskIds, stmt = .cancelQueuedOf projectName taskIds →
      ∀ t ∈ cells.filterMap (Cell.view s), t.projectName = projectName → t.status = .queued →
        t.taskId ∈ taskIds)
    {c : Cell S Task} (member : c ∈ cells) {t : Task} (seen : c.view s = some t)
    (hit : hits t = true) (live : t.status.terminal = false)
    (ended : (f t).status.terminal = true) :
    eventsOf (f t).taskId (log ++ emit) ++ (push ++ rest).flatMap (owes (f t)) =
      [(f t).terminalEvent] := by
  have inRows : t ∈ cells.filterMap (Cell.view s) := List.mem_filterMap.mpr ⟨c, member, seen⟩
  have moved := ((action_guarded codec).update updates t
    (Cell.view_sound (sound c member) seen).1 hit).1
  have none_ : ∀ d ∈ cells, ∀ q, Entering s d q → q.taskId ≠ t.taskId := by
    intro d memberD q entering same
    have this : q = t := List.inj_on_of_nodup_map (rows_nodup distinct s)
      (entering.mem_rows memberD) inRows same
    rw [← this, entering.2.1] at live
    cases live
  obtain ⟨silent, unnamed⟩ := accounts.only t.taskId none_
  have quiet : rest.flatMap (owes (f t)) = [] := by
    refine owes_flatMap_eq_nil ?_ single
    intro next later
    rw [moved.taskId]
    exact unnamed next (by simp [later])
  rw [List.flatMap_append, update_owes updates answered undisturbed inRows hit live ended
    moved.taskId, quiet, eventsOf_append, update_silent updates answered, moved.taskId, silent]
  rfl

theorem accounted_update (accounts : Accounted cells s (stmt :: rest) log)
    (single : ∀ next ∈ rest, next.reloadsAmong = false)
    (opens : stmt.opening = true → Unlocked s cells)
    (undisturbed : ∀ projectName taskIds, stmt = .cancelQueuedOf projectName taskIds →
      ∀ t ∈ cells.filterMap (Cell.view s), t.projectName = projectName → t.status = .queued →
        t.taskId ∈ taskIds) :
    Accounted (cells.map (Cell.write s hits f)) s (push ++ rest) (log ++ emit) where
  entered d member u entering := by
    obtain ⟨c, old, rfl⟩ := List.mem_map.mp member
    rcases entering_write entering with same | ⟨t, seen, hit, rfl, before | live⟩
    · exact accounted_kept sound distinct updates answered accounts opens old same rfl rfl
    · have moved := ((action_guarded codec).update updates t
        (Cell.view_sound (sound c old) seen).1 hit).1
      obtain ⟨-, event, same⟩ := moved.keeps_event before.2.1
      exact accounted_kept sound distinct updates answered accounts opens old before same event
    · exact accounted_ended sound distinct updates answered accounts single undisturbed old seen
        hit live entering.2.1
  only k none_ := by
    have before : ∀ c ∈ cells, ∀ t, Entering s c t → t.taskId ≠ k := by
      intro c member t entering
      cases hit : hits t with
      | false =>
        have same := write_miss (f := f) entering.view hit
        exact none_ c (List.mem_map.mpr ⟨c, member, same⟩) t entering
      | true =>
        have moved := ((action_guarded codec).update updates t
          (Cell.view_sound (sound c member) entering.view).1 hit).1
        rw [← moved.taskId]
        refine none_ _ (List.mem_map.mpr ⟨c, member, rfl⟩) (f t) ?_
        rw [write_hit entering.view hit]
        exact ⟨rfl, by rw [(moved.keeps_event entering.2.1).1, entering.2.1], entering.2.2⟩
    obtain ⟨silent, unnamed⟩ := accounts.only k before
    refine ⟨by rw [eventsOf_append, silent, update_silent updates answered]; rfl, ?_⟩
    intro next member
    rcases List.mem_append.mp member with pushed | later
    · by_contra named
      obtain ⟨t, inRows, hit, sameId, live, ended⟩ :=
        update_announces updates answered pushed (by simpa using named)
      obtain ⟨c, cell, seen⟩ := List.mem_filterMap.mp inRows
      have moved := ((action_guarded codec).update updates t
        (Cell.view_sound (sound c cell) seen).1 hit).1
      have base := committed_live (sound c cell) seen live
      refine none_ _ (List.mem_map.mpr ⟨c, cell, rfl⟩) (f t) ?_ (moved.taskId.trans sameId)
      rw [write_hit seen hit]
      exact ⟨rfl, ended, base⟩
    · exact unnamed next (by simp [later])

end Update

/-- The bulk cancellation of `cancel_all_queued` meets no other session's change:
its update finds only rows that its first query has listed, and no listed row
was cancelled by another session when it reloads them. -/
def bulkCancelUndisturbed (w : World S Task Stmt Out) : Turn S Nat Op → Bool
  | .exec s _ =>
      match (w.sessions s).todo with
      | .cancelQueuedOf projectName taskIds :: _ => decide (∀ t ∈ w.rows s,
          t.projectName = projectName → t.status = .queued → t.taskId ∈ taskIds)
      | .reloadCancelledAmong _ taskIds :: _ => decide (∀ t ∈ w.committed,
          t.taskId ∈ taskIds → t.status ≠ .cancelled)
      | _ => true
  | .start _ _ | .abort _ => true

structure Notified (w : World S Task Stmt Out) : Prop where
  claims : ClaimsSound w
  ordered : ∀ s, (w.sessions s).todo.Pairwise Stmt.Before
  accounted : ∀ s, (w.sessions s).todo ≠ [] →
    Accounted w.cells s (w.sessions s).todo (w.sessions s).log
  notified : ∀ t ∈ w.committed, t.status.terminal = true →
    eventsOf t.taskId w.published = [t.terminalEvent]
  silent : ∀ k, (∀ t ∈ w.committed, t.taskId = k → t.status.terminal = false) →
    eventsOf k w.published = []

theorem notified_empty : Notified (World.empty (S := S)) where
  claims := claimsSound_empty
  ordered := by simp [World.empty]
  accounted := by simp [World.empty]
  notified := by simp [World.empty, World.committed]
  silent := by simp [World.empty]

/-- The statements after one statement are ordered as well. -/
theorem ordered_exec {w : World S Task Stmt Out} (inv : Notified w)
    (waiting : (w.sessions s).todo = stmt :: rest)
    (answered : (action codec now stmt).answer (w.rows s) = .go push emit) :
    (push ++ rest).Pairwise Stmt.Before := by
  obtain ⟨pushed, nested⟩ := push_before codec answered
  have before := inv.ordered s
  rw [waiting] at before
  obtain ⟨head, tail⟩ := List.pairwise_cons.mp before
  refine List.pairwise_append.mpr ⟨pushed, tail, ?_⟩
  intro a member b later
  refine ⟨fun ends => ?_, (head b later).2⟩
  cases opening : stmt.opening with
  | true =>
    have alone := (inv.claims.opening s stmt (by simp [waiting]) opening).1
    rw [waiting] at alone
    rw [(List.cons.inj alone).2] at later
    cases later
  | false =>
    rw [nested opening a member] at ends
    cases ends

theorem accounted_insert {request : EnqueueRequest}
    (accounts : Accounted cells s (.insertTask request :: rest) log) (unlocked : Unlocked s cells)
    (answered : (action codec now (.insertTask request)).answer (cells.filterMap (Cell.view s)) =
      .go push emit) :
    Accounted ((action codec now (.insertTask request)).apply s cells) s (push ++ rest)
      (log ++ emit) := by
  have quiet : ∀ k, eventsOf k emit = [] ∧ ∀ next ∈ push, next.announces k = false := by
    intro k
    simp only [action, Action.answer] at answered
    split_ifs at answered <;> obtain ⟨rfl, rfl⟩ := Next.go.inj answered <;>
      exact ⟨rfl, by simp [Stmt.announces]⟩
  have none_ : ∀ d ∈ (action codec now (.insertTask request)).apply s cells, ∀ t,
      ¬Entering s d t := by
    intro d member t entering
    simp only [action, Action.apply] at member
    split_ifs at member
    · exact not_entering unlocked d member t entering
    · rcases List.mem_append.mp member with old | new
      · exact not_entering unlocked d old t entering
      · obtain rfl := List.mem_singleton.mp new
        obtain ⟨-, rfl⟩ := Prod.mk.inj (Option.some.inj entering.1)
        cases entering.2.1
  refine ⟨fun d member t entering => absurd entering (none_ d member t), fun k _ => ?_⟩
  obtain ⟨silent, unnamed⟩ := accounts.only k fun c member t entering =>
    absurd entering (not_entering unlocked c member t)
  refine ⟨by rw [eventsOf_append, silent, (quiet k).1]; rfl, ?_⟩
  intro next member
  rcases List.mem_append.mp member with pushed | later
  · exact (quiet k).2 next pushed
  · exact unnamed next (by simp [later])

theorem accounted_exec {w : World S Task Stmt Out} (inv : Notified w)
    (undisturbed : bulkCancelUndisturbed w (.exec s now) = true)
    (waiting : (w.sessions s).todo = stmt :: rest)
    (answered : (action codec now stmt).answer (w.rows s) = .go push emit) :
    Accounted ((action codec now stmt).apply s w.cells) s (push ++ rest)
      ((action codec now stmt).keep (w.sessions s).log ++ emit) := by
  have accounts := inv.accounted s (by simp [waiting])
  have before := inv.ordered s
  rw [waiting] at accounts before
  have opens : stmt.opening = true → Unlocked s w.cells := fun opening =>
    (inv.claims.opening s stmt (by simp [waiting]) opening).2
  simp only [bulkCancelUndisturbed, waiting] at undisturbed
  cases kind : action codec now stmt with
  | query answer =>
    refine accounted_query accounts inv.claims.distinct ⟨answer, kind⟩ answered ?_
    rintro projectName taskIds rfl c cell t seen listed cancelled
    refine entering_of_view seen (by rw [cancelled]; rfl) ?_
    intro old found
    by_contra ended
    have moved := (Cell.view_sound (inv.claims.sound c cell) seen).2 old found
    have status := descends_terminal moved (by simpa using ended)
    exact of_decide_eq_true undisturbed old (List.mem_filterMap.mpr ⟨c, cell, found⟩)
      (descends_taskId moved ▸ listed) (status.symm.trans cancelled)
  | update hits f answer =>
    refine accounted_update inv.claims.sound inv.claims.distinct kind answered accounts
      (fun next later => ((List.pairwise_cons.mp before).1 next later).2) opens ?_
    rintro projectName taskIds rfl
    exact of_decide_eq_true undisturbed
  | insert row clashes done dup =>
    cases stmt <;> simp only [action, Action.insert.injEq, reduceCtorEq] at kind
    next request =>
      obtain ⟨rfl, rfl, rfl, rfl⟩ := kind
      exact accounted_insert accounts (opens rfl) answered
  | commit =>
    cases stmt <;> simp only [action, reduceCtorEq] at kind
    obtain ⟨rfl, rfl⟩ := Next.go.inj answered
    refine accounted_unlocked (commit_unlocked s w.cells) (fun k => rfl) ?_
    intro k next later
    exact looksUp_announces (((List.pairwise_cons.mp before).1 next later).1 rfl) k
  | rollback =>
    cases stmt <;> simp only [action, reduceCtorEq] at kind
    obtain ⟨rfl, rfl⟩ := Next.go.inj answered
    refine accounted_unlocked (rollback_unlocked s w.cells) (fun k => rfl) ?_
    intro k next later
    exact looksUp_announces (((List.pairwise_cons.mp before).1 next later).1 rfl) k

theorem descends_terminalEvent {t u : Task} (moved : ReflTransGen Transition t u)
    (terminal : t.status.terminal = true) : u.terminalEvent = t.terminalEvent := by
  induction moved with
  | refl => rfl
  | @tail v u before step ih =>
    have ended : v.status.terminal = true := by rw [descends_terminal before terminal, terminal]
    rw [(step.keeps_event ended).2.1, ih]

/-- The committed versions of a row after a commit of `s`. -/
theorem commit_committed {c : Cell S Task} {t : Task}
    (found : (c.commit s).committed = some t) :
    c.pending = some (s, t) ∨ c.committed = some t ∧ ∀ u, c.pending ≠ some (s, u) := by
  unfold Cell.commit at found
  split at found
  next owner row lock =>
    split_ifs at found with own
    · obtain rfl := Option.some.inj found
      exact .inl (by rw [lock, own])
    · refine .inr ⟨found, fun u held => own ?_⟩
      rw [lock] at held
      exact (Prod.mk.inj (Option.some.inj held)).1
  next free => exact .inr ⟨found, fun u held => by simp [free] at held⟩

section Commit

variable {w : World S Task Stmt Out} (inv : Notified w)
  (waiting : (w.sessions s).todo = .commit :: rest)

include inv waiting

/-- At its commit a session has recorded everything it owes. -/
theorem recorded_at_commit {c : Cell S Task} (member : c ∈ w.cells) {t : Task}
    (entering : Entering s c t) : eventsOf t.taskId (w.sessions s).log = [t.terminalEvent] := by
  have accounts := inv.accounted s (by simp [waiting])
  have before := inv.ordered s
  rw [waiting] at accounts before
  have paid : rest.flatMap (owes t) = [] := by
    refine owes_flatMap_eq_nil ?_ fun next later => ((List.pairwise_cons.mp before).1 next later).2
    exact fun next later =>
      looksUp_announces (((List.pairwise_cons.mp before).1 next later).1 rfl) _
  have balance := accounts.entered c member t entering
  rw [List.flatMap_cons, paid] at balance
  simpa [owes] using balance

theorem unrecorded_at_commit {k : String}
    (none_ : ∀ c ∈ w.cells, ∀ t, Entering s c t → t.taskId ≠ k) :
    eventsOf k (w.sessions s).log = [] :=
  ((inv.accounted s (by simp [waiting])).only k none_).1

theorem notified_commit {t : Task}
    (member : t ∈ (w.cells.map (Cell.commit s)).filterMap Cell.committed)
    (terminal : t.status.terminal = true) :
    eventsOf t.taskId (w.published ++ (w.sessions s).log) = [t.terminalEvent] := by
  obtain ⟨d, cell, found⟩ := List.mem_filterMap.mp member
  obtain ⟨c, old, rfl⟩ := List.mem_map.mp cell
  have version : t ∈ c.versions := Cell.commit_versions (Cell.committed_mem_versions found)
  have here : ∀ b ∈ w.cells, ∀ q, Entering s b q → q.taskId = t.taskId → b = c :=
    fun b memberB q entering same => cell_unique inv.claims.distinct memberB old
      (Cell.view_mem_versions entering.view) version same
  rw [eventsOf_append]
  -- either `s` ends the row now, or it had ended before this transaction
  by_cases entering : Entering s c t
  · rw [recorded_at_commit inv waiting old entering]
    have before : eventsOf t.taskId w.published = [] := by
      refine inv.silent t.taskId fun q memberQ same => ?_
      obtain ⟨b, memberB, foundQ⟩ := List.mem_filterMap.mp memberQ
      obtain rfl := cell_unique inv.claims.distinct memberB old
        (Cell.committed_mem_versions foundQ) version same
      exact entering.2.2 q foundQ
    rw [before]
    rfl
  · obtain ⟨q, base, ended, moved⟩ : ∃ q, c.committed = some q ∧ q.status.terminal = true ∧
        ReflTransGen Transition q t := by
      rcases commit_committed found with lock | ⟨base, _⟩
      · by_contra none_
        refine entering ⟨lock, terminal, fun q base => ?_⟩
        by_contra ended
        exact none_ ⟨q, base, by simpa using ended,
          (inv.claims.sound c old).descends s t q lock base⟩
      · exact ⟨t, base, terminal, .refl⟩
    have silent : eventsOf t.taskId (w.sessions s).log = [] := by
      refine unrecorded_at_commit inv waiting fun b memberB u enters same => ?_
      obtain rfl := here b memberB u enters same
      have live := enters.2.2 q base
      rw [ended] at live
      cases live
    rw [silent, List.append_nil, descends_terminalEvent moved ended, descends_taskId moved]
    exact inv.notified q (List.mem_filterMap.mpr ⟨c, old, base⟩) ended

theorem silent_commit {k : String}
    (live : ∀ t ∈ (w.cells.map (Cell.commit s)).filterMap Cell.committed,
      t.taskId = k → t.status.terminal = false) :
    eventsOf k (w.published ++ (w.sessions s).log) = [] := by
  have before : ∀ t ∈ w.committed, t.taskId = k → t.status.terminal = false := by
    intro t member same
    obtain ⟨c, old, found⟩ := List.mem_filterMap.mp member
    obtain ⟨-, later⟩ := Cell.commit_sound (inv.claims.sound c old) s
    obtain ⟨u, found', moved⟩ := later t found
    by_contra ended
    have after := live u (List.mem_filterMap.mpr ⟨_, List.mem_map.mpr ⟨c, old, rfl⟩, found'⟩)
      ((descends_taskId moved).trans same)
    rw [descends_terminal moved (by simpa using ended)] at after
    exact ended after
  have none_ : ∀ c ∈ w.cells, ∀ t, Entering s c t → t.taskId ≠ k := by
    intro c old t entering same
    have found : (c.commit s).committed = some t := by simp [Cell.commit, entering.1]
    have after := live t (List.mem_filterMap.mpr ⟨_, List.mem_map.mpr ⟨c, old, rfl⟩, found⟩) same
    rw [entering.2.1] at after
    cases after
  rw [eventsOf_append, inv.silent k before, unrecorded_at_commit inv waiting none_]
  rfl

end Commit

/-- The published events of a world, given the committed rows. -/
theorem published_exec {w : World S Task Stmt Out} (inv : Notified w)
    (waiting : (w.sessions s).todo = stmt :: rest) :
    (∀ t ∈ ((action codec now stmt).apply s w.cells).filterMap Cell.committed,
      t.status.terminal = true →
        eventsOf t.taskId ((action codec now stmt).publish w.published (w.sessions s).log) =
          [t.terminalEvent]) ∧
    ∀ k, (∀ t ∈ ((action codec now stmt).apply s w.cells).filterMap Cell.committed,
      t.taskId = k → t.status.terminal = false) →
        eventsOf k ((action codec now stmt).publish w.published (w.sessions s).log) = [] := by
  by_cases commits : action codec now stmt = .commit
  · obtain rfl := eq_commit_of_action codec commits
    exact ⟨fun t => notified_commit inv waiting, fun k => silent_commit inv waiting⟩
  · have same : (action codec now stmt).publish w.published (w.sessions s).log = w.published := by
      cases kind : action codec now stmt with
      | commit => exact absurd kind commits
      | _ => rfl
    rw [apply_committed commits, same]
    exact ⟨inv.notified, inv.silent⟩

theorem notified_exec {w v : World S Task Stmt Out} (inv : Notified w)
    (undisturbed : bulkCancelUndisturbed w (.exec s now) = true)
    (waiting : (w.sessions s).todo = stmt :: rest)
    (performed : w.perform s rest (action codec now stmt) = some v) : Notified v := by
  have claims := claimsSound_exec codec inv.claims waiting performed
  obtain ⟨free, todo, log, rfl, answered⟩ := World.perform_eq_some performed
  refine ⟨claims, ?_, ?_, ?_, ?_⟩
  · intro s'
    by_cases own : s' = s
    · subst own
      rw [World.resume_sessions_self]
      rcases answered with ⟨push, emit, said, rfl, -⟩ | ⟨-, rfl, -⟩
      · exact ordered_exec inv waiting said
      · exact .nil
    · rw [World.resume_sessions_of_ne _ own]
      exact inv.ordered s'
  · intro s' busy
    by_cases own : s' = s
    · subst own
      rw [World.resume_sessions_self] at busy ⊢
      rcases answered with ⟨push, emit, said, rfl, rfl⟩ | ⟨-, rfl, -⟩
      · have cells : (World.resume ⟨(action codec now stmt).apply s' w.cells, w.sessions,
            (action codec now stmt).publish w.published (w.sessions s').log⟩ s' (push ++ rest)
              ((action codec now stmt).keep (w.sessions s').log ++ emit)).cells =
            (action codec now stmt).apply s' w.cells :=
          if_neg (by simpa using busy)
        rw [cells]
        exact accounted_exec inv undisturbed waiting said
      · exact absurd rfl busy
    · rw [World.resume_sessions_of_ne _ own] at busy ⊢
      refine (inv.accounted s' busy).transfer fun d t lock => ?_
      rw [resume_foreign own _ _ d t lock]
      exact apply_foreign free own d t lock
  · rw [resume_committed]
    exact (published_exec inv waiting).1
  · rw [resume_committed]
    exact (published_exec inv waiting).2

theorem notified_start {w : World S Task Stmt Out} (inv : Notified w) (op : Op)
    (idle : (w.sessions s).todo = []) :
    Notified { w with sessions := Function.update w.sessions s ⟨program op, []⟩ } := by
  refine ⟨claimsSound_start inv.claims s op idle, ?_, ?_, inv.notified, inv.silent⟩
  · intro s'
    by_cases own : s' = s
    · subst own
      simpa only [Function.update_self] using program_before op
    · simpa only [Function.update_of_ne own] using inv.ordered s'
  · intro s' busy
    by_cases own : s' = s
    · subst own
      simp only [Function.update_self]
      exact accounted_unlocked (inv.claims.idle s' idle) (fun _ => rfl)
        (fun k => program_announces op k)
    · simp only [Function.update_of_ne own] at busy ⊢
      exact inv.accounted s' busy

theorem notified_abort {w : World S Task Stmt Out} (inv : Notified w) :
    Notified (w.resume s [] []) := by
  refine ⟨claimsSound_resume inv.claims s, ?_, ?_, ?_, ?_⟩
  · intro s'
    by_cases own : s' = s
    · rw [own, World.resume_sessions_self]
      exact .nil
    · rw [World.resume_sessions_of_ne _ own]
      exact inv.ordered s'
  · intro s' busy
    by_cases own : s' = s
    · rw [own, World.resume_sessions_self] at busy
      exact absurd rfl busy
    · rw [World.resume_sessions_of_ne _ own] at busy ⊢
      exact (inv.accounted s' busy).transfer fun d t lock => resume_foreign own _ _ d t lock
  · rw [resume_committed]
    exact inv.notified
  · rw [resume_committed]
    exact inv.silent

end Accounts

variable {S : Type} [DecidableEq S]

theorem notified_run {ts : List (Turn S Nat Op)} {w v : World S Task Stmt Out} (inv : Notified w)
    (undisturbed : allTurns program (action codec) bulkCancelUndisturbed ts w = true)
    (ran : run program (action codec) ts w = some v) : Notified v := by
  refine run_induct_of Notified ?_ ts w v inv undisturbed ran
  intro w v t inv meets taken
  rcases turn_eq_some taken with ⟨s, op, rfl, idle, rfl⟩ |
    ⟨s, now, stmt, rest, rfl, waiting, performed⟩ | ⟨s, rfl, rfl⟩
  · exact notified_start inv op idle
  · exact notified_exec inv meets waiting performed
  · exact notified_abort inv

/-- Terminal rows and published terminal events match one to one in every world
reached while no bulk cancellation is disturbed. -/
theorem terminal_events_exactly_once (ts : List (Turn S Nat Op)) (w : World S Task Stmt Out)
    (ran : run program (action codec) ts World.empty = some w)
    (undisturbed : allTurns program (action codec) bulkCancelUndisturbed ts World.empty = true) :
    (∀ t ∈ w.committed, t.status.terminal = true →
      eventsOf t.taskId w.published = [⟨t.taskId, t.projectName, t.status, t.taskType⟩]) ∧
    ∀ event, .terminalEvent event ∈ w.published → ∃ t ∈ w.committed,
      t.status.terminal = true ∧ event = ⟨t.taskId, t.projectName, t.status, t.taskType⟩ := by
  have inv := notified_run codec notified_empty undisturbed ran
  refine ⟨inv.notified, fun event published => ?_⟩
  have listed : event ∈ eventsOf event.taskId w.published :=
    List.mem_filterMap.mpr ⟨_, published, by simp⟩
  by_contra none_
  have silent : eventsOf event.taskId w.published = [] := by
    refine inv.silent event.taskId fun t member same => ?_
    by_contra ended
    have only := inv.notified t member (by simpa using ended)
    rw [same] at only
    rw [only] at listed
    exact none_ ⟨t, member, by simpa using ended, List.mem_singleton.mp listed⟩
  rw [silent] at listed
  cases listed

/-- Two tasks are enqueued, and a bulk cancellation ends both. -/
def bulkTurns : List (Turn Bool Nat Op) :=
  [.start true (.enqueue (.image "a" "p" "r" none)), .exec true 1, .exec true 1,
    .start true (.enqueue (.image "b" "p" "q" none)), .exec true 2, .exec true 2,
    .start true (.cancelAllQueued "p"), .exec true 3, .exec true 3, .exec true 3, .exec true 3]

private theorem bulkTurns_run :
    (run program (action plainCodec) bulkTurns World.empty).isSome := by decide

theorem terminal_events_exactly_once_bulk :
    ∃ w : World Bool Task Stmt Out,
      run program (action plainCodec) bulkTurns World.empty = some w ∧
      w.committed.map Task.status = [.cancelled, .cancelled] ∧
      ∀ t ∈ w.committed, t.status.terminal = true →
        eventsOf t.taskId w.published = [⟨t.taskId, t.projectName, t.status, t.taskType⟩] :=
  ⟨_, (Option.some_get bulkTurns_run).symm, by decide,
    (terminal_events_exactly_once plainCodec bulkTurns _ (Option.some_get bulkTurns_run).symm
      (by decide)).1⟩

/-- A task is enqueued between the query and the update of `cancel_all_queued`. -/
def enqueuedBetweenTurns : List (Turn Bool Nat Op) :=
  [.start true (.cancelAllQueued "p"), .exec true 1,
    .start false (.enqueue (.image "a" "p" "r" none)), .exec false 2, .exec false 2,
    .exec true 3, .exec true 3]

/-- A listed task is cancelled by another session before `cancel_all_queued` updates. -/
def cancelledBetweenTurns : List (Turn Bool Nat Op) :=
  [.start false (.enqueue (.image "a" "p" "r" none)), .exec false 1, .exec false 1,
    .start true (.cancelAllQueued "p"), .exec true 2,
    .start false (.cancelTask "a"), .exec false 3, .exec false 3, .exec false 3, .exec false 3,
    .exec false 3, .exec true 4, .exec true 4, .exec true 4]

private theorem enqueuedBetweenTurns_run :
    (run program (action plainCodec) enqueuedBetweenTurns World.empty).isSome := by decide

private theorem cancelledBetweenTurns_run :
    (run program (action plainCodec) cancelledBetweenTurns World.empty).isSome := by decide

/-- A disturbed bulk cancellation loses the event of one row and repeats that of another. -/
theorem bulk_cancel_loses_and_repeats_events :
    (∃ w : World Bool Task Stmt Out,
      run program (action plainCodec) enqueuedBetweenTurns World.empty = some w ∧
        ∃ t ∈ w.committed, t.status = .cancelled ∧ eventsOf t.taskId w.published = []) ∧
    (∃ w : World Bool Task Stmt Out,
      run program (action plainCodec) cancelledBetweenTurns World.empty = some w ∧
        ∃ t ∈ w.committed, t.status = .cancelled ∧
          eventsOf t.taskId w.published = [t.terminalEvent, t.terminalEvent]) :=
  ⟨⟨_, (Option.some_get enqueuedBetweenTurns_run).symm, by decide⟩,
    ⟨_, (Option.some_get cancelledBetweenTurns_run).symm, by decide⟩⟩

end ArcReel.Queue
