import ArcReel.Lib.DepthFirst
import ArcReel.Queue.Cancellation

/-! `get_cancel_preview`, and `cancel_task` on a queued task: the tasks that it cancels are the
previewed ones, in the same order. -/

namespace ArcReel.Queue
open ArcReel.Lib ArcReel.Lib.SqlSession

/-- The fields of a task that a preview lists. -/
structure TaskSummary where
  taskId : String
  taskType : String
  resourceId : String
  deriving DecidableEq, Repr

def Task.summary (t : Task) : TaskSummary := ⟨t.taskId, t.taskType, t.resourceId⟩

structure CancelPreview where
  task : TaskSummary
  status : TaskStatus
  cascaded : List TaskSummary
  deriving DecidableEq, Repr

/-- The queued rows that depend on a task, as `_collect_queued_dependents` selects them. -/
def queuedDependents (table : List Task) (taskId : String) : List Task :=
  byQueuedAt (table.filter fun t => t.dependencyTaskId == some taskId && t.status == .queued)

/-- `_collect_queued_dependents`; the fuel bounds the depth of its recursion. -/
def collectQueuedDependents (table : List Task) (fuel : Nat) (taskId : String) : Option (List Task) :=
  DepthFirst.collect (queuedDependents table) Task.taskId fuel taskId

/-- `get_cancel_preview`: there is none of a task that does not exist. -/
def getCancelPreview (table : List Task) (fuel : Nat) (taskId : String) : Option CancelPreview := do
  let task ← findTask table taskId
  let cascaded ← collectQueuedDependents table fuel taskId
  some ⟨task.summary, task.status, cascaded.map Task.summary⟩

/-- The ids of the list `cancelled` that `cancel_task` returns. -/
def cancelledIds (out : List Out) : List String :=
  out.filterMap fun
    | .cancelled t => some t.taskId
    | _ => none

/-- A row waits for another one. -/
def DependsOn (table : List Task) (low high : String) : Prop :=
  ∃ t ∈ table, t.taskId = low ∧ t.dependencyTaskId = some high

/-- No row waits for itself, directly or through others. -/
def DependencyAcyclic (table : List Task) : Prop :=
  ∀ taskId, ¬Relation.TransGen (DependsOn table) taskId taskId

/-- Rows that wait for lower ones only never wait for themselves. -/
theorem acyclic_of_rank {table : List Task} (rank : String → Nat)
    (lower : ∀ t ∈ table, ∀ above ∈ t.dependencyTaskId, rank above < rank t.taskId) :
    DependencyAcyclic table := by
  have falls : ∀ low high, Relation.TransGen (DependsOn table) low high → rank high < rank low := by
    intro low high path
    induction path with
    | single step =>
      obtain ⟨t, member, rfl, depends⟩ := step
      exact lower t member _ depends
    | tail _ step ih =>
      obtain ⟨t, member, rfl, depends⟩ := step
      exact Nat.lt_trans (lower t member _ depends) ih
  exact fun taskId cycle => Nat.lt_irrefl _ (falls taskId taskId cycle)

section Dependents

variable {table : List Task}

theorem orderedInsert_least {α : Type} {r : α → α → Prop} [DecidableRel r] {a : α} {l : List α}
    (least : ∀ b ∈ l, r a b) : l.orderedInsert r a = a :: l := by
  cases l with
  | nil => rfl
  | cons b l => rw [List.orderedInsert_cons, if_pos (least b (.head _))]

/-- A stable sort commutes with a filter. -/
theorem filter_insertionSort {α : Type} {r : α → α → Prop} [DecidableRel r] [Std.Total r]
    [IsTrans α r] (p : α → Bool) (l : List α) :
    (l.insertionSort r).filter p = (l.filter p).insertionSort r := by
  have insert : ∀ (a : α) (l : List α), l.Pairwise r → (l.orderedInsert r a).filter p =
      if p a then (l.filter p).orderedInsert r a else l.filter p := by
    intro a l sorted
    induction l with
    | nil =>
      by_cases keeps : p a = true <;> simp [keeps]
    | cons b l ih =>
      obtain ⟨first, later⟩ := List.pairwise_cons.mp sorted
      rw [List.orderedInsert_cons]
      by_cases low : r a b
      · have least : ∀ c ∈ (b :: l).filter p, r a c := by
          intro c member
          cases List.mem_cons.mp (List.mem_filter.mp member).1 with
          | inl same => exact same ▸ low
          | inr inside => exact IsTrans.trans a b c low (first c inside)
        rw [if_pos low, orderedInsert_least least, List.filter_cons]
      · rw [if_neg low, List.filter_cons, List.filter_cons, ih later]
        by_cases keeps : p b = true
        · rw [if_pos keeps, if_pos keeps, List.orderedInsert_cons, if_neg low]
          split_ifs <;> rfl
        · rw [if_neg keeps, if_neg keeps]
  induction l with
  | nil => rfl
  | cons a l ih =>
    rw [List.insertionSort_cons, insert a _ (List.pairwise_insertionSort r l), ih, List.filter_cons]
    split_ifs <;> rfl

theorem queuedDependents_eq (table : List Task) (taskId : String) :
    queuedDependents table taskId =
      (byQueuedAt (table.filter fun t => t.dependencyTaskId == some taskId)).filter
        fun t => t.status == .queued := by
  have total : Std.Total fun a b : Task => a.queuedAt ≤ b.queuedAt :=
    ⟨fun a b => Nat.le_total a.queuedAt b.queuedAt⟩
  have transitive : IsTrans Task fun a b => a.queuedAt ≤ b.queuedAt :=
    ⟨fun _ _ _ first second => Nat.le_trans first second⟩
  unfold queuedDependents byQueuedAt
  rw [filter_insertionSort, List.filter_filter]
  congr 1
  apply List.filter_congr
  intro t _
  exact Bool.and_comm _ _

theorem mem_queuedDependents {taskId : String} {t : Task} :
    t ∈ queuedDependents table taskId ↔
      t ∈ table ∧ t.dependencyTaskId = some taskId ∧ t.status = .queued := by
  unfold queuedDependents
  rw [mem_byQueuedAt, List.mem_filter, Bool.and_eq_true, beq_iff_eq, beq_iff_eq]

theorem below_dependsOn {low high : String}
    (below : DepthFirst.Below (queuedDependents table) Task.taskId low high) :
    DependsOn table low high := by
  obtain ⟨t, listed, named⟩ := below
  obtain ⟨member, depends, -⟩ := mem_queuedDependents.mp listed
  exact ⟨t, member, named, depends⟩

theorem acyclic_below (acyclic : DependencyAcyclic table) (taskId : String) :
    ¬Relation.TransGen (DepthFirst.Below (queuedDependents table) Task.taskId) taskId taskId :=
  fun cycle => acyclic taskId (Relation.TransGen.mono (fun _ _ => below_dependsOn) _ _ cycle)

theorem dependents_finite (above : String) : ∀ t ∈ queuedDependents table above,
    t.taskId ∈ table.map Task.taskId :=
  fun t listed => List.mem_map.mpr ⟨t, (mem_queuedDependents.mp listed).1, rfl⟩

theorem dependents_distinct (distinct : (table.map Task.taskId).Nodup) (above : String) :
    ((queuedDependents table above).map Task.taskId).Nodup := by
  unfold queuedDependents byQueuedAt
  have sorted := (List.perm_insertionSort (fun a b : Task => a.queuedAt ≤ b.queuedAt)
    (table.filter fun t => t.dependencyTaskId == some above && t.status == .queued)).map Task.taskId
  exact sorted.nodup_iff.mpr ((List.filter_sublist.map Task.taskId).nodup distinct)

theorem dependency_unique (distinct : (table.map Task.taskId).Nodup) (low first second : String)
    (isFirst : DepthFirst.Below (queuedDependents table) Task.taskId low first)
    (isSecond : DepthFirst.Below (queuedDependents table) Task.taskId low second) :
    first = second := by
  obtain ⟨t, member, named, depends⟩ := below_dependsOn isFirst
  obtain ⟨u, member', named', depends'⟩ := below_dependsOn isSecond
  have same := List.inj_on_of_nodup_map distinct member member' (named.trans named'.symm)
  rw [same, depends'] at depends
  exact (Option.some.inj depends).symm

/-- The ids of the queued tasks that depend on a task, directly or through queued ones. -/
def cascadeIds (table : List Task) (taskId : String) : List String :=
  (DepthFirst.listing (queuedDependents table) Task.taskId (table.map Task.taskId) taskId).map
    Task.taskId

theorem cascadeIds_eq (acyclic : DependencyAcyclic table) (taskId : String) :
    cascadeIds table taskId =
      (queuedDependents table taskId).flatMap fun t => t.taskId :: cascadeIds table t.taskId := by
  unfold cascadeIds
  rw [DepthFirst.listing_eq (acyclic_below acyclic) dependents_finite taskId, List.map_flatMap]
  rfl

theorem cascadeIds_nodup (distinct : (table.map Task.taskId).Nodup)
    (acyclic : DependencyAcyclic table) (taskId : String) :
    (taskId :: cascadeIds table taskId).Nodup :=
  DepthFirst.collect_nodup (acyclic_below acyclic) (dependents_distinct distinct)
    (dependency_unique distinct) _
    (DepthFirst.collect_listing (acyclic_below acyclic) dependents_finite taskId)

theorem cascadeIds_queued (acyclic : DependencyAcyclic table) {taskId low : String}
    (member : low ∈ cascadeIds table taskId) :
    ∃ t ∈ table, t.taskId = low ∧ t.status = .queued := by
  obtain ⟨t, listed, rfl⟩ := List.mem_map.mp member
  have below := DepthFirst.below_collect _
    (DepthFirst.collect_listing (acyclic_below acyclic) dependents_finite taskId) t listed
  obtain ⟨high, step, -⟩ := Relation.TransGen.head'_iff.mp below
  obtain ⟨u, found, named⟩ := step
  obtain ⟨inTable, -, queued⟩ := mem_queuedDependents.mp found
  exact ⟨u, inTable, named, queued⟩

end Dependents

/-! What a cancellation does, statement by statement. -/

/-- The ids that a statement goes on to report as cancelled. -/
def Stmt.goesOn (table : List Task) : Stmt → List String
  | .selectForCancel taskId | .markCancelled taskId _ | .reloadCancelled taskId =>
      taskId :: cascadeIds table taskId
  | .cascadeCancelDependents taskId => cascadeIds table taskId
  | _ => []

/-- The row of the task has been set to cancelled. -/
def Marked (st : Solo Task Stmt Out) (taskId : String) : Prop :=
  taskId ∈ cancelledIds st.out ∨ .reloadCancelled taskId ∈ st.todo

/-- What the cancellation has done to a row of the table. -/
structure RowCancelled (marked : String → Prop) (t u : Task) : Prop where
  taskId : u.taskId = t.taskId
  dependencyTaskId : u.dependencyTaskId = t.dependencyTaskId
  queuedAt : u.queuedAt = t.queuedAt
  cancelled : marked t.taskId → u.status = .cancelled
  other : ¬marked t.taskId → u.status = t.status ∨ t.status = .running ∧ u.status = .cancelling ∧
    ∃ above, marked above ∧ t.dependencyTaskId = some above

/-- A statement that a cancellation may still have to run. -/
def Stmt.inCancel (table : List Task) (marked : String → Prop) : Stmt → Prop
  | .selectForCancel _ | .markCancelled _ _ | .reloadCancelled _ | .skipTerminal _ | .commit => True
  | .cascadeCancelDependents taskId => marked taskId
  | .markCancelling taskId _ => ∃ t ∈ table, t.taskId = taskId ∧
      ∃ above, marked above ∧ t.dependencyTaskId = some above
  | .refreshForCancel taskId => ∃ t ∈ table, t.taskId = taskId
  | _ => False

/-- A cancellation that reports the ids of a list in order. -/
structure InOrder (table : List Task) (full : List String) (st : Solo Task Stmt Out) : Prop where
  order : cancelledIds st.out ++ st.todo.flatMap (Stmt.goesOn table) = full
  rows : ∃ g, st.working = table.map g ∧ ∀ t ∈ table, RowCancelled (Marked st) t (g t)
  within : ∀ stmt ∈ st.todo, stmt.inCancel table (Marked st)
  reloads : ∀ stmt ∈ st.todo.tail, ∀ taskId, stmt ≠ .reloadCancelled taskId
  settled : .commit ∈ st.todo ∨ (∃ taskId, .selectForCancel taskId ∈ st.todo) ∨
    st.todo = [] ∧ st.committed = st.working

section Cancel

variable {codec : TextCodec} {table : List Task} {full : List String} {st : Solo Task Stmt Out}
  {now : Nat} {stmt : Stmt} {rest : List Stmt}

theorem cancelledIds_append (first second : List Out) :
    cancelledIds (first ++ second) = cancelledIds first ++ cancelledIds second :=
  List.filterMap_append

theorem cancelledIds_record (taskId projectName taskType : String) (status : TaskStatus) :
    cancelledIds (recordTerminalEvent taskId projectName taskType status) = [] := by
  unfold recordTerminalEvent
  split_ifs <;> rfl

theorem rowCancelled_mono {marked more : String → Prop} {t u : Task} (same : ∀ taskId, marked taskId ↔ more taskId)
    (row : RowCancelled marked t u) : RowCancelled more t u := by
  have equal : marked = more := funext fun taskId => propext (same taskId)
  rwa [← equal]

theorem inCancel_mono {marked more : String → Prop} (some : ∀ taskId, marked taskId → more taskId)
    (within : stmt.inCancel table marked) : stmt.inCancel table more := by
  cases stmt with
  | cascadeCancelDependents taskId => exact some taskId within
  | markCancelling taskId cancelledBy =>
    obtain ⟨t, member, named, above, isMarked, depends⟩ := within
    exact ⟨t, member, named, above, some above isMarked, depends⟩
  | _ => exact within

/-- A statement that hands on what it had to report. -/
theorem inOrder_next {working : List Task} {push : List Stmt} {emit : List Out}
    (inv : InOrder table full st) (waiting : st.todo = stmt :: rest)
    (order : cancelledIds emit ++ push.flatMap (Stmt.goesOn table) = stmt.goesOn table)
    (rows : ∃ g, working = table.map g ∧ ∀ t ∈ table,
      RowCancelled (Marked ⟨st.committed, working, push ++ rest, st.out ++ emit⟩) t (g t))
    (more : ∀ taskId, Marked st taskId →
      Marked ⟨st.committed, working, push ++ rest, st.out ++ emit⟩ taskId)
    (plain : ∀ next ∈ push.tail, ∀ taskId, next ≠ .reloadCancelled taskId)
    (within : ∀ next ∈ push, next.inCancel table
      (Marked ⟨st.committed, working, push ++ rest, st.out ++ emit⟩))
    (settled : stmt ≠ .commit ∧ ((∃ taskId, stmt = .selectForCancel taskId) → .commit ∈ push)) :
    InOrder table full ⟨st.committed, working, push ++ rest, st.out ++ emit⟩ := by
  refine ⟨?_, rows, ?_, ?_, ?_⟩
  · have before := inv.order
    rw [waiting, List.flatMap_cons, ← order] at before
    rw [cancelledIds_append, List.flatMap_append, ← before]
    simp only [List.append_assoc]
  · intro next member
    cases List.mem_append.mp member with
    | inl pushed => exact within next pushed
    | inr old => exact inCancel_mono more (inv.within next (by simp [waiting, old]))
  · have later := inv.reloads
    rw [waiting] at later
    cases push with
    | nil => exact fun next member => later next (List.mem_of_mem_tail member)
    | cons first others =>
      intro next member
      cases List.mem_append.mp member with
      | inl pushed => exact plain next pushed
      | inr old => exact later next old
  · have before := inv.settled
    rw [waiting] at before
    rcases before with commits | ⟨taskId, selects⟩ | ⟨done, -⟩
    · cases List.mem_cons.mp commits with
      | inl same => exact absurd same.symm settled.1
      | inr old => exact .inl (List.mem_append_right _ old)
    · cases List.mem_cons.mp selects with
      | inl same => exact .inl (List.mem_append_left _ (settled.2 ⟨taskId, same.symm⟩))
      | inr old => exact .inr (.inl ⟨taskId, List.mem_append_right _ old⟩)
    · cases done

/-- A statement that only reads. -/
theorem inOrder_query {push : List Stmt} {emit : List Out} (inv : InOrder table full st)
    (waiting : st.todo = stmt :: rest)
    (order : cancelledIds emit ++ push.flatMap (Stmt.goesOn table) = stmt.goesOn table)
    (marks : ∀ taskId, taskId ∈ cancelledIds emit ↔ stmt = .reloadCancelled taskId)
    (plain : ∀ next ∈ push, ∀ taskId, next ≠ .reloadCancelled taskId)
    (within : ∀ next ∈ push, next.inCancel table
      (Marked ⟨st.committed, st.working, push ++ rest, st.out ++ emit⟩))
    (settled : stmt ≠ .commit ∧ ((∃ taskId, stmt = .selectForCancel taskId) → .commit ∈ push)) :
    InOrder table full ⟨st.committed, st.working, push ++ rest, st.out ++ emit⟩ := by
  have later : ∀ next ∈ rest, ∀ taskId, next ≠ .reloadCancelled taskId := by
    have reloads := inv.reloads
    rw [waiting] at reloads
    exact reloads
  have marked : ∀ taskId, Marked st taskId ↔
      Marked ⟨st.committed, st.working, push ++ rest, st.out ++ emit⟩ taskId := by
    intro taskId
    unfold Marked
    rw [waiting, cancelledIds_append, List.mem_append, marks, List.mem_cons, List.mem_append]
    constructor
    · rintro (old | here | deeper)
      · exact .inl (.inl old)
      · exact .inl (.inr here.symm)
      · exact absurd rfl (later _ deeper taskId)
    · rintro ((old | here) | pushed | deeper)
      · exact .inl old
      · exact .inr (.inl here.symm)
      · exact absurd rfl (plain _ pushed taskId)
      · exact absurd rfl (later _ deeper taskId)
  apply inOrder_next inv waiting order
  · obtain ⟨g, rows, each⟩ := inv.rows
    exact ⟨g, rows, fun t member => rowCancelled_mono marked (each t member)⟩
  · exact fun taskId => (marked taskId).mp
  · exact fun next member => plain next (List.mem_of_mem_tail member)
  · exact within
  · exact settled

theorem flatMap_if {α β : Type} (p : α → Bool) (f : α → List β) (l : List α) :
    (l.flatMap fun a => if p a then f a else []) = (l.filter p).flatMap f := by
  induction l with
  | nil => rfl
  | cons a l ih =>
    rw [List.flatMap_cons, ih, List.filter_cons]
    split_ifs
    · rw [List.flatMap_cons]
    · rfl

section Rows

variable (distinct : (table.map Task.taskId).Nodup) {marked : String → Prop} {g : Task → Task}
  (each : ∀ t ∈ table, RowCancelled marked t (g t))

include distinct each

theorem findTask_map {t : Task} (member : t ∈ table) : findTask (table.map g) t.taskId = some (g t) := by
  have here : (findTask (table.map g) t.taskId).isSome = true :=
    List.find?_isSome.mpr ⟨g t, List.mem_map_of_mem member, beq_iff_eq.mpr (each t member).taskId⟩
  obtain ⟨u, found⟩ := Option.isSome_iff_exists.mp here
  obtain ⟨t', member', same⟩ := List.mem_map.mp (List.mem_of_find?_eq_some found)
  have named : u.taskId = t.taskId := by simpa using List.find?_some found
  rw [← same, (each t' member').taskId] at named
  rw [found, ← same, List.inj_on_of_nodup_map distinct member' member named]

omit distinct in
theorem byQueuedAt_map (taskId : String) :
    byQueuedAt ((table.map g).filter fun t => t.dependencyTaskId == some taskId) =
      (byQueuedAt (table.filter fun t => t.dependencyTaskId == some taskId)).map g := by
  unfold byQueuedAt
  rw [List.filter_map, List.map_insertionSort (fun a b : Task => a.queuedAt ≤ b.queuedAt)
    (fun a b : Task => a.queuedAt ≤ b.queuedAt)]
  · congr 2
    apply List.filter_congr
    intro t member
    rw [Function.comp_apply, (each t member).dependencyTaskId]
  · intro a inA b inB
    rw [(each a (List.mem_filter.mp inA).1).queuedAt, (each b (List.mem_filter.mp inB).1).queuedAt]

omit distinct in
theorem status_unmarked {t : Task} (member : t ∈ table) (queued : t.status = .queued)
    (unmarked : ¬marked t.taskId) : (g t).status = .queued := by
  cases (each t member).other unmarked with
  | inl same => rw [same, queued]
  | inr running =>
    rw [queued] at running
    cases running.1

omit distinct in
/-- What the dispatch of a row reports: the task and its cascade if it was queued at first. -/
theorem dispatch_goesOn {t : Task} (member : t ∈ table) (cancelledBy : CancelledBy)
    (unmarked : t.status = .queued → ¬marked t.taskId)
    (onlyQueued : marked t.taskId → t.status = .queued) :
    (dispatchCancel cancelledBy (g t)).flatMap (Stmt.goesOn table) =
      if t.status == .queued then t.taskId :: cascadeIds table t.taskId else [] := by
  have row := each t member
  by_cases queued : t.status = .queued
  · have still := status_unmarked each member queued (unmarked queued)
    rw [queued, if_pos (beq_self_eq_true _)]
    unfold dispatchCancel
    rw [still, row.taskId]
    simp [Stmt.goesOn]
  · rw [if_neg (by simpa using queued)]
    have other := row.other fun isMarked => queued (onlyQueued isMarked)
    have left : (g t).status ≠ .queued := by
      intro again
      rcases other with same | ⟨-, cancelling, -⟩
      · exact queued (same ▸ again)
      · rw [again] at cancelling
        cases cancelling
    unfold dispatchCancel
    cases status : (g t).status with
    | queued => exact absurd status left
    | _ => rfl

end Rows

/-- What a statement goes on to report is not yet marked, unless it is about to report it. -/
theorem unmarked_of_goesOn (fullNodup : full.Nodup) (inv : InOrder table full st)
    (waiting : st.todo = stmt :: rest) (plain : ∀ taskId, stmt ≠ .reloadCancelled taskId)
    {taskId : String} (member : taskId ∈ stmt.goesOn table) : ¬Marked st taskId := by
  have order := inv.order
  have reloads := inv.reloads
  rw [waiting] at order reloads
  rintro (reported | pending)
  · rw [← order, List.nodup_append] at fullNodup
    exact fullNodup.2.2 taskId reported taskId
      (by rw [List.flatMap_cons]; exact List.mem_append_left _ member) rfl
  · rw [waiting] at pending
    cases List.mem_cons.mp pending with
    | inl same => exact plain taskId same.symm
    | inr later => exact reloads _ later taskId rfl

theorem queued_of_marked (fullQueued : ∀ k ∈ full, ∃ t ∈ table, t.taskId = k ∧ t.status = .queued)
    (distinct : (table.map Task.taskId).Nodup) (inv : InOrder table full st) {t : Task}
    (member : t ∈ table) (isMarked : Marked st t.taskId) : t.status = .queued := by
  have inFull : t.taskId ∈ full := by
    rw [← inv.order, List.mem_append]
    cases isMarked with
    | inl reported => exact .inl reported
    | inr pending =>
      exact .inr (List.mem_flatMap.mpr ⟨_, pending, List.mem_cons_self⟩)
  obtain ⟨t', member', named, queued⟩ := fullQueued _ inFull
  rwa [← List.inj_on_of_nodup_map distinct member' member named]

theorem plain_dispatch {cancelledBy : CancelledBy} {u : Task} :
    ∀ next ∈ dispatchCancel cancelledBy u, ∀ taskId, next ≠ .reloadCancelled taskId := by
  intro next member taskId
  rcases mem_dispatchCancel.mp member with ⟨-, rfl⟩ | ⟨-, rfl⟩ | ⟨-, rfl⟩ <;> exact nofun

theorem rowCancelled_mark {marked more : String → Prop} {taskId : String} {cancelledBy : CancelledBy}
    {t u : Task} (grows : ∀ k, more k ↔ marked k ∨ k = taskId) (row : RowCancelled marked t u)
    (queued : t.taskId = taskId → u.status = .queued) :
    RowCancelled more t (touch (cancellable taskId) (setCancelled now cancelledBy) u) := by
  by_cases here : t.taskId = taskId
  · have hit : cancellable taskId u = true := by
      simp [cancellable, Task.hits, row.taskId, here, queued here]
    have written : touch (cancellable taskId) (setCancelled now cancelledBy) u =
        setCancelled now cancelledBy u := if_pos hit
    rw [written]
    refine ⟨row.taskId, row.dependencyTaskId, row.queuedAt, fun _ => rfl, ?_⟩
    exact fun unmarked => absurd ((grows t.taskId).mpr (.inr here)) unmarked
  · have miss : ¬cancellable taskId u = true := by
      simp [cancellable, Task.hits, row.taskId, here]
    rw [touch_same miss]
    refine ⟨row.taskId, row.dependencyTaskId, row.queuedAt, ?_, ?_⟩
    · intro isMarked
      exact row.cancelled (((grows _).mp isMarked).resolve_right here)
    · intro unmarked
      have before := row.other fun isMarked => unmarked ((grows _).mpr (.inl isMarked))
      rcases before with same | ⟨running, cancelling, above, isMarked, depends⟩
      · exact .inl same
      · exact .inr ⟨running, cancelling, above, (grows above).mpr (.inl isMarked), depends⟩

theorem rowCancelled_cancelling {marked : String → Prop} {taskId : String} {write : Task → Task}
    {t u : Task} (row : RowCancelled marked t u)
    (keeps : (write u).taskId = u.taskId ∧ (write u).dependencyTaskId = u.dependencyTaskId ∧
      (write u).queuedAt = u.queuedAt ∧ (write u).status = .cancelling)
    (depends : t.taskId = taskId → ∃ above, marked above ∧ t.dependencyTaskId = some above) :
    RowCancelled marked t (touch (Task.hits taskId (· == .running)) write u) := by
  by_cases hit : Task.hits taskId (· == .running) u = true
  · have written : touch (Task.hits taskId (· == .running)) write u = write u := if_pos hit
    simp only [Task.hits, Bool.and_eq_true, beq_iff_eq] at hit
    have unmarked : ¬marked t.taskId := by
      intro isMarked
      rw [row.cancelled isMarked] at hit
      cases hit.2
    rw [written]
    refine ⟨keeps.1.trans row.taskId, keeps.2.1.trans row.dependencyTaskId,
      keeps.2.2.1.trans row.queuedAt, fun isMarked => absurd isMarked unmarked, fun _ => .inr ?_⟩
    refine ⟨?_, keeps.2.2.2, depends (row.taskId ▸ hit.1)⟩
    rcases row.other unmarked with same | ⟨-, cancelling, -⟩
    · exact same ▸ hit.2
    · rw [cancelling] at hit
      cases hit.2
  · have kept : touch (Task.hits taskId (· == .running)) write u = u := if_neg hit
    rw [kept]
    exact row

section Steps

variable (distinct : (table.map Task.taskId).Nodup) (acyclic : DependencyAcyclic table)
  (fullNodup : full.Nodup) (fullQueued : ∀ k ∈ full, ∃ t ∈ table, t.taskId = k ∧ t.status = .queued)

include fullQueued in
theorem goesOn_row (inv : InOrder table full st) (waiting : st.todo = stmt :: rest) {taskId : String}
    (member : taskId ∈ stmt.goesOn table) : ∃ t ∈ table, t.taskId = taskId ∧ t.status = .queued := by
  apply fullQueued
  rw [← inv.order, waiting, List.flatMap_cons]
  exact List.mem_append_right _ (List.mem_append_left _ member)

include distinct fullQueued

include fullNodup in
theorem inOrder_select {taskId : String} (inv : InOrder table full st)
    (waiting : st.todo = .selectForCancel taskId :: rest) :
    InOrder table full (st.perform rest (action codec now (.selectForCancel taskId))) := by
  obtain ⟨g, rows, each⟩ := inv.rows
  have listed : taskId ∈ (Stmt.selectForCancel taskId).goesOn table := List.mem_cons_self
  obtain ⟨t, member, rfl, queued⟩ := goesOn_row fullQueued inv waiting listed
  have unmarked := unmarked_of_goesOn fullNodup inv waiting (fun _ same => by cases same) listed
  have still := status_unmarked each member queued unmarked
  have answered : (action codec now (.selectForCancel t.taskId)).answer st.working =
      .go [.markCancelled t.taskId .user, .commit] [] := by
    simp only [action, Action.answer, rows, findTask_map distinct each member]
    unfold dispatchCancel
    rw [still, (each t member).taskId]
    rfl
  simp only [Solo.perform, answered]
  apply inOrder_query inv waiting
  · simp [cancelledIds, Stmt.goesOn]
  · simp [cancelledIds]
  · simp
  · simp [Stmt.inCancel]
  · exact ⟨(fun same => by cases same), fun _ => .tail _ (.head _)⟩

theorem inOrder_reload {taskId : String} (inv : InOrder table full st)
    (waiting : st.todo = .reloadCancelled taskId :: rest) :
    InOrder table full (st.perform rest (action codec now (.reloadCancelled taskId))) := by
  obtain ⟨g, rows, each⟩ := inv.rows
  have listed : taskId ∈ (Stmt.reloadCancelled taskId).goesOn table := List.mem_cons_self
  obtain ⟨t, member, rfl, -⟩ := goesOn_row fullQueued inv waiting listed
  have answered : (action codec now (.reloadCancelled t.taskId)).answer st.working =
      .go [.cascadeCancelDependents t.taskId]
        (recordTerminalEvent t.taskId (g t).projectName (g t).taskType .cancelled ++
          [.cancelled (g t)]) := by
    simp only [action, Action.answer, rows, findTask_map distinct each member]
  have emits : cancelledIds (recordTerminalEvent t.taskId (g t).projectName (g t).taskType .cancelled ++
      [.cancelled (g t)]) = [t.taskId] := by
    rw [cancelledIds_append, cancelledIds_record, ← (each t member).taskId]
    rfl
  simp only [Solo.perform, answered]
  apply inOrder_query inv waiting
  · rw [emits]
    simp [Stmt.goesOn]
  · intro k
    rw [emits, List.mem_singleton, Stmt.reloadCancelled.injEq]
    exact eq_comm
  · simp
  · intro next pushed
    obtain rfl := List.mem_singleton.mp pushed
    left
    rw [cancelledIds_append, emits]
    simp
  · refine ⟨(fun same => by cases same), ?_⟩
    rintro ⟨_, ⟨⟩⟩

include acyclic fullNodup in
theorem inOrder_cascade {taskId : String} (inv : InOrder table full st)
    (waiting : st.todo = .cascadeCancelDependents taskId :: rest) :
    InOrder table full (st.perform rest (action codec now (.cascadeCancelDependents taskId))) := by
  obtain ⟨g, rows, each⟩ := inv.rows
  have answered : (action codec now (.cascadeCancelDependents taskId)).answer st.working =
      .go ((byQueuedAt (table.filter fun t => t.dependencyTaskId == some taskId)).flatMap
        fun t => dispatchCancel .cascade (g t)) [] := by
    simp only [action, Action.answer, rows]
    rw [byQueuedAt_map each, List.flatMap_map]
  have inTable : ∀ t ∈ byQueuedAt (table.filter fun t => t.dependencyTaskId == some taskId),
      t ∈ table ∧ t.dependencyTaskId = some taskId := by
    intro t listed
    rw [mem_byQueuedAt, List.mem_filter, beq_iff_eq] at listed
    exact listed
  simp only [Solo.perform, answered]
  apply inOrder_query inv waiting
  · have reported : ∀ t ∈ byQueuedAt (table.filter fun t => t.dependencyTaskId == some taskId),
        (dispatchCancel .cascade (g t)).flatMap (Stmt.goesOn table) =
          if t.status == .queued then t.taskId :: cascadeIds table t.taskId else [] := by
      intro t listed
      obtain ⟨member, depends⟩ := inTable t listed
      apply dispatch_goesOn each member
      · intro queued
        apply unmarked_of_goesOn fullNodup inv waiting (fun _ same => by cases same)
        change t.taskId ∈ cascadeIds table taskId
        rw [cascadeIds_eq acyclic]
        exact List.mem_flatMap.mpr
          ⟨t, mem_queuedDependents.mpr ⟨member, depends, queued⟩, List.mem_cons_self⟩
      · exact queued_of_marked fullQueued distinct inv member
    calc
      cancelledIds [] ++ ((byQueuedAt (table.filter fun t => t.dependencyTaskId == some taskId)).flatMap
          fun t => dispatchCancel .cascade (g t)).flatMap (Stmt.goesOn table)
      _ = (byQueuedAt (table.filter fun t => t.dependencyTaskId == some taskId)).flatMap
          fun t => (dispatchCancel .cascade (g t)).flatMap (Stmt.goesOn table) := by
        rw [List.flatMap_assoc]
        rfl
      _ = (byQueuedAt (table.filter fun t => t.dependencyTaskId == some taskId)).flatMap
          fun t => if t.status == .queued then t.taskId :: cascadeIds table t.taskId else [] :=
        List.flatMap_congr reported
      _ = (queuedDependents table taskId).flatMap fun t => t.taskId :: cascadeIds table t.taskId := by
        rw [flatMap_if, queuedDependents_eq]
      _ = cascadeIds table taskId := (cascadeIds_eq acyclic taskId).symm
  · simp [cancelledIds]
  · intro next pushed
    obtain ⟨t, -, dispatched⟩ := List.mem_flatMap.mp pushed
    exact plain_dispatch next dispatched
  · intro next pushed
    obtain ⟨t, listed, dispatched⟩ := List.mem_flatMap.mp pushed
    obtain ⟨member, depends⟩ := inTable t listed
    rcases mem_dispatchCancel.mp dispatched with ⟨-, rfl⟩ | ⟨-, rfl⟩ | ⟨-, rfl⟩
    · trivial
    · refine ⟨t, member, (each t member).taskId.symm, taskId, ?_, depends⟩
      have here : Stmt.inCancel table (Marked st) (.cascadeCancelDependents taskId) :=
        inv.within _ (by rw [waiting]; exact List.mem_cons_self)
      cases here with
      | inl reported => exact .inl (by rw [List.append_nil]; exact reported)
      | inr pending =>
        rw [waiting] at pending
        cases List.mem_cons.mp pending with
        | inl same => cases same
        | inr later => exact .inr (List.mem_append_right _ later)
    · trivial
  · refine ⟨(fun same => by cases same), ?_⟩
    rintro ⟨_, ⟨⟩⟩

omit fullQueued in
theorem inOrder_refresh {taskId : String} (inv : InOrder table full st)
    (waiting : st.todo = .refreshForCancel taskId :: rest) :
    InOrder table full (st.perform rest (action codec now (.refreshForCancel taskId))) := by
  obtain ⟨g, rows, each⟩ := inv.rows
  have here : Stmt.inCancel table (Marked st) (.refreshForCancel taskId) :=
    inv.within _ (by rw [waiting]; exact List.mem_cons_self)
  obtain ⟨t, member, rfl⟩ := here
  obtain ⟨emit, answered, silent⟩ : ∃ emit, (action codec now (.refreshForCancel t.taskId)).answer
      st.working = .go [] emit ∧ cancelledIds emit = [] := by
    simp only [action, Action.answer, rows, findTask_map distinct each member]
    split_ifs
    · exact ⟨_, rfl, rfl⟩
    · exact ⟨_, rfl, rfl⟩
    · exact ⟨_, rfl, rfl⟩
  simp only [Solo.perform, answered]
  apply inOrder_query inv waiting
  · rw [silent]
    rfl
  · rw [silent]
    simp
  · simp
  · simp
  · refine ⟨(fun same => by cases same), ?_⟩
    rintro ⟨_, ⟨⟩⟩

include fullNodup in
theorem inOrder_mark {taskId : String} {cancelledBy : CancelledBy} (inv : InOrder table full st)
    (waiting : st.todo = .markCancelled taskId cancelledBy :: rest) :
    InOrder table full (st.perform rest (action codec now (.markCancelled taskId cancelledBy))) := by
  obtain ⟨g, rows, each⟩ := inv.rows
  have listed : taskId ∈ (Stmt.markCancelled taskId cancelledBy).goesOn table := List.mem_cons_self
  obtain ⟨t, member, rfl, queued⟩ := goesOn_row fullQueued inv waiting listed
  have unmarked := unmarked_of_goesOn fullNodup inv waiting (fun _ same => by cases same) listed
  have still := status_unmarked each member queued unmarked
  have hit : cancellable t.taskId (g t) = true := by
    simp [cancellable, Task.hits, (each t member).taskId, still]
  have found : st.working.countP (cancellable t.taskId) ≠ 0 := by
    apply Nat.pos_iff_ne_zero.mp
    rw [rows]
    exact List.countP_pos_iff.mpr ⟨g t, List.mem_map_of_mem member, hit⟩
  have answered : (action codec now (.markCancelled t.taskId cancelledBy)).answer st.working =
      .go [.reloadCancelled t.taskId] [] := if_neg found
  have grows : ∀ k, Marked ⟨st.committed,
      st.working.map (touch (cancellable t.taskId) (setCancelled now cancelledBy)),
      [.reloadCancelled t.taskId] ++ rest, st.out ++ []⟩ k ↔ Marked st k ∨ k = t.taskId := by
    intro k
    unfold Marked
    rw [waiting, List.append_nil, List.mem_append, List.mem_singleton, List.mem_cons,
      Stmt.reloadCancelled.injEq]
    simp only [reduceCtorEq, false_or]
    tauto
  simp only [Solo.perform, answered]
  change InOrder table full ⟨st.committed,
    st.working.map (touch (cancellable t.taskId) (setCancelled now cancelledBy)),
    [.reloadCancelled t.taskId] ++ rest, st.out ++ []⟩
  apply inOrder_next inv waiting
  · simp [cancelledIds, Stmt.goesOn]
  · refine ⟨fun t' => touch _ _ (g t'), by rw [rows, List.map_map]; rfl, ?_⟩
    intro t' member'
    apply rowCancelled_mark grows (each t' member')
    intro named
    rw [List.inj_on_of_nodup_map distinct member' member named]
    exact still
  · exact fun k isMarked => (grows k).mpr (.inl isMarked)
  · simp
  · simp [Stmt.inCancel]
  · refine ⟨(fun same => by cases same), ?_⟩
    rintro ⟨_, ⟨⟩⟩

omit fullQueued in
theorem inOrder_markCancelling {taskId : String} {cancelledBy : CancelledBy}
    (inv : InOrder table full st) (waiting : st.todo = .markCancelling taskId cancelledBy :: rest) :
    InOrder table full (st.perform rest (action codec now (.markCancelling taskId cancelledBy))) := by
  obtain ⟨g, rows, each⟩ := inv.rows
  have here : Stmt.inCancel table (Marked st) (.markCancelling taskId cancelledBy) :=
    inv.within _ (by rw [waiting]; exact List.mem_cons_self)
  obtain ⟨t, member, rfl, above, isMarked, depends⟩ := here
  obtain ⟨push, emit, answered, silent, pushes⟩ : ∃ push emit,
      (action codec now (.markCancelling t.taskId cancelledBy)).answer st.working = .go push emit ∧
        cancelledIds emit = [] ∧ (push = [] ∨ push = [.refreshForCancel t.taskId]) := by
    simp only [action, Action.answer]
    split_ifs
    · exact ⟨_, _, rfl, rfl, .inr rfl⟩
    · exact ⟨_, _, rfl, rfl, .inl rfl⟩
  have more : ∀ (working : List Task) k, Marked st k →
      Marked ⟨st.committed, working, push ++ rest, st.out ++ emit⟩ k := by
    rintro working k (reported | pending)
    · left
      rw [cancelledIds_append]
      exact List.mem_append_left _ reported
    · rw [waiting] at pending
      cases List.mem_cons.mp pending with
      | inl same => cases same
      | inr later => exact .inr (List.mem_append_right _ later)
  have fewer : ∀ (working : List Task) k,
      Marked ⟨st.committed, working, push ++ rest, st.out ++ emit⟩ k → Marked st k := by
    rintro working k (reported | pending)
    · left
      rwa [cancelledIds_append, silent, List.append_nil] at reported
    · right
      rw [waiting]
      cases List.mem_append.mp pending with
      | inl pushed => rcases pushes with rfl | rfl <;> simp at pushed
      | inr later => exact .tail _ later
  simp only [Solo.perform, answered]
  change InOrder table full ⟨st.committed,
    st.working.map (touch (Task.hits t.taskId (· == .running)) fun t => { t with
      status := .cancelling, cancelledBy := some cancelledBy, updatedAt := now }),
    push ++ rest, st.out ++ emit⟩
  apply inOrder_next inv waiting
  · rcases pushes with rfl | rfl <;> simp [silent, Stmt.goesOn]
  · refine ⟨fun t' => touch _ _ (g t'), by rw [rows, List.map_map]; rfl, ?_⟩
    intro t' member'
    apply rowCancelled_mono fun k => ⟨more _ k, fewer _ k⟩
    apply rowCancelled_cancelling (each t' member') ⟨rfl, rfl, rfl, rfl⟩
    intro named
    rw [List.inj_on_of_nodup_map distinct member' member named]
    exact ⟨above, isMarked, depends⟩
  · exact more _
  · rcases pushes with rfl | rfl <;> simp
  · rcases pushes with rfl | rfl
    · simp
    · intro next pushed
      obtain rfl := List.mem_singleton.mp pushed
      exact ⟨t, member, rfl⟩
  · refine ⟨(fun same => by cases same), ?_⟩
    rintro ⟨_, ⟨⟩⟩

include acyclic fullNodup in
/-- Every statement of the cancellation reports in order. -/
theorem inOrder_step (shaped : Shaped st) (inv : InOrder table full st)
    (waiting : st.todo = stmt :: rest) :
    InOrder table full (st.perform rest (action codec now stmt)) := by
  have here := inv.within stmt (by rw [waiting]; exact List.mem_cons_self)
  cases stmt with
  | selectForCancel taskId => exact inOrder_select distinct fullNodup fullQueued inv waiting
  | markCancelled taskId cancelledBy => exact inOrder_mark distinct fullNodup fullQueued inv waiting
  | reloadCancelled taskId => exact inOrder_reload distinct fullQueued inv waiting
  | cascadeCancelDependents taskId =>
    exact inOrder_cascade distinct acyclic fullNodup fullQueued inv waiting
  | markCancelling taskId cancelledBy => exact inOrder_markCancelling distinct inv waiting
  | refreshForCancel taskId => exact inOrder_refresh distinct inv waiting
  | skipTerminal t =>
    change InOrder table full ⟨st.committed, st.working, [] ++ rest, st.out ++ [.skippedTerminal t]⟩
    apply inOrder_query inv waiting
    · rfl
    · simp [cancelledIds]
    · simp
    · simp
    · exact ⟨nofun, fun selects => nomatch selects⟩
  | commit =>
    have nothing : rest = [] := by
      apply List.eq_nil_iff_forall_not_mem.mpr
      intro next later
      have within := inv.within next (by simp [waiting, later])
      have before := shaped.ordered
      rw [waiting] at before
      have looksUp := ((List.pairwise_cons.mp before).1 next later).1 rfl
      cases next with
      | selectActiveDuplicate request => exact within
      | _ => cases looksUp
    subst nothing
    have order := inv.order
    have next : st.perform [] (action codec now .commit) = ⟨st.working, st.working, [], st.out⟩ := by
      simp [Solo.perform, action, Action.answer, Action.settle, Action.change]
    have marked : ∀ k, Marked st k ↔ Marked ⟨st.working, st.working, [], st.out⟩ k := by
      intro k
      simp [Marked, waiting]
    obtain ⟨g, rows, each⟩ := inv.rows
    rw [waiting] at order
    rw [next]
    refine ⟨order, ⟨g, rows, fun t member => rowCancelled_mono marked (each t member)⟩, ?_, ?_,
      .inr (.inr ⟨rfl, rfl⟩)⟩
    · simp
    · simp
  | _ => exact absurd here id

end Steps

theorem inOrder_start {target : String} (fullIs : full = target :: cascadeIds table target) :
    InOrder table full (Solo.start table (program (.cancelTask target))) where
  order := by
    rw [fullIs]
    simp [Solo.start, program, cancelledIds, Stmt.goesOn]
  rows := by
    refine ⟨id, by simp [Solo.start], fun t _ => ⟨rfl, rfl, rfl, ?_, fun _ => .inl rfl⟩⟩
    rintro (reported | pending)
    · cases reported
    · cases List.mem_singleton.mp pending
  within := by
    intro stmt member
    obtain rfl := List.mem_singleton.mp member
    trivial
  reloads := by simp [Solo.start, program]
  settled := .inr (.inl ⟨target, List.mem_singleton.mpr rfl⟩)

end Cancel

/-- Cancelling a queued task cancels it and the tasks of its preview, in the preview's order. -/
theorem cancel_as_previewed (codec : TextCodec) (clock : Nat → Nat) {table : List Task}
    {target : String} {task : Task} (distinct : (table.map Task.taskId).Nodup)
    (acyclic : DependencyAcyclic table) (found : findTask table target = some task)
    (queued : task.status = .queued) :
    ∃ preview, getCancelPreview table (table.length + 1) target = some preview ∧
      let st := runOp codec clock (.cancelTask target) table
      let ids := target :: preview.cascaded.map TaskSummary.taskId
      cancelledIds st.out = ids ∧ ids.Nodup ∧
        ∃ g, st.committed = table.map g ∧ ∀ t ∈ table, (g t).taskId = t.taskId ∧
          (t.taskId ∈ ids → t.status = .queued ∧ (g t).status = .cancelled) ∧
          (t.taskId ∉ ids → (g t).status = t.status ∨
            t.status = .running ∧ (g t).status = .cancelling ∧
              ∃ above ∈ ids, t.dependencyTaskId = some above) := by
  have collected : collectQueuedDependents table (table.length + 1) target =
      some (DepthFirst.listing (queuedDependents table) Task.taskId (table.map Task.taskId) target) := by
    have listed := DepthFirst.collect_listing (acyclic_below acyclic) dependents_finite target
    rwa [List.length_map] at listed
  refine ⟨⟨task.summary, task.status, _⟩, by
    simp only [getCancelPreview, found, collected]
    rfl, ?_⟩
  have same : (List.map Task.summary (DepthFirst.listing (queuedDependents table) Task.taskId
      (table.map Task.taskId) target)).map TaskSummary.taskId = cascadeIds table target := by
    rw [List.map_map]
    rfl
  intro st ids
  have idsAre : ids = target :: cascadeIds table target := congrArg _ same
  have fullQueued : ∀ k ∈ target :: cascadeIds table target,
      ∃ t ∈ table, t.taskId = k ∧ t.status = .queued := by
    intro k member
    cases List.mem_cons.mp member with
    | inl isTarget =>
      have named : task.taskId = target := by simpa using List.find?_some found
      exact ⟨task, List.mem_of_find?_eq_some found, named.trans isTarget.symm, queued⟩
    | inr below => exact cascadeIds_queued acyclic below
  have nodup := cascadeIds_nodup distinct acyclic target
  have inv : InOrder table (target :: cascadeIds table target) st :=
    runOp_induct (InOrder table (target :: cascadeIds table target))
      (fun _ _ _ _ waiting shaped inv =>
        inOrder_step distinct acyclic nodup fullQueued shaped inv waiting)
      clock (.cancelTask target) table (inOrder_start rfl)
  have done : st.todo = [] := runOp_done codec clock (.cancelTask target) table
  have order := inv.order
  have settled := inv.settled
  simp only [done, List.flatMap_nil, List.append_nil, List.not_mem_nil, exists_false, false_or,
    true_and] at order settled
  have marked : ∀ k, Marked st k ↔ k ∈ ids := by
    intro k
    simp [Marked, done, order, idsAre]
  obtain ⟨g, rows, each⟩ := inv.rows
  refine ⟨by rw [idsAre, order], by rw [idsAre]; exact nodup, g, by rw [settled, rows], ?_⟩
  intro t member
  have row := each t member
  refine ⟨row.taskId, ?_, ?_⟩
  · intro listed
    have isMarked := (marked _).mpr listed
    exact ⟨queued_of_marked fullQueued distinct inv member isMarked, row.cancelled isMarked⟩
  · intro unlisted
    rcases row.other fun isMarked => unlisted ((marked _).mp isMarked) with
      same | ⟨running, cancelling, above, isMarked, depends⟩
    · exact .inl same
    · exact .inr ⟨running, cancelling, above, (marked above).mp isMarked, depends⟩

/-- Two queued tasks in a chain behind a queued one, and a running task beside them. -/
def chainTable : List Task :=
  [(EnqueueRequest.image "a" "p" "r1" none).row 1,
    (EnqueueRequest.image "b" "p" "r2" (some "a")).row 2,
    (EnqueueRequest.image "c" "p" "r3" (some "b")).row 3,
    { (EnqueueRequest.image "d" "p" "r4" (some "a")).row 4 with status := .running }]

theorem chain_cancelled_as_previewed :
    ∃ preview, getCancelPreview chainTable 5 "a" = some preview ∧
      let st := runOp plainCodec id (.cancelTask "a") chainTable
      let ids := "a" :: preview.cascaded.map TaskSummary.taskId
      cancelledIds st.out = ids ∧ ids.Nodup ∧
        ∃ g, st.committed = chainTable.map g ∧ ∀ t ∈ chainTable, (g t).taskId = t.taskId ∧
          (t.taskId ∈ ids → t.status = .queued ∧ (g t).status = .cancelled) ∧
          (t.taskId ∉ ids → (g t).status = t.status ∨
            t.status = .running ∧ (g t).status = .cancelling ∧
              ∃ above ∈ ids, t.dependencyTaskId = some above) :=
  cancel_as_previewed plainCodec id (by decide)
    (acyclic_of_rank (fun taskId => ["a", "b", "c", "d"].idxOf taskId) (by decide))
    (show findTask chainTable "a" = some ((EnqueueRequest.image "a" "p" "r1" none).row 1) by decide)
    (by decide)

end ArcReel.Queue
