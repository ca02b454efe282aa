import ArcReel.Queue.Dependency

/-! `cancel_task` on tasks of one's own: which rows it changes, which of them it
reports, and that its cascade leaves no dependent behind. -/

namespace ArcReel.Queue
open ArcReel.Lib.SqlSession

/-- What a cancellation within `mine` does to a row. -/
structure Cancels (mine : String → Prop) (t u : Task) : Prop where
  taskId : u.taskId = t.taskId
  dependencyTaskId : u.dependencyTaskId = t.dependencyTaskId
  changed : u = t ∨ mine t.taskId ∧ t.status = .queued ∧ u.status = .cancelled

/-- A set of tasks that nothing outside depends on, each queued or cancelled. -/
structure Separate (mine : String → Prop) (table : List Task) : Prop where
  distinct : (table.map Task.taskId).Nodup
  closed : ∀ t ∈ table, ∀ d, t.dependencyTaskId = some d → mine d → mine t.taskId
  idle : ∀ t ∈ table, mine t.taskId → t.status = .queued ∨ t.status = .cancelled
  alive : ∀ t ∈ table, ∀ q ∈ table, mine q.taskId → ¬Stranded t q

/-- The statements of `cancel_task` on such a set. -/
def Stmt.cancelsWithin (mine : String → Prop) : Stmt → Prop
  | selectForCancel taskId | markCancelled taskId _ | reloadCancelled taskId
  | cascadeCancelDependents taskId => mine taskId
  | skipTerminal _ | commit => True
  | _ => False

/-- The task was queued in the first table and is cancelled in the second. -/
def wasCancelled (before after : List Task) (taskId : String) : Prop :=
  (∃ t ∈ before, t.taskId = taskId ∧ t.status = .queued) ∧
    ∃ u ∈ after, u.taskId = taskId ∧ u.status = .cancelled

def reportsCancelled (out : List Out) (taskId : String) : Bool :=
  out.any fun
    | .cancelled t => t.taskId == taskId
    | _ => false

structure Cancelling (mine : String → Prop) (target : String) (table : List Task)
    (st : Solo Task Stmt Out) : Prop where
  rows : ∃ g, st.working = table.map g ∧ ∀ t ∈ table, Cancels mine t (g t)
  within : ∀ stmt ∈ st.todo, stmt.cancelsWithin mine
  present : ∀ taskId, .selectForCancel taskId ∈ st.todo ∨ .reloadCancelled taskId ∈ st.todo →
    ∃ t ∈ st.working, t.taskId = taskId
  settled : .commit ∈ st.todo ∨ .selectForCancel target ∈ st.todo ∨
    st.todo = [] ∧ st.committed = st.working
  reported : ∀ k, reportsCancelled st.out k = true ∨ .reloadCancelled k ∈ st.todo ↔
    wasCancelled table st.working k
  covered : ∀ t ∈ st.working, ∀ q ∈ st.working, mine q.taskId → Stranded t q →
    ∃ stmt ∈ st.todo, stmt.covers q.taskId t.taskId = true
  reaches : (∀ u ∈ st.working, u.taskId = target → u.status = .cancelled) ∨
    .selectForCancel target ∈ st.todo ∨ ∃ cancelledBy, .markCancelled target cancelledBy ∈ st.todo

section Rows

variable {mine : String → Prop} {table working : List Task} {g : Task → Task}
  (rows : working = table.map g) (each : ∀ t ∈ table, Cancels mine t (g t))

include rows each

theorem working_ids : working.map Task.taskId = table.map Task.taskId := by
  rw [rows, List.map_map]
  exact List.map_congr_left fun t member => (each t member).taskId

theorem working_mem {u : Task} (member : u ∈ working) : ∃ t ∈ table, u = g t ∧ Cancels mine t u := by
  rw [rows] at member
  obtain ⟨t, old, rfl⟩ := List.mem_map.mp member
  exact ⟨t, old, rfl, each t old⟩

theorem working_closed (separate : Separate mine table) :
    ∀ u ∈ working, ∀ d, u.dependencyTaskId = some d → mine d → mine u.taskId := by
  intro u member d depends within
  obtain ⟨t, old, -, cancels⟩ := working_mem rows each member
  rw [cancels.taskId]
  exact separate.closed t old d (cancels.dependencyTaskId ▸ depends) within

theorem working_idle (separate : Separate mine table) :
    ∀ u ∈ working, mine u.taskId → u.status = .queued ∨ u.status = .cancelled := by
  intro u member within
  obtain ⟨t, old, -, cancels⟩ := working_mem rows each member
  rcases cancels.changed with rfl | ⟨-, -, ended⟩
  · exact separate.idle _ old within
  · exact .inr ended

end Rows

variable {codec : TextCodec} {mine : String → Prop} {target : String} {table : List Task}
  {st : Solo Task Stmt Out} {now : Nat} {stmt : Stmt} {rest : List Stmt}

theorem cancelling_start (separate : Separate mine table) (within : mine target)
    (found : ∃ t ∈ table, t.taskId = target) :
    Cancelling mine target table (Solo.start table (program (.cancelTask target))) where
  rows := ⟨id, by simp [Solo.start], fun t _ => ⟨rfl, rfl, .inl rfl⟩⟩
  within := by
    intro stmt member
    obtain rfl := List.mem_singleton.mp member
    exact within
  present := by
    rintro taskId (member | member)
    · obtain rfl := Stmt.selectForCancel.inj (List.mem_singleton.mp member)
      exact found
    · cases List.mem_singleton.mp member
  settled := .inr (.inl (List.mem_singleton.mpr rfl))
  reported := by
    intro k
    constructor
    · rintro (reported | member)
      · cases reported
      · cases List.mem_singleton.mp member
    · rintro ⟨⟨t, memberT, rfl, queued⟩, u, memberU, same, cancelled⟩
      have equal : u = t := List.inj_on_of_nodup_map separate.distinct memberU memberT same
      rw [equal, queued] at cancelled
      cases cancelled
  covered := fun t memberT q memberQ withinQ stranded =>
    absurd stranded (separate.alive t memberT q memberQ withinQ)
  reaches := .inr (.inl (List.mem_singleton.mpr rfl))

theorem reportsCancelled_append (first second : List Out) (k : String) :
    reportsCancelled (first ++ second) k =
      (reportsCancelled first k || reportsCancelled second k) := by
  simp [reportsCancelled]

theorem reportsCancelled_record (taskId projectName taskType : String) (status : TaskStatus)
    (k : String) :
    reportsCancelled (recordTerminalEvent taskId projectName taskType status) k = false := by
  unfold recordTerminalEvent
  split_ifs <;> rfl

/-- A query of `cancel_task` that hands on what it had to cover, to report and to reach. -/
theorem cancelling_query {push : List Stmt} {emit : List Out}
    (inv : Cancelling mine target table st) (waiting : st.todo = stmt :: rest)
    (query : ∃ answer, action codec now stmt = .query answer)
    (answered : (action codec now stmt).answer st.working = .go push emit)
    (within : ∀ next ∈ push, next.cancelsWithin mine)
    (alone : ∀ taskId, .selectForCancel taskId ∉ push ∧ .reloadCancelled taskId ∉ push)
    (reports : ∀ k, reportsCancelled emit k = true ↔ stmt = .reloadCancelled k)
    (opens : stmt = .selectForCancel target → .commit ∈ push ∧
      ((∀ u ∈ st.working, u.taskId = target → u.status = .cancelled) ∨
        .markCancelled target .user ∈ push)) :
    Cancelling mine target table ⟨st.committed, st.working, push ++ rest, st.out ++ emit⟩ where
  rows := inv.rows
  within := by
    intro next member
    rcases List.mem_append.mp member with pushed | old
    · exact within next pushed
    · exact inv.within next (by simp [waiting, old])
  present := by
    intro taskId member
    refine inv.present taskId ?_
    rw [waiting]
    rcases member with member | member <;> rcases List.mem_append.mp member with pushed | old
    · exact absurd pushed (alone taskId).1
    · exact .inl (.tail _ old)
    · exact absurd pushed (alone taskId).2
    · exact .inr (.tail _ old)
  settled := by
    have before := inv.settled
    rw [waiting] at before
    rcases before with commits | selects | ⟨done, -⟩
    · rcases List.mem_cons.mp commits with rfl | later
      · obtain ⟨answer, query⟩ := query
        cases query
      · exact .inl (List.mem_append_right _ later)
    · rcases List.mem_cons.mp selects with rfl | later
      · exact .inl (List.mem_append_left _ (opens rfl).1)
      · exact .inr (.inl (List.mem_append_right _ later))
    · cases done
  reported := by
    intro k
    rw [← inv.reported k, waiting, reportsCancelled_append, Bool.or_eq_true, reports k,
      List.mem_append, List.mem_cons, or_iff_right (alone k).2, or_assoc, @eq_comm _ stmt]
  covered := by
    intro t memberT q memberQ withinQ stranded
    obtain ⟨cover, member, covers⟩ := inv.covered t memberT q memberQ withinQ stranded
    rw [waiting] at member
    rcases List.mem_cons.mp member with rfl | later
    · obtain ⟨next, pushed, covers'⟩ := query_covers query answered memberT stranded covers
      exact ⟨next, List.mem_append_left _ pushed, covers'⟩
    · exact ⟨cover, List.mem_append_right _ later, covers⟩
  reaches := by
    have before := inv.reaches
    rw [waiting] at before
    rcases before with done | selects | ⟨cancelledBy, marks⟩
    · exact .inl done
    · rcases List.mem_cons.mp selects with rfl | later
      · exact (opens rfl).2.imp_right fun pushed =>
          .inr ⟨.user, List.mem_append_left _ pushed⟩
      · exact .inr (.inl (List.mem_append_right _ later))
    · rcases List.mem_cons.mp marks with rfl | later
      · obtain ⟨answer, query⟩ := query
        cases query
      · exact .inr (.inr ⟨cancelledBy, List.mem_append_right _ later⟩)

/-- What `_dispatch_cancel` schedules for a row of the set. -/
theorem dispatchCancel_within (cancelledBy : CancelledBy) {t : Task}
    (idle : t.status = .queued ∨ t.status = .cancelled) (within : mine t.taskId) :
    ∀ next ∈ dispatchCancel cancelledBy t, next.cancelsWithin mine ∧
      ∀ taskId, next ≠ .selectForCancel taskId ∧ next ≠ .reloadCancelled taskId := by
  intro next member
  rcases mem_dispatchCancel.mp member with ⟨_, rfl⟩ | ⟨running, rfl⟩ | ⟨_, rfl⟩
  · exact ⟨within, fun _ => ⟨by simp, by simp⟩⟩
  · rw [running] at idle
    rcases idle with absurd' | absurd' <;> cases absurd'
  · exact ⟨trivial, fun _ => ⟨by simp, by simp⟩⟩

/-- A query of `cancel_task`, by the statement it is. -/
theorem cancelling_ask (separate : Separate mine table) (inv : Cancelling mine target table st)
    (waiting : st.todo = stmt :: rest) (query : ∃ answer, action codec now stmt = .query answer) :
    Cancelling mine target table (st.perform rest (action codec now stmt)) := by
  have here := inv.within stmt (by simp [waiting])
  obtain ⟨g, rows, each⟩ := inv.rows
  have idle := working_idle rows each separate
  have find : ∀ taskId, (∃ t ∈ st.working, t.taskId = taskId) →
      ∃ t ∈ st.working, findTask st.working taskId = some t ∧ t.taskId = taskId := by
    rintro taskId ⟨t, member, named⟩
    obtain ⟨u, found⟩ := Option.isSome_iff_exists.mp (List.find?_isSome.mpr
      ⟨t, member, (beq_iff_eq.mpr named)⟩ : (findTask st.working taskId).isSome)
    exact ⟨u, List.mem_of_find?_eq_some found, found, by simpa using List.find?_some found⟩
  cases stmt with
  | selectForCancel taskId =>
    obtain ⟨t, member, found, rfl⟩ := find taskId (inv.present taskId (.inl (by simp [waiting])))
    have answered : (action codec now (.selectForCancel t.taskId)).answer st.working =
        .go (dispatchCancel .user t ++ [.commit]) [] := by
      simp [action, Action.answer, found]
    have dispatched := dispatchCancel_within .user (idle t member here) here
    simp only [Solo.perform, answered]
    refine cancelling_query inv waiting query answered ?_ ?_ ?_ ?_
    · intro next pushed
      rcases List.mem_append.mp pushed with first | last
      · exact (dispatched next first).1
      · obtain rfl := List.mem_singleton.mp last
        trivial
    · intro taskId
      constructor <;> intro pushed <;> rcases List.mem_append.mp pushed with first | last
      · exact ((dispatched _ first).2 taskId).1 rfl
      · cases List.mem_singleton.mp last
      · exact ((dispatched _ first).2 taskId).2 rfl
      · cases List.mem_singleton.mp last
    · simp [reportsCancelled]
    · intro same
      have named : t.taskId = target := Stmt.selectForCancel.inj same
      refine ⟨by simp, ?_⟩
      rcases idle t member here with queued | cancelled
      · refine .inr (List.mem_append_left _ ?_)
        rw [← named]
        exact mem_dispatchCancel.mpr (.inl ⟨queued, rfl⟩)
      · refine .inl fun u memberU sameId => ?_
        have distinct : (st.working.map Task.taskId).Nodup := by
          rw [working_ids rows each]
          exact separate.distinct
        rw [List.inj_on_of_nodup_map distinct memberU member (sameId.trans named.symm)]
        exact cancelled
  | reloadCancelled taskId =>
    obtain ⟨t, member, found, rfl⟩ := find taskId (inv.present taskId (.inr (by simp [waiting])))
    have answered : (action codec now (.reloadCancelled t.taskId)).answer st.working =
        .go [.cascadeCancelDependents t.taskId]
          (recordTerminalEvent t.taskId t.projectName t.taskType .cancelled ++ [.cancelled t]) := by
      simp [action, Action.answer, found]
    simp only [Solo.perform, answered]
    refine cancelling_query inv waiting query answered ?_ (by simp) ?_ (by simp)
    · intro next pushed
      obtain rfl := List.mem_singleton.mp pushed
      exact here
    · intro k
      rw [reportsCancelled_append, reportsCancelled_record]
      simp [reportsCancelled]
  | cascadeCancelDependents taskId =>
    have dispatched : ∀ next ∈ (byQueuedAt (st.working.filter fun t =>
        t.dependencyTaskId == some taskId)).flatMap (dispatchCancel .cascade),
        next.cancelsWithin mine ∧
          ∀ taskId, next ≠ .selectForCancel taskId ∧ next ≠ .reloadCancelled taskId := by
      intro next member
      obtain ⟨t, listed, dispatched⟩ := List.mem_flatMap.mp member
      rw [mem_byQueuedAt, List.mem_filter, beq_iff_eq] at listed
      have within := working_closed rows each separate t listed.1 taskId listed.2 here
      exact dispatchCancel_within .cascade (idle t listed.1 within) within next dispatched
    refine cancelling_query inv waiting query rfl (fun next pushed => (dispatched next pushed).1) ?_
      (by simp [reportsCancelled]) (by simp)
    exact fun k => ⟨fun pushed => ((dispatched _ pushed).2 k).1 rfl,
      fun pushed => ((dispatched _ pushed).2 k).2 rfl⟩
  | skipTerminal t =>
    exact cancelling_query inv waiting query rfl (by simp) (by simp) (by simp [reportsCancelled])
      (by simp)
  | markCancelled _ _ | commit =>
    obtain ⟨answer, query⟩ := query
    cases query
  | _ => exact absurd here id

/-- The `WHERE` clause of `_mark_cancelled`. -/
def cancellable (taskId : String) : Task → Bool :=
  Task.hits taskId fun status => status == .queued || status == .cancelling || status == .running

section Mark

variable {taskId : String} {cancelledBy : CancelledBy}

theorem cancellable_iff {u : Task} (idle : u.status = .queued ∨ u.status = .cancelled) :
    cancellable taskId u = true ↔ u.taskId = taskId ∧ u.status = .queued := by
  rcases idle with status | status <;> simp [cancellable, Task.hits, status]

theorem touch_status {u : Task} (hit : cancellable taskId u = true) :
    (touch (cancellable taskId) (setCancelled now cancelledBy) u).status = .cancelled := by
  simp [touch, hit, setCancelled]

theorem touch_same {u : Task} (miss : ¬cancellable taskId u = true) :
    touch (cancellable taskId) (setCancelled now cancelledBy) u = u := by
  simp [touch, miss]

section Update

variable (separate : Separate mine table) {working : List Task} {g : Task → Task}
  (rows : working = table.map g) (each : ∀ t ∈ table, Cancels mine t (g t)) (here : mine taskId)

include separate rows each here

theorem cancels_touch :
    ∀ t ∈ table, Cancels mine t (touch (cancellable taskId) (setCancelled now cancelledBy) (g t)) := by
  intro t member
  by_cases hit : cancellable taskId (g t) = true
  · have inWorking : g t ∈ working := rows ▸ List.mem_map_of_mem member
    have named : (g t).taskId = taskId := by
      simp only [cancellable, Task.hits, Bool.and_eq_true, beq_iff_eq] at hit
      exact hit.1
    have queued := ((cancellable_iff (working_idle rows each separate _ inWorking
      (named ▸ here))).mp hit).2
    have same : g t = t := by
      rcases (each t member).changed with same | ⟨-, -, ended⟩
      · exact same
      · rw [queued] at ended
        cases ended
    rw [same] at queued named hit ⊢
    refine ⟨?_, ?_, .inr ⟨named ▸ here, queued, touch_status hit⟩⟩ <;> simp [touch, hit, setCancelled]
  · rw [touch_same hit]
    exact each t member

theorem wasCancelled_touch (k : String) :
    wasCancelled table (working.map (touch (cancellable taskId) (setCancelled now cancelledBy))) k ↔
      wasCancelled table working k ∨
        k = taskId ∧ ¬working.countP (cancellable taskId) = 0 := by
  constructor
  · rintro ⟨queued, u', member', named, ended⟩
    obtain ⟨u, member, rfl⟩ := List.mem_map.mp member'
    by_cases hit : cancellable taskId u = true
    · refine .inr ⟨?_, Nat.pos_iff_ne_zero.mp (List.countP_pos_iff.mpr ⟨u, member, hit⟩)⟩
      simp only [touch, hit, if_true, setCancelled] at named
      simp only [cancellable, Task.hits, Bool.and_eq_true, beq_iff_eq] at hit
      exact named.symm.trans hit.1
    · rw [touch_same hit] at named ended
      exact .inl ⟨queued, u, member, named, ended⟩
  · rintro (⟨queued, u, member, named, ended⟩ | ⟨rfl, found⟩)
    · have miss : ¬cancellable taskId u = true := by
        simp [cancellable, Task.hits, ended]
      exact ⟨queued, u, List.mem_map.mpr ⟨u, member, touch_same miss⟩, named, ended⟩
    · obtain ⟨u, member, hit⟩ := List.countP_pos_iff.mp (Nat.pos_of_ne_zero found)
      obtain ⟨t, old, -, cancels⟩ := working_mem rows each member
      have named : u.taskId = k := by
        simp only [cancellable, Task.hits, Bool.and_eq_true, beq_iff_eq] at hit
        exact hit.1
      have queued := ((cancellable_iff (working_idle rows each separate u member
        (named ▸ here))).mp hit).2
      have same : u = t := by
        rcases cancels.changed with same | ⟨-, -, ended⟩
        · exact same
        · rw [queued] at ended
          cases ended
      refine ⟨⟨t, old, same ▸ named, same ▸ queued⟩, _, List.mem_map.mpr ⟨u, member, rfl⟩, ?_,
        touch_status hit⟩
      simpa [touch, hit, setCancelled] using named

end Update

/-- The update of `_mark_cancelled` on a row of the set. -/
theorem cancelling_mark (separate : Separate mine table) (inv : Cancelling mine target table st)
    (waiting : st.todo = .markCancelled taskId cancelledBy :: rest) :
    Cancelling mine target table
      (st.perform rest (action codec now (.markCancelled taskId cancelledBy))) := by
  have here : mine taskId := inv.within (.markCancelled taskId cancelledBy) (by simp [waiting])
  obtain ⟨g, rows, each⟩ := inv.rows
  have updates : action codec now (.markCancelled taskId cancelledBy) =
    .update (cancellable taskId) (setCancelled now cancelledBy)
      fun rows => if rows = 0 then .go [] [] else .go [.reloadCancelled taskId] [] := rfl
  obtain ⟨push, answered, announces⟩ : ∃ push, (action codec now
      (.markCancelled taskId cancelledBy)).answer st.working = .go push [] ∧
      ∀ next, next ∈ push ↔ next = .reloadCancelled taskId ∧
        ¬st.working.countP (cancellable taskId) = 0 := by
    rw [updates]
    simp only [Action.answer]
    by_cases missing : st.working.countP (cancellable taskId) = 0
    · exact ⟨[], by rw [if_pos missing], by simp [missing]⟩
    · exact ⟨_, by rw [if_neg missing], by simp [missing]⟩
  have next : st.perform rest (action codec now (.markCancelled taskId cancelledBy)) =
      ⟨st.committed,
        st.working.map (touch (cancellable taskId) (setCancelled now cancelledBy)), push ++ rest,
        st.out⟩ := by
    simp only [Solo.perform, answered, List.append_nil]
    rfl
  have marks := inv.within
  have reaches := inv.reaches
  have settled := inv.settled
  rw [waiting] at marks reaches settled
  rw [next]
  refine ⟨⟨fun t => touch _ _ (g t), by rw [rows, List.map_map]; rfl,
    cancels_touch separate rows each here⟩, ?_, ?_, ?_, ?_, ?_, ?_⟩
  · intro later member
    rcases List.mem_append.mp member with pushed | old
    · rw [((announces later).mp pushed).1]
      exact here
    · exact marks later (.tail _ old)
  · intro k member
    have before : ∃ t ∈ st.working, t.taskId = k := by
      rcases member with member | member <;> rcases List.mem_append.mp member with pushed | old
      · cases ((announces _).mp pushed).1
      · exact inv.present k (.inl (by simp [waiting, old]))
      · obtain ⟨same, found⟩ := (announces _).mp pushed
        obtain ⟨u, inWorking, hit⟩ := List.countP_pos_iff.mp (Nat.pos_of_ne_zero found)
        simp only [cancellable, Task.hits, Bool.and_eq_true, beq_iff_eq] at hit
        exact ⟨u, inWorking, hit.1.trans (Stmt.reloadCancelled.inj same).symm⟩
      · exact inv.present k (.inr (by simp [waiting, old]))
    obtain ⟨t, inWorking, named⟩ := before
    exact ⟨_, List.mem_map.mpr ⟨t, inWorking, rfl⟩, (touch_keeps updates t).1.trans named⟩
  · rcases settled with commits | selects | ⟨done, -⟩
    · exact .inl (List.mem_append_right _ (by simpa using commits))
    · exact .inr (.inl (List.mem_append_right _ (by simpa using selects)))
    · cases done
  · intro k
    rw [wasCancelled_touch separate rows each here k, ← inv.reported k, waiting, List.mem_append,
      announces, List.mem_cons]
    simp only [reduceCtorEq, false_or, Stmt.reloadCancelled.injEq]
    tauto
  · intro t' memberT' q' memberQ' within stranded
    obtain ⟨t, memberT, rfl⟩ := List.mem_map.mp memberT'
    obtain ⟨q, memberQ, rfl⟩ := List.mem_map.mp memberQ'
    have missT : ¬cancellable taskId t = true := by
      intro hit
      have queued := stranded.queued
      rw [touch_status hit] at queued
      cases queued
    rw [(touch_keeps updates q).1] at within ⊢
    rw [touch_same missT] at stranded ⊢
    by_cases hitQ : cancellable taskId q = true
    · refine ⟨.reloadCancelled taskId, List.mem_append_left _ ((announces _).mpr ⟨rfl,
        Nat.pos_iff_ne_zero.mp (List.countP_pos_iff.mpr ⟨q, memberQ, hitQ⟩)⟩), ?_⟩
      simp only [cancellable, Task.hits, Bool.and_eq_true, beq_iff_eq] at hitQ
      simp [Stmt.covers, hitQ.1]
    · rw [touch_same hitQ] at stranded
      obtain ⟨cover, member, covers⟩ := inv.covered t memberT q memberQ within stranded
      rw [waiting] at member
      rcases List.mem_cons.mp member with rfl | later
      · refine absurd ?_ missT
        have named : taskId = t.taskId := by simpa [Stmt.covers] using covers
        simp [cancellable, Task.hits, named, stranded.queued]
      · exact ⟨cover, List.mem_append_right _ later, covers⟩
  · rcases reaches with done | selects | ⟨by_, marking⟩
    · refine .inl fun u' member named => ?_
      obtain ⟨u, inWorking, rfl⟩ := List.mem_map.mp member
      rw [(touch_keeps updates u).1] at named
      by_cases hit : cancellable taskId u = true
      · exact touch_status hit
      · rw [touch_same hit]
        exact done u inWorking named
    · exact .inr (.inl (List.mem_append_right _ (by simpa using selects)))
    · rcases List.mem_cons.mp marking with same | later
      · obtain ⟨rfl, rfl⟩ := Stmt.markCancelled.inj same
        refine .inl fun u' member named => ?_
        obtain ⟨u, inWorking, rfl⟩ := List.mem_map.mp member
        rw [(touch_keeps updates u).1] at named
        by_cases hit : cancellable target u = true
        · exact touch_status hit
        · rw [touch_same hit]
          have idle := working_idle rows each separate u inWorking (named ▸ here)
          exact idle.resolve_left fun queued => hit ((cancellable_iff idle).mpr ⟨named, queued⟩)
      · exact .inr (.inr ⟨by_, List.mem_append_right _ later⟩)

end Mark

theorem cancelling_step (separate : Separate mine table) (shaped : Shaped st)
    (inv : Cancelling mine target table st) (waiting : st.todo = stmt :: rest) :
    Cancelling mine target table (st.perform rest (action codec now stmt)) := by
  have here := inv.within stmt (by simp [waiting])
  cases stmt with
  | markCancelled taskId cancelledBy => exact cancelling_mark separate inv waiting
  | commit =>
    have nothing : rest = [] := by
      refine List.eq_nil_iff_forall_not_mem.mpr fun next later => ?_
      have within := inv.within next (by simp [waiting, later])
      have before := shaped.ordered
      rw [waiting] at before
      have looksUp := ((List.pairwise_cons.mp before).1 next later).1 rfl
      cases next with
      | selectActiveDuplicate request => exact within
      | _ => cases looksUp
    subst nothing
    have owed := inv.reported
    have covered := inv.covered
    have reaches := inv.reaches
    simp only [waiting, List.mem_singleton, reduceCtorEq, or_false, exists_eq_left]
      at owed covered reaches
    have next : st.perform [] (action codec now .commit) = ⟨st.working, st.working, [], st.out⟩ := by
      simp [Solo.perform, action, Action.answer, Action.settle, Action.change]
    rw [next]
    refine ⟨inv.rows, by simp, by simp, .inr (.inr ⟨rfl, rfl⟩), ?_, ?_, .inl (by simpa using reaches)⟩
    · intro k
      simpa using owed k
    · intro t memberT q memberQ within stranded
      cases covered t memberT q memberQ within stranded
  | selectForCancel _ | reloadCancelled _ | cascadeCancelDependents _ | skipTerminal _ =>
    exact cancelling_ask separate inv waiting ⟨_, rfl⟩
  | _ => exact absurd here id

/-- `cancel_task` on a task of the set: only queued tasks of the set change, they are
cancelled and reported, and the set stays separate. -/
theorem cancelTask_spec (codec : TextCodec) (separate : Separate mine table) (within : mine target)
    (found : ∃ t ∈ table, t.taskId = target) (clock : Nat → Nat) :
    let st := runOp codec clock (.cancelTask target) table
    (∃ g, st.committed = table.map g ∧ ∀ t ∈ table, Cancels mine t (g t)) ∧
      Separate mine st.committed ∧
      (∀ u ∈ st.committed, u.taskId = target → u.status = .cancelled) ∧
      ∀ k, reportsCancelled st.out k = true ↔ wasCancelled table st.committed k := by
  intro st
  have inv : Cancelling mine target table st :=
    runOp_induct (Cancelling mine target table)
      (fun _ _ _ _ waiting shaped inv => cancelling_step separate shaped inv waiting)
      clock (.cancelTask target) table (cancelling_start separate within found)
  have done : st.todo = [] := runOp_done codec clock (.cancelTask target) table
  have settled := inv.settled
  have reported := inv.reported
  have covered := inv.covered
  have reaches := inv.reaches
  simp only [done, List.not_mem_nil, false_or, true_and, or_false, exists_false, false_and]
    at settled reported covered reaches
  obtain ⟨g, rows, each⟩ := inv.rows
  rw [settled]
  refine ⟨⟨g, rows, each⟩, ⟨?_, working_closed rows each separate, working_idle rows each separate,
    covered⟩, reaches, reported⟩
  rw [working_ids rows each]
  exact separate.distinct

end ArcReel.Queue
