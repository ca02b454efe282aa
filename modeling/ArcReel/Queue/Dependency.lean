import ArcReel.Queue.StateMachine
import ArcReel.Queue.Sequential

/-! Waiting tasks and dead dependencies: a queued task whose dependency has failed
or was cancelled can never be claimed. The cascades repair the table after the
end of a task; `enqueue` and `cancel_all_queued` do not. -/

namespace ArcReel.Queue
open ArcReel.Lib.SqlSession

/-- `t` waits for the dead task `q`. -/
structure Stranded (t q : Task) : Prop where
  queued : t.status = .queued
  dead : q.status.dead = true
  depends : t.dependencyTaskId = some q.taskId

structure TableSound (table : List Task) : Prop where
  distinct : (table.map Task.taskId).Nodup
  claimed : ∀ t ∈ table, t.status.claimed = true → t.dependencyMet table = true
  alive : ∀ t ∈ table, ∀ q ∈ table, ¬Stranded t q

/-- The request meets an active duplicate, or its dependency has not died. -/
def dependencyAlive (table : List Task) (request : EnqueueRequest) : Bool :=
  table.any (Task.clashes (request.row 0)) ||
    decide (∀ q ∈ table, request.dependencyTaskId = some q.taskId → q.status.dead = false)

/-- No queued task of another project waits for a queued task of this one. -/
def dependentsWithin (table : List Task) (projectName : String) : Bool :=
  decide (∀ t ∈ table, t.status = .queued → t.projectName ≠ projectName → ∀ q ∈ table,
    t.dependencyTaskId = some q.taskId → q.projectName = projectName → q.status ≠ .queued)

/-- The operation strands no task on this table. -/
def strandsNone (table : List Task) : Op → Bool
  | .enqueue request => dependencyAlive table request
  | .cancelAllQueued projectName => dependentsWithin table projectName
  | _ => true

namespace Stmt

def strandsNone (table : List Task) : Stmt → Bool
  | insertTask request => dependencyAlive table request
  | selectQueuedOf projectName | cancelQueuedOf projectName _ => dependentsWithin table projectName
  | _ => true

/-- The statement will find the waiting task of a dead dependency, or end it. -/
def covers (deadId waitingId : String) : Stmt → Bool
  | cascadeFailedQueued taskId _ | cascadeCancelDependents taskId | reloadCancelled taskId =>
      taskId == deadId
  | markFailedQueuedDep taskId _ _ | markCancelled taskId _ => taskId == waitingId
  | _ => false

end Stmt

/-- Every stranded task of the working table is covered by a statement still to come. -/
structure Repairing (st : Solo Task Stmt Out) : Prop where
  base : TableSound st.committed
  distinct : (st.working.map Task.taskId).Nodup
  claimed : ∀ t ∈ st.working, t.status.claimed = true → t.dependencyMet st.working = true
  claiming : ∀ taskId claimedAt, .updateClaimed taskId claimedAt ∈ st.todo →
    ∀ t ∈ st.working, t.taskId = taskId → t.dependencyMet st.working = true
  covered : ∀ t ∈ st.working, ∀ q ∈ st.working, Stranded t q →
    ∃ stmt ∈ st.todo, stmt.covers q.taskId t.taskId = true
  admitted : ∀ stmt ∈ st.todo, stmt.strandsNone st.committed = true

theorem strandsNone_of_closed {stmt : Stmt} (closed : stmt.opening = false) (table : List Task) :
    stmt.strandsNone table = true := by
  cases stmt <;> first | rfl | cases closed

variable (codec : TextCodec)

theorem repairing_start {table : List Task} (sound : TableSound table) {op : Op}
    (admitted : strandsNone table op = true) : Repairing (Solo.start table (program op)) where
  base := sound
  distinct := sound.distinct
  claimed := sound.claimed
  claiming _ _ member := absurd member program_updateClaimed
  covered t memberT q memberQ stranded := absurd stranded (sound.alive t memberT q memberQ)
  admitted := by
    cases op <;> simp_all [Solo.start, program, strandsNone, Stmt.strandsNone]

/-- The state after an undone transaction. -/
theorem repairing_undone {table : List Task} (sound : TableSound table) {todo : List Stmt}
    {out : List Out} (closed : ∀ stmt ∈ todo, stmt.opening = false) :
    Repairing ⟨table, table, todo, out⟩ where
  base := sound
  distinct := sound.distinct
  claimed := sound.claimed
  claiming _ _ member := by cases closed _ member
  covered t memberT q memberQ stranded := absurd stranded (sound.alive t memberT q memberQ)
  admitted stmt member := strandsNone_of_closed (closed stmt member) table

section Statements

variable {codec} {now : Nat} {stmt : Stmt} {rest push : List Stmt} {emit : List Out}

/-- A query that covers a stranded task schedules statements that cover it. -/
theorem query_covers {table : List Task} (query : ∃ answer, action codec now stmt = .query answer)
    (answered : (action codec now stmt).answer table = .go push emit) {t q : Task}
    (member : t ∈ table) (stranded : Stranded t q)
    (covers : stmt.covers q.taskId t.taskId = true) :
    ∃ next ∈ push, next.covers q.taskId t.taskId = true := by
  cases stmt with
  | cascadeFailedQueued taskId errorMessage =>
    obtain rfl : taskId = q.taskId := by simpa [Stmt.covers] using covers
    obtain ⟨rfl, -⟩ := Next.go.inj answered
    refine ⟨_, List.mem_map.mpr ⟨t, ?_, rfl⟩, by simp [Stmt.covers]⟩
    simp [mem_byQueuedAt, member, stranded.queued, stranded.depends]
  | cascadeCancelDependents taskId =>
    obtain rfl : taskId = q.taskId := by simpa [Stmt.covers] using covers
    obtain ⟨rfl, -⟩ := Next.go.inj answered
    refine ⟨.markCancelled t.taskId .cascade, List.mem_flatMap.mpr ⟨t, ?_, ?_⟩,
      by simp [Stmt.covers]⟩
    · simp [mem_byQueuedAt, member, stranded.depends]
    · exact mem_dispatchCancel.mpr (.inl ⟨stranded.queued, rfl⟩)
  | reloadCancelled taskId =>
    simp only [action, Action.answer] at answered
    split at answered
    · obtain ⟨rfl, -⟩ := Next.go.inj answered
      exact ⟨_, List.mem_singleton.mpr rfl, covers⟩
    · cases answered
  | markFailedQueuedDep _ _ _ | markCancelled _ _ =>
    obtain ⟨answer, query⟩ := query
    cases query
  | _ => cases covers

section Updates

variable {hits : Task → Bool} {f : Task → Task} {answer : Nat → Next Stmt Out}

theorem update_keeps (updates : action codec now stmt = .update hits f answer) (t : Task) :
    (f t).taskId = t.taskId ∧ (f t).dependencyTaskId = t.dependencyTaskId := by
  cases stmt <;> simp only [action, Action.update.injEq, reduceCtorEq] at updates <;>
    obtain ⟨rfl, rfl, -⟩ := updates <;> exact ⟨rfl, rfl⟩

theorem update_succeeded (updates : action codec now stmt = .update hits f answer) {t : Task}
    (hit : hits t = true) (succeeded : t.status = .succeeded) : (f t).status = .succeeded := by
  cases stmt <;> simp only [action, Action.update.injEq, reduceCtorEq] at updates <;>
    obtain ⟨rfl, rfl, -⟩ := updates <;> simp_all [Task.hits]

/-- Only a claimed task is put back into the queue. -/
theorem update_queued (updates : action codec now stmt = .update hits f answer) {t : Task}
    (hit : hits t = true) (queued : (f t).status = .queued) :
    t.status = .queued ∨ t.status.claimed = true := by
  cases stmt <;> simp only [action, Action.update.injEq, reduceCtorEq] at updates <;>
    obtain ⟨rfl, rfl, -⟩ := updates <;>
    simp_all [Task.hits, setFailed, setCancelled, TaskStatus.claimed]

/-- An update that covers a waiting task ends it. -/
theorem update_covers (updates : action codec now stmt = .update hits f answer) {t q : Task}
    (stranded : Stranded t q) (covers : stmt.covers q.taskId t.taskId = true) :
    hits t = true ∧ (f t).status ≠ .queued := by
  have queued := stranded.queued
  cases stmt <;> simp only [action, Action.update.injEq, reduceCtorEq] at updates <;>
    obtain ⟨rfl, rfl, -⟩ := updates <;>
    simp_all [Stmt.covers, Task.hits, setFailed, setCancelled]

/-- An update that kills a task schedules the cascade to its dependents, unless it is the
bulk cancellation. -/
theorem update_kills {table : List Task} (updates : action codec now stmt = .update hits f answer)
    (answered : (action codec now stmt).answer table = .go push emit) {q : Task} (member : q ∈ table)
    (hit : hits q = true) (live : q.status.dead = false) (dead : (f q).status.dead = true)
    (waitingId : String) :
    (∃ next ∈ push, next.covers q.taskId waitingId = true) ∨
      ∃ projectName taskIds, stmt = .cancelQueuedOf projectName taskIds ∧
        q.projectName = projectName ∧ q.status = .queued := by
  have found : table.countP hits ≠ 0 :=
    Nat.pos_iff_ne_zero.mp (List.countP_pos_iff.mpr ⟨q, member, hit⟩)
  cases stmt with
  | markFailedRunning taskId errorMessage | markFailedQueuedDep taskId _ errorMessage
  | markCancelled taskId _ =>
    obtain ⟨rfl, rfl, -⟩ := Action.update.inj updates
    have named : q.taskId = taskId := by
      simp only [Task.hits, Bool.and_eq_true, beq_iff_eq] at hit
      exact hit.1
    simp only [action, Action.answer, if_neg found] at answered
    obtain ⟨rfl, -⟩ := Next.go.inj answered
    exact .inl (by simp [Stmt.covers, named])
  | cancelQueuedOf projectName taskIds =>
    obtain ⟨rfl, rfl, -⟩ := Action.update.inj updates
    have both : q.projectName = projectName ∧ q.status = .queued := by simpa using hit
    exact .inr ⟨projectName, taskIds, rfl, both⟩
  | _ =>
    simp only [action, Action.update.injEq, reduceCtorEq] at updates
    all_goals
      obtain ⟨rfl, rfl, -⟩ := updates
      simp_all [TaskStatus.dead]

end Updates

variable {st : Solo Task Stmt Out}

/-- What a session schedules is admitted like what it had to do. -/
theorem admitted_push (st : Solo Task Stmt Out) (repairing : Repairing st)
    (waiting : st.todo = stmt :: rest)
    (answered : (action codec now stmt).answer st.working = .go push emit) :
    ∀ next ∈ push ++ rest, next.strandsNone st.committed = true := by
  intro next member
  rcases List.mem_append.mp member with pushed | old
  · cases opening : next.opening with
    | false => exact strandsNone_of_closed opening st.committed
    | true =>
      have before := repairing.admitted stmt (by simp [waiting])
      cases (push_opening codec answered next pushed opening).1 with
      | claim => rfl
      | cancelAll => exact before
      | payload => rfl
  · exact repairing.admitted next (by simp [waiting, old])

/-- A claim is the only statement of its session. -/
theorem no_updateClaimed (shaped : Shaped st) (waiting : st.todo = stmt :: rest)
    (taskId : String) (claimedAt : Nat) : .updateClaimed taskId claimedAt ∉ rest := by
  intro old
  have only := (shaped.opening _ (by rw [waiting]; exact .tail _ old) rfl).1
  rw [waiting] at only
  rw [(List.cons.inj only).2] at old
  cases old

theorem repairing_query (repairing : Repairing st) (shaped : Shaped st)
    (waiting : st.todo = stmt :: rest) (query : ∃ answer, action codec now stmt = .query answer)
    (answered : (action codec now stmt).answer st.working = .go push emit) :
    Repairing ⟨st.committed, st.working, push ++ rest, st.out ++ emit⟩ where
  base := repairing.base
  distinct := repairing.distinct
  claimed := repairing.claimed
  claiming taskId claimedAt member t memberT named := by
    rcases List.mem_append.mp member with pushed | old
    · obtain ⟨-, -, -, -, u, memberU, namedU, met⟩ := push_updateClaimed codec answered pushed
      have same : t = u := List.inj_on_of_nodup_map repairing.distinct memberT memberU
        (named.trans namedU.symm)
      rw [same]
      exact met
    · exact absurd old (no_updateClaimed shaped waiting taskId claimedAt)
  covered t memberT q memberQ stranded := by
    obtain ⟨cover, member, covers⟩ := repairing.covered t memberT q memberQ stranded
    rw [waiting] at member
    rcases List.mem_cons.mp member with rfl | later
    · obtain ⟨next, pushed, covers'⟩ := query_covers query answered memberT stranded covers
      exact ⟨next, List.mem_append_left _ pushed, covers'⟩
    · exact ⟨cover, List.mem_append_right _ later, covers⟩
  admitted := admitted_push st repairing waiting answered

section Updates

variable {hits : Task → Bool} {f : Task → Task} {answer : Nat → Next Stmt Out}
  (updates : action codec now stmt = .update hits f answer)

/-- One row under the update. -/
def touch (hits : Task → Bool) (f : Task → Task) (t : Task) : Task := if hits t then f t else t

include updates

theorem touch_keeps (t : Task) : (touch hits f t).taskId = t.taskId ∧
    (touch hits f t).dependencyTaskId = t.dependencyTaskId := by
  unfold touch
  split_ifs
  · exact update_keeps updates t
  · exact ⟨rfl, rfl⟩

theorem touch_dependencyMet {table : List Task} {t : Task} (met : t.dependencyMet table = true) :
    (touch hits f t).dependencyMet (table.map (touch hits f)) = true := by
  rw [dependencyMet_iff] at *
  intro d depends
  obtain ⟨q, member, named, succeeded⟩ := met d ((touch_keeps updates t).2 ▸ depends)
  refine ⟨touch hits f q, List.mem_map.mpr ⟨q, member, rfl⟩,
    (touch_keeps updates q).1.trans named, ?_⟩
  unfold touch
  split_ifs with hit
  · exact update_succeeded updates hit succeeded
  · exact succeeded

/-- Which task a row under the update waits for. -/
theorem covered_update (repairing : Repairing st) (shaped : Shaped st)
    (waiting : st.todo = stmt :: rest)
    (answered : (action codec now stmt).answer st.working = .go push emit) {t q : Task}
    (memberT : t ∈ st.working) (memberQ : q ∈ st.working)
    (stranded : Stranded (touch hits f t) (touch hits f q)) :
    ∃ next ∈ push ++ rest, next.covers q.taskId t.taskId = true := by
  have depends : t.dependencyTaskId = some q.taskId := by
    rw [← (touch_keeps updates t).2, ← (touch_keeps updates q).1]
    exact stranded.depends
  by_cases queued : t.status = .queued
  · cases dead : q.status.dead with
    | true =>
      -- the task was stranded before, so one of the session's statements covers it
      have before : Stranded t q := ⟨queued, dead, depends⟩
      obtain ⟨cover, member, covers⟩ := repairing.covered t memberT q memberQ before
      rw [waiting] at member
      rcases List.mem_cons.mp member with rfl | later
      · obtain ⟨hit, ended⟩ := update_covers updates before covers
        exact absurd stranded.queued (by simpa [touch, hit] using ended)
      · exact ⟨cover, List.mem_append_right _ later, covers⟩
    | false =>
      -- the update has just killed the dependency
      have hit : hits q = true := by
        by_contra miss
        have same := stranded.dead
        simp only [touch, if_neg miss, dead] at same
        cases same
      have killed : (f q).status.dead = true := by simpa [touch, hit] using stranded.dead
      rcases update_kills updates answered memberQ hit dead killed t.taskId with
        ⟨next, pushed, covers⟩ | ⟨projectName, taskIds, rfl, project, queuedQ⟩
      · exact ⟨next, List.mem_append_left _ pushed, covers⟩
      · have here := (shaped.opening _ (by rw [waiting]; exact .head _) rfl).2
        have within := repairing.admitted _ (by rw [waiting]; exact .head _)
        rw [← here] at within
        have outside : t.projectName ≠ projectName := by
          intro same
          obtain ⟨rfl, rfl, -⟩ := Action.update.inj updates
          have ended := stranded.queued
          simp [touch, same, queued] at ended
        exact absurd queuedQ
          (of_decide_eq_true within t memberT queued outside q memberQ depends project)
  · -- a task that was put back had its dependency succeed
    have hit : hits t = true := by
      by_contra miss
      exact queued (by simpa [touch, miss] using stranded.queued)
    have claimed := (update_queued updates hit
      (by simpa [touch, hit] using stranded.queued)).resolve_left queued
    obtain ⟨r, memberR, named, succeeded⟩ :=
      dependencyMet_iff.mp (repairing.claimed t memberT claimed) q.taskId depends
    have same : r = q := List.inj_on_of_nodup_map repairing.distinct memberR memberQ named
    subst same
    have alive : (touch hits f r).status = .succeeded := by
      unfold touch
      split_ifs with hitR
      · exact update_succeeded updates hitR succeeded
      · exact succeeded
    have dead := stranded.dead
    rw [alive] at dead
    cases dead

theorem repairing_update (repairing : Repairing st) (shaped : Shaped st)
    (waiting : st.todo = stmt :: rest)
    (answered : (action codec now stmt).answer st.working = .go push emit) :
    Repairing ⟨st.committed, st.working.map (touch hits f), push ++ rest, st.out ++ emit⟩ where
  base := repairing.base
  distinct := by
    have same : (st.working.map (touch hits f)).map Task.taskId = st.working.map Task.taskId := by
      rw [List.map_map]
      exact List.map_congr_left fun t _ => (touch_keeps updates t).1
    rw [same]
    exact repairing.distinct
  claimed u member claimed := by
    obtain ⟨t, memberT, rfl⟩ := List.mem_map.mp member
    apply touch_dependencyMet updates
    by_cases hit : hits t = true
    · rcases update_claimed codec updates hit (by simpa [touch, hit] using claimed) with before |
        ⟨claimedAt, rfl⟩
      · exact repairing.claimed t memberT before
      · exact repairing.claiming t.taskId claimedAt (by rw [waiting]; exact .head _) t memberT rfl
    · exact repairing.claimed t memberT (by simpa [touch, hit] using claimed)
  claiming taskId claimedAt member := by
    rcases List.mem_append.mp member with pushed | old
    · obtain ⟨mediaType, full, excluded, rfl, -⟩ := push_updateClaimed codec answered pushed
      cases updates
    · exact absurd old (no_updateClaimed shaped waiting taskId claimedAt)
  covered u memberU v memberV stranded := by
    obtain ⟨t, memberT, rfl⟩ := List.mem_map.mp memberU
    obtain ⟨q, memberQ, rfl⟩ := List.mem_map.mp memberV
    rw [(touch_keeps updates t).1, (touch_keeps updates q).1]
    exact covered_update updates repairing shaped waiting answered memberT memberQ stranded
  admitted := admitted_push st repairing waiting answered

end Updates

theorem dependencyMet_append {table : List Task} {t row : Task} (met : t.dependencyMet table = true) :
    t.dependencyMet (table ++ [row]) = true := by
  rw [dependencyMet_iff] at *
  intro d depends
  obtain ⟨q, member, found⟩ := met d depends
  exact ⟨q, List.mem_append_left _ member, found⟩

theorem tableSound_insert {table : List Task} (sound : TableSound table) {request : EnqueueRequest}
    (admitted : dependencyAlive table request = true)
    (fresh : ¬table.any (Task.clashes (request.row now)) = true) :
    TableSound (table ++ [request.row now]) := by
  have apart : ∀ t ∈ table, t.taskId ≠ request.taskId := by
    intro t member same
    refine fresh (List.any_eq_true.mpr ⟨t, member, ?_⟩)
    simp [Task.clashes, EnqueueRequest.row, same]
  have alive : ∀ q ∈ table, request.dependencyTaskId = some q.taskId → q.status.dead = false := by
    simp only [dependencyAlive, Bool.or_eq_true, decide_eq_true_eq] at admitted
    exact admitted.resolve_left fresh
  refine ⟨?_, ?_, ?_⟩
  · simp only [List.map_append, List.map_cons, List.map_nil, List.nodup_append, List.mem_map,
      List.mem_singleton]
    refine ⟨sound.distinct, List.nodup_singleton _, ?_⟩
    rintro _ ⟨t, member, rfl⟩ _ rfl
    exact apart t member
  · intro t member claimed
    rcases List.mem_append.mp member with old | new
    · exact dependencyMet_append (sound.claimed t old claimed)
    · obtain rfl := List.mem_singleton.mp new
      cases claimed
  · intro t memberT q memberQ stranded
    rcases List.mem_append.mp memberQ with oldQ | newQ
    · rcases List.mem_append.mp memberT with oldT | newT
      · exact sound.alive t oldT q oldQ stranded
      · obtain rfl := List.mem_singleton.mp newT
        have dead := stranded.dead
        rw [alive q oldQ stranded.depends] at dead
        cases dead
    · obtain rfl := List.mem_singleton.mp newQ
      cases stranded.dead

theorem repairing_insert {request : EnqueueRequest} (repairing : Repairing st) (shaped : Shaped st)
    (waiting : st.todo = .insertTask request :: rest) :
    Repairing (st.perform rest (action codec now (.insertTask request))) := by
  have opening := shaped.opening _ (by rw [waiting]; exact .head _) rfl
  have none_ : rest = [] := by
    rw [waiting] at opening
    exact (List.cons.inj opening.1).2
  have admitted := repairing.admitted _ (by rw [waiting]; exact .head _)
  subst none_
  simp only [Solo.perform, action, Action.answer, Action.change, Action.settle, opening.2]
  by_cases clash : st.committed.any (Task.clashes (request.row now)) = true
  · simp only [if_pos clash]
    exact repairing_undone repairing.base (by simp [Stmt.opening])
  · simp only [if_neg clash]
    have sound := tableSound_insert repairing.base admitted clash
    refine ⟨repairing.base, sound.distinct, sound.claimed, by simp, ?_, by simp [Stmt.strandsNone]⟩
    exact fun t memberT q memberQ stranded => absurd stranded (sound.alive t memberT q memberQ)

/-- Nothing that covers a task follows the end of a transaction. -/
theorem tableSound_commit (repairing : Repairing st) (shaped : Shaped st)
    (waiting : st.todo = .commit :: rest) : TableSound st.working where
  distinct := repairing.distinct
  claimed := repairing.claimed
  alive t memberT q memberQ stranded := by
    obtain ⟨cover, member, covers⟩ := repairing.covered t memberT q memberQ stranded
    have before := shaped.ordered
    rw [waiting] at member before
    rcases List.mem_cons.mp member with rfl | later
    · cases covers
    · have looksUp := ((List.pairwise_cons.mp before).1 cover later).1 rfl
      cases cover with
      | selectActiveDuplicate request => cases covers
      | _ => cases looksUp

/-- Only the lookup of a duplicate follows the end of a transaction. -/
theorem closed_after_end (shaped : Shaped st) (waiting : st.todo = stmt :: rest)
    (ends : stmt.ends = true) : ∀ next ∈ rest, next.opening = false := by
  intro next later
  have before := shaped.ordered
  rw [waiting] at before
  have looksUp := ((List.pairwise_cons.mp before).1 next later).1 ends
  cases next with
  | selectActiveDuplicate request => rfl
  | _ => cases looksUp

theorem repairing_step (repairing : Repairing st) (shaped : Shaped st)
    (waiting : st.todo = stmt :: rest) :
    Repairing (st.perform rest (action codec now stmt)) := by
  cases kind : action codec now stmt with
  | insert row clashes done dup =>
    rw [← kind]
    cases stmt <;> simp only [action, reduceCtorEq] at kind
    exact repairing_insert repairing shaped waiting
  | commit =>
    obtain rfl := eq_commit_of_action codec kind
    exact repairing_undone (tableSound_commit repairing shaped waiting)
      (closed_after_end shaped waiting rfl)
  | rollback =>
    have here : stmt.ends = true := by
      cases stmt <;> simp only [action, reduceCtorEq] at kind
      rfl
    exact repairing_undone repairing.base (closed_after_end shaped waiting here)
  | query answer =>
    rw [← kind]
    rcases st.perform_cases rest (action codec now stmt) with ⟨push, emit, said, next⟩ | ⟨-, next⟩ <;>
      rw [next, kind]
    · exact repairing_query repairing shaped waiting ⟨answer, kind⟩ said
    · exact repairing_undone repairing.base (by simp)
  | update hits f answer =>
    rw [← kind]
    rcases st.perform_cases rest (action codec now stmt) with ⟨push, emit, said, next⟩ | ⟨-, next⟩ <;>
      rw [next, kind]
    · exact repairing_update kind repairing shaped waiting said
    · exact repairing_undone repairing.base (by simp)

end Statements

theorem tableSound_runOp {table : List Task} (sound : TableSound table) {op : Op}
    (admitted : strandsNone table op = true) (clock : Nat → Nat) :
    TableSound (runOp codec clock op table).committed :=
  (runOp_induct Repairing (fun _ _ _ _ waiting shaped repairing =>
    repairing_step repairing shaped waiting) clock op table (repairing_start sound admitted)).base

/-- Operations one after the other, each with the clock that its statements read. -/
def runOps : List (Op × (Nat → Nat)) → List Task → List Task
  | [], table => table
  | (op, clock) :: later, table => runOps later (runOp codec clock op table).committed

/-- Every operation of the sequence meets a condition on the table before it. -/
def allOps (cond : List Task → Op → Bool) : List (Op × (Nat → Nat)) → List Task → Bool
  | [], _ => true
  | (op, clock) :: later, table =>
      cond table op && allOps cond later (runOp codec clock op table).committed

theorem tableSound_runOps (ops : List (Op × (Nat → Nat))) :
    ∀ {table : List Task}, TableSound table → allOps codec strandsNone ops table = true →
      TableSound (runOps codec ops table) := by
  induction ops with
  | nil => exact fun sound _ => sound
  | cons step later ih =>
    intro table sound admitted
    simp only [allOps, Bool.and_eq_true] at admitted
    exact ih (tableSound_runOp codec sound admitted.1 step.2) admitted.2

/-- No queued task waits for a failed or cancelled one, as long as nothing is enqueued behind
a dead task and no bulk cancellation reaches a task that another project waits for. -/
theorem queued_dependency_not_dead (ops : List (Op × (Nat → Nat)))
    (admitted : allOps codec strandsNone ops [] = true) :
    ∀ t ∈ runOps codec ops [], t.status = .queued → ∀ q ∈ runOps codec ops [],
      t.dependencyTaskId = some q.taskId → q.status ≠ .failed ∧ q.status ≠ .cancelled := by
  have sound : TableSound (runOps codec ops []) :=
    tableSound_runOps codec ops ⟨List.nodup_nil, by simp, by simp⟩ admitted
  intro t memberT queued q memberQ depends
  have alive : q.status.dead ≠ true := fun dead =>
    sound.alive t memberT q memberQ ⟨queued, dead, depends⟩
  constructor <;> intro status <;> exact alive (by rw [status]; rfl)

/-- A task fails while another one waits for it. -/
def failureOps : List (Op × (Nat → Nat)) :=
  [(.enqueue (.image "a" "p" "r" none), fun _ => 1),
    (.enqueue (.image "b" "p" "q" (some "a")), fun _ => 2),
    (.claimNext "image" [] [], fun _ => 3), (.markFailed "a" "timeout", fun _ => 4)]

theorem queued_dependency_not_dead_failure :
    (runOps plainCodec failureOps []).map Task.status = [.failed, .failed] ∧
      ∀ t ∈ runOps plainCodec failureOps [], t.status = .queued →
        ∀ q ∈ runOps plainCodec failureOps [], t.dependencyTaskId = some q.taskId →
          q.status ≠ .failed ∧ q.status ≠ .cancelled :=
  ⟨by decide, queued_dependency_not_dead plainCodec failureOps (by decide)⟩

/-- A task is enqueued behind a task that has failed already. -/
def lateOps : List (Op × (Nat → Nat)) :=
  [(.enqueue (.image "a" "p" "r" none), fun _ => 1), (.claimNext "image" [] [], fun _ => 2),
    (.markFailed "a" "timeout", fun _ => 3),
    (.enqueue (.image "b" "p" "q" (some "a")), fun _ => 4)]

/-- The queue of one project is cancelled while a task of another project waits for it. -/
def crossProjectOps : List (Op × (Nat → Nat)) :=
  [(.enqueue (.image "a" "p" "r" none), fun _ => 1),
    (.enqueue (.image "b" "q" "r" (some "a")), fun _ => 2), (.cancelAllQueued "p", fun _ => 3)]

/-- Both leave a queued task behind a dead dependency. -/
theorem enqueue_and_cancel_all_strand :
    (∃ t ∈ runOps plainCodec lateOps [], ∃ q ∈ runOps plainCodec lateOps [],
      t.status = .queued ∧ t.dependencyTaskId = some q.taskId ∧ q.status = .failed) ∧
    ∃ t ∈ runOps plainCodec crossProjectOps [], ∃ q ∈ runOps plainCodec crossProjectOps [],
      t.status = .queued ∧ t.dependencyTaskId = some q.taskId ∧ q.status = .cancelled := by
  decide

end ArcReel.Queue
