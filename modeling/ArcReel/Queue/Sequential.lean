import ArcReel.Queue.Programs

/-! Repository operations that run one after the other: each operation is run to
its end on the table that the one before has left. -/

namespace ArcReel.Queue
open ArcReel.Lib.SqlSession

variable (codec : TextCodec)

/-- What holds of a session between two statements, whatever the table holds. -/
structure Shaped (st : Solo Task Stmt Out) : Prop where
  opening : ∀ stmt ∈ st.todo, stmt.opening = true → st.todo = [stmt] ∧ st.working = st.committed
  ordered : st.todo.Pairwise Stmt.Before
  undone : .rollback ∈ st.todo →
    ∃ rest, st.todo = .rollback :: rest ∧ (rest = [] ∨ st.working = st.committed)

theorem shaped_start (table : List Task) (op : Op) :
    Shaped (Solo.start table (program op)) where
  opening stmt member opens := ⟨program_opening member opens, rfl⟩
  ordered := program_before op
  undone member := by
    cases op <;> simp [Solo.start, program] at member

theorem push_rollback (committed : List Task) {now : Nat} {stmt : Stmt} {working : List Task}
    {push : List Stmt} {emit : List Out}
    (answered : (action codec now stmt).answer working = .go push emit)
    (pushed : .rollback ∈ push) : stmt.opening = true ∧ ∃ rest, push = .rollback :: rest ∧
      (rest = [] ∨ (action codec now stmt).change committed working = working) := by
  cases stmt with
  | insertTask request =>
    simp only [action, Action.answer, Action.change] at answered ⊢
    split_ifs at answered with clash <;> obtain ⟨rfl, -⟩ := Next.go.inj answered
    · exact ⟨rfl, _, rfl, .inr (if_pos clash)⟩
    · simp at pushed
  | cascadeCancelDependents taskId =>
    obtain ⟨rfl, -⟩ := Next.go.inj answered
    obtain ⟨t, _, dispatched⟩ := List.mem_flatMap.mp pushed
    cases (dispatchCancel_plain dispatched).1
  | _ =>
    simp only [action, Action.answer] at answered
    repeat' split at answered
    all_goals
      simp only [Next.go.injEq, reduceCtorEq] at answered
    all_goals
      obtain ⟨rfl, -⟩ := answered
      simp_all [Stmt.opening, mem_dispatchCancel]

theorem shaped_step (now : Nat) {st : Solo Task Stmt Out} (shaped : Shaped st) {stmt : Stmt}
    {rest : List Stmt} (waiting : st.todo = stmt :: rest) :
    Shaped (st.perform rest (action codec now stmt)) := by
  have alone : stmt.opening = true → rest = [] ∧ st.working = st.committed := by
    intro opening
    obtain ⟨only, same⟩ := shaped.opening stmt (by simp [waiting]) opening
    rw [waiting] at only
    exact ⟨(List.cons.inj only).2, same⟩
  rcases st.perform_cases rest (action codec now stmt) with ⟨push, emit, said, next⟩ | ⟨-, next⟩ <;>
    rw [next]
  · refine ⟨?_, ?_, ?_⟩
    · intro later member opens
      rcases List.mem_append.mp member with pushed | old
      · obtain ⟨schedules, only⟩ := push_opening codec said later pushed opens
        obtain ⟨opening, answer, query⟩ := schedules.query codec now
        obtain ⟨rfl, same⟩ := alone opening
        rw [query, only]
        exact ⟨rfl, same⟩
      · have only := (shaped.opening later (by simp [waiting, old]) opens).1
        rw [waiting] at only
        rw [(List.cons.inj only).2] at old
        cases old
    · obtain ⟨pushed, nested⟩ := push_before codec said
      have before := shaped.ordered
      rw [waiting] at before
      obtain ⟨head, tail⟩ := List.pairwise_cons.mp before
      refine List.pairwise_append.mpr ⟨pushed, tail, ?_⟩
      intro a member b later
      refine ⟨fun ends => ?_, (head b later).2⟩
      cases opening : stmt.opening with
      | true =>
        rw [(alone opening).1] at later
        cases later
      | false =>
        rw [nested opening a member] at ends
        cases ends
    · intro member
      rcases List.mem_append.mp member with pushed | old
      · obtain ⟨opening, tail, rfl, kept⟩ := push_rollback codec st.committed said pushed
        obtain ⟨rfl, same⟩ := alone opening
        refine ⟨tail, by simp, kept.imp_right fun unchanged => ?_⟩
        have other : action codec now stmt ≠ .commit := by
          intro commits
          obtain rfl := eq_commit_of_action codec commits
          cases opening
        rw [Action.settle_of_ne other, unchanged, same]
      · obtain ⟨tail, only, -⟩ := shaped.undone (by simp [waiting, old])
        have before := shaped.ordered
        rw [only] at before
        rw [waiting] at only
        obtain ⟨rfl, rfl⟩ := List.cons.inj only
        cases ((List.pairwise_cons.mp before).1 _ old).1 rfl
  · exact ⟨by simp, .nil, by simp⟩

/-! Every program ends. A cascade visits each row at most once, since it only
goes on from rows that it has just ended. -/

/-- The tasks that can still be ended. -/
def liveCount (table : List Task) : Nat := table.countP fun t => !t.status.terminal

namespace Stmt

/-- What a statement and those it schedules can cost beside the rows they end,
on at most `rows` rows. -/
def cost (rows : Nat) : Stmt → Nat
  | insertTask _ => 3 * rows + 8
  | markFailedRunning _ _ => rows + 4
  | cascadeFailedQueued _ _ => rows + 1
  | reloadCancelled _ => 2 * rows + 2
  | cascadeCancelDependents _ => 2 * rows + 1
  | selectClaimable _ _ _ | selectForCancel _ | selectQueuedOf _ | selectRunning _ => 4
  | updateClaimed _ _ | updateSucceeded _ _ | cancelQueuedOf _ _ | selectPayload _ _ _ _ => 3
  | markCancelling _ _ | requeueSingleTask _ | persistProviderJobId _ _ _ _ => 2
  | persistExecutionCheckpoint _ _ _ | updatePayload _ _ _ | persistExecutionProviderId _ _ => 2
  | _ => 1

end Stmt

def cost (rows : Nat) (todo : List Stmt) : Nat := (todo.map (Stmt.cost rows)).sum

/-- What is left to do: a row that can still be ended may restart a cascade. -/
def size (rows : Nat) (st : Solo Task Stmt Out) : Nat :=
  if st.todo.isEmpty then 0 else (3 * rows + 5) * liveCount st.working + cost rows st.todo

/-- The statements an operation can execute on a table. -/
def fuel (table : List Task) (op : Op) : Nat :=
  size (table.length + 1) (Solo.start table (program op))

/-- An operation run to its end; `clock i` is read by its `i`-th statement. -/
def runOp (clock : Nat → Nat) (op : Op) (table : List Task) : Solo Task Stmt Out :=
  Solo.run (action codec) ((List.range (fuel table op)).map clock) (Solo.start table (program op))

@[simp] theorem cost_append (rows : Nat) (first second : List Stmt) :
    cost rows (first ++ second) = cost rows first + cost rows second := by
  simp [cost]

@[simp] theorem cost_cons (rows : Nat) (stmt : Stmt) (todo : List Stmt) :
    cost rows (stmt :: todo) = stmt.cost rows + cost rows todo := by
  simp [cost]

@[simp] theorem cost_nil (rows : Nat) : cost rows [] = 0 := rfl

theorem cost_dispatchCancel (rows : Nat) (cancelledBy : CancelledBy) (t : Task) :
    cost rows (dispatchCancel cancelledBy t) ≤ 2 := by
  unfold dispatchCancel
  cases t.status <;> simp [Stmt.cost]

theorem cost_flatMap_le {rows bound : Nat} (table : List Task) {g : Task → List Stmt}
    (each : ∀ t, cost rows (g t) ≤ bound) : cost rows (table.flatMap g) ≤ bound * table.length := by
  induction table with
  | nil => simp
  | cons t table ih =>
    have head := each t
    rw [List.flatMap_cons, cost_append, List.length_cons, Nat.mul_succ]
    omega

theorem length_byQueuedAt (table : List Task) : (byQueuedAt table).length = table.length :=
  (List.perm_insertionSort _ table).length_eq

/-- An update never revives an ended task. -/
theorem update_terminal {now : Nat} {stmt : Stmt} {hits : Task → Bool} {f : Task → Task}
    {answer : Nat → Next Stmt Out} (updates : action codec now stmt = .update hits f answer)
    {t : Task} (hit : hits t = true) (terminal : t.status.terminal = true) :
    (f t).status.terminal = true := by
  cases stmt <;> simp only [action, Action.update.injEq, reduceCtorEq] at updates <;>
    obtain ⟨rfl, rfl, -⟩ := updates <;>
    simp_all [Task.hits, setFailed, setCancelled, TaskStatus.terminal]

theorem liveCount_map_le (table : List Task) {g : Task → Task}
    (keeps : ∀ t ∈ table, t.status.terminal = true → (g t).status.terminal = true) :
    liveCount (table.map g) ≤ liveCount table := by
  unfold liveCount
  rw [List.countP_map]
  refine List.countP_mono_left fun t member live => ?_
  by_contra ended
  have kept := keeps t member (by simpa using ended)
  simp [kept] at live

theorem liveCount_map_lt {table : List Task} {g : Task → Task}
    (keeps : ∀ t ∈ table, t.status.terminal = true → (g t).status.terminal = true)
    {t : Task} (member : t ∈ table) (live : t.status.terminal = false)
    (ended : (g t).status.terminal = true) : liveCount (table.map g) < liveCount table := by
  obtain ⟨front, back, rfl⟩ := List.append_of_mem member
  have left := liveCount_map_le front fun q inFront => keeps q (by simp [inFront])
  have right := liveCount_map_le back fun q inBack => keeps q (by simp [inBack])
  simp only [liveCount, List.map_append, List.map_cons, List.countP_append, List.countP_cons, live,
    ended, Bool.not_true, Bool.not_false, if_true, Bool.false_eq_true, if_false] at left right ⊢
  omega

section Costs

variable {codec} {now rows : Nat} {stmt : Stmt} {working committed : List Task} {push : List Stmt}
  {emit : List Out}

theorem cost_query (few : working.length ≤ rows)
    (query : ∃ answer, action codec now stmt = .query answer)
    (answered : (action codec now stmt).answer working = .go push emit) :
    cost rows push < stmt.cost rows := by
  cases stmt with
  | cascadeFailedQueued taskId errorMessage =>
    obtain ⟨rfl, -⟩ := Next.go.inj answered
    have shorter := List.length_filter_le (fun t : Task =>
      t.dependencyTaskId == some taskId && t.status == .queued) working
    rw [← length_byQueuedAt] at shorter
    simp only [cost, List.map_map, Function.comp_def, Stmt.cost, List.map_const',
      List.sum_replicate, smul_eq_mul, Nat.mul_one]
    omega
  | cascadeCancelDependents taskId =>
    obtain ⟨rfl, -⟩ := Next.go.inj answered
    have each := cost_flatMap_le (byQueuedAt (working.filter fun t =>
      t.dependencyTaskId == some taskId)) (cost_dispatchCancel rows .cascade)
    have shorter := List.length_filter_le (fun t : Task => t.dependencyTaskId == some taskId) working
    rw [length_byQueuedAt] at each
    simp only [Stmt.cost]
    omega
  | selectForCancel taskId =>
    simp only [action, Action.answer] at answered
    split at answered
    next t _ =>
      obtain ⟨rfl, -⟩ := Next.go.inj answered
      have dispatched := cost_dispatchCancel rows .user t
      simp only [cost_append, cost_cons, cost_nil, Stmt.cost]
      omega
    next => cases answered
  | _ =>
    simp only [action, Action.answer, reduceCtorEq, exists_false] at answered query
    repeat' split at answered
    all_goals
      simp only [Next.go.injEq, reduceCtorEq] at answered
      try
        obtain ⟨rfl, -⟩ := answered
        simp [Stmt.cost]

/-- An update schedules cheaper statements, or it has ended a row. -/
theorem cost_update (rows : Nat) {hits : Task → Bool} {f : Task → Task} {answer : Nat → Next Stmt Out}
    (updates : action codec now stmt = .update hits f answer)
    (answered : (action codec now stmt).answer working = .go push emit) :
    cost rows push < stmt.cost rows ∨
      cost rows push ≤ 2 * rows + 2 ∧
        ∃ t ∈ working, hits t = true ∧ t.status.terminal = false ∧ (f t).status.terminal = true := by
  cases stmt with
  | markFailedQueuedDep taskId blockedMessage errorMessage =>
    obtain ⟨rfl, rfl, -⟩ := Action.update.inj updates
    simp only [action, Action.answer] at answered
    split_ifs at answered with missing <;> obtain ⟨rfl, -⟩ := Next.go.inj answered
    · exact .inl (by simp [Stmt.cost])
    · refine .inr ⟨by simp [Stmt.cost]; omega, ?_⟩
      obtain ⟨t, member, hit⟩ := List.countP_pos_iff.mp (Nat.pos_of_ne_zero missing)
      have both : t.taskId = taskId ∧ t.status = .queued := by simpa [Task.hits] using hit
      exact ⟨t, member, hit, by rw [both.2]; rfl, rfl⟩
  | markCancelled taskId cancelledBy =>
    obtain ⟨rfl, rfl, -⟩ := Action.update.inj updates
    simp only [action, Action.answer] at answered
    split_ifs at answered with missing <;> obtain ⟨rfl, -⟩ := Next.go.inj answered
    · exact .inl (by simp [Stmt.cost])
    · refine .inr ⟨by simp [Stmt.cost], ?_⟩
      obtain ⟨t, member, hit⟩ := List.countP_pos_iff.mp (Nat.pos_of_ne_zero missing)
      refine ⟨t, member, hit, ?_, rfl⟩
      cases status : t.status <;> simp_all [Task.hits, TaskStatus.terminal]
  | _ =>
    simp only [action, Action.answer, Action.update.injEq, reduceCtorEq] at answered updates
    all_goals
      left
      repeat' split at answered
    all_goals
      simp only [Next.go.injEq, reduceCtorEq] at answered
    all_goals
      obtain ⟨rfl, -⟩ := answered
      simp only [cost_append, cost_cons, cost_nil, Stmt.cost]
      omega

theorem cost_push (committed : List Task) (few : working.length ≤ rows)
    (answered : (action codec now stmt).answer working = .go push emit) (other : stmt ≠ .rollback) :
    (3 * rows + 5) * liveCount ((action codec now stmt).change committed working) +
      cost rows push < (3 * rows + 5) * liveCount working + stmt.cost rows := by
  cases kind : action codec now stmt with
  | query answer =>
    have cheaper := cost_query few ⟨answer, kind⟩ answered
    simp only [Action.change]
    omega
  | update hits f answer =>
    have keeps : ∀ t ∈ working, t.status.terminal = true →
        (if hits t = true then f t else t).status.terminal = true := by
      intro t _ terminal
      split_ifs with hit
      · exact update_terminal codec kind hit terminal
      · exact terminal
    simp only [Action.change]
    rcases cost_update rows kind answered with cheaper | ⟨small, t, member, hit, live, ended⟩
    · have fewer := Nat.mul_le_mul_left (3 * rows + 5) (liveCount_map_le _ keeps)
      omega
    · have fewer := liveCount_map_lt keeps member live (by simpa [hit] using ended)
      have paid := Nat.mul_le_mul_left (3 * rows + 5) fewer
      rw [Nat.mul_succ] at paid
      omega
  | insert row clashes done dup =>
    cases stmt <;> simp only [action, Action.insert.injEq, reduceCtorEq] at kind
    next request =>
      obtain ⟨rfl, rfl, rfl, rfl⟩ := kind
      simp only [action, Action.answer] at answered
      simp only [Action.change]
      split_ifs at answered with clash <;> obtain ⟨rfl, -⟩ := Next.go.inj answered
      · rw [if_pos clash]
        simp [Stmt.cost]
      · rw [if_neg clash]
        simp only [liveCount, List.countP_append, List.countP_singleton, cost_cons, cost_nil,
          Stmt.cost, EnqueueRequest.row, TaskStatus.terminal, Bool.not_false, if_true,
          Nat.mul_add, Nat.mul_one]
        omega
  | commit =>
    obtain rfl := eq_commit_of_action codec kind
    obtain ⟨rfl, -⟩ := Next.go.inj answered
    simp [Action.change, Stmt.cost]
  | rollback =>
    cases stmt <;> simp only [action, reduceCtorEq] at kind
    exact absurd rfl other

end Costs

/-- The session stays within its bound on rows, with room for the row it inserts. -/
structure Bounded (rows : Nat) (st : Solo Task Stmt Out) : Prop where
  shaped : Shaped st
  working : st.working.length ≤ rows
  committed : st.committed.length ≤ rows
  room : ∀ request, .insertTask request ∈ st.todo → st.working.length < rows

theorem bounded_start (table : List Task) (op : Op) :
    Bounded (table.length + 1) (Solo.start table (program op)) where
  shaped := shaped_start table op
  working := Nat.le_succ _
  committed := Nat.le_succ _
  room _ _ := Nat.lt_succ_self _

theorem length_change_le {a : Action Task Stmt Out} {committed working : List Task} {rows : Nat}
    (base : committed.length ≤ rows) (few : working.length ≤ rows)
    (room : ∀ row clashes done dup, a = .insert row clashes done dup → working.length < rows) :
    (a.change committed working).length ≤ rows := by
  cases a with
  | query answer => exact few
  | update hits f answer => simpa [Action.change] using few
  | insert row clashes done dup =>
    have less := room row clashes done dup rfl
    simp only [Action.change]
    split_ifs
    · exact few
    · simpa using less
  | commit => exact few
  | rollback => exact base

theorem bounded_step {rows : Nat} {st : Solo Task Stmt Out} (bounded : Bounded rows st) {now : Nat}
    {stmt : Stmt} {rest : List Stmt} (waiting : st.todo = stmt :: rest) :
    Bounded rows (st.perform rest (action codec now stmt)) := by
  have shaped := shaped_step codec now bounded.shaped waiting
  have settled : ((action codec now stmt).settle st.committed st.working).length ≤ rows := by
    cases action codec now stmt <;> first | exact bounded.working | exact bounded.committed
  rcases st.perform_cases rest (action codec now stmt) with ⟨push, emit, said, next⟩ | ⟨-, next⟩
  · have room : ∀ request, .insertTask request ∉ push ++ rest := by
      intro request member
      rcases List.mem_append.mp member with pushed | old
      · cases (push_opening codec said _ pushed rfl).1
      · have only := (bounded.shaped.opening _ (by rw [waiting]; exact .tail _ old) rfl).1
        rw [waiting] at only
        rw [(List.cons.inj only).2] at old
        cases old
    rw [next] at shaped ⊢
    refine ⟨shaped, ?_, settled, fun request member => absurd member (room request)⟩
    refine length_change_le bounded.committed bounded.working fun row clashes done dup inserts => ?_
    cases stmt <;> simp only [action, reduceCtorEq] at inserts
    exact bounded.room _ (by rw [waiting]; exact .head _)
  · rw [next] at shaped ⊢
    exact ⟨shaped, settled, settled, by simp⟩

theorem size_step {rows : Nat} {st : Solo Task Stmt Out} (bounded : Bounded rows st) {now : Nat}
    {stmt : Stmt} {rest : List Stmt} (waiting : st.todo = stmt :: rest) :
    size rows (st.perform rest (action codec now stmt)) < size rows st := by
  have positive : 0 < stmt.cost rows := by cases stmt <;> simp [Stmt.cost]
  have before : size rows st =
      (3 * rows + 5) * liveCount st.working + (stmt.cost rows + cost rows rest) := by
    simp [size, waiting]
  rw [before]
  rcases st.perform_cases rest (action codec now stmt) with ⟨push, emit, said, next⟩ | ⟨-, next⟩ <;>
    rw [next]
  · simp only [size]
    split_ifs with done
    · omega
    by_cases undoes : stmt = .rollback
    · subst undoes
      obtain ⟨tail, only, finished | same⟩ := bounded.shaped.undone (by simp [waiting])
      · rw [waiting] at only
        obtain ⟨rfl, -⟩ := Next.go.inj said
        rw [(List.cons.inj only).2, finished] at done
        exact absurd rfl done
      · obtain ⟨rfl, -⟩ := Next.go.inj said
        simp only [action, Action.change, same, List.nil_append]
        omega
    · have paid := cost_push st.committed bounded.working said undoes
      rw [cost_append]
      omega
  · simp only [size, List.isEmpty_nil, if_true]
    omega

/-- Every operation of the repository runs to its end. -/
theorem runOp_done (clock : Nat → Nat) (op : Op) (table : List Task) :
    (runOp codec clock op table).todo = [] := by
  refine Solo.run_done (Bounded (table.length + 1)) (size (table.length + 1)) ?_ _ _
    (bounded_start table op) ?_
  · intro st now stmt rest waiting bounded
    exact ⟨bounded_step codec bounded waiting, size_step codec bounded waiting⟩
  · simp [fuel]

/-- What each statement keeps holds at the end of an operation. -/
theorem runOp_induct {codec : TextCodec} (Inv : Solo Task Stmt Out → Prop)
    (step : ∀ st now stmt rest, st.todo = stmt :: rest → Shaped st → Inv st →
      Inv (st.perform rest (action codec now stmt)))
    (clock : Nat → Nat) (op : Op) (table : List Task) (start : Inv (Solo.start table (program op))) :
    Inv (runOp codec clock op table) := by
  refine (Solo.run_induct (fun st => Shaped st ∧ Inv st) ?_ _ _
    ⟨shaped_start table op, start⟩).2
  intro st now stmt rest waiting ⟨shaped, inv⟩
  exact ⟨shaped_step codec now shaped waiting, step st now stmt rest waiting shaped inv⟩

end ArcReel.Queue
