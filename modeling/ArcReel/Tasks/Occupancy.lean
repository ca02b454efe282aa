import ArcReel.Tasks.Store

/-! A mark occupies its resource until its request has failed or its tasks have been seen. -/

namespace ArcReel.Tasks
open Lib

section Sets

theorem mem_setAdd {marks : List Text} {key other : Text} :
    other ∈ setAdd marks key ↔ other ∈ marks ∨ other = key := by
  unfold setAdd
  split
  next present =>
    constructor
    · exact .inl
    · intro either
      cases either with
      | inl member => exact member
      | inr same => rwa [same]
  next => rw [List.mem_append, List.mem_singleton]

theorem mem_setDelete {marks : List Text} {key other : Text} :
    other ∈ setDelete marks key ↔ other ∈ marks ∧ other ≠ key := by
  rw [setDelete, List.mem_filter, decide_eq_true_iff]

theorem mem_foldl_keep {landed : List Text} {marks next : List Text} {other : Text} :
    other ∈ marks.foldl (fun next key =>
        match keepMark key landed with
        | none => next
        | some kept => setAdd next kept) next ↔
      other ∈ next ∨ ∃ key ∈ marks, keepMark key landed = some other := by
  induction marks generalizing next with
  | nil => simp
  | cons key marks ih =>
    rw [List.foldl_cons, ih, List.exists_mem_cons_iff]
    cases keepMark key landed with
    | none => simp
    | some kept => simp only [mem_setAdd, Option.some.injEq, or_assoc, eq_comm]

theorem mem_prune {tasks : List TaskItem} {marks : List Text} {other : Text} :
    other ∈ pruneSupersededOptimistic tasks marks ↔
      ∃ key ∈ marks, keepMark key (landedTaskIds tasks) = some other := by
  have either : other ∈ pruneSupersededOptimistic tasks marks ↔
      other ∈ ([] : List Text) ∨ ∃ key ∈ marks, keepMark key (landedTaskIds tasks) = some other :=
    mem_foldl_keep
  rw [either]
  exact or_iff_right List.not_mem_nil

end Sets

section Keys

/-- Ids as they can be told apart in a key. -/
def CleanIds (taskIds : List Text) : Prop := ∀ id ∈ taskIds, id ≠ [] ∧ nul ∉ id ∧ taskIdSep ∉ id

theorem encodeTaskIds_nil_iff {taskIds : List Text} (clean : CleanIds taskIds) :
    encodeTaskIds taskIds = [] ↔ taskIds = [] := by
  cases taskIds with
  | nil => exact ⟨fun _ => rfl, fun _ => rfl⟩
  | cons id taskIds =>
    have nonempty := (clean id List.mem_cons_self).1
    constructor
    · intro none
      cases taskIds with
      | nil =>
        rw [encodeTaskIds, List.intercalate_singleton] at none
        exact absurd none nonempty
      | cons next taskIds =>
        rw [encodeTaskIds, List.intercalate_cons_cons] at none
        exact absurd (List.append_eq_nil_iff.mp (List.append_eq_nil_iff.mp none).1).1 nonempty
    · intro none
      cases none

theorem mem_intercalate {sep : Text} {parts : List Text} {c : Char} (member : c ∈ sep.intercalate parts) :
    c ∈ sep ∨ ∃ part ∈ parts, c ∈ part := by
  induction parts with
  | nil => cases member
  | cons part parts ih =>
    cases parts with
    | nil =>
      rw [List.intercalate_singleton] at member
      exact .inr ⟨part, List.mem_cons_self, member⟩
    | cons next parts =>
      rw [List.intercalate_cons_cons, List.mem_append, List.mem_append] at member
      cases member with
      | inl front =>
        cases front with
        | inl own => exact .inr ⟨part, List.mem_cons_self, own⟩
        | inr isSep => exact .inl isSep
      | inr later =>
        cases ih later with
        | inl isSep => exact .inl isSep
        | inr found =>
          obtain ⟨other, inside, here⟩ := found
          exact .inr ⟨other, List.mem_cons_of_mem _ inside, here⟩

theorem nul_encodeTaskIds {taskIds : List Text} (clean : CleanIds taskIds) :
    nul ∉ encodeTaskIds taskIds := by
  intro member
  cases mem_intercalate member with
  | inl isSep => exact absurd (List.mem_singleton.mp isSep) (by decide)
  | inr found =>
    obtain ⟨id, inside, here⟩ := found
    exact (clean id inside).2.1 here

/-- The ids are read back. -/
theorem splitOn_encodeTaskIds {taskIds : List Text} (clean : CleanIds taskIds) (some_ : taskIds ≠ []) :
    (encodeTaskIds taskIds).splitOn taskIdSep = taskIds :=
  List.splitOn_intercalate taskIdSep (fun id member => (clean id member).2.2) some_

theorem nul_digits (seq : Nat) : nul ∉ Nat.toDigits 10 seq := by
  intro member
  have digit := Nat.isDigit_of_mem_toDigits (by decide) (Nat.le_refl 10) member
  exact absurd digit (by decide)

/-- The part of a key in front of its ids. -/
def Marking.body (seq : Nat) : Marking → Text
  | resource projectName resourceKind resourceId pendingTaskType =>
      projectName ++ nul :: (resourceKind.text ++ nul :: (resourceId ++ nul :: (pendingTaskType ++
        nul :: Nat.toDigits 10 seq)))
  | scriptFile projectName taskType file =>
      projectName ++ nul :: (taskType ++ nul :: (stripScriptsPrefix file ++ nul :: Nat.toDigits 10 seq))

theorem keyOf_eq (marking : Marking) (seq : Nat) (taskIds : List Text) :
    marking.keyOf seq taskIds = marking.body seq ++ nul :: encodeTaskIds taskIds := by
  cases marking <;>
    simp only [Marking.keyOf, Marking.body, optimisticKey, optimisticScriptFileKey, List.append_assoc,
      List.cons_append]

theorem body_ends (marking : Marking) (seq : Nat) :
    ∃ front, marking.body seq = front ++ nul :: Nat.toDigits 10 seq := by
  cases marking with
  | resource projectName resourceKind resourceId pendingTaskType =>
    refine ⟨projectName ++ nul :: (resourceKind.text ++ nul :: (resourceId ++ nul :: pendingTaskType)), ?_⟩
    simp only [Marking.body, List.append_assoc, List.cons_append]
  | scriptFile projectName taskType file =>
    refine ⟨projectName ++ nul :: (taskType ++ nul :: stripScriptsPrefix file), ?_⟩
    simp only [Marking.body, List.append_assoc, List.cons_append]

theorem markTaskIds_keyOf {taskIds : List Text} (clean : CleanIds taskIds) (marking : Marking) (seq : Nat) :
    markTaskIds (marking.keyOf seq taskIds) = taskIds := by
  have last : ((marking.keyOf seq taskIds).splitOn nul).getLastD [] = encodeTaskIds taskIds := by
    rw [keyOf_eq, List.splitOn_append_cons_self, List.splitOn_eq_singleton (nul_encodeTaskIds clean)]
    simp
  unfold markTaskIds
  simp only [last, encodeTaskIds_nil_iff clean]
  split
  next none => rw [none]
  next some_ => exact splitOn_encodeTaskIds clean some_

theorem withTaskIds_keyOf {taskIds : List Text} (clean : CleanIds taskIds) (marking : Marking) (seq : Nat)
    (remaining : List Text) :
    withTaskIds (marking.keyOf seq taskIds) remaining = marking.keyOf seq remaining := by
  have plain : ∀ c ∈ (encodeTaskIds taskIds).reverse, decide (c ≠ nul) = true := by
    intro c member
    apply decide_eq_true
    intro same
    rw [same, List.mem_reverse] at member
    exact nul_encodeTaskIds clean member
  have front : (marking.keyOf seq taskIds).rdropWhile (· ≠ nul) = marking.body seq ++ [nul] := by
    rw [keyOf_eq, List.rdropWhile, List.reverse_append, List.reverse_cons, List.append_assoc,
      List.dropWhile_append_of_pos plain, List.singleton_append, List.dropWhile_cons_of_neg (by decide),
      ← List.reverse_concat, List.reverse_reverse]
  rw [withTaskIds, front, keyOf_eq, List.append_assoc]
  rfl

/-- A key tells the number of its handle and the ids. -/
theorem keyOf_injective {marking marking' : Marking} {seq seq' : Nat} {taskIds taskIds' : List Text}
    (clean : CleanIds taskIds) (clean' : CleanIds taskIds')
    (same : marking.keyOf seq taskIds = marking'.keyOf seq' taskIds') : seq = seq' ∧ taskIds = taskIds' := by
  have ids : taskIds = taskIds' := by
    rw [← markTaskIds_keyOf clean marking seq, same, markTaskIds_keyOf clean']
  refine ⟨?_, ids⟩
  obtain ⟨front, ends⟩ := body_ends marking seq
  obtain ⟨front', ends'⟩ := body_ends marking' seq'
  rw [keyOf_eq, keyOf_eq, ids] at same
  have bodies := List.append_cancel_right same
  rw [ends, ends'] at bodies
  have digits := congrArg (fun body => (List.splitOn nul body).getLastD []) bodies
  simp only [List.splitOn_append_cons_self, List.splitOn_eq_singleton (nul_digits _),
    List.getLastD_concat] at digits
  have read := congrArg (fun digits => Nat.ofDigitChars 10 digits 0) digits
  simp only [Nat.ofDigitChars_toDigits (show 1 < 10 by decide) (Nat.le_refl 10)] at read
  exact read

end Keys

section Pruning

/-- The ids that are waited for, if any are left. -/
def waiting (taskIds : List Text) : Option (List Text) := if taskIds = [] then none else some taskIds

/-- What a snapshot leaves of a mark: a mark without ids stays. -/
def prune (landed taskIds : List Text) : Option (List Text) :=
  if taskIds = [] then some [] else waiting (taskIds.filter fun id => !landed.contains id)

theorem waiting_eq_some {taskIds ids : List Text} : waiting taskIds = some ids ↔ ids = taskIds ∧ ids ≠ [] := by
  unfold waiting
  split
  next none =>
    constructor
    · intro absent
      cases absent
    · intro both
      exact absurd (both.1.trans none) both.2
  next some_ =>
    rw [Option.some.injEq]
    constructor
    · intro same
      exact ⟨same.symm, by rwa [← same]⟩
    · intro both
      exact both.1.symm

theorem keepMark_keyOf {taskIds : List Text} (clean : CleanIds taskIds) (marking : Marking) (seq : Nat)
    (landed : List Text) :
    keepMark (marking.keyOf seq taskIds) landed =
      (prune landed taskIds).map fun ids => marking.keyOf seq ids := by
  unfold keepMark prune waiting
  simp only [markTaskIds_keyOf clean, List.length_eq_zero_iff, withTaskIds_keyOf clean]
  split
  next none => rw [none]; rfl
  next =>
    split
    next => rfl
    next =>
      split
      next same => rw [List.length_filter_eq_length_iff.mp same |> List.filter_eq_self.mpr]; rfl
      next => rfl

end Pruning

section History

def Op.calls (handle : Nat) : Op → Bool
  | .settle other _ | .rollback other => other == handle
  | .begin _ | .setTasks _ => false

def Op.snapshot : Op → Option (List TaskItem)
  | .setTasks tasks => some tasks
  | _ => none

def snapshotsOf (ops : List Op) : List (List TaskItem) := ops.filterMap Op.snapshot

/-- The tasks of the store after some operations. -/
def current (ops : List Op) : List TaskItem := (snapshotsOf ops).getLastD []

def unseen (snapshots : List (List TaskItem)) (taskIds : List Text) : List Text :=
  taskIds.filter fun id => snapshots.all fun tasks => !(landedTaskIds tasks).contains id

/-- What the first call of a handle leaves of its mark, with the snapshots since then. -/
def afterCall (snapshots : List (List TaskItem)) : Op → Option (List Text)
  | .settle _ taskIds => waiting (unseen snapshots taskIds)
  | _ => none

/-- What the mark of a handle waits for: nothing yet before the first call of the handle, and after a
settlement the ids that no snapshot from then on has had. -/
def expected (ops : List Op) (handle : Nat) : Option (List Text) :=
  match ops.dropWhile fun op => !op.calls handle with
  | [] => some []
  | call :: after =>
      afterCall (current (ops.takeWhile fun op => !op.calls handle) :: snapshotsOf after) call

variable {ops before after : List Op} {handle : Nat} {call : Op}

theorem expected_quiet (quiet : ∀ op ∈ ops, op.calls handle = false) : expected ops handle = some [] := by
  have none : (ops.dropWhile fun op => !op.calls handle) = [] :=
    List.dropWhile_eq_nil_iff.mpr fun op member => by rw [quiet op member]; rfl
  rw [expected, none]

theorem expected_split (quiet : ∀ op ∈ before, op.calls handle = false) (calls : call.calls handle = true) :
    expected (before ++ call :: after) handle = afterCall (current before :: snapshotsOf after) call := by
  have skips : ∀ op ∈ before, (!op.calls handle) = true := fun op member => by rw [quiet op member]; rfl
  have drops : ((before ++ call :: after).dropWhile fun op => !op.calls handle) = call :: after := by
    rw [List.dropWhile_append_of_pos skips, List.dropWhile_cons, calls]
    rfl
  have takes : ((before ++ call :: after).takeWhile fun op => !op.calls handle) = before := by
    rw [List.takeWhile_append_of_pos skips, List.takeWhile_cons, calls]
    exact List.append_nil before
  rw [expected, drops, takes]

/-- Either no call has been made on a handle, or there is a first one. -/
theorem first_call (ops : List Op) (handle : Nat) :
    (∀ op ∈ ops, op.calls handle = false) ∨
      ∃ before call after, ops = before ++ call :: after ∧ (∀ op ∈ before, op.calls handle = false) ∧
        call.calls handle = true := by
  induction ops with
  | nil => exact .inl fun op member => nomatch member
  | cons op ops ih =>
    cases calls : op.calls handle with
    | true => exact .inr ⟨[], op, ops, rfl, fun other member => absurd member List.not_mem_nil, calls⟩
    | false =>
      cases ih with
      | inl quiet => exact .inl (List.forall_mem_cons.mpr ⟨calls, quiet⟩)
      | inr found =>
        obtain ⟨before, call, after, split, quiet, isCall⟩ := found
        exact .inr ⟨op :: before, call, after, by rw [split]; rfl,
          List.forall_mem_cons.mpr ⟨calls, quiet⟩, isCall⟩

/-- Only a handle that has not been called is waiting for nothing yet. -/
theorem quiet_of_expected (pending : expected ops handle = some []) :
    ∀ op ∈ ops, op.calls handle = false := by
  cases first_call ops handle with
  | inl quiet => exact quiet
  | inr found =>
    obtain ⟨before, call, after, split, quiet, isCall⟩ := found
    rw [split, expected_split quiet isCall] at pending
    cases call with
    | settle other taskIds => exact absurd rfl (waiting_eq_some.mp pending).2
    | rollback other => cases pending
    | begin marking => cases pending
    | setTasks tasks => cases pending

theorem snapshotsOf_append (ops later : List Op) :
    snapshotsOf (ops ++ later) = snapshotsOf ops ++ snapshotsOf later := List.filterMap_append

theorem unseen_append (snapshots later : List (List TaskItem)) (taskIds : List Text) :
    unseen (snapshots ++ later) taskIds = unseen later (unseen snapshots taskIds) := by
  unfold unseen
  rw [List.filter_filter]
  apply List.filter_congr
  intro id _
  rw [List.all_append, Bool.and_comm]

theorem unseen_singleton (tasks : List TaskItem) (taskIds : List Text) :
    unseen [tasks] taskIds = taskIds.filter fun id => !(landedTaskIds tasks).contains id := by
  unfold unseen
  apply List.filter_congr
  intro id _
  rw [List.all_cons, List.all_nil, Bool.and_true]

theorem prune_waiting (landed taskIds : List Text) :
    (waiting taskIds).bind (prune landed) = waiting (taskIds.filter fun id => !landed.contains id) := by
  unfold waiting prune
  split
  next none =>
    rw [none]
    rfl
  next some_ =>
    rw [Option.bind_some, if_neg some_]
    rfl

/-- An operation that is no call of the handle changes its mark by its snapshot only. -/
theorem expected_snoc {op : Op} (other : op.calls handle = false) :
    expected (ops ++ [op]) handle =
      match op.snapshot with
      | none => expected ops handle
      | some tasks => (expected ops handle).bind (prune (landedTaskIds tasks)) := by
  cases first_call ops handle with
  | inl quiet =>
    have still : ∀ op' ∈ ops ++ [op], op'.calls handle = false := by
      intro op' member
      cases List.mem_append.mp member with
      | inl old => exact quiet op' old
      | inr new => rw [List.mem_singleton.mp new, other]
    rw [expected_quiet still, expected_quiet quiet]
    cases op.snapshot <;> rfl
  | inr found =>
    obtain ⟨before, call, after, split, quiet, isCall⟩ := found
    rw [split, List.append_assoc, List.cons_append, expected_split quiet isCall,
      expected_split quiet isCall, snapshotsOf_append]
    cases shot : op.snapshot with
    | none =>
      have none : snapshotsOf [op] = [] := by rw [snapshotsOf, List.filterMap_cons_none shot]; rfl
      rw [none, List.append_nil]
    | some tasks =>
      have one : snapshotsOf [op] = [tasks] := by rw [snapshotsOf, List.filterMap_cons_some shot]; rfl
      rw [one, ← List.cons_append]
      cases call with
      | settle other' taskIds =>
        simp only [afterCall]
        rw [unseen_append, unseen_singleton, prune_waiting]
      | rollback other' => rfl
      | begin marking => rfl
      | setTasks tasks' => rfl

/-- The first call of a handle settles it, and later ones change nothing. -/
theorem expected_snoc_call {call : Op} (calls : call.calls handle = true) :
    expected (ops ++ [call]) handle =
      if expected ops handle = some [] then afterCall [current ops] call else expected ops handle := by
  cases first_call ops handle with
  | inl quiet => rw [expected_quiet quiet, if_pos rfl, expected_split quiet calls]; rfl
  | inr found =>
    obtain ⟨before, first, after, split, quiet, isCall⟩ := found
    have same : expected (ops ++ [call]) handle = expected ops handle := by
      rw [split, List.append_assoc, List.cons_append, expected_split quiet isCall,
        expected_split quiet isCall, snapshotsOf_append]
      have none : snapshotsOf [call] = [] := by cases call <;> first | rfl | cases calls
      rw [none, List.append_nil]
    rw [same]
    split
    next pending =>
      have quiet' := quiet_of_expected pending first (by rw [split]; simp)
      rw [isCall] at quiet'
      cases quiet'
    next => rfl

theorem snapshot_of_calls (calls : call.calls handle = true) : call.snapshot = none := by
  cases call <;> first | rfl | cases calls

/-- The current tasks are those of the call, or a later snapshot. -/
theorem current_mem (noSnapshot : call.snapshot = none) :
    current (before ++ call :: after) ∈ current before :: snapshotsOf after := by
  have shots : snapshotsOf (before ++ call :: after) = snapshotsOf before ++ snapshotsOf after := by
    rw [snapshotsOf_append, snapshotsOf, snapshotsOf, List.filterMap_cons_none noSnapshot]
    rfl
  have now : current (before ++ call :: after) = (snapshotsOf before ++ snapshotsOf after).getLastD [] := by
    rw [current, shots]
  rw [now]
  cases last : (snapshotsOf after).getLast? with
  | none =>
    rw [List.getLast?_eq_none_iff.mp last, List.append_nil]
    exact List.mem_cons_self
  | some tasks =>
    apply List.mem_cons_of_mem
    rw [List.getLastD_eq_getLast?, List.getLast?_append, last]
    exact List.mem_of_getLast? last

theorem mem_unseen {snapshots : List (List TaskItem)} {taskIds : List Text} {id : Text} :
    id ∈ unseen snapshots taskIds ↔ id ∈ taskIds ∧ ∀ tasks ∈ snapshots, id ∉ landedTaskIds tasks := by
  simp only [unseen, List.mem_filter, List.all_eq_true, Bool.not_eq_true', List.contains_eq_mem,
    decide_eq_false_iff_not]

/-- What a mark waits for has not been in the current tasks. -/
theorem prune_expected {taskIds : List Text} (waits : expected ops handle = some taskIds) :
    prune (landedTaskIds (current ops)) taskIds = some taskIds := by
  by_cases none : taskIds = []
  · rw [prune, if_pos none, none]
  · have kept : (taskIds.filter fun id => !(landedTaskIds (current ops)).contains id) = taskIds := by
      apply List.filter_eq_self.mpr
      intro id member
      cases first_call ops handle with
      | inl quiet =>
        rw [expected_quiet quiet, Option.some.injEq] at waits
        exact absurd waits.symm none
      | inr found =>
        obtain ⟨before, call, after, split, quiet, isCall⟩ := found
        rw [split, expected_split quiet isCall] at waits
        cases call with
        | settle other ids =>
          rw [(waiting_eq_some.mp waits).1] at member
          have apart := (mem_unseen.mp member).2 _ (current_mem (snapshot_of_calls isCall))
          rw [← split] at apart
          simpa using apart
        | rollback other => cases waits
        | begin marking => cases waits
        | setTasks tasks => cases waits
    rw [prune, if_neg none, kept, waiting, if_neg none]

/-- The ids of settlements can be told apart in a key. -/
def Op.CleanIds : Op → Prop
  | .settle _ taskIds => ArcReel.Tasks.CleanIds taskIds
  | _ => True

theorem clean_expected {taskIds : List Text} (clean : ∀ op ∈ ops, op.CleanIds)
    (waits : expected ops handle = some taskIds) : CleanIds taskIds := by
  cases first_call ops handle with
  | inl quiet =>
    rw [expected_quiet quiet, Option.some.injEq] at waits
    rw [← waits]
    exact fun id member => absurd member List.not_mem_nil
  | inr found =>
    obtain ⟨before, call, after, split, quiet, isCall⟩ := found
    have here : call.CleanIds := clean call (by rw [split]; simp)
    rw [split, expected_split quiet isCall] at waits
    cases call with
    | settle other ids =>
      rw [(waiting_eq_some.mp waits).1]
      exact fun id member => here id (mem_unseen.mp member).1
    | rollback other => cases waits
    | begin marking => cases waits
    | setTasks tasks => cases waits

end History

section Runs

/-- The store after some operations: its marks are those of the handles that still wait. -/
structure Tracks (ops : List Op) (s : Store) : Prop where
  tasks : s.tasks = current ops
  begun : ∀ op ∈ ops, ∀ handle, op.calls handle = true → handle < s.handles.length
  marks : ∀ field key, key ∈ s.marks field ↔ ∃ handle marking taskIds, s.handles[handle]? = some marking ∧
    marking.field = field ∧ expected ops handle = some taskIds ∧ key = marking.keyOf (handle + 1) taskIds

variable {ops : List Op} {s : Store}

theorem tracks_start : Tracks [] .start where
  tasks := rfl
  begun op member := absurd member List.not_mem_nil
  marks field key := by
    constructor
    · intro member
      cases member
    · intro found
      obtain ⟨handle, marking, taskIds, there, -⟩ := found
      cases there

/-- Pruning marks by a snapshot is pruning what they wait for. -/
theorem mem_prune_marks (clean : ∀ op ∈ ops, op.CleanIds) (tracks : Tracks ops s) (tasks : List TaskItem)
    (field : Field) (key : Text) :
    key ∈ pruneSupersededOptimistic tasks (s.marks field) ↔ ∃ handle marking taskIds,
      s.handles[handle]? = some marking ∧ marking.field = field ∧
        (expected ops handle).bind (prune (landedTaskIds tasks)) = some taskIds ∧
        key = marking.keyOf (handle + 1) taskIds := by
  rw [mem_prune]
  constructor
  · intro found
    obtain ⟨old, member, kept⟩ := found
    obtain ⟨handle, marking, taskIds, there, isField, waits, same⟩ := (tracks.marks field old).mp member
    rw [same, keepMark_keyOf (clean_expected clean waits)] at kept
    obtain ⟨left, pruned, new⟩ := Option.map_eq_some_iff.mp kept
    exact ⟨handle, marking, left, there, isField, by rw [waits]; exact pruned, new.symm⟩
  · intro found
    obtain ⟨handle, marking, left, there, isField, pruned, new⟩ := found
    obtain ⟨taskIds, waits, pruned⟩ := Option.bind_eq_some_iff.mp pruned
    refine ⟨marking.keyOf (handle + 1) taskIds,
      (tracks.marks field _).mpr ⟨handle, marking, taskIds, there, isField, waits, rfl⟩, ?_⟩
    rw [keepMark_keyOf (clean_expected clean waits), pruned, new]
    rfl

/-- Pruning by the current tasks changes nothing. -/
theorem mem_prune_current (clean : ∀ op ∈ ops, op.CleanIds) (tracks : Tracks ops s) (field : Field)
    (key : Text) : key ∈ pruneSupersededOptimistic s.tasks (s.marks field) ↔ key ∈ s.marks field := by
  have idle : ∀ handle, (expected ops handle).bind (prune (landedTaskIds s.tasks)) = expected ops handle := by
    intro handle
    cases waits : expected ops handle with
    | none => rfl
    | some taskIds => rw [tracks.tasks, Option.bind_some, prune_expected waits]
  rw [mem_prune_marks clean tracks, tracks.marks]
  simp only [idle]

theorem current_snoc {op : Op} (noSnapshot : op.snapshot = none) : current (ops ++ [op]) = current ops := by
  rw [current, snapshotsOf_append, snapshotsOf, snapshotsOf, List.filterMap_cons_none noSnapshot,
    List.filterMap_nil, List.append_nil]
  rfl

theorem tracks_begin (clean : ∀ op ∈ ops, op.CleanIds) (tracks : Tracks ops s) (marking : Marking) :
    Tracks (ops ++ [.begin marking]) (s.begin marking) := by
  have still : ∀ handle, expected (ops ++ [.begin marking]) handle = expected ops handle :=
    fun handle => expected_snoc rfl
  have fresh : expected ops s.handles.length = some [] := by
    apply expected_quiet
    intro op member
    by_contra calls
    exact absurd (tracks.begun op member _ (Bool.not_eq_false _ ▸ calls)) (Nat.lt_irrefl _)
  have added : ∀ field key, key ∈ (s.begin marking).marks field ↔
      key ∈ s.marks field ∨ field = marking.field ∧ key = marking.keyOf (s.handles.length + 1) [] := by
    intro field key
    by_cases own : field = marking.field
    · rw [own]
      have set : (s.begin marking).marks marking.field = setAdd (pruneSupersededOptimistic s.tasks
          (s.marks marking.field)) (marking.keyOf (s.handles.length + 1) []) := Function.update_self _ _ _
      rw [set, mem_setAdd, mem_prune_current clean tracks]
      simp
    · have set : (s.begin marking).marks field = s.marks field := Function.update_of_ne own _ _
      rw [set]
      simp [own]
  refine ⟨tracks.tasks.trans (current_snoc rfl).symm, ?_, ?_⟩
  · intro op member handle calls
    have length : (s.begin marking).handles.length = s.handles.length + 1 := List.length_append
    rw [length]
    cases List.mem_append.mp member with
    | inl old => exact Nat.lt_succ_of_lt (tracks.begun op old handle calls)
    | inr new =>
      rw [List.mem_singleton.mp new] at calls
      cases calls
  · intro field key
    rw [added, tracks.marks]
    simp only [still]
    have handles : (s.begin marking).handles = s.handles ++ [marking] := rfl
    constructor
    · intro either
      cases either with
      | inl old =>
        obtain ⟨handle, marking', taskIds, there, isField, waits, same⟩ := old
        have before := (List.getElem?_eq_some_iff.mp there).1
        exact ⟨handle, marking', taskIds, by rw [handles, List.getElem?_append_left before]; exact there,
          isField, waits, same⟩
      | inr new =>
        exact ⟨s.handles.length, marking, [], by rw [handles]; exact List.getElem?_concat_length, new.1.symm,
          fresh, new.2⟩
    · intro found
      obtain ⟨handle, marking', taskIds, there, isField, waits, same⟩ := found
      rw [handles] at there
      by_cases old : handle < s.handles.length
      · rw [List.getElem?_append_left old] at there
        exact .inl ⟨handle, marking', taskIds, there, isField, waits, same⟩
      · have last : handle = s.handles.length := by
          have bound := (List.getElem?_eq_some_iff.mp there).1
          rw [List.length_append, List.length_singleton] at bound
          omega
        rw [last, List.getElem?_concat_length, Option.some.injEq] at there
        rw [last, fresh, Option.some.injEq] at waits
        rw [last, ← there, ← waits] at same
        exact .inr ⟨by rw [there, isField], same⟩

theorem tracks_setTasks (clean : ∀ op ∈ ops, op.CleanIds) (tracks : Tracks ops s) (tasks : List TaskItem) :
    Tracks (ops ++ [.setTasks tasks]) (s.setTasks tasks) where
  tasks := by
    have last : snapshotsOf (ops ++ [.setTasks tasks]) = snapshotsOf ops ++ [tasks] :=
      snapshotsOf_append ops _
    rw [current, last, List.getLastD_concat]
    rfl
  begun op member handle calls := by
    cases List.mem_append.mp member with
    | inl old => exact tracks.begun op old handle calls
    | inr new =>
      rw [List.mem_singleton.mp new] at calls
      cases calls
  marks field key := by
    have pruned : ∀ handle, expected (ops ++ [.setTasks tasks]) handle =
        (expected ops handle).bind (prune (landedTaskIds tasks)) := fun handle => expected_snoc rfl
    simp only [pruned]
    exact mem_prune_marks clean tracks tasks field key

theorem mem_drop {field field' : Field} {pendingKey key : Text} {replacement : Option Text}
    (present : pendingKey ∈ s.marks field) :
    key ∈ (s.drop field pendingKey replacement).marks field' ↔
      if field' = field then key ∈ s.marks field ∧ key ≠ pendingKey ∨
        (replacement.bind fun key => keepMark key (landedTaskIds s.tasks)) = some key
      else key ∈ s.marks field' := by
  rw [Store.drop, if_pos present, Store.setMarks]
  dsimp only
  by_cases own : field' = field
  · rw [own, Function.update_self, if_pos rfl]
    cases replacement.bind fun key => keepMark key (landedTaskIds s.tasks) with
    | none => simp [mem_setDelete]
    | some kept => simp [mem_setAdd, mem_setDelete, eq_comm]
  · rw [Function.update_of_ne own, if_neg own]

theorem drop_tasks (field : Field) (pendingKey : Text) (replacement : Option Text) :
    (s.drop field pendingKey replacement).tasks = s.tasks ∧
      (s.drop field pendingKey replacement).handles = s.handles := by
  unfold Store.drop
  split
  next => exact ⟨rfl, rfl⟩
  next => exact ⟨rfl, rfl⟩

/-- The pending key of a handle is there as long as the handle has not been called. -/
theorem pending_iff (clean : ∀ op ∈ ops, op.CleanIds) (tracks : Tracks ops s) {handle : Nat}
    {marking : Marking} (there : s.handles[handle]? = some marking) :
    marking.keyOf (handle + 1) [] ∈ s.marks marking.field ↔ expected ops handle = some [] := by
  rw [tracks.marks]
  constructor
  · intro found
    obtain ⟨other, marking', taskIds, there', isField, waits, same⟩ := found
    have none : CleanIds [] := fun id member => absurd member List.not_mem_nil
    have equal := keyOf_injective none (clean_expected clean waits) same
    have index : handle = other := by omega
    rw [index, waits, ← equal.2]
  · intro waits
    exact ⟨handle, marking, [], there, rfl, waits, rfl⟩

/-- A call changes the mark of its own handle, if it is the first one. -/
theorem tracks_call (clean : ∀ op ∈ ops, op.CleanIds) (tracks : Tracks ops s) {call : Op} {handle : Nat}
    (calls : ∀ other, call.calls other = true ↔ other = handle) {marking : Marking}
    (there : s.handles[handle]? = some marking) {replacement : Option Text}
    (kept : (replacement.bind fun key => keepMark key (landedTaskIds s.tasks)) =
      (afterCall [current ops] call).map fun ids => marking.keyOf (handle + 1) ids) :
    Tracks (ops ++ [call]) (s.drop marking.field (marking.keyOf (handle + 1) []) replacement) := by
  have own : call.calls handle = true := (calls handle).mpr rfl
  have noSnapshot := snapshot_of_calls own
  have still : ∀ other, other ≠ handle → expected (ops ++ [call]) other = expected ops other := by
    intro other apart
    have silent : call.calls other = false :=
      Bool.eq_false_iff.mpr fun isCall => apart ((calls other).mp isCall)
    rw [expected_snoc silent, noSnapshot]
  refine ⟨?_, ?_, ?_⟩
  · rw [(drop_tasks _ _ _).1, tracks.tasks, current_snoc noSnapshot]
  · intro op member other isCall
    rw [(drop_tasks _ _ _).2]
    cases List.mem_append.mp member with
    | inl old => exact tracks.begun op old other isCall
    | inr new =>
      rw [List.mem_singleton.mp new] at isCall
      rw [(calls other).mp isCall]
      exact (List.getElem?_eq_some_iff.mp there).1
  · intro field key
    rw [(drop_tasks _ _ _).2]
    by_cases pending : expected ops handle = some []
    · have now : expected (ops ++ [call]) handle = afterCall [current ops] call := by
        rw [expected_snoc_call own, if_pos pending]
      have none : CleanIds [] := fun id member => absurd member List.not_mem_nil
      rw [mem_drop ((pending_iff clean tracks there).mpr pending), kept]
      constructor
      · intro either
        by_cases inField : field = marking.field
        · rw [if_pos inField] at either
          cases either with
          | inl old =>
            obtain ⟨other, marking', taskIds, there', isField, waits, same⟩ := (tracks.marks _ _).mp old.1
            have apart : other ≠ handle := by
              intro equal
              rw [equal, there, Option.some.injEq] at there'
              rw [equal, pending, Option.some.injEq] at waits
              exact old.2 (by rw [same, equal, ← there', ← waits])
            exact ⟨other, marking', taskIds, there', isField.trans inField.symm,
              by rw [still other apart]; exact waits, same⟩
          | inr new =>
            obtain ⟨taskIds, waits, same⟩ := Option.map_eq_some_iff.mp new
            exact ⟨handle, marking, taskIds, there, inField.symm, now.trans waits, same.symm⟩
        · rw [if_neg inField] at either
          obtain ⟨other, marking', taskIds, there', isField, waits, same⟩ := (tracks.marks _ _).mp either
          have apart : other ≠ handle := by
            intro equal
            rw [equal, there, Option.some.injEq] at there'
            exact inField (by rw [there', isField])
          exact ⟨other, marking', taskIds, there', isField, by rw [still other apart]; exact waits, same⟩
      · intro found
        obtain ⟨other, marking', taskIds, there', isField, waits, same⟩ := found
        by_cases isOwn : other = handle
        · rw [isOwn, there, Option.some.injEq] at there'
          rw [isOwn, now] at waits
          rw [if_pos (by rw [there', isField])]
          exact .inr (by rw [waits, same, isOwn, there']; rfl)
        · rw [still other isOwn] at waits
          have old : key ∈ s.marks field :=
            (tracks.marks _ _).mpr ⟨other, marking', taskIds, there', isField, waits, same⟩
          split
          next inField =>
            refine .inl ⟨by rw [← inField]; exact old, ?_⟩
            intro equal
            have seqs := (keyOf_injective (clean_expected clean waits) none (same.symm.trans equal)).1
            exact isOwn (by omega)
          next => exact old
    · have same : s.drop marking.field (marking.keyOf (handle + 1) []) replacement = s := by
        rw [Store.drop, if_neg fun present => pending ((pending_iff clean tracks there).mp present)]
      have all : ∀ other, expected (ops ++ [call]) other = expected ops other := by
        intro other
        by_cases isOwn : other = handle
        · rw [isOwn, expected_snoc_call own, if_neg pending]
        · exact still other isOwn
      rw [same, tracks.marks]
      simp only [all]

/-- What the markings of a run say of the handles. -/
theorem tracks_run {s : Store} (clean : ∀ op ∈ ops, op.CleanIds) (ran : runSteps step ops .start = some s) :
    Tracks ops s := by
  induction ops using List.reverseRecOn generalizing s with
  | nil =>
    rw [← Option.some.inj ran]
    exact tracks_start
  | append_singleton ops op ih =>
    obtain ⟨between, before, last⟩ := runSteps_append.mp ran
    obtain ⟨after, stepped, done⟩ := runSteps_cons.mp last
    have same : after = s := Option.some.inj done
    rw [same] at stepped
    have early : ∀ op ∈ ops, op.CleanIds := fun op' member => clean op' (List.mem_append_left _ member)
    have own : op.CleanIds := clean op (List.mem_append_right _ List.mem_cons_self)
    have tracks := ih early before
    cases op with
    | begin marking =>
      rw [← Option.some.inj stepped]
      exact tracks_begin early tracks marking
    | setTasks tasks =>
      rw [← Option.some.inj stepped]
      exact tracks_setTasks early tracks tasks
    | settle handle taskIds =>
      obtain ⟨marking, there, result⟩ := Option.map_eq_some_iff.mp stepped
      rw [← result]
      refine tracks_call early tracks (fun other => by rw [Op.calls, beq_iff_eq, eq_comm]) there ?_
      rw [afterCall, unseen_singleton, tracks.tasks]
      cases taskIds with
      | nil => rfl
      | cons id taskIds =>
        have some_ : 0 < (id :: taskIds).length := Nat.succ_pos _
        rw [if_pos some_, Option.bind_some, keepMark_keyOf own, prune, if_neg (List.cons_ne_nil _ _)]
    | rollback handle =>
      obtain ⟨marking, there, result⟩ := Option.map_eq_some_iff.mp stepped
      rw [← result]
      exact tracks_call early tracks (fun other => by rw [Op.calls, beq_iff_eq, eq_comm]) there rfl

end Runs

section Selector

theorem mem_foldl_select {landed : List Text} {kind : ResourceKind} {projectName : Text}
    {marks ids : List Text} {id : Text} :
    id ∈ marks.foldl (fun ids key =>
        match key.splitOn nul with
        | kProject :: kResourceKind :: kResourceId :: _ =>
            if kProject ≠ projectName ∨ kResourceKind ≠ kind.text then ids
            else if (keepMark key landed).isSome then setAdd ids kResourceId else ids
        | _ => ids) ids ↔
      id ∈ ids ∨ ∃ key ∈ marks, (keepMark key landed).isSome = true ∧
        ∃ rest, key.splitOn nul = projectName :: kind.text :: id :: rest := by
  induction marks generalizing ids with
  | nil => simp
  | cons key marks ih =>
    rw [List.foldl_cons, ih, List.exists_mem_cons_iff, ← or_assoc]
    apply or_congr_left
    split
    next kProject kResourceKind kResourceId rest parts =>
      rw [parts]
      split
      next other =>
        constructor
        · exact .inl
        · intro either
          cases either with
          | inl old => exact old
          | inr new =>
            obtain ⟨-, rest', same⟩ := new
            injection same with project tail
            injection tail with kinds
            cases other with
            | inl apart => exact absurd project apart
            | inr apart => exact absurd kinds apart
      next same =>
        rw [not_or, not_not, not_not] at same
        rw [same.1, same.2]
        split
        next kept =>
          rw [mem_setAdd]
          apply or_congr_right
          constructor
          · intro equal
            exact ⟨kept, rest, by rw [equal]⟩
          · intro new
            obtain ⟨-, rest', equal⟩ := new
            injection equal with _ tail
            injection tail with _ tail
            injection tail with ids
            exact ids.symm
        next gone => simp [gone]
    next short =>
      constructor
      · exact .inl
      · intro either
        cases either with
        | inl old => exact old
        | inr new =>
          obtain ⟨-, rest, same⟩ := new
          exact absurd same (short _ _ _ _)

theorem nul_kind (kind : ResourceKind) : nul ∉ kind.text := by
  cases kind <;> decide

/-- The fields of a mark are read back, whatever follows them. -/
theorem splitOn_resource {projectName resourceId : Text} (plainProject : nul ∉ projectName)
    (plainResource : nul ∉ resourceId) (kind : ResourceKind) (pendingTaskType : Text) (seq : Nat)
    (taskIds : List Text) : ∃ rest,
    ((Marking.resource projectName kind resourceId pendingTaskType).keyOf seq taskIds).splitOn nul =
      projectName :: kind.text :: resourceId :: rest := by
  refine ⟨(pendingTaskType ++ nul :: (Nat.toDigits 10 seq ++ nul :: encodeTaskIds taskIds)).splitOn nul, ?_⟩
  rw [Marking.keyOf, optimisticKey, List.splitOn_append_cons_self_of_not_mem plainProject,
    List.splitOn_append_cons_self_of_not_mem (nul_kind kind),
    List.splitOn_append_cons_self_of_not_mem plainResource]

/-- An operation with names that can be told apart in a key. -/
def Op.Clean : Op → Prop
  | .begin (.resource projectName _ resourceId _) => nul ∉ projectName ∧ nul ∉ resourceId
  | .begin (.scriptFile ..) => True
  | .settle _ taskIds => ArcReel.Tasks.CleanIds taskIds
  | .rollback _ => True
  | .setTasks _ => True

theorem Op.Clean.ids {op : Op} (clean : op.Clean) : op.CleanIds := by
  cases op with
  | settle handle taskIds => exact clean
  | begin marking => trivial
  | rollback handle => trivial
  | setTasks tasks => trivial

/-- The handle still occupies its resource, as `seen` shows the tasks: it has not been called, or its
first call has settled it with ids of which one has been in no snapshot that was current then or later. -/
def Holds (ops : List Op) (handle : Nat) (seen : List TaskItem) : Prop :=
  (∀ op ∈ ops, op.calls handle = false) ∨
    ∃ before taskIds after, ops = before ++ .settle handle taskIds :: after ∧
      (∀ op ∈ before, op.calls handle = false) ∧
      ∃ id ∈ taskIds, ∀ tasks ∈ current before :: (snapshotsOf after ++ [seen]), id ∉ landedTaskIds tasks

theorem holds_iff {ops : List Op} {handle : Nat} {seen : List TaskItem} :
    Holds ops handle seen ↔
      ((expected ops handle).bind (prune (landedTaskIds seen))).isSome = true := by
  have settled : ∀ before taskIds after, (∀ op ∈ before, op.calls handle = false) →
      (((expected (before ++ .settle handle taskIds :: after) handle).bind
        (prune (landedTaskIds seen))).isSome = true ↔ ∃ id ∈ taskIds,
          ∀ tasks ∈ current before :: (snapshotsOf after ++ [seen]), id ∉ landedTaskIds tasks) := by
    intro before taskIds after quiet
    have isCall : (Op.settle handle taskIds).calls handle = true := by rw [Op.calls, beq_self_eq_true]
    rw [expected_split quiet isCall, afterCall, prune_waiting, ← unseen_singleton, ← unseen_append,
      List.cons_append]
    unfold waiting
    split
    next none =>
      constructor
      · intro some_
        cases some_
      · intro found
        obtain ⟨id, member, apart⟩ := found
        have left := mem_unseen.mpr ⟨member, apart⟩
        rw [none] at left
        cases left
    next some_ =>
      obtain ⟨id, left⟩ := List.exists_mem_of_ne_nil _ some_
      exact iff_of_true rfl ⟨id, mem_unseen.mp left⟩
  constructor
  · intro holds
    cases holds with
    | inl quiet => rw [expected_quiet quiet]; rfl
    | inr found =>
      obtain ⟨before, taskIds, after, split, quiet, waits⟩ := found
      rw [split]
      exact (settled before taskIds after quiet).mpr waits
  · intro some_
    cases first_call ops handle with
    | inl quiet => exact .inl quiet
    | inr found =>
      obtain ⟨before, call, after, split, quiet, isCall⟩ := found
      cases call with
      | settle other taskIds =>
        have same : other = handle := beq_iff_eq.mp isCall
        rw [same] at split
        rw [split] at some_
        exact .inr ⟨before, taskIds, after, split, quiet, (settled before taskIds after quiet).mp some_⟩
      | rollback other =>
        rw [split, expected_split quiet isCall] at some_
        cases some_
      | begin marking => cases isCall
      | setTasks tasks => cases isCall

/-- The markings of a run, in the order in which they have begun. -/
def begun (ops : List Op) : List Marking :=
  ops.filterMap fun op => match op with
    | .begin marking => some marking
    | _ => none

theorem begun_snoc (ops : List Op) (op : Op) : begun (ops ++ [op]) = begun ops ++ begun [op] :=
  List.filterMap_append

theorem handles_run {ops : List Op} {s : Store} (ran : runSteps step ops .start = some s) :
    s.handles = begun ops := by
  induction ops using List.reverseRecOn generalizing s with
  | nil =>
    rw [← Option.some.inj ran]
    rfl
  | append_singleton ops op ih =>
    obtain ⟨between, before, last⟩ := runSteps_append.mp ran
    obtain ⟨after, stepped, done⟩ := runSteps_cons.mp last
    have same : after = s := Option.some.inj done
    rw [same] at stepped
    rw [begun_snoc, ← ih before]
    cases op with
    | begin marking =>
      rw [← Option.some.inj stepped]
      rfl
    | setTasks tasks =>
      rw [← Option.some.inj stepped]
      exact (List.append_nil _).symm
    | settle handle taskIds =>
      obtain ⟨marking, -, result⟩ := Option.map_eq_some_iff.mp stepped
      rw [← result, (drop_tasks _ _ _).2]
      exact (List.append_nil _).symm
    | rollback handle =>
      obtain ⟨marking, -, result⟩ := Option.map_eq_some_iff.mp stepped
      rw [← result, (drop_tasks _ _ _).2]
      exact (List.append_nil _).symm

theorem begun_clean {ops : List Op} {handle : Nat} {projectName resourceId pendingTaskType : Text}
    {kind : ResourceKind} (clean : ∀ op ∈ ops, op.Clean)
    (there : (begun ops)[handle]? = some (.resource projectName kind resourceId pendingTaskType)) :
    nul ∉ projectName ∧ nul ∉ resourceId := by
  obtain ⟨op, member, isBegin⟩ := List.mem_filterMap.mp (List.mem_of_getElem? there)
  have own := clean op member
  cases op with
  | begin marking =>
    rw [Option.some.inj isBegin] at own
    exact own
  | setTasks tasks => cases isBegin
  | settle handle taskIds => cases isBegin
  | rollback handle => cases isBegin

theorem text_injective {kind kind' : ResourceKind} (same : kind.text = kind'.text) : kind = kind' := by
  cases kind <;> cases kind' <;> first | rfl | exact absurd same (by decide)

/-- A mark that is kept for the selector is one whose handle still occupies its resource. -/
theorem kept_iff_holds {ops : List Op} (clean : ∀ op ∈ ops, op.CleanIds) {handle : Nat}
    {taskIds : List Text} (waits : expected ops handle = some taskIds) (marking : Marking)
    (seen : List TaskItem) :
    (keepMark (marking.keyOf (handle + 1) taskIds) (landedTaskIds seen)).isSome = true ↔
      Holds ops handle seen := by
  rw [keepMark_keyOf (clean_expected clean waits), Option.isSome_map, holds_iff, waits]
  rfl

theorem mem_select {ops : List Op} {s : Store} (clean : ∀ op ∈ ops, op.Clean)
    (ran : runSteps step ops .start = some s) (seen : List TaskItem) (kind : ResourceKind)
    (projectName id : Text) :
    id ∈ selectActiveResourceIds seen kind projectName (s.marks .optimisticActive) ↔
      id ∈ occupiedByTasks seen kind projectName ∨ ∃ handle pendingTaskType,
        (begun ops)[handle]? = some (.resource projectName kind id pendingTaskType) ∧
          Holds ops handle seen := by
  have ids : ∀ op ∈ ops, op.CleanIds := fun op member => (clean op member).ids
  have tracks := tracks_run ids ran
  have selected : id ∈ selectActiveResourceIds seen kind projectName (s.marks .optimisticActive) ↔
      id ∈ occupiedByTasks seen kind projectName ∨ ∃ key ∈ s.marks .optimisticActive,
        (keepMark key (landedTaskIds seen)).isSome = true ∧
          ∃ rest, key.splitOn nul = projectName :: kind.text :: id :: rest := mem_foldl_select
  rw [selected, ← handles_run ran]
  apply or_congr_right
  constructor
  · intro found
    obtain ⟨key, member, kept, rest, parts⟩ := found
    obtain ⟨handle, marking, taskIds, there, isField, waits, same⟩ := (tracks.marks _ _).mp member
    rw [same] at parts kept
    cases marking with
    | scriptFile projectName' taskType file => cases isField
    | resource projectName' kind' id' pendingTaskType =>
      have plain := begun_clean clean (handles_run ran ▸ there)
      obtain ⟨rest', parts'⟩ := splitOn_resource plain.1 plain.2 kind' pendingTaskType (handle + 1) taskIds
      rw [parts'] at parts
      injection parts with project tail
      injection tail with kinds tail
      injection tail with resource _
      rw [project, text_injective kinds, resource] at there
      exact ⟨handle, pendingTaskType, there, (kept_iff_holds ids waits _ seen).mp kept⟩
  · intro found
    obtain ⟨handle, pendingTaskType, there, holds⟩ := found
    have plain := begun_clean clean (handles_run ran ▸ there)
    have kept := holds_iff.mp holds
    cases waits : expected ops handle with
    | none => rw [waits] at kept; cases kept
    | some taskIds =>
      exact ⟨_, (tracks.marks _ _).mpr ⟨handle, _, taskIds, there, rfl, waits, rfl⟩,
        (kept_iff_holds ids waits _ seen).mpr holds,
        splitOn_resource plain.1 plain.2 kind pendingTaskType (handle + 1) taskIds⟩

/-- A handle that has let its resource go in the current tasks never holds it again. -/
theorem holds_append {ops : List Op} {handle : Nat} (gone : ¬Holds ops handle (current ops))
    (more : List Op) (seen : List TaskItem) : ¬Holds (ops ++ more) handle seen := by
  have nothing : expected (ops ++ more) handle = none := by
    induction more using List.reverseRecOn with
    | nil =>
      rw [List.append_nil]
      cases waits : expected ops handle with
      | none => rfl
      | some taskIds =>
        apply absurd _ gone
        rw [holds_iff, waits, Option.bind_some, prune_expected waits]
        rfl
    | append_singleton more op ih =>
      rw [← List.append_assoc]
      cases calls : op.calls handle with
      | true =>
        rw [expected_snoc_call calls, ih]
        exact if_neg fun same => nomatch same
      | false =>
        rw [expected_snoc calls, ih]
        cases op.snapshot <;> rfl
  rw [holds_iff, nothing]
  exact fun some_ => nomatch some_

/-- A call on another handle changes nothing for a handle. -/
theorem holds_other {ops : List Op} {handle : Nat} {call : Op} (other : call.calls handle = false)
    (noSnapshot : call.snapshot = none) (seen : List TaskItem) :
    Holds (ops ++ [call]) handle seen ↔ Holds ops handle seen := by
  rw [holds_iff, holds_iff, expected_snoc other, noSnapshot]

/-- The selector reports the resources of the handles that still hold them, besides those of the tasks; the
calls on other handles do not matter, and a handle that has let go never holds its resource again. -/
theorem occupied_until_first_call {ops : List Op} {s : Store} (clean : ∀ op ∈ ops, op.Clean)
    (ran : runSteps step ops .start = some s) :
    (∀ seen kind projectName id,
      id ∈ selectActiveResourceIds seen kind projectName (s.marks .optimisticActive) ↔
        id ∈ occupiedByTasks seen kind projectName ∨ ∃ handle pendingTaskType,
          (begun ops)[handle]? = some (.resource projectName kind id pendingTaskType) ∧
            Holds ops handle seen) ∧
      (∀ handle call seen, call.calls handle = false → call.snapshot = none →
        (Holds (ops ++ [call]) handle seen ↔ Holds ops handle seen)) ∧
      ∀ handle, ¬Holds ops handle s.tasks → ∀ more seen, ¬Holds (ops ++ more) handle seen := by
  have tracks := tracks_run (fun op member => (clean op member).ids) ran
  refine ⟨mem_select clean ran, fun _ _ seen other none => holds_other other none seen, ?_⟩
  intro handle gone
  rw [tracks.tasks] at gone
  exact holds_append gone

/-- Two requests on one storyboard, of which the first is settled with two tasks and the second fails. -/
def demoOps : List Op :=
  let marking := Marking.resource ['p'] .storyboard ['E', '1'] ['s']
  [.begin marking, .begin marking, .settle 0 [['a'], ['b']], .rollback 1,
    .setTasks [⟨['a'], ['p'], "storyboard".toList, none, ['E', '1'], .succeeded, "1"⟩]]

theorem occupied_until_first_call_demo : ∃ s, runSteps step demoOps .start = some s ∧
    ['E', '1'] ∈ selectActiveResourceIds s.tasks .storyboard ['p'] (s.marks .optimisticActive) ∧
    Holds demoOps 0 s.tasks ∧ ¬Holds demoOps 1 s.tasks := by
  have clean : ∀ op ∈ demoOps, op.Clean := by
    intro op member
    simp only [demoOps, List.mem_cons, List.not_mem_nil, or_false] at member
    rcases member with rfl | rfl | rfl | rfl | rfl <;> simp [Op.Clean, ArcReel.Tasks.CleanIds, nul, taskIdSep]
  have holds : Holds demoOps 0 [⟨['a'], ['p'], "storyboard".toList, none, ['E', '1'], .succeeded, "1"⟩] :=
    holds_iff.mpr (by decide)
  have gone : ¬Holds demoOps 1 [⟨['a'], ['p'], "storyboard".toList, none, ['E', '1'], .succeeded, "1"⟩] :=
    fun held => absurd (holds_iff.mp held) (by decide)
  refine ⟨_, rfl, ?_, holds, gone⟩
  exact ((occupied_until_first_call clean rfl).1 _ _ _ _).mpr (.inr ⟨0, ['s'], rfl, holds⟩)

/-- A handle that has been settled is not rolled back any more, and an empty id never leaves its mark. -/
theorem rolled_back_still_occupied :
    let marking := Marking.resource ['p'] .storyboard ['E', '1'] ['s']
    let task : TaskItem := ⟨[], ['p'], "storyboard".toList, none, ['E', '1'], .succeeded, "1"⟩
    (∃ s, runSteps step [.begin marking, .settle 0 [['a']], .rollback 0] .start = some s ∧
      ['E', '1'] ∈ selectActiveResourceIds s.tasks .storyboard ['p'] (s.marks .optimisticActive)) ∧
    ∃ s, runSteps step [.begin marking, .settle 0 [[]], .setTasks [task]] .start = some s ∧
      ['E', '1'] ∈ selectActiveResourceIds s.tasks .storyboard ['p'] (s.marks .optimisticActive) :=
  ⟨⟨_, rfl, by decide⟩, _, rfl, by decide⟩

end Selector

end ArcReel.Tasks
