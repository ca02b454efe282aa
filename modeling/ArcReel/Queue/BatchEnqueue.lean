import ArcReel.Lib.Dict
import ArcReel.Queue.Cancellation

/-! Batches of `lib.generation_queue_client`: `_enqueue_sequentially` and the
rollback of an atomic batch. The call has the queue for itself. -/

namespace ArcReel.Queue
open ArcReel.Lib ArcReel.Lib.SqlSession

/-- A `TaskSpec`; `payloadResourceType` is its payload's `resource_type`, if that is a string. -/
structure TaskSpec where
  taskType : String
  mediaType : String
  resourceId : String
  payloadResourceType : Option String
  scriptFile : Option String
  source : String
  dependencyResourceId : Option String
  dependencyGroup : Option String
  dependencyIndex : Option Int
  deriving DecidableEq, Repr

inductive Failure where
  | error (message : String)
  | cancelled
  deriving DecidableEq, Repr

/-- What one `enqueue_task_only` meets outside the table: the fresh `uuid4().hex`, the stored
payload and the derived provider, an exception raised before the row is written, and the
`ActiveTaskRequestConflict` raised if the request is answered with an active row. -/
structure Attempt where
  taskId : String
  payloadJson : String
  providerId : Option String
  failure : Option Failure
  conflict : Option String
  clock : Nat → Nat

structure Member where
  spec : TaskSpec
  attempt : Attempt

/-- A Python string that is neither `None` nor empty. -/
def truthy (text : Option String) : Option String := text.filter (· ≠ "")

def TaskSpec.request (spec : TaskSpec) (projectName userId : String) (attempt : Attempt)
    (dependencyTaskId : Option String) : EnqueueRequest where
  taskId := attempt.taskId
  projectName := projectName
  taskType := spec.taskType
  mediaType := spec.mediaType
  resourceId := spec.resourceId
  payloadJson := attempt.payloadJson
  scriptFile := spec.scriptFile
  resourceType := truthy spec.payloadResourceType
  source := spec.source
  dependencyTaskId := dependencyTaskId
  dependencyGroup := spec.dependencyGroup
  dependencyIndex := spec.dependencyIndex
  userId := userId
  providerId := attempt.providerId

inductive EnqueueResult where
  | created (taskId : String)
  | deduped (taskId : String)
  | raised (failure : Failure)
  deriving DecidableEq, Repr

structure EnqueuedTask where
  resourceId : String
  taskId : String
  deduped : Bool
  deriving DecidableEq, Repr

/-- A `BatchTaskResult` of a member that was never queued. -/
structure EnqueueFailure where
  resourceId : String
  error : String
  deriving DecidableEq, Repr

structure BatchEnqueueAborted where
  resourceId : String
  error : String
  rolledBack : List String
  orphaned : List String
  deriving DecidableEq, Repr

inductive BatchOutcome where
  | done (enqueued : List EnqueuedTask) (failures : List EnqueueFailure)
  | aborted (error : BatchEnqueueAborted)
  | cancelled
  deriving DecidableEq, Repr

/-- The local variables of `_enqueue_sequentially`, and the table. -/
structure Batch where
  table : List Task
  enqueued : List EnqueuedTask
  taskIds : Dict String String
  createdTaskIds : Dict String String
  failures : List EnqueueFailure
  failedResourceIds : List String

def Batch.start (table : List Task) : Batch := ⟨table, [], .empty, .empty, [], []⟩

/-- What the rollback meets outside the table: the tasks whose `cancel_task` raises, and clocks. -/
structure CancelWeather where
  raises : String → Bool
  clock : String → Nat → Nat

section Calls

variable (codec : TextCodec) (projectName userId : String)

def enqueueTaskOnly (member : Member) (dependencyTaskId : Option String) (table : List Task) :
    EnqueueResult × List Task :=
  match member.attempt.failure with
  | some failure => (.raised failure, table)
  | none =>
      let request := member.spec.request projectName userId member.attempt dependencyTaskId
      let st := runOp codec member.attempt.clock (.enqueue request) table
      match st.out with
      | .enqueued taskId :: _ => (.created taskId, st.committed)
      | .deduped existing :: _ =>
          match member.attempt.conflict with
          | some message => (.raised (.error message), st.committed)
          | none => (.deduped existing.taskId, st.committed)
      | _ => (.raised (.error "IntegrityError"), st.committed)

/-- `_rollback_enqueued`, with the table it leaves; `_cancel_took_effect` looks for the task
among the cancelled rows of the answer. -/
def rollbackEnqueued (weather : CancelWeather) :
    List String → List Task → List String × List String × List Task
  | [], table => ([], [], table)
  | taskId :: later, table =>
      if weather.raises taskId then
        let (rolledBack, orphaned, left) := rollbackEnqueued weather later table
        (rolledBack, taskId :: orphaned, left)
      else
        let st := runOp codec (weather.clock taskId) (.cancelTask taskId) table
        let (rolledBack, orphaned, left) := rollbackEnqueued weather later st.committed
        if reportsCancelled st.out taskId then (taskId :: rolledBack, orphaned, left)
        else (rolledBack, taskId :: orphaned, left)

def enqueueSequentially (weather : CancelWeather) (atomic : Bool) :
    List Member → Batch → BatchOutcome × List Task
  | [], batch => (.done batch.enqueued batch.failures, batch.table)
  | member :: later, batch =>
      let resourceId := member.spec.resourceId
      let dependency := truthy member.spec.dependencyResourceId
      if dependency.any batch.failedResourceIds.contains then
        enqueueSequentially weather atomic later { batch with
          failures := batch.failures ++ [⟨resourceId,
            "dependency " ++ dependency.getD "" ++ " failed to enqueue"⟩]
          failedResourceIds := batch.failedResourceIds ++ [resourceId] }
      else
        match enqueueTaskOnly codec projectName userId member
            (dependency.bind fun name => batch.taskIds.get? name) batch.table with
        | (.raised .cancelled, table) =>
            if atomic && batch.createdTaskIds.size != 0 then
              (.cancelled,
                (rollbackEnqueued codec weather batch.createdTaskIds.values table).2.2)
            else (.cancelled, table)
        | (.raised (.error message), table) =>
            if atomic then
              let (rolledBack, orphaned, left) :=
                rollbackEnqueued codec weather batch.createdTaskIds.values table
              (.aborted ⟨resourceId, message, rolledBack, orphaned⟩, left)
            else
              enqueueSequentially weather atomic later { batch with
                table := table
                failures := batch.failures ++ [⟨resourceId, message⟩]
                failedResourceIds := batch.failedResourceIds ++ [resourceId] }
        | (.deduped taskId, table) =>
            enqueueSequentially weather atomic later { batch with
              table := table
              taskIds := batch.taskIds.set resourceId taskId
              enqueued := batch.enqueued ++ [⟨resourceId, taskId, true⟩] }
        | (.created taskId, table) =>
            enqueueSequentially weather atomic later { batch with
              table := table
              taskIds := batch.taskIds.set resourceId taskId
              createdTaskIds := batch.createdTaskIds.set resourceId taskId
              enqueued := batch.enqueued ++ [⟨resourceId, taskId, false⟩] }

end Calls

/-! One `enqueue` on the table. -/

section Enqueue

variable (codec : TextCodec) (clock : Nat → Nat) (request : EnqueueRequest) (table : List Task)

/-- The row that answers a duplicate request. -/
def activeDuplicate (key : DedupeKey) : Option Task :=
  ((table.filter fun t => t.status.active && t.dedupeKey == key).insertionSort
    (fun a b => b.queuedAt ≤ a.queuedAt)).head?

def EnqueueRequest.dedupeKey (request : EnqueueRequest) : DedupeKey := (request.row 0).dedupeKey

theorem row_dedupeKey (now : Nat) : (request.row now).dedupeKey = request.dedupeKey := rfl

theorem enqueue_ticks (op : Op) (opening : program op = [.insertTask request]) :
    ∃ later, (List.range (fuel table op)).map clock = clock 0 :: clock 1 :: clock 2 :: later := by
  have enough : ∃ n, fuel table op = n + 3 := by
    refine Nat.exists_eq_add_of_le' ?_
    simp only [fuel, size, Solo.start, opening, List.isEmpty_cons, Bool.false_eq_true, if_false,
      cost_cons, Stmt.cost]
    omega
  obtain ⟨n, enough⟩ := enough
  refine ⟨(List.range n).map fun i => clock (i + 3), ?_⟩
  rw [enough, List.range_succ_eq_map, List.range_succ_eq_map, List.range_succ_eq_map]
  simp [Function.comp_def]

theorem enqueue_inserts (fresh : table.any (Task.clashes (request.row (clock 0))) = false) :
    runOp codec clock (.enqueue request) table =
      ⟨table ++ [request.row (clock 0)], table ++ [request.row (clock 0)], [],
        [.enqueued request.taskId]⟩ := by
  obtain ⟨later, ticks⟩ := enqueue_ticks clock request table (.enqueue request) rfl
  unfold runOp
  rw [ticks]
  simp only [Solo.run, Solo.start, program, Solo.perform, action, Action.answer, fresh,
    Bool.false_eq_true, if_false, Action.change, Action.settle, List.nil_append, List.append_nil]

theorem enqueue_dedupes (clash : table.any (Task.clashes (request.row (clock 0))) = true) :
    (runOp codec clock (.enqueue request) table).committed = table ∧
      (runOp codec clock (.enqueue request) table).out =
        ((activeDuplicate table request.dedupeKey).map Out.deduped).toList := by
  obtain ⟨later, ticks⟩ := enqueue_ticks clock request table (.enqueue request) rfl
  unfold runOp
  rw [ticks]
  simp only [Solo.run, Solo.start, program, Solo.perform, action, Action.answer, clash, if_true,
    Action.change, Action.settle, List.nil_append, List.append_nil, activeDuplicate,
    row_dedupeKey]
  cases (table.filter fun t => t.status.active && t.dedupeKey == request.dedupeKey).insertionSort
    (fun a b => b.queuedAt ≤ a.queuedAt) with
  | nil => cases later <;> exact ⟨rfl, rfl⟩
  | cons existing others => cases later <;> exact ⟨rfl, rfl⟩

end Enqueue

/-! What a batch does, read off its members and the table before the call. -/

section Plan

variable (projectName : String) (table : List Task)

def Member.key (member : Member) : DedupeKey :=
  ⟨projectName, member.spec.taskType, member.spec.resourceId, member.spec.scriptFile.getD "",
    (truthy member.spec.payloadResourceType).getD ""⟩

/-- An active row of the table has the key. -/
def occupied (key : DedupeKey) : Bool := table.any fun t => t.status.active && t.dedupeKey == key

/-- The member creates a row: its key is free in the table and new in the batch. -/
def creates (done : List Member) (member : Member) : Bool :=
  !occupied table (member.key projectName) &&
    done.all fun earlier => earlier.key projectName != member.key projectName

/-- The member is answered: it raises neither before its row is written nor as a duplicate. -/
def answered (done : List Member) (member : Member) : Bool :=
  member.attempt.failure.isNone &&
    (creates projectName table done member || member.attempt.conflict.isNone)

/-- The members before the first one that raises. -/
def admitted : List Member → List Member → List Member
  | _, [] => []
  | done, member :: later =>
      if answered projectName table done member then
        member :: admitted (done ++ [member]) later
      else []

/-- The row of this batch that a resource resolves to: the last member with that resource
decides, and it may stand for a row that an earlier member has created. -/
def batchRow (done : List Member) (resourceId : String) : Option String :=
  (done.reverse.find? fun member => member.spec.resourceId == resourceId).bind fun member =>
    if occupied table (member.key projectName) then none
    else (done.find? fun earlier => earlier.key projectName == member.key projectName).map
      fun earlier => earlier.attempt.taskId

/-- A row that the batch creates, and the row of the batch that it waits for. -/
structure Planned where
  member : Member
  dependsOn : Option String

def planned : List Member → List Member → List Planned
  | _, [] => []
  | done, member :: later =>
      if creates projectName table done member then
        ⟨member, (truthy member.spec.dependencyResourceId).bind (batchRow projectName table done)⟩ ::
          planned (done ++ [member]) later
      else planned (done ++ [member]) later

def Planned.taskId (plan : Planned) : String := plan.member.attempt.taskId

def Planned.resourceId (plan : Planned) : String := plan.member.spec.resourceId

/-- No two created rows share a resource, and a created row only waits for rows of the batch
whose cancellation raises. -/
def rollsBack (weather : CancelWeather) (plans : List Planned) : Bool :=
  decide (plans.map Planned.resourceId).Nodup &&
    plans.all fun plan => plan.dependsOn.all weather.raises

theorem planned_append (done first second : List Member) :
    planned projectName table done (first ++ second) =
      planned projectName table done first ++ planned projectName table (done ++ first) second := by
  induction first generalizing done with
  | nil => simp [planned]
  | cons member first ih =>
    simp only [List.cons_append, planned, ih]
    split_ifs <;> simp

variable {projectName table}

theorem creates_iff {done : List Member} {member : Member} :
    creates projectName table done member = true ↔
      occupied table (member.key projectName) = false ∧
        ∀ earlier ∈ done, earlier.key projectName ≠ member.key projectName := by
  simp [creates]

/-- The plans are the first members with a free key. -/
theorem planned_key {done later : List Member} {key : DedupeKey} :
    (∃ plan ∈ planned projectName table done later, plan.member.key projectName = key) ↔
      occupied table key = false ∧ (∃ member ∈ later, member.key projectName = key) ∧
        ∀ member ∈ done, member.key projectName ≠ key := by
  induction later generalizing done with
  | nil => simp [planned]
  | cons member later ih =>
    have others : (∀ earlier ∈ done ++ [member], earlier.key projectName ≠ key) ↔
        (∀ earlier ∈ done, earlier.key projectName ≠ key) ∧ member.key projectName ≠ key := by
      simp [or_imp, forall_and]
    simp only [planned]
    by_cases creating : creates projectName table done member = true
    · rw [if_pos creating]
      simp only [List.mem_cons, exists_eq_or_imp, ih, others]
      obtain ⟨free, first⟩ := creates_iff.mp creating
      by_cases same : member.key projectName = key
      · subst same
        exact ⟨fun _ => ⟨free, .inl rfl, first⟩, fun _ => .inl rfl⟩
      · simp [same]
    · rw [if_neg creating, ih, others]
      by_cases same : member.key projectName = key
      · subst same
        rw [creates_iff] at creating
        simp only [List.mem_cons, exists_eq_or_imp, true_or, true_and, ne_eq, not_true_eq_false,
          and_false, false_iff]
        exact creating
      · simp [same]

theorem planned_first {done later : List Member} {plan : Planned}
    (listed : plan ∈ planned projectName table done later) :
    (done ++ later).find? (fun earlier => earlier.key projectName == plan.member.key projectName) =
      some plan.member := by
  induction later generalizing done with
  | nil => cases listed
  | cons member later ih =>
    have behind := @ih (done ++ [member])
    simp only [List.append_assoc, List.singleton_append] at behind
    simp only [planned] at listed
    by_cases creating : creates projectName table done member = true
    · rw [if_pos creating] at listed
      rcases List.mem_cons.mp listed with rfl | later'
      · have none_ : done.find? (fun earlier =>
            earlier.key projectName == member.key projectName) = none := by
          simpa using (creates_iff.mp creating).2
        simp [List.find?_append, none_]
      · exact behind later'
    · rw [if_neg creating] at listed
      exact behind listed

end Plan

/-! The loop keeps to the plan. -/

/-- The fresh ids of the members: distinct, and nowhere in the table. -/
structure FreshIds (members : List Member) (table : List Task) : Prop where
  nodup : (members.map fun member => member.attempt.taskId).Nodup
  unused : ∀ member ∈ members, ∀ t ∈ table,
    t.taskId ≠ member.attempt.taskId ∧ t.dependencyTaskId ≠ some member.attempt.taskId
  distinct : (table.map Task.taskId).Nodup

/-- The row that a plan has become. -/
structure Planned.Made (projectName : String) (members : List Member) (plan : Planned) (row : Task) :
    Prop where
  taskId : row.taskId = plan.taskId
  key : row.dedupeKey = plan.member.key projectName
  queued : row.status = .queued
  depends : ∀ member ∈ members, row.dependencyTaskId = some member.attempt.taskId ↔
    plan.dependsOn = some member.attempt.taskId

/-- The variables of the loop after the members `done`. -/
structure Batch.Follows (projectName : String) (members : List Member) (table : List Task)
    (done : List Member) (batch : Batch) : Prop where
  rows : ∃ made, batch.table = table ++ made ∧
    List.Forall₂ (Planned.Made projectName members) (planned projectName table [] done) made
  taskIds : ∀ resourceId, ∀ member ∈ members,
    batch.taskIds.get? resourceId = some member.attempt.taskId ↔
      batchRow projectName table done resourceId = some member.attempt.taskId
  created : batch.createdTaskIds = (planned projectName table [] done).foldl
    (fun dict plan => dict.set plan.resourceId plan.taskId) .empty
  unfailed : batch.failedResourceIds = []

section Matching

variable {R : Planned → Task → Prop} {plans : List Planned} {made : List Task}

theorem exists_plan (matched : List.Forall₂ R plans made) {row : Task} (inMade : row ∈ made) :
    ∃ plan ∈ plans, R plan row := by
  induction matched with
  | nil => cases inMade
  | cons head _ ih =>
    rcases List.mem_cons.mp inMade with rfl | later
    · exact ⟨_, .head _, head⟩
    · obtain ⟨plan, listed, same⟩ := ih later
      exact ⟨plan, .tail _ listed, same⟩

theorem exists_row (matched : List.Forall₂ R plans made) {plan : Planned} (listed : plan ∈ plans) :
    ∃ row ∈ made, R plan row := by
  induction matched with
  | nil => cases listed
  | cons head _ ih =>
    rcases List.mem_cons.mp listed with rfl | later
    · exact ⟨_, .head _, head⟩
    · obtain ⟨row, inMade, same⟩ := ih later
      exact ⟨row, .tail _ inMade, same⟩

end Matching

section Loop

variable {codec : TextCodec} {projectName userId : String} {members done later : List Member}
  {member : Member} {table : List Task} {batch : Batch}

theorem batchRow_append (resourceId : String) :
    batchRow projectName table (done ++ [member]) resourceId =
      if member.spec.resourceId = resourceId then
        if occupied table (member.key projectName) then none
        else ((done ++ [member]).find? fun earlier =>
          earlier.key projectName == member.key projectName).map fun earlier => earlier.attempt.taskId
      else batchRow projectName table done resourceId := by
  unfold batchRow
  simp only [List.reverse_append, List.reverse_singleton, List.singleton_append, List.find?_cons]
  by_cases same : member.spec.resourceId = resourceId
  · simp [same]
  · have differs : (member.spec.resourceId == resourceId) = false := by simpa using same
    rw [differs, if_neg same]
    cases last : done.reverse.find? (fun member => member.spec.resourceId == resourceId) with
    | none => simp
    | some p =>
      have inDone : p ∈ done := by simpa using List.mem_of_find?_eq_some last
      obtain ⟨o, found⟩ := Option.isSome_iff_exists.mp (List.find?_isSome.mpr
        ⟨p, inDone, beq_self_eq_true _⟩ :
          (done.find? fun earlier => earlier.key projectName == p.key projectName).isSome)
      simp [List.find?_append, found]

/-- The rows of the batch occupy the keys of its plans. -/
theorem occupied_follows (follows : batch.Follows projectName members table done) (key : DedupeKey) :
    occupied batch.table key = true ↔
      occupied table key = true ∨ ∃ earlier ∈ done, earlier.key projectName = key := by
  obtain ⟨made, rows, matched⟩ := follows.rows
  have ours : (∃ row ∈ made, row.status.active = true ∧ row.dedupeKey = key) ↔
      ∃ plan ∈ planned projectName table [] done, plan.member.key projectName = key := by
    constructor
    · rintro ⟨row, inMade, -, named⟩
      obtain ⟨plan, listed, same⟩ := exists_plan matched inMade
      exact ⟨plan, listed, same.key.symm.trans named⟩
    · rintro ⟨plan, listed, named⟩
      obtain ⟨row, inMade, same⟩ := exists_row matched listed
      exact ⟨row, inMade, by rw [same.queued]; rfl, same.key.trans named⟩
  have split : occupied batch.table key = true ↔ occupied table key = true ∨
      ∃ row ∈ made, row.status.active = true ∧ row.dedupeKey = key := by
    simp [occupied, rows]
  rw [split, ours, planned_key]
  cases occupied table key <;> simp

theorem planned_mem {plan : Planned} (listed : plan ∈ planned projectName table done later) :
    plan.member ∈ later := by
  induction later generalizing done with
  | nil => cases listed
  | cons member later ih =>
    simp only [planned] at listed
    split_ifs at listed
    · rcases List.mem_cons.mp listed with rfl | deeper
      · exact .head _
      · exact .tail _ (ih deeper)
    · exact .tail _ (ih listed)

section Step

variable (fresh : FreshIds members table) (place : members = done ++ member :: later)
  (follows : batch.Follows projectName members table done)

include fresh place

theorem member_fresh : ∀ earlier ∈ done, earlier.attempt.taskId ≠ member.attempt.taskId := by
  have nodup := fresh.nodup
  rw [place, List.map_append, List.map_cons, List.nodup_append] at nodup
  exact fun earlier inDone => nodup.2.2 _ (List.mem_map.mpr ⟨earlier, inDone, rfl⟩) _ (.head _)

include follows

theorem row_fresh : ∀ t ∈ batch.table, t.taskId ≠ member.attempt.taskId := by
  intro t inTable
  obtain ⟨made, rows, matched⟩ := follows.rows
  rw [rows] at inTable
  rcases List.mem_append.mp inTable with old | new
  · exact (fresh.unused member (by simp [place]) t old).1
  · obtain ⟨plan, listed, same⟩ := exists_plan matched new
    rw [same.taskId]
    exact member_fresh fresh place plan.member (planned_mem listed)

/-- The insert of a member is a duplicate exactly when the plan says so. -/
theorem clashes_follows (userId : String) (dependencyTaskId : Option String) (now : Nat) :
    batch.table.any (Task.clashes ((member.spec.request projectName userId member.attempt
      dependencyTaskId).row now)) = !creates projectName table done member := by
  have apart := row_fresh fresh place follows
  have unfolded : batch.table.any (Task.clashes ((member.spec.request projectName userId
      member.attempt dependencyTaskId).row now)) = true ↔
      occupied batch.table (member.key projectName) = true := by
    simp only [occupied, List.any_eq_true, Task.clashes, Bool.or_eq_true, Bool.and_eq_true,
      beq_iff_eq]
    constructor
    · rintro ⟨t, inTable, same | both⟩
      · exact absurd same (apart t inTable)
      · exact ⟨t, inTable, both.1.1, both.2⟩
    · rintro ⟨t, inTable, active, same⟩
      exact ⟨t, inTable, .inr ⟨⟨active, rfl⟩, same⟩⟩
  rw [Bool.eq_iff_iff, unfolded, occupied_follows follows, Bool.not_eq_true', ← Bool.not_eq_true,
    creates_iff, not_and_or]
  simp only [Bool.not_eq_false, not_forall, ne_eq, not_not, exists_prop]

omit place in
/-- The row that answers a duplicate: of the table before, or of the member with its key. -/
theorem activeDuplicate_follows (taken : creates projectName table done member = false) :
    ∃ existing, activeDuplicate batch.table (member.key projectName) = some existing ∧
      ∀ other ∈ members, existing.taskId = other.attempt.taskId ↔
        occupied table (member.key projectName) = false ∧
          ∃ earlier, done.find? (fun earlier => earlier.key projectName == member.key projectName) =
            some earlier ∧ earlier.attempt.taskId = other.attempt.taskId := by
  have busy : occupied batch.table (member.key projectName) = true := by
    rw [occupied_follows follows]
    by_contra free
    rw [not_or] at free
    have creating := creates_iff.mpr ⟨by simpa using free.1, fun earlier inDone same =>
      free.2 ⟨earlier, inDone, same⟩⟩
    rw [taken] at creating
    cases creating
  obtain ⟨made, rows, matched⟩ := follows.rows
  obtain ⟨existing, found⟩ : ∃ existing, activeDuplicate batch.table (member.key projectName) =
      some existing := by
    rw [← Option.isSome_iff_exists, activeDuplicate, List.isSome_head?, ne_eq,
      ← List.length_eq_zero_iff, (List.perm_insertionSort _ _).length_eq, List.length_eq_zero_iff,
      List.filter_eq_nil_iff]
    simpa [occupied] using busy
  have listed : existing ∈ batch.table.filter fun t =>
      t.status.active && t.dedupeKey == member.key projectName :=
    (List.perm_insertionSort _ _).mem_iff.mp (List.mem_of_mem_head? found)
  rw [List.mem_filter, Bool.and_eq_true, beq_iff_eq, rows] at listed
  obtain ⟨inTable, active, named⟩ := listed
  refine ⟨existing, found, fun other inMembers => ?_⟩
  rcases List.mem_append.mp inTable with old | new
  · have known : occupied table (member.key projectName) = true := by
      simp only [occupied, List.any_eq_true, Bool.and_eq_true, beq_iff_eq]
      exact ⟨existing, old, active, named⟩
    simp [(fresh.unused other inMembers existing old).1, known]
  · obtain ⟨plan, inPlans, same⟩ := exists_plan matched new
    have key : plan.member.key projectName = member.key projectName := same.key.symm.trans named
    have free := (planned_key.mp ⟨plan, inPlans, key⟩).1
    have first := planned_first inPlans
    rw [List.nil_append, key] at first
    simp [free, first, same.taskId, Planned.taskId]

omit place in
theorem follows_deduped (taken : creates projectName table done member = false) {existing : Task}
    (found : activeDuplicate batch.table (member.key projectName) = some existing) :
    Batch.Follows projectName members table (done ++ [member]) { batch with
      taskIds := batch.taskIds.set member.spec.resourceId existing.taskId
      enqueued := batch.enqueued ++ [⟨member.spec.resourceId, existing.taskId, true⟩] } := by
  have plans : planned projectName table [] (done ++ [member]) =
      planned projectName table [] done := by
    simp [planned_append, planned, taken]
  obtain ⟨existing', found', lands⟩ := activeDuplicate_follows fresh follows taken
  obtain rfl := Option.some.inj (found.symm.trans found')
  refine ⟨by rw [plans]; exact follows.rows, ?_, by rw [plans]; exact follows.created,
    follows.unfailed⟩
  intro resourceId other inMembers
  simp only [Dict.get?_set, batchRow_append, eq_comm (a := resourceId)]
  split_ifs with same known
  · simp [lands other inMembers, known]
  · have free : occupied table (member.key projectName) = false := by simpa using known
    obtain ⟨earlier, inDone, key⟩ : ∃ earlier ∈ done,
        earlier.key projectName = member.key projectName := by
      simpa [creates, free] using taken
    obtain ⟨owner, first⟩ := Option.isSome_iff_exists.mp (List.find?_isSome.mpr
      ⟨earlier, inDone, beq_iff_eq.mpr key⟩ : (done.find? fun earlier =>
        earlier.key projectName == member.key projectName).isSome)
    rw [Option.some.injEq, lands other inMembers]
    simp [List.find?_append, first, free]
  · exact follows.taskIds resourceId other inMembers

omit fresh place in
theorem follows_created (creating : creates projectName table done member = true) (now : Nat) :
    Batch.Follows projectName members table (done ++ [member]) { batch with
      table := batch.table ++ [(member.spec.request projectName userId member.attempt
        ((truthy member.spec.dependencyResourceId).bind fun name => batch.taskIds.get? name)).row
          now]
      taskIds := batch.taskIds.set member.spec.resourceId member.attempt.taskId
      createdTaskIds := batch.createdTaskIds.set member.spec.resourceId member.attempt.taskId
      enqueued := batch.enqueued ++ [⟨member.spec.resourceId, member.attempt.taskId, false⟩] } := by
  have plans : planned projectName table [] (done ++ [member]) =
      planned projectName table [] done ++ [⟨member,
        (truthy member.spec.dependencyResourceId).bind (batchRow projectName table done)⟩] := by
    simp [planned_append, planned, creating]
  obtain ⟨free, first⟩ := creates_iff.mp creating
  have alone : (done ++ [member]).find? (fun earlier =>
      earlier.key projectName == member.key projectName) = some member := by
    have none_ : done.find? (fun earlier =>
        earlier.key projectName == member.key projectName) = none := by simpa using first
    simp [List.find?_append, none_]
  obtain ⟨made, rows, matched⟩ := follows.rows
  refine ⟨⟨made ++ [_], by rw [rows, List.append_assoc], ?_⟩, ?_, ?_, follows.unfailed⟩
  · rw [plans]
    refine List.rel_append matched (.cons ⟨rfl, rfl, rfl, ?_⟩ .nil)
    intro other inMembers
    simp only [EnqueueRequest.row, TaskSpec.request]
    cases truthy member.spec.dependencyResourceId with
    | none => simp
    | some name => exact follows.taskIds name other inMembers
  · intro resourceId other inMembers
    simp only [Dict.get?_set, batchRow_append, eq_comm (a := resourceId)]
    split_ifs with same known
    · rw [free] at known
      cases known
    · simp [alone]
    · exact follows.taskIds resourceId other inMembers
  · rw [plans, List.foldl_append, ← follows.created]
    rfl

/-- One call of `enqueue_task_only`, as the plan says. -/
theorem enqueueTaskOnly_follows (codec : TextCodec) (userId : String)
    (dependencyTaskId : Option String) :
    (answered projectName table done member = false ∧ ∃ failure,
      enqueueTaskOnly codec projectName userId member dependencyTaskId batch.table =
        (.raised failure, batch.table)) ∨
    (answered projectName table done member = true ∧
      creates projectName table done member = true ∧
      enqueueTaskOnly codec projectName userId member dependencyTaskId batch.table =
        (.created member.attempt.taskId, batch.table ++ [(member.spec.request projectName userId
          member.attempt dependencyTaskId).row (member.attempt.clock 0)])) ∨
    (answered projectName table done member = true ∧
      creates projectName table done member = false ∧ ∃ existing,
      activeDuplicate batch.table (member.key projectName) = some existing ∧
      enqueueTaskOnly codec projectName userId member dependencyTaskId batch.table =
        (.deduped existing.taskId, batch.table)) := by
  have clashes := clashes_follows fresh place follows userId dependencyTaskId
    (member.attempt.clock 0)
  unfold enqueueTaskOnly answered
  cases member.attempt.failure with
  | some failure => exact .inl ⟨rfl, failure, rfl⟩
  | none =>
    cases creating : creates projectName table done member with
    | true =>
      rw [creating] at clashes
      refine .inr (.inl ⟨rfl, rfl, ?_⟩)
      simp only [enqueue_inserts codec _ _ _ clashes]
      rfl
    | false =>
      rw [creating] at clashes
      obtain ⟨existing, found, -⟩ := activeDuplicate_follows fresh follows creating
      obtain ⟨kept, out⟩ := enqueue_dedupes codec member.attempt.clock _ _ clashes
      have answer : (runOp codec member.attempt.clock (.enqueue (member.spec.request projectName
          userId member.attempt dependencyTaskId)) batch.table).out = [.deduped existing] := by
        rw [out]
        exact congrArg (fun row => (row.map Out.deduped).toList) found
      simp only [kept, answer]
      cases conflict : member.attempt.conflict with
      | some message => exact .inl ⟨rfl, _, rfl⟩
      | none => exact .inr (.inr ⟨by simp, trivial, existing, found, rfl⟩)

end Step

/-- An aborted batch has carried out the plan of the members before the failing one, and
rolls back the rows it remembers. -/
theorem aborted_follows (fresh : FreshIds members table) {weather : CancelWeather}
    {error : BatchEnqueueAborted} {left : List Task} :
    ∀ (later done : List Member) (batch : Batch), members = done ++ later →
      batch.Follows projectName members table done →
      enqueueSequentially codec projectName userId weather true later batch =
        (.aborted error, left) →
      ∃ last : Batch, last.Follows projectName members table
          (done ++ admitted projectName table done later) ∧
        rollbackEnqueued codec weather last.createdTaskIds.values last.table =
          (error.rolledBack, error.orphaned, left) := by
  intro later
  induction later with
  | nil =>
    intro done batch _ _ ran
    cases ran
  | cons member later ih =>
    intro done batch place follows ran
    have unfailed : (truthy member.spec.dependencyResourceId).any batch.failedResourceIds.contains =
        false := by
      rw [follows.unfailed]
      cases truthy member.spec.dependencyResourceId <;> rfl
    have next : members = (done ++ [member]) ++ later := by simp [place]
    simp only [enqueueSequentially, unfailed, Bool.false_eq_true, if_false] at ran
    simp only [admitted]
    rcases enqueueTaskOnly_follows fresh place follows codec userId
      ((truthy member.spec.dependencyResourceId).bind fun name => batch.taskIds.get? name) with
      ⟨unanswered, failure, call⟩ | ⟨answers, creating, call⟩ | ⟨answers, taken, existing, found, call⟩
    · rw [call] at ran
      rw [unanswered]
      refine ⟨batch, by simpa using follows, ?_⟩
      cases failure with
      | cancelled =>
        simp only at ran
        split_ifs at ran <;> cases ran
      | error message =>
        simp only [if_true] at ran
        cases ran
        rfl
    · rw [call] at ran
      rw [answers, if_pos rfl]
      obtain ⟨last, reached, rolled⟩ := ih (done ++ [member]) _ next
        (follows_created follows creating _) ran
      exact ⟨last, by simpa using reached, rolled⟩
    · rw [call] at ran
      rw [answers, if_pos rfl]
      obtain ⟨last, reached, rolled⟩ := ih (done ++ [member]) _ next
        (follows_deduped fresh follows taken found) ran
      exact ⟨last, by simpa using reached, rolled⟩

theorem follows_start : (Batch.start table).Follows projectName members table [] where
  rows := ⟨[], by simp [Batch.start], .nil⟩
  taskIds := by simp [Batch.start, batchRow]
  created := rfl
  unfailed := rfl

end Loop

end ArcReel.Queue
