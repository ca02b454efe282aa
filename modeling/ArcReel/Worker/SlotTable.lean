import ArcReel.Lib.Dict

/-! `CapacityTable` and `SlotTable` of `lib.generation_worker`: the concurrency
limits of the providers, and the tasks that occupy their slots. -/

namespace ArcReel.Worker
open ArcReel.Lib

/-- The loaders of the table clamp every limit at zero. -/
structure CapacityTable where
  limits : Dict String (Dict String Nat)
  defaults : Dict String Nat

/-- A known provider without the lane does not support it; an unknown one has the default. -/
def CapacityTable.get (capacity : CapacityTable) (provider media : String) : Nat :=
  match capacity.limits.get? provider with
  | none => (capacity.defaults.get? media).getD 0
  | some lanes => (lanes.get? media).getD 0

/-- The `asyncio` task that occupies a slot: the `n`-th one of the claim loop, or the `n`-th
sub-task of a dispatcher. -/
inductive Body where
  | claimed (n : Nat)
  | resumed (dispatcher n : Nat)
  deriving DecidableEq, Repr

structure Occupant where
  task : Body
  pending : Bool
  deriving DecidableEq, Repr

abbrev Bucket := Dict String Occupant

structure SlotTable where
  slots : Dict (String × String) Bucket

namespace SlotTable

def empty : SlotTable := ⟨.empty⟩

def bucket (table : SlotTable) (provider media : String) : Bucket :=
  (table.slots.get? (provider, media)).getD .empty

def register (table : SlotTable) (provider media taskId : String) (task : Body) (pending : Bool) :
    SlotTable :=
  ⟨table.slots.set (provider, media) ((table.bucket provider media).set taskId ⟨task, pending⟩)⟩

def promote (table : SlotTable) (provider media taskId : String) : SlotTable :=
  match table.slots.get? (provider, media) with
  | none => table
  | some bucket =>
      match bucket.get? taskId with
      | none => table
      | some occupant =>
          ⟨table.slots.set (provider, media) (bucket.set taskId { occupant with pending := false })⟩

/-- Stores a bucket, or deletes its key when nothing is left in it. -/
def putBucket (table : SlotTable) (provider media : String) (bucket : Bucket) : SlotTable :=
  if bucket.size = 0 then ⟨table.slots.erase (provider, media)⟩
  else ⟨table.slots.set (provider, media) bucket⟩

def release (table : SlotTable) (provider media taskId : String) : SlotTable :=
  match table.slots.get? (provider, media) with
  | none => table
  | some bucket => table.putBucket provider media (bucket.erase taskId)

def hasRoom (table : SlotTable) (provider media : String) (capacity : Nat) : Bool :=
  decide (0 < capacity) && decide ((table.bucket provider media).size < capacity)

def occupiedProviders (table : SlotTable) (media : String) : List String :=
  (table.slots.entries.filter fun entry => entry.1.2 == media && entry.2.size != 0).map fun entry =>
    entry.1.1

def activeTaskIds (table : SlotTable) : List String :=
  table.slots.values.flatMap Dict.keys

/-- A finished occupant that is no longer pending. -/
def drains (done : Body → Bool) (occupant : Occupant) : Bool :=
  !occupant.pending && done occupant.task

/-- The tasks that leave their slots, and the table without them. -/
def drainFinished (table : SlotTable) (done : Body → Bool) : List (String × Body) × SlotTable :=
  ((table.slots.values.flatMap fun bucket =>
      bucket.entries.filter fun entry => drains done entry.2).map fun entry =>
        (entry.1, entry.2.task),
    ⟨(table.slots.mapValues fun _ bucket => bucket.filter fun _ occupant =>
        !drains done occupant).filter fun _ bucket => bucket.size != 0⟩)

section Buckets

variable (table : SlotTable) (provider media taskId p m : String)

@[simp] theorem bucket_empty : empty.bucket p m = .empty := rfl

theorem bucket_register (task : Body) (pending : Bool) :
    (table.register provider media taskId task pending).bucket p m =
      if (p, m) = (provider, media) then (table.bucket p m).set taskId ⟨task, pending⟩
      else table.bucket p m := by
  simp only [bucket, register, Dict.get?_set]
  by_cases same : (p, m) = (provider, media)
  · rw [if_pos same, if_pos same, same]
    rfl
  · rw [if_neg same, if_neg same]

theorem bucket_putBucket (bucket : Bucket) :
    ((table.putBucket provider media bucket).bucket p m).entries =
      if (p, m) = (provider, media) then bucket.entries else (table.bucket p m).entries := by
  unfold putBucket
  by_cases none_ : bucket.size = 0
  · rw [if_pos none_]
    have void : bucket.entries = [] := List.length_eq_zero_iff.mp none_
    simp only [SlotTable.bucket, Dict.get?_erase]
    by_cases same : (p, m) = (provider, media)
    · rw [if_pos same, if_pos same, void]
      rfl
    · rw [if_neg same, if_neg same]
  · rw [if_neg none_]
    simp only [SlotTable.bucket, Dict.get?_set]
    by_cases same : (p, m) = (provider, media)
    · rw [if_pos same, if_pos same]
      rfl
    · rw [if_neg same, if_neg same]

/-- A release only removes the occupant of the task. -/
theorem bucket_release :
    ((table.release provider media taskId).bucket p m).entries =
      if (p, m) = (provider, media) then ((table.bucket p m).erase taskId).entries
      else (table.bucket p m).entries := by
  unfold release
  cases known : table.slots.get? (provider, media) with
  | none =>
    by_cases same : (p, m) = (provider, media)
    · rw [if_pos same, bucket, same, known]
      rfl
    · rw [if_neg same]
  | some bucket =>
    rw [bucket_putBucket]
    by_cases same : (p, m) = (provider, media)
    · rw [if_pos same, if_pos same, SlotTable.bucket, same, known]
      rfl
    · rw [if_neg same, if_neg same]

/-- A promotion changes no key, and only the flag of the task. -/
theorem bucket_promote :
    ((table.promote provider media taskId).bucket p m).keys = (table.bucket p m).keys ∧
      ∀ entry ∈ ((table.promote provider media taskId).bucket p m).entries,
        entry ∈ (table.bucket p m).entries ∨ (p, m) = (provider, media) ∧ entry.1 = taskId := by
  unfold promote
  cases known : table.slots.get? (provider, media) with
  | none => exact ⟨rfl, fun entry member => .inl member⟩
  | some bucket =>
    cases found : bucket.get? taskId with
    | none =>
      simp only [found]
      exact ⟨trivial, fun entry member => .inl member⟩
    | some occupant =>
      simp only [found, SlotTable.bucket, Dict.get?_set]
      by_cases same : (p, m) = (provider, media)
      · rw [if_pos same, same, known]
        simp only [Option.getD_some]
        refine ⟨?_, ?_⟩
        · rw [Dict.keys_set, if_pos ((Dict.mem_keys_iff bucket taskId).mpr ⟨occupant, found⟩)]
        · intro entry member
          rw [Dict.mem_entries_set] at member
          cases member with
          | inl new => exact .inr ⟨trivial, by rw [new]⟩
          | inr old => exact .inl old.1
      · rw [if_neg same]
        exact ⟨rfl, fun entry member => .inl member⟩

/-- Draining leaves a part of each bucket. -/
theorem bucket_drainFinished (done : Body → Bool) :
    ((table.drainFinished done).2.bucket p m).entries =
      ((table.bucket p m).filter fun _ occupant => !drains done occupant).entries := by
  simp only [bucket, drainFinished, Dict.get?_filter, Dict.get?_mapValues]
  cases table.slots.get? (p, m) with
  | none => rfl
  | some bucket =>
    by_cases left : (bucket.filter fun _ occupant => !drains done occupant).size = 0
    · have void := List.length_eq_zero_iff.mp left
      simp only [Option.map_some, Option.filter_some, left, bne_self_eq_false, Bool.false_eq_true,
        if_false, Option.getD_none, Option.getD_some]
      exact void.symm
    · simp [Option.filter_some, left]

end Buckets

end SlotTable

end ArcReel.Worker
