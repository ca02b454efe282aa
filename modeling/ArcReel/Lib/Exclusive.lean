import Mathlib.Data.List.Nodup
import Mathlib.Data.List.Count

/-! Tables whose rows carry a flag of which every group of rows has at most one. -/

namespace ArcReel.Lib

/-- How a row is read: by its key, its group and its flag. -/
structure Flagging (Row Group : Type) where
  id : Row → Nat
  group : Row → Group
  flag : Row → Bool
  setFlag : Bool → Row → Row
  id_set : ∀ value row, id (setFlag value row) = id row
  group_set : ∀ value row, group (setFlag value row) = group row
  flag_set : ∀ value row, flag (setFlag value row) = value

namespace Flagging

variable {Row Group : Type} (by_ : Flagging Row Group)

def ids (rows : List Row) : List Nat := rows.map by_.id

/-- The flag on the row of the key, if there is one. -/
def raise (id : Nat) (rows : List Row) : List Row :=
  rows.map fun row => if by_.id row = id then by_.setFlag true row else row

def remove (id : Nat) (rows : List Row) : List Row := rows.filter fun row => by_.id row ≠ id

/-- The rows after a change that leaves key, group and flag alone. -/
def Keeps (change : Row → Row) : Prop :=
  ∀ row, by_.id (change row) = by_.id row ∧ by_.group (change row) = by_.group row ∧
    by_.flag (change row) = by_.flag row

variable {by_}

theorem ids_map {change : Row → Row} (same : ∀ row, by_.id (change row) = by_.id row)
    (rows : List Row) : by_.ids (rows.map change) = by_.ids rows := by
  rw [ids, ids, List.map_map]
  exact List.map_congr_left fun row _ => same row

@[simp] theorem ids_raise (id : Nat) (rows : List Row) :
    by_.ids (by_.raise id rows) = by_.ids rows := by
  refine ids_map (fun row => ?_) rows
  by_cases own : by_.id row = id
  · rw [if_pos own, by_.id_set]
  · rw [if_neg own]

theorem ids_remove (id : Nat) (rows : List Row) :
    by_.ids (by_.remove id rows) = (by_.ids rows).filter (· ≠ id) := by
  rw [ids, ids, remove, List.filter_map]
  rfl

variable (by_) [DecidableEq Group]

/-- The keys of the flagged rows of the group. -/
def flagged (group : Group) (rows : List Row) : List Nat :=
  (rows.filter fun row => by_.group row = group && by_.flag row).map by_.id

/-- No flag in the group any more. -/
def clear (group : Group) (rows : List Row) : List Row :=
  rows.map fun row => if by_.group row = group then by_.setFlag false row else row

variable {by_}

@[simp] theorem ids_clear (group : Group) (rows : List Row) :
    by_.ids (by_.clear group rows) = by_.ids rows := by
  refine ids_map (fun row => ?_) rows
  by_cases own : by_.group row = group
  · rw [if_pos own, by_.id_set]
  · rw [if_neg own]

theorem flagged_map {change : Row → Row} (same : ∀ row, by_.id (change row) = by_.id row)
    (group : Group) (rows : List Row) :
    by_.flagged group (rows.map change) =
      (rows.filter fun row => by_.group (change row) = group && by_.flag (change row)).map by_.id := by
  rw [flagged, List.filter_map, List.map_map]
  exact List.map_congr_left fun row _ => same row

theorem flagged_keeps {change : Row → Row} (keeps : by_.Keeps change) (group : Group)
    (rows : List Row) : by_.flagged group (rows.map change) = by_.flagged group rows := by
  rw [flagged_map (fun row => (keeps row).1), flagged]
  congr 1
  refine List.filter_congr fun row _ => ?_
  rw [(keeps row).2.1, (keeps row).2.2]

theorem flagged_append (group : Group) (rows : List Row) (row : Row) :
    by_.flagged group (rows ++ [row]) =
      by_.flagged group rows ++ if by_.group row = group && by_.flag row then [by_.id row] else [] := by
  rw [flagged, List.filter_append, List.map_append, flagged]
  by_cases raised : (by_.group row = group && by_.flag row) = true
  · simp [raised]
  · simp [raised]

theorem flagged_remove (group : Group) (id : Nat) (rows : List Row) :
    by_.flagged group (by_.remove id rows) = (by_.flagged group rows).filter (· ≠ id) := by
  rw [flagged, flagged, remove, List.filter_map, List.filter_filter, List.filter_filter]
  refine congrArg (List.map by_.id) (List.filter_congr fun row _ => ?_)
  exact Bool.and_comm ..

theorem flagged_clear (group other : Group) (rows : List Row) :
    by_.flagged other (by_.clear group rows) = if other = group then [] else by_.flagged other rows := by
  rw [clear, flagged_map]
  · by_cases same : other = group
    · rw [if_pos same, List.map_eq_nil_iff, List.filter_eq_nil_iff]
      intro row _
      by_cases own : by_.group row = group
      · rw [if_pos own, by_.flag_set, Bool.and_false]
        exact Bool.false_ne_true
      · rw [if_neg own, same, decide_eq_false own, Bool.false_and]
        exact Bool.false_ne_true
    · rw [if_neg same, flagged]
      refine congrArg (List.map by_.id) (List.filter_congr fun row _ => ?_)
      by_cases own : by_.group row = group
      · rw [if_pos own, by_.group_set, own, decide_eq_false (Ne.symm same), Bool.false_and,
          Bool.false_and]
      · rw [if_neg own]
  · intro row
    by_cases own : by_.group row = group
    · rw [if_pos own, by_.id_set]
    · rw [if_neg own]

theorem mem_flagged {group : Group} {rows : List Row} {id : Nat} :
    id ∈ by_.flagged group rows ↔
      ∃ row ∈ rows, by_.group row = group ∧ by_.flag row = true ∧ by_.id row = id := by
  simp [flagged, and_assoc]

/-- With distinct keys, a group without a flag has exactly the raised one. -/
theorem flagged_raise {group : Group} {rows : List Row} {row : Row} (distinct : (by_.ids rows).Nodup)
    (member : row ∈ rows) (own : by_.group row = group) (free : by_.flagged group rows = []) :
    by_.flagged group (by_.raise (by_.id row) rows) = [by_.id row] := by
  have unique : ∀ other ∈ rows, by_.id other = by_.id row → other = row :=
    fun other found same => List.inj_on_of_nodup_map distinct found member same
  rw [raise, flagged_map]
  · have only : (rows.filter fun other =>
        by_.group (if by_.id other = by_.id row then by_.setFlag true other else other) = group &&
          by_.flag (if by_.id other = by_.id row then by_.setFlag true other else other)) =
        rows.filter fun other => by_.id other = by_.id row := by
      refine List.filter_congr fun other found => ?_
      by_cases same : by_.id other = by_.id row
      · rw [if_pos same, by_.group_set, by_.flag_set, unique other found same, own]
        simp
      · rw [if_neg same, decide_eq_false same]
        by_contra raised
        rw [Bool.not_eq_false, Bool.and_eq_true, decide_eq_true_eq] at raised
        have listed := mem_flagged.mpr ⟨other, found, raised.1, raised.2, rfl⟩
        rw [free] at listed
        exact List.not_mem_nil listed
    have named : (rows.filter fun other => by_.id other = by_.id row).map by_.id =
        (by_.ids rows).filter fun id => id = by_.id row := by
      rw [ids, List.filter_map]
      rfl
    rw [only, named, List.filter_eq, List.count_eq_one_of_mem distinct (List.mem_map_of_mem member)]
    rfl
  · intro other
    by_cases same : by_.id other = by_.id row
    · rw [if_pos same, by_.id_set]
    · rw [if_neg same]

theorem flagged_raise_other {group : Group} {rows : List Row} {row : Row}
    (distinct : (by_.ids rows).Nodup) (member : row ∈ rows) (other : by_.group row ≠ group) :
    by_.flagged group (by_.raise (by_.id row) rows) = by_.flagged group rows := by
  rw [raise, flagged_map]
  · refine congrArg (List.map by_.id) (List.filter_congr fun row' found => ?_)
    by_cases same : by_.id row' = by_.id row
    · rw [if_pos same, by_.group_set, List.inj_on_of_nodup_map distinct found member same,
        decide_eq_false other, Bool.false_and, Bool.false_and]
    · rw [if_neg same]
  · intro row'
    by_cases same : by_.id row' = by_.id row
    · rw [if_pos same, by_.id_set]
    · rw [if_neg same]

end Flagging

end ArcReel.Lib
