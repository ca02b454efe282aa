import Mathlib.Tactic

/-! `lib.formal_write`: several files are written, and restored if one of the writes raises. -/

namespace ArcReel.Review

section FormalWrite

variable {κ β : Type} [DecidableEq κ]

/-- A missing file is `none`. -/
abbrev Files (κ β : Type) : Type := κ → Option β

inductive FormalWrite (κ β : Type) where
  | returned (files : Files κ β)
  | raised (files : Files κ β)
  | rollbackIncomplete (files : Files κ β)

def FormalWrite.files : FormalWrite κ β → Files κ β
  | returned files | raised files | rollbackIncomplete files => files

/-- The snapshots go back in reverse order, each one whose restoration does not fail. -/
def rollback (restores : κ → Bool) (paths : List κ) (before files : Files κ β) : Files κ β :=
  paths.reverse.foldl
    (fun files path => if restores path then Function.update files path (before path) else files) files

/-- `formal_write_transaction` around a body that leaves the files as they are in `after`. -/
def formalWriteTransaction (paths : List κ) (before after : Files κ β) (raises : Bool)
    (restores : κ → Bool) : FormalWrite κ β :=
  if raises then
    let files := rollback restores paths.dedup before after
    if paths.dedup.all restores then .raised files else .rollbackIncomplete files
  else .returned after

theorem rollback_apply (restores : κ → Bool) (paths : List κ) (before files : Files κ β) (path : κ) :
    rollback restores paths before files path =
      if path ∈ paths ∧ restores path = true then before path else files path := by
  unfold rollback
  rw [List.foldl_reverse]
  induction paths with
  | nil => simp
  | cons first paths ih =>
    rw [List.foldr_cons]
    by_cases restored : restores first = true
    · rw [if_pos restored, Function.update_apply, ih]
      by_cases same : path = first
      · rw [if_pos same, if_pos ⟨by simp [same], by rw [same, restored]⟩, same]
      · simp [same]
    · rw [if_neg restored, ih]
      by_cases same : path = first
      · simp [same, restored]
      · simp [same]

/-- A transaction that raises leaves its files as they were. -/
theorem files_of_raised {paths : List κ} {before after files : Files κ β} {raises : Bool}
    {restores : κ → Bool} {path : κ} (member : path ∈ paths)
    (raised : formalWriteTransaction paths before after raises restores = .raised files) :
    files path = before path := by
  unfold formalWriteTransaction at raised
  dsimp only at raised
  split_ifs at raised with _ restored
  rw [FormalWrite.raised.injEq] at raised
  rw [← raised, rollback_apply, if_pos]
  exact ⟨List.mem_dedup.mpr member, List.all_eq_true.mp restored path (List.mem_dedup.mpr member)⟩

end FormalWrite

end ArcReel.Review
