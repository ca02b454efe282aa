import Mathlib.Data.List.Basic
import Mathlib.Tactic

/-! A list from which some items without a given mark have been left out. -/

namespace ArcReel.Lib

variable {α : Type} {marked : α → Bool}

/-- What is kept of a list when only unmarked items may be left out. -/
inductive Thinned (marked : α → Bool) : List α → List α → Prop
  | nil : Thinned marked [] []
  | keep (a : α) {kept all : List α} : Thinned marked kept all → Thinned marked (a :: kept) (a :: all)
  | drop {a : α} {kept all : List α} :
      marked a = false → Thinned marked kept all → Thinned marked kept (a :: all)

namespace Thinned

variable {kept all kept' all' : List α}

theorem refl (all : List α) : Thinned marked all all := by
  induction all with
  | nil => exact .nil
  | cons a all ih => exact .keep a ih

theorem trans {fewer : List α} (first : Thinned marked fewer kept) (second : Thinned marked kept all) :
    Thinned marked fewer all := by
  induction second generalizing fewer with
  | nil => exact first
  | keep a _ ih =>
    cases first with
    | keep _ rest => exact .keep a (ih rest)
    | drop unmarked rest => exact .drop unmarked (ih rest)
  | drop unmarked _ ih => exact .drop unmarked (ih first)

theorem append (left : Thinned marked kept all) (right : Thinned marked kept' all') :
    Thinned marked (kept ++ kept') (all ++ all') := by
  induction left with
  | nil => exact right
  | keep a _ ih => exact .keep a ih
  | drop unmarked _ ih => exact .drop unmarked ih

theorem sublist (thinned : Thinned marked kept all) : kept.Sublist all := by
  induction thinned with
  | nil => exact .slnil
  | keep a _ ih => exact ih.cons_cons a
  | drop _ _ ih => exact ih.cons _

theorem filter_eq (thinned : Thinned marked kept all) : kept.filter marked = all.filter marked := by
  induction thinned with
  | nil => rfl
  | keep a _ ih => rw [List.filter_cons, List.filter_cons, ih]
  | drop unmarked _ ih => rw [List.filter_cons_of_neg (by rw [unmarked]; nofun), ih]

/-- A kept item splits the whole list at its own place. -/
theorem split {early late : List α} {a : α} (thinned : Thinned marked (early ++ a :: late) all) :
    ∃ before after, all = before ++ a :: after ∧ Thinned marked early before ∧ Thinned marked late after := by
  generalize whole : early ++ a :: late = parts at thinned
  induction thinned generalizing early with
  | nil => exact absurd whole (by simp)
  | keep b rest ih =>
    cases early with
    | nil =>
      cases whole
      exact ⟨[], _, rfl, .nil, rest⟩
    | cons c early =>
      cases whole
      obtain ⟨before, after, same, first, last⟩ := ih rfl
      exact ⟨_ :: before, after, by rw [same]; rfl, .keep _ first, last⟩
  | drop unmarked rest ih =>
    obtain ⟨before, after, same, first, last⟩ := ih whole
    exact ⟨_ :: before, after, by rw [same]; rfl, .drop unmarked first, last⟩

end Thinned

end ArcReel.Lib
