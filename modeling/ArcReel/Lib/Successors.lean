import Mathlib.Tactic

/-! Items that may each name a successor: chains of successors that come to an end, and the ranks that
show it. -/

namespace ArcReel.Lib

section Successors

variable {α : Type}

/-- `none` is an item that is not there, `some none` one without successor. -/
abbrev Successors (α : Type) : Type := α → Option (Option α)

namespace Successors

/-- After this many steps the chain ends in an item without successor. -/
def EndsIn (next : Successors α) : Nat → α → Prop
  | 0, item => next item = some none
  | steps + 1, item => ∃ other, next item = some (some other) ∧ EndsIn next steps other

/-- Every successor is there. -/
def Closed (next : Successors α) : Prop := ∀ item other, next item = some (some other) → next other ≠ none

/-- The chain of every item comes to an end. -/
def Ends (next : Successors α) : Prop := ∀ item, next item ≠ none → ∃ steps, EndsIn next steps item

/-- Successors have a higher rank, up to a top. -/
structure Ranked (next : Successors α) (rank : α → Int) (top : Int) : Prop where
  bounded : ∀ item, rank item ≤ top
  increasing : ∀ item other, next item = some (some other) → rank item < rank other

theorem closed_of_ends {next : Successors α} (ends : Ends next) : Closed next := by
  intro item other named
  obtain ⟨steps, ending⟩ := ends item (by rw [named]; exact Option.some_ne_none _)
  cases steps with
  | zero =>
    rw [EndsIn, named] at ending
    cases ending
  | succ steps =>
    obtain ⟨found, same, rest⟩ := ending
    rw [named, Option.some.injEq, Option.some.injEq] at same
    rw [← same] at rest
    cases steps with
    | zero =>
      rw [EndsIn] at rest
      rw [rest]
      exact Option.some_ne_none _
    | succ steps =>
      obtain ⟨further, step, _⟩ := rest
      rw [step]
      exact Option.some_ne_none _

/-- Ranks go up along a chain, so that it ends before it leaves the top. -/
theorem ends_of_ranked {next : Successors α} {rank : α → Int} {top : Int}
    (ranked : Ranked next rank top) (closed : Closed next) : Ends next := by
  intro item present
  induction room : (top - rank item).toNat using Nat.strong_induction_on generalizing item with
  | _ size ih =>
    cases found : next item with
    | none => exact absurd found present
    | some successor =>
      cases successor with
      | none => exact ⟨0, found⟩
      | some other =>
        have higher := ranked.increasing item other found
        have below := ranked.bounded other
        obtain ⟨steps, ending⟩ := ih (top - rank other).toNat (by omega) other (closed item other found) rfl
        exact ⟨steps + 1, other, found, ending⟩

theorem endsIn_unique {next : Successors α} {steps others : Nat} {item : α}
    (first : EndsIn next steps item) (second : EndsIn next others item) : steps = others := by
  induction steps generalizing others item with
  | zero =>
    cases others with
    | zero => rfl
    | succ others =>
      obtain ⟨other, named, _⟩ := second
      rw [EndsIn, named] at first
      cases first
  | succ steps ih =>
    obtain ⟨other, named, rest⟩ := first
    cases others with
    | zero =>
      rw [EndsIn, named] at second
      cases second
    | succ others =>
      obtain ⟨found, same, later⟩ := second
      rw [named, Option.some.injEq, Option.some.injEq] at same
      rw [← same] at later
      rw [ih rest later]

/-- Chains that end have ranks: the farther from the end, the lower. -/
theorem ranked_of_ends {next : Successors α} (ends : Ends next) :
    ∃ rank, Ranked next rank 0 := by
  classical
  let rank : α → Int := fun item =>
    if ending : ∃ steps, EndsIn next steps item then -(ending.choose : Int) else 0
  have value : ∀ {item : α} {steps : Nat}, EndsIn next steps item → rank item = -(steps : Int) := by
    intro item steps ending
    have exists_ : ∃ steps, EndsIn next steps item := ⟨steps, ending⟩
    have unfolded : rank item = -(exists_.choose : Int) := dif_pos exists_
    rw [unfolded, endsIn_unique exists_.choose_spec ending]
  refine ⟨rank, ⟨fun item => ?_, fun item other named => ?_⟩⟩
  · by_cases ending : ∃ steps, EndsIn next steps item
    · obtain ⟨steps, found⟩ := ending
      rw [value found]
      omega
    · exact le_of_eq (dif_neg ending)
  · obtain ⟨steps, ending⟩ := ends other (closed_of_ends ends item other named)
    have longer : EndsIn next (steps + 1) item := ⟨other, named, ending⟩
    rw [value longer, value ending]
    push_cast
    omega

/-- Items that stay, with successors that they had. -/
theorem closed_of_fewer {next later : Successors α} (closed : Closed next)
    (kept : ∀ item, next item ≠ none → later item ≠ none)
    (fewer : ∀ item other, later item = some (some other) → next item = some (some other)) :
    Closed later :=
  fun item other named => kept other (closed item other (fewer item other named))

variable [DecidableEq α]

theorem closed_update_none {next : Successors α} (closed : Closed next) (item : α) :
    Closed (Function.update next item (some none)) := by
  apply closed_of_fewer closed
  · intro other present
    rw [Function.update_apply]
    split
    · exact Option.some_ne_none _
    · exact present
  · intro from_ other named
    rw [Function.update_apply] at named
    split at named
    · cases named
    · exact named

/-- An item gets a successor: it has to be there. -/
theorem closed_update_iff {next : Successors α} (closed : Closed next) {item : α} (other : α)
    (present : next item ≠ none) :
    Closed (Function.update next item (some (some other))) ↔ next other ≠ none := by
  have same : ∀ found, Function.update next item (some (some other)) found = none ↔ next found = none := by
    intro found
    rw [Function.update_apply]
    split
    · next equal => simp [equal, present]
    · rfl
  constructor
  · intro sound
    have there := sound item other (Function.update_self ..)
    rwa [ne_eq, same] at there
  · intro there from_ found named
    rw [ne_eq, same]
    rw [Function.update_apply] at named
    split at named
    · rw [Option.some.injEq, Option.some.injEq] at named
      rwa [← named]
    · exact closed from_ found named

/-- An item is taken out and its own successor is left to those that named it. -/
def remove (next : Successors α) (gone : α) : Successors α := fun item =>
  if item = gone then none
  else (next item).map fun successor => if successor = some gone then (next gone).join else successor

theorem remove_cases {next : Successors α} {gone item other : α}
    (named : remove next gone item = some (some other)) : item ≠ gone ∧
      ((next item = some (some other) ∧ other ≠ gone) ∨
        (next item = some (some gone) ∧ next gone = some (some other))) := by
  unfold remove at named
  split_ifs at named with same
  refine ⟨same, ?_⟩
  rw [Option.map_eq_some_iff] at named
  obtain ⟨successor, found, result⟩ := named
  split_ifs at result with hit
  · rw [hit] at found
    exact .inr ⟨found, Option.join_eq_some_iff.mp result⟩
  · rw [result] at found hit
    exact .inl ⟨found, fun equal => hit (by rw [equal])⟩

theorem remove_ne_none {next : Successors α} {gone item : α} :
    remove next gone item ≠ none ↔ item ≠ gone ∧ next item ≠ none := by
  unfold remove
  split_ifs with same
  · simp [same]
  · simp [same]

theorem ranked_remove {next : Successors α} {rank : α → Int} {top : Int}
    (ranked : Ranked next rank top) (gone : α) : Ranked (remove next gone) rank top := by
  refine ⟨ranked.bounded, fun item other named => ?_⟩
  rcases (remove_cases named).2 with ⟨direct, _⟩ | ⟨first, second⟩
  · exact ranked.increasing item other direct
  · exact (ranked.increasing item gone first).trans (ranked.increasing gone other second)

/-- Without cycles the items that named the one taken out name one that is there. -/
theorem closed_remove {next : Successors α} {rank : α → Int} {top : Int}
    (ranked : Ranked next rank top) (closed : Closed next) (gone : α) : Closed (remove next gone) := by
  intro item other named
  rw [remove_ne_none]
  rcases (remove_cases named).2 with ⟨direct, apart⟩ | ⟨_, second⟩
  · exact ⟨apart, closed item other direct⟩
  · refine ⟨fun same => ?_, closed gone other second⟩
    have higher := ranked.increasing gone other second
    rw [same] at higher
    exact lt_irrefl _ higher

end Successors

end Successors

end ArcReel.Lib
