import Mathlib.Algebra.Order.Group.Defs
import Mathlib.Data.List.TakeWhile
import Mathlib.Tactic.Linarith

/-! A log of times from which what is older than a window is dropped, oldest first. -/

namespace ArcReel.Lib

section SlidingWindow

variable {T : Type} [AddCommGroup T] [LinearOrder T]

/-- The log without the leading times that left the window before `now`. -/
def expire (window now : T) (log : List T) : List T :=
  log.dropWhile fun time => decide (window < now - time)

/-- `kept` is the end of `all`, and everything before it left the window by `now`. -/
def Covers (window now : T) (all kept : List T) : Prop :=
  ∃ gone, all = gone ++ kept ∧ ∀ time ∈ gone, window < now - time

theorem Covers.nil (window now : T) : Covers window now [] [] :=
  ⟨[], rfl, fun _ member => (List.not_mem_nil member).elim⟩

theorem Covers.later [IsOrderedAddMonoid T] {window now then_ : T} {all kept : List T}
    (covers : Covers window now all kept) (order : now ≤ then_) :
    Covers window then_ all kept := by
  obtain ⟨gone, parts, old⟩ := covers
  exact ⟨gone, parts, fun time member =>
    (old time member).trans_le (sub_le_sub_right order time)⟩

theorem Covers.append {window now : T} {all kept : List T} (covers : Covers window now all kept)
    (time : T) : Covers window now (all ++ [time]) (kept ++ [time]) := by
  obtain ⟨gone, parts, old⟩ := covers
  exact ⟨gone, by rw [parts, List.append_assoc], old⟩

theorem Covers.expire {window now : T} {all kept : List T} (covers : Covers window now all kept) :
    Covers window now all (expire window now kept) := by
  obtain ⟨gone, parts, old⟩ := covers
  refine ⟨gone ++ kept.takeWhile fun time => decide (window < now - time), ?_, ?_⟩
  · rw [List.append_assoc, ArcReel.Lib.expire, List.takeWhile_append_dropWhile, parts]
  · intro time member
    cases List.mem_append.mp member with
    | inl before => exact old time before
    | inr dropped =>
      have left := List.mem_takeWhile_imp dropped
      exact of_decide_eq_true left

/-- Nothing outside the log is in a window that ends now or later. -/
theorem Covers.count_le [IsOrderedAddMonoid T] {window now then_ : T} {all kept : List T}
    (covers : Covers window now all kept) (order : now ≤ then_) :
    all.countP (fun time => decide (then_ - window ≤ time)) ≤ kept.length := by
  obtain ⟨gone, parts, old⟩ := covers.later order
  have outside : gone.countP (fun time => decide (then_ - window ≤ time)) = 0 := by
    refine List.countP_eq_zero.mpr fun time member => ?_
    have left := old time member
    rw [decide_eq_true_eq, not_le]
    exact lt_sub_comm.mp left
  rw [parts, List.countP_append, outside, Nat.zero_add]
  exact List.countP_le_length

/-- A time that is not in the log left the window. -/
theorem Covers.mem_or_old {window now : T} {all kept : List T} (covers : Covers window now all kept)
    {time : T} (member : time ∈ all) : time ∈ kept ∨ window < now - time := by
  obtain ⟨gone, parts, old⟩ := covers
  rw [parts] at member
  cases List.mem_append.mp member with
  | inl before => exact Or.inr (old time before)
  | inr stays => exact Or.inl stays

end SlidingWindow

end ArcReel.Lib
