import Mathlib.Algebra.Order.Floor.Ring
import Mathlib.Tactic

/-! Integers nearest to a number: rounding half to even, and the nearest one below or above a bound. -/

namespace ArcReel.Lib

variable {K : Type*} [Field K] [LinearOrder K] [IsStrictOrderedRing K]

/-- `n` is in `S`, and nothing in `S` is nearer to `x`. -/
def Nearest (S : Set ℤ) (x : K) (n : ℤ) : Prop := n ∈ S ∧ ∀ m ∈ S, |x - n| ≤ |x - m|

theorem Nearest.min {S : Set ℤ} {x : K} {n bound : ℤ} (nearest : Nearest S x n)
    (inside : min n bound ∈ S) : Nearest (S ∩ Set.Iic bound) x (min n bound) := by
  refine ⟨⟨inside, min_le_right n bound⟩, ?_⟩
  intro m member
  cases le_or_gt n bound with
  | inl within =>
    rw [min_eq_left within]
    exact nearest.2 m member.1
  | inr above =>
    rw [min_eq_right above.le] at inside ⊢
    -- the bound is on the near side of `n`, so `x` lies above it
    have nearer := nearest.2 bound inside
    have above' : (bound : K) < n := Int.cast_lt.mpr above
    have le : (m : K) ≤ bound := Int.cast_le.mpr member.2
    have below : (bound : K) ≤ x := by
      by_contra beyond
      have under : x < bound := lt_of_not_ge beyond
      rw [abs_of_neg (by linarith), abs_of_neg (by linarith)] at nearer
      linarith
    rw [abs_of_nonneg (by linarith), abs_of_nonneg (by linarith)]
    linarith

theorem Nearest.max {S : Set ℤ} {x : K} {n bound : ℤ} (nearest : Nearest S x n)
    (inside : max bound n ∈ S) : Nearest (S ∩ Set.Ici bound) x (max bound n) := by
  refine ⟨⟨inside, le_max_left bound n⟩, ?_⟩
  intro m member
  cases le_or_gt bound n with
  | inl within =>
    rw [max_eq_right within]
    exact nearest.2 m member.1
  | inr below =>
    rw [max_eq_left below.le] at inside ⊢
    have nearer := nearest.2 bound inside
    have below' : (n : K) < bound := Int.cast_lt.mpr below
    have le : (bound : K) ≤ m := Int.cast_le.mpr member.2
    have above : x ≤ bound := by
      by_contra beyond
      have far : (bound : K) < x := lt_of_not_ge beyond
      rw [abs_of_pos (by linarith), abs_of_pos (by linarith)] at nearer
      linarith
    rw [abs_of_nonpos (by linarith), abs_of_nonpos (by linarith)]
    linarith

/-- What is at most a half away is nearest among all integers. -/
theorem nearest_of_half {x : K} {n : ℤ} (half : |x - n| ≤ 1 / 2) : Nearest Set.univ x n := by
  refine ⟨Set.mem_univ n, ?_⟩
  intro m _
  by_cases same : m = n
  · rw [same]
  · have apart : (1 : K) ≤ |(n : K) - m| := by
      have one : 1 ≤ |n - m| := Int.one_le_abs (sub_ne_zero.mpr fun equal => same equal.symm)
      calc (1 : K) = ((1 : ℤ) : K) := Int.cast_one.symm
        _ ≤ ((|n - m| : ℤ) : K) := Int.cast_le.mpr one
        _ = |(n : K) - m| := by rw [Int.cast_abs, Int.cast_sub]
    have triangle : |(n : K) - m| ≤ |x - n| + |x - m| := by
      have chain := abs_sub_le (n : K) x m
      rwa [abs_sub_comm (n : K) x] at chain
    linarith

variable [FloorRing K]

/-- The nearest integer, and the even one of two that are equally near. -/
def roundHalfEven (x : K) : ℤ :=
  if 2 * Int.fract x < 1 then ⌊x⌋
  else if 1 < 2 * Int.fract x then ⌊x⌋ + 1
  else if ⌊x⌋ % 2 = 0 then ⌊x⌋ else ⌊x⌋ + 1

theorem abs_sub_roundHalfEven_le (x : K) : |x - roundHalfEven x| ≤ 1 / 2 := by
  have nonneg := Int.fract_nonneg x
  have small := Int.fract_lt_one x
  have split := Int.floor_add_fract x
  have down : 2 * Int.fract x ≤ 1 → |x - (⌊x⌋ : K)| ≤ 1 / 2 := by
    intro low
    rw [abs_le]
    constructor <;> linarith
  have up : 1 ≤ 2 * Int.fract x → |x - ((⌊x⌋ + 1 : ℤ) : K)| ≤ 1 / 2 := by
    intro high
    rw [Int.cast_add, Int.cast_one, abs_le]
    constructor <;> linarith
  unfold roundHalfEven
  split
  next low => exact down low.le
  next low =>
    split
    next high => exact up high.le
    next high =>
      split
      next => exact down (not_lt.mp high)
      next => exact up (not_lt.mp low)

theorem nearest_roundHalfEven (x : K) : Nearest Set.univ x (roundHalfEven x) :=
  nearest_of_half (abs_sub_roundHalfEven_le x)

omit [IsStrictOrderedRing K] in
theorem roundHalfEven_nonneg {x : K} (nonneg : 0 ≤ x) : 0 ≤ roundHalfEven x := by
  have floor : 0 ≤ ⌊x⌋ := Int.floor_nonneg.mpr nonneg
  unfold roundHalfEven
  split_ifs <;> omega

theorem roundHalfEven_intCast (n : ℤ) : roundHalfEven (n : K) = n := by
  rw [roundHalfEven, Int.fract_intCast, mul_zero, if_pos one_pos, Int.floor_intCast]

theorem roundHalfEven_nonneg_iff {x : K} : 0 ≤ roundHalfEven x ↔ -(1 / 2) ≤ x := by
  constructor
  · intro nonneg
    have near := abs_le.mp (abs_sub_roundHalfEven_le x)
    have cast : (0 : K) ≤ roundHalfEven x := Int.cast_nonneg nonneg
    linarith
  · intro above
    have split := Int.floor_add_fract x
    unfold roundHalfEven
    split
    next low =>
      have floor : ((-1 : ℤ) : K) < ⌊x⌋ := by
        push_cast
        linarith
      have := Int.cast_lt.mp floor
      omega
    next low =>
      have floor : ((-2 : ℤ) : K) < ⌊x⌋ := by
        have small := Int.fract_lt_one x
        push_cast
        linarith
      have := Int.cast_lt.mp floor
      split
      next => omega
      next => split <;> omega

theorem roundHalfEven_nonpos_iff {x : K} : roundHalfEven x ≤ 0 ↔ x ≤ 1 / 2 := by
  constructor
  · intro nonpos
    have near := abs_le.mp (abs_sub_roundHalfEven_le x)
    have cast : (roundHalfEven x : K) ≤ 0 := Int.cast_nonpos.mpr nonpos
    linarith
  · intro below
    have split := Int.floor_add_fract x
    have nonneg := Int.fract_nonneg x
    unfold roundHalfEven
    split
    next low =>
      have floor : (⌊x⌋ : K) < (1 : ℤ) := by
        push_cast
        linarith
      have := Int.cast_lt.mp floor
      omega
    next low =>
      split
      next high =>
        have floor : (⌊x⌋ : K) < (0 : ℤ) := by
          push_cast
          linarith
        have := Int.cast_lt.mp floor
        omega
      next high =>
        have floor : (⌊x⌋ : K) < (1 : ℤ) := by
          push_cast
          linarith
        have := Int.cast_lt.mp floor
        split <;> omega

end ArcReel.Lib
