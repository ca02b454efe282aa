import ArcReel.Lib.Nearest
import ArcReel.Lib.PyText
import Mathlib.Data.Nat.Sqrt

/-! `lib.aspect_size`: the size of a generated picture, from a ratio, a short edge and the limits of a
backend. -/

namespace ArcReel.Media

open ArcReel.Lib ArcReel.Lib.PyText

section Ratio

/-! The decimal digits are those of the Unicode tables. -/

variable (decimal : Char → Option Nat)

/-- The largest number of digits that `int` reads. -/
def intMaxStrDigits : Nat := 4300

/-- Digits, with one underscore at most between two of them. -/
def digitsValue (text : List Char) : Option Nat :=
  let groups := text.splitOnP (· = '_')
  if groups.any List.isEmpty then none
  else do
    let digits ← groups.flatten.mapM decimal
    if intMaxStrDigits < digits.length then none
    else some (digits.foldl (fun value digit => 10 * value + digit) 0)

/-- `int(text)`. -/
def int (text : List Char) : Option Int :=
  match strip text with
  | '-' :: rest => (digitsValue decimal rest).map fun value => -(value : Int)
  | '+' :: rest => (digitsValue decimal rest).map fun value => (value : Int)
  | rest => (digitsValue decimal rest).map fun value => (value : Int)

def defaultAspect : Nat × Nat := (9, 16)

/-- The two positive parts of a ratio, if they can be read. -/
def ratioParts (aspectRatio : List Char) : Option (Nat × Nat) :=
  match (strip aspectRatio).splitOnP (fun c => c = ':' ∨ c = '：') with
  | [first, second] => do
      let aw ← int decimal first
      let ah ← int decimal second
      if aw ≤ 0 ∨ ah ≤ 0 then none else some (aw.toNat, ah.toNat)
  | _ => none

def parseAspectRatio (aspectRatio : List Char) : Nat × Nat :=
  match ratioParts decimal aspectRatio with
  | none => defaultAspect
  | some (aw, ah) => (aw / Nat.gcd aw ah, ah / Nat.gcd aw ah)

end Ratio

/-- The pixels that a backend takes at most on the long edge and altogether. -/
structure SizeLimits where
  maxLongEdge : Option Nat
  maxTotalPixels : Option Nat

/-- How many units the size has: the nearest to the short edge, within the limits, and one at least. -/
def sizeUnits (aw ah shortEdge roundTo : Nat) (limits : SizeLimits) : Nat :=
  let shortUnit := roundTo * min aw ah
  let t := max 1 (roundHalfEven ((shortEdge : ℚ) / shortUnit)).toNat
  let t := match limits.maxLongEdge with
    | none => t
    | some maxLongEdge => min t (max 1 (maxLongEdge / (roundTo * max aw ah)))
  let t := match limits.maxTotalPixels with
    | none => t
    | some maxTotalPixels =>
        let denom := aw * ah * roundTo * roundTo
        min t (max 1 (if 0 < denom then Nat.sqrt (maxTotalPixels / denom) else 0))
  max 1 t

/-- `t` units of the least size that has the ratio and divisible edges. -/
def legalSize (aw ah roundTo t : Nat) : Nat × Nat := (aw * roundTo * t, ah * roundTo * t)

def aspectSize (decimal : Char → Option Nat) (aspectRatio : List Char) (shortEdge roundTo : Nat)
    (limits : SizeLimits) : Nat × Nat :=
  let (aw, ah) := parseAspectRatio decimal aspectRatio
  legalSize aw ah roundTo (sizeUnits aw ah shortEdge roundTo limits)

/-- A size is within the limits. -/
def SizeLimits.Admits (limits : SizeLimits) (size : Nat × Nat) : Prop :=
  (∀ maxLongEdge ∈ limits.maxLongEdge, max size.1 size.2 ≤ maxLongEdge) ∧
    ∀ maxTotalPixels ∈ limits.maxTotalPixels, size.1 * size.2 ≤ maxTotalPixels

/-- How far the short edge of a size is from the one that is asked for. -/
def shortEdgeGap (size : Nat × Nat) (shortEdge : Nat) : Int := |(min size.1 size.2 : Int) - shortEdge|

section Ratio

variable {decimal : Char → Option Nat} {aspectRatio : List Char}

theorem ratioParts_pos {aw ah : Nat} (parts : ratioParts decimal aspectRatio = some (aw, ah)) :
    0 < aw ∧ 0 < ah := by
  unfold ratioParts at parts
  split at parts
  next first second _ =>
    cases first' : int decimal first with
    | none => simp [first'] at parts
    | some m =>
      cases second' : int decimal second with
      | none => simp [first', second'] at parts
      | some n =>
        simp only [first', second', Option.bind_eq_bind, Option.bind_some] at parts
        split at parts
        next => cases parts
        next positive =>
          have same := Prod.mk.inj (Option.some.inj parts)
          omega
  next => cases parts

/-- The ratio is reduced, whatever the text, and the same ratio as that of the parts. -/
theorem parseAspectRatio_reduced (decimal : Char → Option Nat) (aspectRatio : List Char) :
    0 < (parseAspectRatio decimal aspectRatio).1 ∧ 0 < (parseAspectRatio decimal aspectRatio).2 ∧
      Nat.Coprime (parseAspectRatio decimal aspectRatio).1 (parseAspectRatio decimal aspectRatio).2 ∧
      ∀ m n, ratioParts decimal aspectRatio = some (m, n) →
        m * (parseAspectRatio decimal aspectRatio).2 = n * (parseAspectRatio decimal aspectRatio).1 := by
  unfold parseAspectRatio
  cases parts : ratioParts decimal aspectRatio with
  | none => exact ⟨by decide, by decide, by decide, fun m n read => nomatch read⟩
  | some read =>
    obtain ⟨aw, ah⟩ := read
    have positive := ratioParts_pos parts
    have common : 0 < Nat.gcd aw ah := Nat.gcd_pos_of_pos_left ah positive.1
    refine ⟨Nat.div_pos (Nat.gcd_le_left ah positive.1) common,
      Nat.div_pos (Nat.gcd_le_right aw positive.2) common, Nat.coprime_div_gcd_div_gcd common, ?_⟩
    intro m n read
    obtain ⟨rfl, rfl⟩ := Prod.mk.inj (Option.some.inj read)
    rw [← Nat.mul_div_assoc aw (Nat.gcd_dvd_right aw ah), ← Nat.mul_div_assoc ah (Nat.gcd_dvd_left aw ah),
      Nat.mul_comm]

end Ratio

section Units

variable {aw ah shortEdge roundTo : Nat} {limits : SizeLimits}

theorem min_legalSize (aw ah roundTo t : Nat) :
    min (legalSize aw ah roundTo t).1 (legalSize aw ah roundTo t).2 = roundTo * min aw ah * t := by
  unfold legalSize
  rw [Nat.mul_comm roundTo, Nat.mul_min_mul_right, Nat.mul_min_mul_right]

theorem max_legalSize (aw ah roundTo t : Nat) :
    max (legalSize aw ah roundTo t).1 (legalSize aw ah roundTo t).2 = roundTo * max aw ah * t := by
  unfold legalSize
  rw [Nat.mul_comm roundTo, Nat.mul_max_mul_right, Nat.mul_max_mul_right]

theorem area_legalSize (aw ah roundTo t : Nat) :
    (legalSize aw ah roundTo t).1 * (legalSize aw ah roundTo t).2 = aw * ah * roundTo * roundTo * (t * t) := by
  unfold legalSize
  ring

/-- The units that a long edge leaves room for. -/
theorem longEdge_iff {edge t : Nat} (positive : 0 < roundTo * max aw ah) :
    max (legalSize aw ah roundTo t).1 (legalSize aw ah roundTo t).2 ≤ edge ↔
      t ≤ edge / (roundTo * max aw ah) := by
  rw [max_legalSize, Nat.le_div_iff_mul_le positive, Nat.mul_comm t]

/-- The units that a budget of pixels leaves room for: the root of the floor loses nothing. -/
theorem totalPixels_iff {pixels t : Nat} (positive : 0 < aw * ah * roundTo * roundTo) :
    (legalSize aw ah roundTo t).1 * (legalSize aw ah roundTo t).2 ≤ pixels ↔
      t ≤ Nat.sqrt (pixels / (aw * ah * roundTo * roundTo)) := by
  rw [area_legalSize, Nat.le_sqrt, Nat.le_div_iff_mul_le positive, Nat.mul_comm (t * t)]

/-- The gap in units of the short edge. -/
theorem shortEdgeGap_eq (positive : 0 < roundTo * min aw ah) (t : Nat) :
    (shortEdgeGap (legalSize aw ah roundTo t) shortEdge : ℚ) =
      ((roundTo * min aw ah : Nat) : ℚ) * |(shortEdge : ℚ) / (roundTo * min aw ah : Nat) - (t : Int)| := by
  have unit : (0 : ℚ) < ((roundTo * min aw ah : Nat) : ℚ) := Nat.cast_pos.mpr positive
  have edge : ((min (legalSize aw ah roundTo t).1 (legalSize aw ah roundTo t).2 : Nat) : ℚ) =
      ((roundTo * min aw ah : Nat) : ℚ) * (t : Int) := by
    rw [min_legalSize, Nat.cast_mul, Int.cast_natCast]
  calc (shortEdgeGap (legalSize aw ah roundTo t) shortEdge : ℚ)
      = |((roundTo * min aw ah : Nat) : ℚ) * (t : Int) - shortEdge| := by
        rw [← edge, shortEdgeGap, Int.cast_abs, Int.cast_sub, Int.cast_min, Nat.cast_min,
          Int.cast_natCast, Int.cast_natCast, Int.cast_natCast]
    _ = |((roundTo * min aw ah : Nat) : ℚ) *
          ((shortEdge : ℚ) / (roundTo * min aw ah : Nat) - (t : Int))| := by
        rw [abs_sub_comm, mul_sub, mul_div_cancel₀ _ unit.ne']
    _ = _ := by rw [abs_mul, abs_of_pos unit]

/-- The units that the limit on the long edge leaves room for, if there is one. -/
def SizeLimits.longRoom (limits : SizeLimits) (aw ah roundTo : Nat) : Option Nat :=
  limits.maxLongEdge.map fun edge => edge / (roundTo * max aw ah)

def SizeLimits.pixelRoom (limits : SizeLimits) (aw ah roundTo : Nat) : Option Nat :=
  limits.maxTotalPixels.map fun pixels => Nat.sqrt (pixels / (aw * ah * roundTo * roundTo))

theorem admits_iff (aw_pos : 0 < aw) (ah_pos : 0 < ah) (round_pos : 0 < roundTo) (t : Nat) :
    limits.Admits (legalSize aw ah roundTo t) ↔
      (∀ room ∈ limits.longRoom aw ah roundTo, t ≤ room) ∧
        ∀ room ∈ limits.pixelRoom aw ah roundTo, t ≤ room := by
  have long : 0 < roundTo * max aw ah := Nat.mul_pos round_pos (lt_max_of_lt_left aw_pos)
  have area : 0 < aw * ah * roundTo * roundTo :=
    Nat.mul_pos (Nat.mul_pos (Nat.mul_pos aw_pos ah_pos) round_pos) round_pos
  unfold SizeLimits.Admits SizeLimits.longRoom SizeLimits.pixelRoom
  apply and_congr
  · cases limits.maxLongEdge with
    | none => simp
    | some edge => simp only [Option.mem_def, Option.some.injEq, forall_eq', Option.map_some, longEdge_iff long]
  · cases limits.maxTotalPixels with
    | none => simp
    | some pixels =>
      simp only [Option.mem_def, Option.some.injEq, forall_eq', Option.map_some, totalPixels_iff area]

/-- One clamp of the source. -/
def capped (t : Nat) : Option Nat → Nat
  | none => t
  | some room => min t (max 1 room)

theorem one_le_capped {t : Nat} (positive : 1 ≤ t) (room : Option Nat) : 1 ≤ capped t room := by
  cases room with
  | none => exact positive
  | some room => exact le_min positive (le_max_left 1 room)

theorem capped_le (t : Nat) (room : Option Nat) : capped t room ≤ t := by
  cases room with
  | none => exact Nat.le_refl t
  | some room => exact min_le_left t _

theorem capped_zero {t : Nat} (positive : 1 ≤ t) : capped t (some 0) = 1 := by
  rw [capped, Nat.max_zero]
  exact min_eq_right positive

theorem sizeUnits_eq (aw_pos : 0 < aw) (ah_pos : 0 < ah) (round_pos : 0 < roundTo) :
    sizeUnits aw ah shortEdge roundTo limits =
      capped (capped (max 1 (roundHalfEven ((shortEdge : ℚ) / (roundTo * min aw ah : Nat))).toNat)
        (limits.longRoom aw ah roundTo)) (limits.pixelRoom aw ah roundTo) := by
  have area : 0 < aw * ah * roundTo * roundTo :=
    Nat.mul_pos (Nat.mul_pos (Nat.mul_pos aw_pos ah_pos) round_pos) round_pos
  have least : ∀ t longRoom pixelRoom, 1 ≤ capped (capped (max 1 t) longRoom) pixelRoom :=
    fun t longRoom pixelRoom => one_le_capped (one_le_capped (le_max_left 1 t) longRoom) pixelRoom
  rw [← max_eq_right (least _ (limits.longRoom aw ah roundTo) (limits.pixelRoom aw ah roundTo))]
  unfold sizeUnits SizeLimits.longRoom SizeLimits.pixelRoom
  simp only [if_pos area]
  cases limits.maxLongEdge <;> cases limits.maxTotalPixels <;> rfl

/-- The units that every limit has room for. -/
def roomy (aw ah roundTo : Nat) (limits : SizeLimits) : Set ℤ :=
  fun t => 1 ≤ t ∧ (∀ room ∈ limits.longRoom aw ah roundTo, t ≤ (room : ℤ)) ∧
    ∀ room ∈ limits.pixelRoom aw ah roundTo, t ≤ (room : ℤ)

/-- A clamp keeps the nearest of the units that are left, if one unit is. -/
theorem nearest_capped {S : Set ℤ} {x : ℚ} {t : Nat} {room : Option Nat}
    (nearest : Nearest S x (t : ℤ)) (below : ∀ n ∈ S, ∀ m, 1 ≤ m → m ≤ n → m ∈ S)
    (positive : 1 ≤ t) (fits : ∀ r ∈ room, 1 ≤ r) :
    Nearest (S ∩ fun n => ∀ r ∈ room, n ≤ (r : ℤ)) x (capped t room : Nat) := by
  cases room with
  | none =>
    have same : (S ∩ fun n => ∀ r ∈ (none : Option Nat), n ≤ (r : ℤ)) = S :=
      Set.inter_eq_left.mpr fun n _ r none => nomatch none
    rw [same]
    exact nearest
  | some room =>
    have one : 1 ≤ room := fits room rfl
    have same : (S ∩ fun n => ∀ r ∈ some room, n ≤ (r : ℤ)) = S ∩ Set.Iic (room : ℤ) := by
      ext n
      simp only [Set.mem_inter_iff, Set.mem_Iic, Option.mem_def, Option.some.injEq, forall_eq']
      rfl
    have inside : min (t : ℤ) room ∈ S :=
      below t nearest.1 _ (le_min (by omega) (by omega)) (min_le_left _ _)
    rw [same, capped, max_eq_right one, Nat.cast_min]
    exact nearest.min inside

theorem nearest_sizeUnits (aw_pos : 0 < aw) (ah_pos : 0 < ah) (round_pos : 0 < roundTo)
    (fits : limits.Admits (legalSize aw ah roundTo 1)) :
    Nearest (roomy aw ah roundTo limits) ((shortEdge : ℚ) / (roundTo * min aw ah : Nat))
      (sizeUnits aw ah shortEdge roundTo limits : Nat) := by
  have rooms := (admits_iff aw_pos ah_pos round_pos 1).mp fits
  rw [sizeUnits_eq aw_pos ah_pos round_pos]
  unfold roomy
  generalize (shortEdge : ℚ) / (roundTo * min aw ah : Nat) = x
  generalize limits.longRoom aw ah roundTo = longRoom at *
  generalize limits.pixelRoom aw ah roundTo = pixelRoom at *
  have started : Nearest (Set.univ ∩ Set.Ici 1) x ((max 1 (roundHalfEven x).toNat : Nat) : ℤ) := by
    have cast : ((max 1 (roundHalfEven x).toNat : Nat) : ℤ) = max 1 (roundHalfEven x) := by omega
    rw [cast]
    exact (nearest_roundHalfEven x).max (Set.mem_univ _)
  have long := nearest_capped started (fun n _ m one _ => ⟨Set.mem_univ m, one⟩) (le_max_left 1 _) rooms.1
  have pixels := nearest_capped long
    (fun n member m one le => ⟨⟨Set.mem_univ m, one⟩, fun room known => le.trans (member.2 room known)⟩)
    (one_le_capped (le_max_left 1 _) longRoom) rooms.2
  have same : (Set.univ ∩ Set.Ici 1 ∩ (fun n => ∀ r ∈ longRoom, n ≤ (r : ℤ)) ∩
      fun n => ∀ r ∈ pixelRoom, n ≤ (r : ℤ)) =
      fun n : ℤ => 1 ≤ n ∧ (∀ r ∈ longRoom, n ≤ (r : ℤ)) ∧ ∀ r ∈ pixelRoom, n ≤ (r : ℤ) := by
    ext n
    exact ⟨fun member => ⟨member.1.1.2, member.1.2, member.2⟩,
      fun member => ⟨⟨⟨Set.mem_univ n, member.1⟩, member.2.1⟩, member.2.2⟩⟩
  rw [same] at pixels
  exact pixels

theorem mem_roomy (aw_pos : 0 < aw) (ah_pos : 0 < ah) (round_pos : 0 < roundTo) {t : Nat} :
    (t : ℤ) ∈ roomy aw ah roundTo limits ↔ 1 ≤ t ∧ limits.Admits (legalSize aw ah roundTo t) := by
  rw [admits_iff aw_pos ah_pos round_pos]
  change (1 ≤ (t : ℤ) ∧ _) ↔ _
  simp only [Nat.one_le_cast, Nat.cast_le]

/-- A limit that has no room for one unit makes it one all the same. -/
theorem sizeUnits_of_not_admits (aw_pos : 0 < aw) (ah_pos : 0 < ah) (round_pos : 0 < roundTo)
    (tight : ¬limits.Admits (legalSize aw ah roundTo 1)) : sizeUnits aw ah shortEdge roundTo limits = 1 := by
  rw [admits_iff aw_pos ah_pos round_pos] at tight
  rw [sizeUnits_eq aw_pos ah_pos round_pos]
  generalize (shortEdge : ℚ) / (roundTo * min aw ah : Nat) = x
  generalize limits.longRoom aw ah roundTo = longRoom at *
  generalize limits.pixelRoom aw ah roundTo = pixelRoom at *
  have one : 1 ≤ max 1 (roundHalfEven x).toNat := le_max_left 1 _
  have none (room : Option Nat) (small : ¬∀ r ∈ room, 1 ≤ r) : room = some 0 := by
    cases room with
    | none => exact absurd (fun r known => nomatch known) small
    | some r =>
      have zero : r = 0 := by
        by_contra more
        exact small fun r' known => by rw [← Option.some.inj known]; omega
      rw [zero]
  by_cases long : ∀ r ∈ longRoom, 1 ≤ r
  · rw [none pixelRoom fun pixels => tight ⟨long, pixels⟩]
    exact capped_zero (one_le_capped one longRoom)
  · rw [none longRoom long, capped_zero one]
    exact Nat.le_antisymm (capped_le 1 pixelRoom) (one_le_capped (Nat.le_refl 1) pixelRoom)

end Units

/-- The size has the reduced ratio and is a multiple of the least one. If the least one is within the
limits, the size is too, and no other size within them has a short edge nearer to the one asked for. -/
theorem aspectSize_best (decimal : Char → Option Nat) (aspectRatio : List Char) (shortEdge : Nat)
    {roundTo : Nat} (round_pos : 0 < roundTo) (limits : SizeLimits) :
    ∃ aw ah t, 0 < aw ∧ 0 < ah ∧ Nat.Coprime aw ah ∧
      (∀ m n, ratioParts decimal aspectRatio = some (m, n) → m * ah = n * aw) ∧ 1 ≤ t ∧
      aspectSize decimal aspectRatio shortEdge roundTo limits = legalSize aw ah roundTo t ∧
      (limits.Admits (legalSize aw ah roundTo 1) → limits.Admits (legalSize aw ah roundTo t) ∧
        ∀ t', 1 ≤ t' → limits.Admits (legalSize aw ah roundTo t') →
          shortEdgeGap (legalSize aw ah roundTo t) shortEdge ≤
            shortEdgeGap (legalSize aw ah roundTo t') shortEdge) ∧
      (¬limits.Admits (legalSize aw ah roundTo 1) → t = 1) := by
  have reduced := parseAspectRatio_reduced decimal aspectRatio
  cases parsed : parseAspectRatio decimal aspectRatio with
  | mk aw ah =>
    rw [parsed] at reduced
    obtain ⟨aw_pos, ah_pos, coprime, ratio⟩ := reduced
    have unit : 0 < roundTo * min aw ah := Nat.mul_pos round_pos (lt_min aw_pos ah_pos)
    have size : aspectSize decimal aspectRatio shortEdge roundTo limits =
        legalSize aw ah roundTo (sizeUnits aw ah shortEdge roundTo limits) := by
      unfold aspectSize
      rw [parsed]
    have one : 1 ≤ sizeUnits aw ah shortEdge roundTo limits := by
      rw [sizeUnits_eq aw_pos ah_pos round_pos]
      exact one_le_capped (one_le_capped (le_max_left 1 _) _) _
    refine ⟨aw, ah, sizeUnits aw ah shortEdge roundTo limits, aw_pos, ah_pos, coprime, ratio, one, size,
      ?_, sizeUnits_of_not_admits aw_pos ah_pos round_pos⟩
    intro fits
    have nearest : Nearest (roomy aw ah roundTo limits) ((shortEdge : ℚ) / (roundTo * min aw ah : Nat))
        (sizeUnits aw ah shortEdge roundTo limits : Nat) :=
      nearest_sizeUnits aw_pos ah_pos round_pos fits
    refine ⟨((mem_roomy aw_pos ah_pos round_pos).mp nearest.1).2, ?_⟩
    intro t' one' fits'
    have nearer := nearest.2 t' ((mem_roomy aw_pos ah_pos round_pos).mpr ⟨one', fits'⟩)
    have gap : (shortEdgeGap (legalSize aw ah roundTo (sizeUnits aw ah shortEdge roundTo limits))
        shortEdge : ℚ) ≤ shortEdgeGap (legalSize aw ah roundTo t') shortEdge := by
      rw [shortEdgeGap_eq unit, shortEdgeGap_eq unit]
      exact mul_le_mul_of_nonneg_left nearer (Nat.cast_nonneg _)
    exact Int.cast_le.mp gap

/-- The digits of ASCII. -/
def asciiDecimal (c : Char) : Option Nat := if c.isDigit then some (c.toNat - '0'.toNat) else none

/-- Seven and a half units are asked for; eight would be nearest to even, but the edge has room for
seven. -/
theorem aspectSize_best_wide :
    0 < 16 ∧ ratioParts asciiDecimal "1280:720".toList = some (1280, 720) ∧
      aspectSize asciiDecimal "1280:720".toList 1080 16 ⟨some 1920, none⟩ = (1792, 1008) ∧
      ∃ aw ah t, 0 < aw ∧ 0 < ah ∧ Nat.Coprime aw ah ∧
        (∀ m n, ratioParts asciiDecimal "1280:720".toList = some (m, n) → m * ah = n * aw) ∧ 1 ≤ t ∧
        aspectSize asciiDecimal "1280:720".toList 1080 16 ⟨some 1920, none⟩ = legalSize aw ah 16 t ∧
        ((SizeLimits.mk (some 1920) none).Admits (legalSize aw ah 16 1) →
          (SizeLimits.mk (some 1920) none).Admits (legalSize aw ah 16 t) ∧
            ∀ t', 1 ≤ t' → (SizeLimits.mk (some 1920) none).Admits (legalSize aw ah 16 t') →
              shortEdgeGap (legalSize aw ah 16 t) 1080 ≤ shortEdgeGap (legalSize aw ah 16 t') 1080) ∧
        (¬(SizeLimits.mk (some 1920) none).Admits (legalSize aw ah 16 1) → t = 1) :=
  ⟨by decide, by decide, by decide +kernel,
    aspectSize_best asciiDecimal "1280:720".toList 1080 (by decide) ⟨some 1920, none⟩⟩

end ArcReel.Media
