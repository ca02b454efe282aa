import ArcReel.Billing.CostPage

/-! What the episodes of the cost page claim is what they show. -/

namespace ArcReel.Billing
open Lib

section Amounts

theorem amountIn_set (cost : CostBreakdown) (key currency : String) (amount : Int) :
    amountIn currency (cost.set key amount) = if currency = key then amount else amountIn currency cost := by
  rw [amountIn, Dict.get?_set]
  split <;> rfl

theorem amountIn_of_isEmpty {cost : CostBreakdown} (empty : cost.entries.isEmpty = true)
    (currency : String) : amountIn currency cost = 0 := by
  rw [amountIn, Dict.get?, List.isEmpty_iff.mp empty]
  rfl

theorem amountIn_empty (currency : String) : amountIn currency .empty = 0 := rfl

theorem lookup_of_not_mem {entries : List (String × Int)} {key : String}
    (missing : key ∉ entries.map Prod.fst) : entries.lookup key = none := by
  rw [List.lookup_eq_none_iff]
  intro other member
  rw [bne_iff_ne]
  intro same
  exact missing (List.mem_map.mpr ⟨other, member, same.symm⟩)

/-- One entry after the other is added. -/
theorem amountIn_foldl_add {entries : List (String × Int)} (distinct : (entries.map Prod.fst).Nodup)
    (start : CostBreakdown) (currency : String) :
    amountIn currency (entries.foldl (fun merged entry =>
      merged.set entry.1 (amountIn entry.1 merged + entry.2)) start) =
        amountIn currency start + (entries.lookup currency).getD 0 := by
  induction entries generalizing start with
  | nil => simp
  | cons entry entries ih =>
    rw [List.map_cons, List.nodup_cons] at distinct
    rw [List.foldl_cons, ih distinct.2, amountIn_set, List.lookup_cons]
    by_cases here : currency = entry.1
    · rw [if_pos here, here, lookup_of_not_mem distinct.1, beq_self_eq_true]
      simp
    · rw [if_neg here, beq_false_of_ne here]

theorem amountIn_merge (a b : CostBreakdown) (currency : String) :
    amountIn currency (mergeBreakdowns a b) = amountIn currency a + amountIn currency b :=
  amountIn_foldl_add b.distinct a currency

/-- All that a dictionary of breakdowns holds in one currency. -/
def totalIn {κ : Type} (currency : String) (costs : Dict κ CostBreakdown) : Int :=
  costs.total (amountIn currency)

theorem amountIn_breakdown (byType : Dict String CostBreakdown) (costType currency : String) :
    amountIn currency (breakdown byType costType) =
      ((byType.get? costType).map (amountIn currency)).getD 0 := by
  rw [breakdown]
  cases byType.get? costType <;> rfl

theorem amountIn_breakdown_empty (costType currency : String) :
    amountIn currency (breakdown .empty costType) = 0 := rfl

theorem breakdown_set (byType : Dict String CostBreakdown) (key costType : String) (cost : CostBreakdown) :
    breakdown (byType.set key cost) costType = if costType = key then cost else breakdown byType costType := by
  rw [breakdown, Dict.get?_set]
  split <;> rfl

theorem totalIn_merged (byType : Dict String CostBreakdown) (costType currency : String)
    (cost : CostBreakdown) :
    totalIn currency (byType.set costType (mergeBreakdowns (breakdown byType costType) cost)) =
      totalIn currency byType + amountIn currency cost := by
  rw [totalIn, Dict.total_set, amountIn_merge, amountIn_breakdown, totalIn]
  omega

end Amounts

section ByType

/-- The amounts of the three types of cost. -/
def sumOfTypes (currency : String) (costs : String → CostBreakdown) : Int :=
  (actualCostTypes.map fun costType => amountIn currency (costs costType)).sum

theorem totalIn_addByType (totals : Dict String CostBreakdown) (costs : String → CostBreakdown)
    (currency : String) :
    totalIn currency (addByType totals costs) = totalIn currency totals + sumOfTypes currency costs := by
  simp only [addByType, actualCostTypes, List.foldl_cons, List.foldl_nil, totalIn_merged, sumOfTypes,
    List.map_cons, List.map_nil, List.sum_cons, List.sum_nil]
  omega

theorem get?_addByType {totals : Dict String CostBreakdown} {costs : String → CostBreakdown} {key : String}
    (other : key ∉ actualCostTypes) : (addByType totals costs).get? key = totals.get? key := by
  simp only [actualCostTypes, List.mem_cons, List.not_mem_nil, or_false, not_or] at other
  simp only [addByType, actualCostTypes, List.foldl_cons, List.foldl_nil, Dict.get?_set, other, if_false]

theorem amountIn_addByType (totals : Dict String CostBreakdown) (costs : String → CostBreakdown)
    {costType : String} (member : costType ∈ actualCostTypes) (currency : String) :
    amountIn currency (breakdown (addByType totals costs) costType) =
      amountIn currency (breakdown totals costType) + amountIn currency (costs costType) := by
  simp only [actualCostTypes, List.mem_cons, List.not_mem_nil, or_false] at member
  rcases member with same | same | same
  all_goals
    rw [same]
    simp [addByType, actualCostTypes, breakdown_set, amountIn_merge]

/-- The totals of an episode are the sums over its segments. -/
theorem amountIn_episodeTotals (segments : List SegmentCost) {costType : String}
    (member : costType ∈ actualCostTypes) (currency : String) :
    amountIn currency (breakdown (episodeTotals segments) costType) =
      (segments.map fun segment => amountIn currency (segment.ofType costType)).sum := by
  have general : ∀ totals : Dict String CostBreakdown,
      amountIn currency (breakdown (segments.foldl (fun totals segment =>
        addByType totals segment.ofType) totals) costType) =
        amountIn currency (breakdown totals costType) +
          (segments.map fun segment => amountIn currency (segment.ofType costType)).sum := by
    induction segments with
    | nil => simp
    | cons segment segments ih =>
      intro totals
      rw [List.foldl_cons, ih, amountIn_addByType totals segment.ofType member, List.map_cons, List.sum_cons]
      omega
  have start := general .empty
  rwa [amountIn_breakdown_empty, Int.zero_add] at start

def segmentsIn (currency : String) (segments : List SegmentCost) : Int :=
  (segments.map fun segment => sumOfTypes currency segment.ofType).sum

theorem sumOfTypes_episodeTotals (segments : List SegmentCost) (currency : String) :
    sumOfTypes currency (breakdown (episodeTotals segments)) = segmentsIn currency segments := by
  have each : ∀ costType ∈ actualCostTypes, amountIn currency (breakdown (episodeTotals segments) costType) =
      (segments.map fun segment => amountIn currency (segment.ofType costType)).sum :=
    fun costType member => amountIn_episodeTotals segments member currency
  rw [sumOfTypes, List.map_congr_left each, segmentsIn]
  simp only [sumOfTypes, actualCostTypes, List.map_cons, List.map_nil, List.sum_cons, List.sum_nil,
    Int.add_zero]
  induction segments with
  | nil => rfl
  | cons segment segments ih =>
    have rest := ih fun costType member => amountIn_episodeTotals segments member currency
    simp only [List.map_cons, List.sum_cons]
    omega

end ByType

section Claiming

variable (actual : ActualBySegment)

/-- The amount of a segment and a type. -/
def amountOf (currency : String) (slot : String × String) : Int :=
  amountIn currency (breakdown ((actual.get? slot.1).getD .empty) slot.2)

/-- What was claimed so far. -/
def claimedIn (currency : String) (claimed : Claimed) : Int :=
  ∑ slot ∈ claimed, amountOf actual currency slot

/-- One type of a segment is claimed. -/
def claimType (segmentId : String) (state : Dict String CostBreakdown × Claimed) (costType : String) :
    Dict String CostBreakdown × Claimed :=
  if (segmentId, costType) ∈ state.2 then state
  else
    let amounts := breakdown ((actual.get? segmentId).getD .empty) costType
    (if amounts.entries.isEmpty then state.1 else state.1.set costType amounts,
      insert (segmentId, costType) state.2)

variable {actual}

theorem claimActual_eq (claimed : Claimed) {segmentId : String} (named : segmentId ≠ "")
    (costTypes : List String) :
    claimActual actual claimed segmentId costTypes =
      costTypes.foldl (claimType actual segmentId) (.empty, claimed) := by
  rw [claimActual, if_neg named]
  rfl

theorem get?_claimType_of_ne {segmentId costType other : String} (apart : other ≠ costType)
    (state : Dict String CostBreakdown × Claimed) :
    (claimType actual segmentId state costType).1.get? other = state.1.get? other := by
  unfold claimType
  split
  · rfl
  · dsimp only
    split
    · rfl
    · rw [Dict.get?_set, if_neg apart]

theorem get?_foldl_claimType {segmentId : String} {costTypes : List String} {other : String}
    (apart : other ∉ costTypes) (state : Dict String CostBreakdown × Claimed) :
    (costTypes.foldl (claimType actual segmentId) state).1.get? other = state.1.get? other := by
  induction costTypes generalizing state with
  | nil => rfl
  | cons costType costTypes ih =>
    rw [List.mem_cons, not_or] at apart
    rw [List.foldl_cons, ih apart.2, get?_claimType_of_ne apart.1]

/-- What one step claims is what it returns. -/
theorem claimedIn_claimType {segmentId costType currency : String}
    {state : Dict String CostBreakdown × Claimed} (fresh : state.1.get? costType = none) :
    claimedIn actual currency (claimType actual segmentId state costType).2 =
      claimedIn actual currency state.2 +
        amountIn currency (breakdown (claimType actual segmentId state costType).1 costType) := by
  unfold claimType
  split
  · rw [breakdown, fresh, Option.getD_none, amountIn_empty, Int.add_zero]
  · next unclaimed =>
    dsimp only
    rw [claimedIn, Finset.sum_insert unclaimed, Int.add_comm]
    congr 1
    split
    · next empty =>
      rw [breakdown, fresh, Option.getD_none, amountIn_empty]
      exact amountIn_of_isEmpty empty currency
    · rw [breakdown_set, if_pos rfl]
      rfl

theorem claimedIn_foldl {segmentId currency : String} {costTypes : List String} (distinct : costTypes.Nodup)
    {state : Dict String CostBreakdown × Claimed} (fresh : ∀ costType ∈ costTypes, state.1.get? costType = none) :
    claimedIn actual currency (costTypes.foldl (claimType actual segmentId) state).2 =
      claimedIn actual currency state.2 + (costTypes.map fun costType => amountIn currency
        (breakdown (costTypes.foldl (claimType actual segmentId) state).1 costType)).sum := by
  induction costTypes generalizing state with
  | nil => simp
  | cons costType costTypes ih =>
    rw [List.nodup_cons] at distinct
    have later : ∀ other ∈ costTypes, (claimType actual segmentId state costType).1.get? other = none := by
      intro other member
      rw [get?_claimType_of_ne]
      · exact fresh other (List.mem_cons_of_mem _ member)
      · intro same
        exact distinct.1 (same ▸ member)
    have own : breakdown (costTypes.foldl (claimType actual segmentId)
        (claimType actual segmentId state costType)).1 costType =
          breakdown (claimType actual segmentId state costType).1 costType := by
      rw [breakdown, get?_foldl_claimType distinct.1, breakdown]
    rw [List.foldl_cons, ih distinct.2 later, claimedIn_claimType (fresh costType List.mem_cons_self),
      List.map_cons, List.sum_cons, own]
    omega

/-- A claim takes the amounts that it returns. -/
theorem claimedIn_claimActual (claimed : Claimed) (segmentId currency : String) {costTypes : List String}
    (distinct : costTypes.Nodup) :
    claimedIn actual currency (claimActual actual claimed segmentId costTypes).2 =
      claimedIn actual currency claimed + (costTypes.map fun costType => amountIn currency
        (breakdown (claimActual actual claimed segmentId costTypes).1 costType)).sum := by
  by_cases named : segmentId = ""
  · rw [claimActual, if_pos named]
    have nothing : (costTypes.map fun costType => amountIn currency (breakdown .empty costType)).sum = 0 :=
      List.sum_eq_zero fun amount member => by
        obtain ⟨_, _, same⟩ := List.mem_map.mp member
        exact same.symm
    rw [nothing, Int.add_zero]
  · rw [claimActual_eq claimed named]
    exact claimedIn_foldl distinct fun _ _ => rfl

/-- What is claimed is of the segment and of a type that was asked for. -/
theorem mem_claimActual {claimed : Claimed} {segmentId : String} {costTypes : List String}
    {slot : String × String} (member : slot ∈ (claimActual actual claimed segmentId costTypes).2) :
    slot ∈ claimed ∨ (slot.1 = segmentId ∧ slot.2 ∈ costTypes) := by
  by_cases named : segmentId = ""
  · rw [claimActual, if_pos named] at member
    exact .inl member
  · rw [claimActual_eq claimed named] at member
    have general : ∀ state : Dict String CostBreakdown × Claimed,
        slot ∈ (costTypes.foldl (claimType actual segmentId) state).2 →
          slot ∈ state.2 ∨ (slot.1 = segmentId ∧ slot.2 ∈ costTypes) := by
      clear member
      induction costTypes with
      | nil => exact fun state member => .inl member
      | cons costType costTypes ih =>
        intro state member
        rcases ih (claimType actual segmentId state costType) member with before | ⟨same, among⟩
        · unfold claimType at before
          split at before
          · exact .inl before
          · rcases Finset.mem_insert.mp before with here | old
            · rw [here]
              exact .inr ⟨rfl, List.mem_cons_self⟩
            · exact .inl old
        · exact .inr ⟨same, List.mem_cons_of_mem _ among⟩
    exact general _ member

theorem claimedIn_claimValue {claimed after : Claimed} {segmentId : Json} {own : Dict String CostBreakdown}
    (found : claimValue actual claimed segmentId = some (own, after)) (currency : String) :
    claimedIn actual currency after = claimedIn actual currency claimed +
      sumOfTypes currency (breakdown own) := by
  unfold claimValue at found
  split at found
  · rw [Option.some.injEq, Prod.ext_iff] at found
    dsimp only at found
    rw [← found.1, ← found.2]
    exact claimedIn_claimActual claimed _ currency (by decide)
  · cases found
  · cases found
  · rw [Option.some.injEq, Prod.mk.injEq] at found
    rw [← found.1, ← found.2]
    exact (Int.add_zero _).symm

theorem mem_claimValue {claimed after : Claimed} {segmentId : Json} {own : Dict String CostBreakdown}
    (found : claimValue actual claimed segmentId = some (own, after)) {slot : String × String}
    (member : slot ∈ after) : slot ∈ claimed ∨ (segmentId = .str slot.1 ∧ slot.2 ∈ actualCostTypes) := by
  unfold claimValue at found
  split at found
  · rw [Option.some.injEq, Prod.ext_iff] at found
    dsimp only at found
    rw [← found.2] at member
    exact (mem_claimActual member).imp_right fun own => ⟨by rw [own.1], own.2⟩
  · cases found
  · cases found
  · rw [Option.some.injEq, Prod.mk.injEq] at found
    rw [← found.2] at member
    exact .inl member

end Claiming

end ArcReel.Billing
