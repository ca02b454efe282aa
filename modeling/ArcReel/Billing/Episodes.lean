import ArcReel.Billing.Claims

/-! The costs of grids are shared out without remainder, and the episodes show what they claim. -/

namespace ArcReel.Billing
open Lib

section Split

theorem amountIn_mapValues (cost : CostBreakdown) (change : String → Int → Int) (currency : String) :
    amountIn currency (cost.mapValues change) = ((cost.get? currency).map (change currency)).getD 0 := by
  rw [amountIn, Dict.get?_mapValues]

/-- The last part gets what the rounding of the others leaves. -/
theorem sum_splitCostAcross (cost : CostBreakdown) {parts : Nat} (several : parts ≠ 0) (currency : String) :
    ((splitCostAcross cost parts).map (amountIn currency)).sum = amountIn currency cost := by
  obtain ⟨others, rfl⟩ := Nat.exists_eq_succ_of_ne_zero several
  simp only [splitCostAcross, List.map_map, Function.comp_def, amountIn_mapValues]
  rw [amountIn]
  cases cost.get? currency with
  | none => simp
  | some amount =>
    simp only [Option.map_some, Option.getD_some]
    rw [List.range_succ, List.map_append, List.sum_append, List.map_singleton, List.sum_singleton,
      if_neg (by omega)]
    have even : ∀ index ∈ List.range others,
        (if index + 1 < others.succ then roundedShare amount others.succ
          else amount - roundedShare amount others.succ * ((others.succ : Int) - 1)) =
          roundedShare amount others.succ := by
      intro index member
      rw [List.mem_range] at member
      rw [if_pos (by omega)]
    rw [List.map_congr_left even, List.map_const', List.sum_replicate, List.length_range, nsmul_eq_mul]
    push_cast
    ring

theorem length_splitCostAcross (cost : CostBreakdown) (parts : Nat) :
    (splitCostAcross cost parts).length = parts := by
  rw [splitCostAcross, List.length_map, List.length_range]

theorem get?_foldl_set {entries : List (Nat × CostBreakdown)} {index : Nat}
    (apart : index ∉ entries.map Prod.fst) (shares : Dict Nat CostBreakdown) :
    (entries.foldl (fun shares share => shares.set share.1 share.2) shares).get? index =
      shares.get? index := by
  induction entries generalizing shares with
  | nil => rfl
  | cons entry entries ih =>
    rw [List.map_cons, List.mem_cons, not_or] at apart
    rw [List.foldl_cons, ih apart.2, Dict.get?_set, if_neg apart.1]

/-- New entries add up. -/
theorem totalIn_foldl_set {entries : List (Nat × CostBreakdown)} (distinct : (entries.map Prod.fst).Nodup)
    {shares : Dict Nat CostBreakdown} (fresh : ∀ index ∈ entries.map Prod.fst, shares.get? index = none)
    (currency : String) :
    totalIn currency (entries.foldl (fun shares share => shares.set share.1 share.2) shares) =
      totalIn currency shares + (entries.map fun entry => amountIn currency entry.2).sum := by
  induction entries generalizing shares with
  | nil => simp
  | cons entry entries ih =>
    rw [List.map_cons, List.nodup_cons] at distinct
    have later : ∀ index ∈ entries.map Prod.fst, (shares.set entry.1 entry.2).get? index = none := by
      intro index member
      rw [Dict.get?_set, if_neg]
      · exact fresh index (List.mem_cons_of_mem _ member)
      · intro same
        exact distinct.1 (same ▸ member)
    rw [List.foldl_cons, ih distinct.2 later, totalIn, Dict.total_set_new (fresh entry.1 List.mem_cons_self),
      List.map_cons, List.sum_cons, totalIn]
    omega

end Split

section Grids

variable {actual : ActualBySegment}

/-- The positions that an entry of `grid_to_indices` splits its costs over. -/
def gridShares (cost : CostBreakdown) (indices : List Nat) : List (Nat × CostBreakdown) :=
  indices.zip (splitCostAcross cost indices.length)

theorem fst_gridShares (cost : CostBreakdown) (indices : List Nat) :
    (gridShares cost indices).map Prod.fst = indices := by
  rw [gridShares, List.map_fst_zip (by rw [length_splitCostAcross])]

theorem sum_gridShares (cost : CostBreakdown) {indices : List Nat} (filled : indices ≠ []) (currency : String) :
    ((gridShares cost indices).map fun entry => amountIn currency entry.2).sum = amountIn currency cost := by
  have second : (gridShares cost indices).map Prod.snd = splitCostAcross cost indices.length := by
    rw [gridShares, List.map_snd_zip (by rw [length_splitCostAcross])]
  rw [← sum_splitCostAcross cost (by rwa [ne_eq, List.length_eq_zero_iff]) currency, ← second, List.map_map]
  rfl

theorem shareGrid_fst (state : Dict Nat CostBreakdown × Claimed) (grid : String × List Nat) :
    (shareGrid actual state grid).1 =
      if (breakdown (claimActual actual state.2 grid.1 ["image"]).1 "image").entries.isEmpty then state.1
      else (gridShares (breakdown (claimActual actual state.2 grid.1 ["image"]).1 "image") grid.2).foldl
        (fun shares share => shares.set share.1 share.2) state.1 := rfl

theorem get?_shareGrid {grid : String × List Nat} {index : Nat} (apart : index ∉ grid.2)
    (state : Dict Nat CostBreakdown × Claimed) :
    (shareGrid actual state grid).1.get? index = state.1.get? index := by
  rw [shareGrid_fst]
  split
  · rfl
  · exact get?_foldl_set (by rwa [fst_gridShares]) state.1

/-- What a grid claims is what its positions get. -/
theorem totalIn_shareGrid {grid : String × List Nat} (distinct : grid.2.Nodup) (filled : grid.2 ≠ [])
    {state : Dict Nat CostBreakdown × Claimed} (fresh : ∀ index ∈ grid.2, state.1.get? index = none)
    (currency : String) :
    totalIn currency (shareGrid actual state grid).1 + claimedIn actual currency state.2 =
      totalIn currency state.1 + claimedIn actual currency (shareGrid actual state grid).2 := by
  have claim : claimedIn actual currency (shareGrid actual state grid).2 = _ :=
    claimedIn_claimActual state.2 grid.1 currency (List.nodup_singleton "image")
  rw [claim, shareGrid_fst, List.map_singleton, List.sum_singleton]
  split
  · next empty =>
    rw [amountIn_of_isEmpty empty]
    omega
  · rw [totalIn_foldl_set (by rwa [fst_gridShares]) (by rwa [fst_gridShares]), sum_gridShares _ filled]
    omega

theorem gridActual_spec {grids : List (String × List Nat)} (distinct : (grids.map Prod.snd).flatten.Nodup)
    (filled : ∀ grid ∈ grids, grid.2 ≠ []) {state : Dict Nat CostBreakdown × Claimed}
    (fresh : ∀ index ∈ (grids.map Prod.snd).flatten, state.1.get? index = none) (currency : String) :
    totalIn currency (grids.foldl (shareGrid actual) state).1 + claimedIn actual currency state.2 =
      totalIn currency state.1 + claimedIn actual currency (grids.foldl (shareGrid actual) state).2 := by
  induction grids generalizing state with
  | nil => rfl
  | cons grid grids ih =>
    rw [List.map_cons, List.flatten_cons] at distinct fresh
    obtain ⟨own, rest, apart⟩ := List.nodup_append.mp distinct
    have first : totalIn currency (shareGrid actual state grid).1 + claimedIn actual currency state.2 = _ :=
      totalIn_shareGrid own (filled grid List.mem_cons_self)
        (fun index member => fresh index (List.mem_append_left _ member)) currency
    have unset : ∀ index ∈ (grids.map Prod.snd).flatten,
        (shareGrid actual state grid).1.get? index = none := by
      intro index member
      rw [get?_shareGrid]
      · exact fresh index (List.mem_append_right _ member)
      · intro here
        exact apart index here index member rfl
    have later := ih rest (fun other member => filled other (List.mem_cons_of_mem _ member)) unset
    rw [List.foldl_cons]
    omega

theorem get?_gridActual {grids : List (String × List Nat)} {index : Nat}
    (apart : index ∉ (grids.map Prod.snd).flatten) (state : Dict Nat CostBreakdown × Claimed) :
    (grids.foldl (shareGrid actual) state).1.get? index = state.1.get? index := by
  induction grids generalizing state with
  | nil => rfl
  | cons grid grids ih =>
    rw [List.map_cons, List.flatten_cons, List.mem_append, not_or] at apart
    rw [List.foldl_cons, ih apart.2, get?_shareGrid apart.1]

theorem mem_gridActual {grids : List (String × List Nat)} {state : Dict Nat CostBreakdown × Claimed}
    {slot : String × String} (member : slot ∈ (grids.foldl (shareGrid actual) state).2) :
    slot ∈ state.2 ∨ (slot.1 ∈ grids.map Prod.fst ∧ slot.2 ∈ actualCostTypes) := by
  induction grids generalizing state with
  | nil => exact .inl member
  | cons grid grids ih =>
    rcases ih member with before | ⟨among, ofType⟩
    · rcases mem_claimActual before with old | ⟨same, ofType⟩
      · exact .inl old
      · rw [List.mem_singleton] at ofType
        exact .inr ⟨by rw [same]; exact List.mem_cons_self, by rw [ofType]; decide⟩
    · exact .inr ⟨List.mem_cons_of_mem _ among, ofType⟩

/-- Every position below the bound is in one grid at most, no grid is empty, and the grids are named by
the items. -/
structure GridsInv (grids : Dict String (List Nat)) (bound : Nat) (named : List Json) : Prop where
  distinct : grids.values.flatten.Nodup
  below : ∀ index ∈ grids.values.flatten, index < bound
  filled : ∀ group ∈ grids.values, group ≠ []
  names : ∀ grid ∈ grids.keys, .str grid ∈ named

/-- One item goes to the group of its grid. -/
def groupItem (idKey : String) (grids : Dict String (List Nat)) (item : Json × Nat) : Dict String (List Nat) :=
  match gridId idKey item.1 with
  | .str grid => grids.addTo grid item.2
  | _ => grids

theorem GridsInv.step {idKey : String} {grids : Dict String (List Nat)} {bound : Nat} {named : List Json}
    (inv : GridsInv grids bound named) (item : Json) :
    GridsInv (groupItem idKey grids (item, bound)) (bound + 1) (named ++ [gridId idKey item]) := by
  unfold groupItem
  dsimp only
  split
  · next grid isGrid =>
    have perm := Dict.flatten_addTo grids grid bound
    constructor
    · rw [perm.nodup_iff, List.nodup_cons]
      exact ⟨fun member => Nat.lt_irrefl _ (inv.below bound member), inv.distinct⟩
    · intro index member
      rcases List.mem_cons.mp (perm.mem_iff.mp member) with here | old
      · omega
      · have := inv.below index old
        omega
    · intro group member
      rcases Dict.mem_addTo member with old | inside
      · exact inv.filled group old
      · exact List.ne_nil_of_mem inside
    · intro other member
      rw [Dict.addTo, Dict.mem_keys_set] at member
      rcases member with old | here
      · exact List.mem_append_left _ (inv.names other old)
      · rw [here, isGrid]
        exact List.mem_append_right _ List.mem_cons_self
  · exact ⟨inv.distinct, fun index member => (inv.below index member).trans (Nat.lt_succ_self _), inv.filled,
      fun grid member => List.mem_append_left _ (inv.names grid member)⟩

theorem gridsInv_run {idKey : String} (items : List Json) {grids : Dict String (List Nat)} {bound : Nat}
    {named : List Json} (inv : GridsInv grids bound named) :
    GridsInv ((items.zipIdx bound).foldl (groupItem idKey) grids) (bound + items.length)
      (named ++ items.map (gridId idKey)) := by
  induction items generalizing grids bound named with
  | nil => simpa using inv
  | cons item items ih =>
    have step : GridsInv (groupItem idKey grids (item, bound)) (bound + 1) _ := inv.step item
    have rest := ih step
    rw [List.zipIdx_cons, List.foldl_cons]
    simpa [Nat.add_assoc, Nat.add_comm 1] using rest

theorem gridsInv_gridToIndices (idKey : String) (items : List Json) :
    GridsInv (gridToIndices idKey items) items.length (items.map (gridId idKey)) := by
  have start : GridsInv .empty 0 [] := by
    constructor
    · exact List.nodup_nil
    · exact fun _ member => absurd member List.not_mem_nil
    · exact fun _ member => absurd member List.not_mem_nil
    · exact fun _ member => absurd member List.not_mem_nil
  have run : GridsInv ((items.zipIdx 0).foldl (groupItem idKey) .empty) _ _ := gridsInv_run items start
  rw [Nat.zero_add, List.nil_append] at run
  exact run

end Grids

section Segments

variable {actual : ActualBySegment}

/-- The share of a position. -/
def shareIn (currency : String) (shares : Dict Nat CostBreakdown) (index : Nat) : Int :=
  ((shares.get? index).map (amountIn currency)).getD 0

theorem segmentsIn_cons (segment : SegmentCost) (segments : List SegmentCost) (currency : String) :
    segmentsIn currency (segment :: segments) =
      sumOfTypes currency segment.ofType + segmentsIn currency segments := by
  rw [segmentsIn, List.map_cons, List.sum_cons]
  rfl

theorem amountIn_withShare (own : CostBreakdown) (share : Option CostBreakdown) (currency : String) :
    amountIn currency (withShare own share) =
      amountIn currency own + (share.map (amountIn currency)).getD 0 := by
  cases share with
  | none => exact (Int.add_zero _).symm
  | some share => exact amountIn_merge own share currency

/-- The segments show what they claim and their shares. -/
theorem storyboardSegments_spec {shares : Dict Nat CostBreakdown} {idKey currency : String}
    {items : List Json} {index : Nat} {claimed after : Claimed} {segments : List SegmentCost}
    (done : storyboardSegments actual shares idKey items index claimed = some (segments, after)) :
    segmentsIn currency segments + claimedIn actual currency claimed =
      claimedIn actual currency after +
        ((List.range' index items.length).map (shareIn currency shares)).sum ∧
      ∀ slot ∈ after, slot ∈ claimed ∨
        (Json.str slot.1 ∈ items.map (fun item => item.getOr idKey (.str "")) ∧ slot.2 ∈ actualCostTypes) := by
  induction items generalizing index claimed after segments with
  | nil =>
    rw [storyboardSegments, Option.some.injEq, Prod.mk.injEq] at done
    rw [← done.1, ← done.2]
    exact ⟨by simp [segmentsIn], fun _ => .inl⟩
  | cons item items ih =>
    rw [storyboardSegments, Option.bind_eq_bind, Option.bind_eq_some_iff] at done
    obtain ⟨⟨own, mid⟩, claim, done⟩ := done
    dsimp only at done
    rw [Option.bind_eq_bind, Option.bind_eq_some_iff] at done
    obtain ⟨⟨rest, last⟩, later, done⟩ := done
    rw [Option.some.injEq, Prod.mk.injEq] at done
    obtain ⟨sums, slots⟩ := ih later
    have own_ := claimedIn_claimValue claim currency
    rw [← done.1, ← done.2]
    constructor
    · have image : amountIn currency (withShare (breakdown own "image") (shares.get? index)) =
          amountIn currency (breakdown own "image") + shareIn currency shares index :=
        amountIn_withShare (breakdown own "image") (shares.get? index) currency
      rw [segmentsIn_cons, List.length_cons, List.range'_succ, List.map_cons, List.sum_cons]
      simp only [sumOfTypes, actualCostTypes, List.map_cons, List.map_nil, List.sum_cons, List.sum_nil,
        SegmentCost.ofType] at own_ ⊢
      simp only [reduceIte, String.reduceEq, image]
      omega
    · intro slot member
      rcases slots slot member with before | ⟨among, ofType⟩
      · rcases mem_claimValue claim before with old | ⟨here, ofType⟩
        · exact .inl old
        · exact .inr ⟨by rw [List.map_cons, here]; exact List.mem_cons_self, ofType⟩
      · exact .inr ⟨List.mem_cons_of_mem _ among, ofType⟩

/-- The ids that an episode of the script can claim. -/
def claimableIds (script : Json) : List Json :=
  (storyboardItems script).1.map (fun item => item.getOr (storyboardItems script).2 (.str "")) ++
    (storyboardItems script).1.map (gridId (storyboardItems script).2) ++
      (referenceUnits script).map fun unit => unit.get "unit_id"

/-- The claims of an episode are what its segments show, and of ids that the script has. -/
structure Claims (actual : ActualBySegment) (claimed after : Claimed) (script : Json)
    (segments : List SegmentCost) : Prop where
  sums : ∀ currency, segmentsIn currency segments + claimedIn actual currency claimed =
    claimedIn actual currency after
  slots : ∀ slot ∈ after, slot ∈ claimed ∨
    (Json.str slot.1 ∈ claimableIds script ∧ slot.2 ∈ actualCostTypes)

theorem claims_storyboardEpisode {claimed after : Claimed} {script : Json} {segments : List SegmentCost}
    (done : storyboardEpisode actual claimed script = some (segments, after)) :
    Claims actual claimed after script segments := by
  unfold storyboardEpisode at done
  dsimp only at done
  split at done
  · cases done
  · have inv := gridsInv_gridToIndices (storyboardItems script).2 (storyboardItems script).1
    generalize gridToIndices (storyboardItems script).2 (storyboardItems script).1 = grids at done inv
    have filled : ∀ grid ∈ grids.entries, grid.2 ≠ [] :=
      fun grid member => inv.filled grid.2 (List.mem_map_of_mem member)
    have shared : ∀ currency,
        totalIn currency (gridActualPerIndex actual claimed grids.entries).1 +
          claimedIn actual currency claimed = totalIn currency (.empty : Dict Nat CostBreakdown) +
            claimedIn actual currency (gridActualPerIndex actual claimed grids.entries).2 :=
      gridActual_spec inv.distinct filled fun index _ => Dict.get?_empty index
    have within : ∀ index share, (gridActualPerIndex actual claimed grids.entries).1.get? index = some share →
        index ∈ List.range' 0 (storyboardItems script).1.length := by
      intro index share found
      by_contra outside
      rw [gridActualPerIndex, get?_gridActual] at found
      · cases found
      · intro member
        have below := inv.below index member
        exact outside (List.mem_range'_1.mpr ⟨Nat.zero_le _, by omega⟩)
    constructor
    · intro currency
      have spent : segmentsIn currency segments + _ = _ := (storyboardSegments_spec done).1
      have total : totalIn currency (gridActualPerIndex actual claimed grids.entries).1 = _ :=
        Dict.total_eq_sum (List.nodup_range' ..) (amountIn currency) within
      have given := shared currency
      have nothing : totalIn currency (.empty : Dict Nat CostBreakdown) = 0 := rfl
      rw [total, nothing] at given
      unfold shareIn at spent
      omega
    · intro slot member
      rcases (@storyboardSegments_spec actual _ _ "" _ _ _ _ _ done).2 slot member with before | ⟨among, ofType⟩
      · rcases mem_gridActual before with old | ⟨named, ofType⟩
        · exact .inl old
        · refine .inr ⟨?_, ofType⟩
          exact List.mem_append_left _ (List.mem_append_right _ (inv.names slot.1 named))
      · exact .inr ⟨List.mem_append_left _ (List.mem_append_left _ among), ofType⟩

/-- One unit of the reference video route. -/
def claimUnit (actual : ActualBySegment) (state : List SegmentCost × Claimed) (unit : Json) :
    List SegmentCost × Claimed :=
  match unit.get "unit_id" with
  | .str "" => state
  | .str unitId =>
    let (own, claimed) := claimActual actual state.2 unitId actualCostTypes
    (state.1 ++ [⟨.str unitId, breakdown own "image", breakdown own "video", breakdown own "audio"⟩], claimed)
  | _ => state

theorem claimUnit_spec (state : List SegmentCost × Claimed) (unit : Json) :
    (∀ currency, segmentsIn currency (claimUnit actual state unit).1 + claimedIn actual currency state.2 =
      segmentsIn currency state.1 + claimedIn actual currency (claimUnit actual state unit).2) ∧
    ∀ slot ∈ (claimUnit actual state unit).2, slot ∈ state.2 ∨
      (Json.str slot.1 = unit.get "unit_id" ∧ slot.2 ∈ actualCostTypes) := by
  unfold claimUnit
  split
  · exact ⟨fun _ => rfl, fun _ => .inl⟩
  · next unitId _ isId =>
    dsimp only
    constructor
    · intro currency
      have claim : claimedIn actual currency (claimActual actual state.2 unitId actualCostTypes).2 = _ :=
        claimedIn_claimActual state.2 unitId currency (by decide)
      rw [claim, segmentsIn, List.map_append, List.sum_append, List.map_singleton, List.sum_singleton,
        segmentsIn]
      simp only [sumOfTypes, actualCostTypes, List.map_cons, List.map_nil, List.sum_cons, List.sum_nil,
        SegmentCost.ofType, reduceIte, String.reduceEq]
      omega
    · intro slot member
      rcases mem_claimActual member with old | ⟨same, ofType⟩
      · exact .inl old
      · exact .inr ⟨by rw [isId, same], ofType⟩
  · exact ⟨fun _ => rfl, fun _ => .inl⟩

theorem claims_referenceEpisode (actual : ActualBySegment) (claimed : Claimed) (script : Json) :
    Claims actual claimed (referenceEpisode actual claimed script).2 script
      (referenceEpisode actual claimed script).1 := by
  have general : ∀ (units : List Json) (state : List SegmentCost × Claimed),
      (∀ currency, segmentsIn currency (units.foldl (claimUnit actual) state).1 +
        claimedIn actual currency state.2 = segmentsIn currency state.1 +
          claimedIn actual currency (units.foldl (claimUnit actual) state).2) ∧
      ∀ slot ∈ (units.foldl (claimUnit actual) state).2, slot ∈ state.2 ∨
        (Json.str slot.1 ∈ units.map (fun unit => unit.get "unit_id") ∧ slot.2 ∈ actualCostTypes) := by
    intro units
    induction units with
    | nil => exact fun state => ⟨fun _ => rfl, fun _ => .inl⟩
    | cons unit units ih =>
      intro state
      obtain ⟨sums, slots⟩ := ih (claimUnit actual state unit)
      obtain ⟨ownSums, ownSlots⟩ := @claimUnit_spec actual state unit
      constructor
      · intro currency
        have rest := sums currency
        have own := ownSums currency
        rw [List.foldl_cons]
        omega
      · intro slot member
        rcases slots slot member with before | ⟨among, ofType⟩
        · rcases ownSlots slot before with old | ⟨here, ofType⟩
          · exact .inl old
          · exact .inr ⟨by rw [here]; exact List.mem_cons_self, ofType⟩
        · exact .inr ⟨List.mem_cons_of_mem _ among, ofType⟩
  obtain ⟨sums, slots⟩ := general (referenceUnits script) ([], claimed)
  constructor
  · intro currency
    have sum := sums currency
    have nothing : segmentsIn currency [] = 0 := rfl
    rw [nothing, Int.zero_add] at sum
    exact sum
  · exact fun slot member => (slots slot member).imp_right fun own =>
      ⟨List.mem_append_right _ own.1, own.2⟩

end Segments

section Accumulate

variable {actual : ActualBySegment}

theorem claims_episodeSegments {referenceVideo : Bool} {claimed after : Claimed} {script : Json}
    {segments : List SegmentCost}
    (done : episodeSegments actual referenceVideo claimed script = some (segments, after)) :
    Claims actual claimed after script segments := by
  unfold episodeSegments at done
  split at done
  · cases done
  · split at done
    · have claims := claims_referenceEpisode actual claimed script
      rw [Option.some.injEq] at done
      rwa [done] at claims
    · exact claims_storyboardEpisode done

/-- The totals of an episode are the sums over its segments. -/
def EpisodeCost.Adds (cost : EpisodeCost) : Prop :=
  ∀ costType ∈ actualCostTypes, ∀ currency, amountIn currency (breakdown cost.actual costType) =
    (cost.segments.map fun segment => amountIn currency (segment.ofType costType)).sum

/-- What holds of the accounts after each episode. -/
structure AccountsInv (actual : ActualBySegment) (accounts : Accounts) : Prop where
  balanced : ∀ currency, totalIn currency accounts.project = claimedIn actual currency accounts.claimed
  types : ∀ key, key ∉ actualCostTypes → accounts.project.get? key = none
  slots : ∀ slot ∈ accounts.claimed, slot.1 ≠ projectLevelSegmentKey ∧ slot.2 ∈ actualCostTypes
  episodes : ∀ cost ∈ accounts.episodes, cost.Adds

theorem AccountsInv.accumulate {accounts : Accounts} (inv : AccountsInv actual accounts) {after : Claimed}
    {script : Json} {segments : List SegmentCost}
    (claims : Claims actual accounts.claimed after script segments)
    (free : .str projectLevelSegmentKey ∉ claimableIds script) (entry : Json) :
    AccountsInv actual (accumulateEpisode accounts entry segments after) := by
  constructor
  · intro currency
    have sum := claims.sums currency
    have before := inv.balanced currency
    rw [accumulateEpisode]
    dsimp only
    rw [totalIn_addByType, sumOfTypes_episodeTotals]
    omega
  · intro key other
    rw [accumulateEpisode]
    dsimp only
    rw [get?_addByType other, inv.types key other]
  · intro slot member
    rcases claims.slots slot member with old | ⟨listed, ofType⟩
    · exact inv.slots slot old
    · exact ⟨fun same => free (same ▸ listed), ofType⟩
  · intro cost member
    rcases List.mem_append.mp member with old | new
    · exact inv.episodes cost old
    · rw [List.mem_singleton.mp new]
      exact fun costType ofType currency => amountIn_episodeTotals segments ofType currency

theorem accountsInv_run {scripts : Dict String Json} {referenceVideo : Bool}
    (free : ∀ file script, scripts.get? file = some script → .str projectLevelSegmentKey ∉ claimableIds script)
    {metas : List Json} {accounts after : Accounts} (inv : AccountsInv actual accounts)
    (done : accumulateEpisodes actual scripts referenceVideo metas accounts = some after) :
    AccountsInv actual after := by
  induction metas generalizing accounts with
  | nil =>
    rw [accumulateEpisodes, Option.some.injEq] at done
    rwa [← done]
  | cons entry metas ih =>
    rw [accumulateEpisodes] at done
    split at done
    · exact ih inv done
    · next script found =>
      rw [Option.bind_eq_bind, Option.bind_eq_some_iff] at done
      obtain ⟨⟨segments, claimed⟩, own, rest⟩ := done
      have listed : ∃ file, scripts.get? file = some script := by
        unfold scriptOf at found
        split at found
        · next file _ => exact ⟨file, (Option.filter_eq_some_iff.mp found).1⟩
        · cases found
      obtain ⟨file, there⟩ := listed
      exact ih (inv.accumulate (claims_episodeSegments own) (free file script there) entry) rest

end Accumulate

end ArcReel.Billing
