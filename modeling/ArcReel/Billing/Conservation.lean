import ArcReel.Billing.Episodes

/-! Every payment of a project is on the cost page once. -/

namespace ArcReel.Billing
open Lib

section Queries

/-- The amounts of the rows that meet a condition. -/
def sumWhere (condition : SpendRow → Bool) (rows : List SpendRow) : Int :=
  (rows.map fun row => if condition row then row.costAmount else 0).sum

theorem sum_map_filter {α : Type} (keep : α → Bool) (f : α → Int) (items : List α) :
    ((items.filter keep).map f).sum = (items.map fun item => if keep item then f item else 0).sum := by
  induction items with
  | nil => rfl
  | cons item items ih =>
    rw [List.map_cons, List.sum_cons, ← ih]
    by_cases kept : keep item = true
    · rw [List.filter_cons_of_pos kept, List.map_cons, List.sum_cons, if_pos kept]
    · rw [List.filter_cons_of_neg kept, if_neg kept, Int.zero_add]

theorem sum_map_add {α : Type} (f g : α → Int) (items : List α) :
    (items.map fun item => f item + g item).sum = (items.map f).sum + (items.map g).sum := by
  induction items with
  | nil => rfl
  | cons item items ih =>
    simp only [List.map_cons, List.sum_cons, ih]
    omega

/-- A value is met once in a list without repetition. -/
theorem sum_if_eq {κ : Type} [DecidableEq κ] {values : List κ} (distinct : values.Nodup) (key : κ)
    (amount : κ → Int) :
    (values.map fun value => if key = value then amount value else 0).sum =
      if key ∈ values then amount key else 0 := by
  induction values with
  | nil => rfl
  | cons value values ih =>
    rw [List.nodup_cons] at distinct
    rw [List.map_cons, List.sum_cons, ih distinct.2]
    by_cases here : key = value
    · rw [if_pos here, here, if_neg distinct.1, if_pos List.mem_cons_self, Int.add_zero]
    · rw [if_neg here, Int.zero_add]
      simp [here]

theorem sum_by_value {κ : Type} [DecidableEq κ] {values : List κ} (distinct : values.Nodup)
    (key : SpendRow → κ) (condition : κ → Bool) (rows : List SpendRow) :
    (values.map fun value => if condition value then
      ((rows.filter fun row => key row = value).map SpendRow.costAmount).sum else 0).sum =
      (rows.map fun row => if key row ∈ values then
        if condition (key row) then row.costAmount else 0 else 0).sum := by
  induction rows with
  | nil =>
    apply List.sum_eq_zero
    intro amount member
    obtain ⟨value, _, same⟩ := List.mem_map.mp member
    rw [← same]
    split <;> rfl
  | cons row rows ih =>
    rw [List.map_cons, List.sum_cons, ← ih,
      ← sum_if_eq distinct (key row) fun value => if condition value then row.costAmount else 0, ← sum_map_add]
    congr 1
    apply List.map_congr_left
    intro value _
    by_cases here : key row = value
    · rw [List.filter_cons_of_pos (by simpa using here), List.map_cons, List.sum_cons, if_pos here]
      split
      · rfl
      · rfl
    · rw [List.filter_cons_of_neg (by simpa using here), if_neg here, Int.zero_add]

/-- The groups that meet a condition hold the rows that meet it. -/
theorem sum_groupCosts {κ : Type} [DecidableEq κ] (key : SpendRow → κ) (condition : κ → Bool)
    (rows : List SpendRow) :
    ((groupCosts key rows).map fun group => if condition group.key then group.total else 0).sum =
      sumWhere (fun row => condition (key row)) rows := by
  have values := sum_by_value (List.nodup_dedup (rows.map key)) key condition rows
  rw [groupCosts, List.map_map]
  refine values.trans ?_
  rw [sumWhere]
  congr 1
  apply List.map_congr_left
  intro row member
  rw [if_pos (List.mem_dedup.mpr (List.mem_map_of_mem member))]

theorem sumWhere_filter (condition keep : SpendRow → Bool) (rows : List SpendRow) :
    sumWhere condition (rows.filter keep) = sumWhere (fun row => keep row && condition row) rows := by
  rw [sumWhere, sum_map_filter, sumWhere]
  congr 1
  apply List.map_congr_left
  intro row _
  cases keep row <;> simp

theorem sumWhere_congr {condition other : SpendRow → Bool} {rows : List SpendRow}
    (same : ∀ row ∈ rows, condition row = other row) : sumWhere condition rows = sumWhere other rows := by
  rw [sumWhere, sumWhere]
  congr 1
  apply List.map_congr_left
  intro row member
  rw [same row member]

end Queries

section Collect

/-- The place of a group in the nested dictionary. -/
def slotOf (key : Option String × String × String) : (String × String) × String :=
  ((key.1.getD projectLevelSegmentKey, key.2.1), key.2.2)

def collectGroup (result : ActualBySegment) (group : Group (Option String × String × String)) :
    ActualBySegment :=
  let key := group.key.1.getD projectLevelSegmentKey
  let byType := (result.get? key).getD .empty
  let cost := breakdown byType group.key.2.1
  result.set key (byType.set group.key.2.1 (cost.set group.key.2.2 group.total))

theorem actualCosts_append (groups : List (Group (Option String × String × String)))
    (group : Group (Option String × String × String)) :
    actualCostsBySegment (groups ++ [group]) = collectGroup (actualCostsBySegment groups) group := by
  rw [actualCostsBySegment, List.foldl_append]
  rfl

theorem amountOf_collectGroup (result : ActualBySegment) (group : Group (Option String × String × String))
    (currency : String) (slot : String × String) :
    amountOf (collectGroup result group) currency slot =
      if slotOf group.key = (slot, currency) then group.total else amountOf result currency slot := by
  obtain ⟨⟨segmentId, callType, groupCurrency⟩, total⟩ := group
  obtain ⟨key, costType⟩ := slot
  simp only [amountOf, collectGroup, slotOf, Dict.get?_set, Prod.mk.injEq]
  by_cases sameKey : key = segmentId.getD projectLevelSegmentKey
  · rw [if_pos sameKey, Option.getD_some, breakdown_set, ← sameKey]
    by_cases sameType : costType = callType
    · rw [if_pos sameType, amountIn_set, sameType]
      by_cases sameCurrency : currency = groupCurrency
      · simp [sameCurrency]
      · simp [sameCurrency, Ne.symm sameCurrency]
    · simp [sameType, Ne.symm sameType]
  · simp [sameKey, Ne.symm sameKey]

/-- A slot holds its one group. -/
theorem amountOf_actualCosts {groups : List (Group (Option String × String × String))}
    (distinct : (groups.map fun group => slotOf group.key).Nodup) (currency : String)
    (slot : String × String) :
    amountOf (actualCostsBySegment groups) currency slot =
      (groups.map fun group => if slotOf group.key = (slot, currency) then group.total else 0).sum := by
  induction groups using List.reverseRecOn with
  | nil => rfl
  | append_singleton groups group ih =>
    rw [List.map_append, List.map_singleton] at distinct
    obtain ⟨before, _, apart⟩ := List.nodup_append.mp distinct
    rw [actualCosts_append, amountOf_collectGroup, ih before, List.map_append, List.sum_append,
      List.map_singleton, List.sum_singleton]
    split
    · next here =>
      have others : (groups.map fun group => if slotOf group.key = (slot, currency) then group.total
          else 0).sum = 0 := by
        apply List.sum_eq_zero
        intro amount member
        obtain ⟨other, among, same⟩ := List.mem_map.mp member
        rw [← same, if_neg]
        rw [← here]
        exact fun equal => apart _ (List.mem_map_of_mem among) _ (List.mem_singleton.mpr rfl) equal
      rw [others, Int.zero_add]
    · rw [Int.add_zero]

theorem get?_actualCosts {groups : List (Group (Option String × String × String))}
    {group : Group (Option String × String × String)} (member : group ∈ groups) :
    (actualCostsBySegment groups).get? (slotOf group.key).1.1 ≠ none := by
  induction groups using List.reverseRecOn with
  | nil => cases member
  | append_singleton groups last ih =>
    rw [actualCosts_append, collectGroup, Dict.get?_set]
    split
    · exact Option.some_ne_none _
    · next apart =>
      rcases List.mem_append.mp member with before | here
      · exact ih before
      · rw [List.mem_singleton.mp here] at apart
        exact absurd rfl apart

variable {table : List SpendRow} {groups : List (Group (Option String × String × String))}

theorem key_segmentGroups {group : Group (Option String × String × String)}
    (member : group ∈ segmentGroups table) : ∃ row ∈ table, row.billed = true ∧
      group.key = (row.segmentId, row.callType, row.currency) := by
  obtain ⟨key, among, same⟩ := List.mem_map.mp member
  obtain ⟨row, inside, is⟩ := List.mem_map.mp (List.mem_dedup.mp among)
  rw [List.mem_filter] at inside
  exact ⟨row, inside.1, inside.2, by rw [← same, ← is]⟩

/-- No two groups have one slot, unless a segment has the key of what has none. -/
theorem nodup_slots (selected : groups.Perm (segmentGroups table))
    (free : ∀ row ∈ table, row.segmentId ≠ some projectLevelSegmentKey) :
    (groups.map fun group => slotOf group.key).Nodup := by
  have keys : ((segmentGroups table).map Group.key).Nodup := by
    rw [segmentGroups, groupCosts, List.map_map]
    have same : (Group.key ∘ fun value : Option String × String × String => (⟨value,
        (((table.filter SpendRow.billed).filter fun row => (row.segmentId, row.callType, row.currency) =
          value).map SpendRow.costAmount).sum⟩ : Group (Option String × String × String))) = id := rfl
    rw [same, List.map_id]
    exact List.nodup_dedup _
  have slots : (((segmentGroups table).map Group.key).map slotOf).Nodup := by
    apply keys.map_on
    intro key member other among same
    obtain ⟨group, inside, is⟩ := List.mem_map.mp member
    obtain ⟨group', inside', is'⟩ := List.mem_map.mp among
    obtain ⟨row, known, _, isKey⟩ := key_segmentGroups inside
    obtain ⟨row', known', _, isKey'⟩ := key_segmentGroups inside'
    have apart := free row known
    have apart' := free row' known'
    rw [← is, isKey, ← is', isKey'] at same ⊢
    simp only [slotOf, Prod.mk.injEq] at same
    obtain ⟨⟨segment, callType⟩, currency⟩ := same
    have ids : row.segmentId = row'.segmentId := by
      cases first : row.segmentId with
      | none =>
        cases second : row'.segmentId with
        | none => rfl
        | some id =>
          rw [first, second, Option.getD_none, Option.getD_some] at segment
          rw [second, ← segment] at apart'
          exact absurd rfl apart'
      | some id =>
        cases second : row'.segmentId with
        | none =>
          rw [first, second, Option.getD_none, Option.getD_some] at segment
          rw [first, segment] at apart
          exact absurd rfl apart
        | some id' =>
          rw [first, second, Option.getD_some, Option.getD_some] at segment
          rw [segment]
    rw [ids, callType, currency]
  rw [List.map_map] at slots
  exact ((selected.map _).nodup_iff).mpr slots

/-- A slot holds the billed rows of its segment, type and currency. -/
theorem amountOf_eq_sumWhere (selected : groups.Perm (segmentGroups table))
    (free : ∀ row ∈ table, row.segmentId ≠ some projectLevelSegmentKey) (currency : String)
    (slot : String × String) :
    amountOf (actualCostsBySegment groups) currency slot =
      sumWhere (fun row => row.billed &&
        slotOf (row.segmentId, row.callType, row.currency) = (slot, currency)) table := by
  rw [amountOf_actualCosts (nodup_slots selected free), (selected.map _).sum_eq]
  have sums := sum_groupCosts (fun row => (row.segmentId, row.callType, row.currency))
    (fun key => slotOf key = (slot, currency)) (table.filter SpendRow.billed)
  rw [sumWhere_filter] at sums
  simp only [decide_eq_true_eq] at sums
  exact sums

end Collect

section Assets

variable (lower : String → String)

/-- All that asset images are sorted into. -/
def imageTypes : List String := assetTypes ++ ["other"]

theorem classify_mem (outputPath : Option String) : classifyAssetOutputPath lower outputPath ∈ imageTypes := by
  unfold classifyAssetOutputPath
  split
  · decide
  · decide
  · dsimp only
    split
    · next found => exact List.mem_append_left _ (List.mem_of_find?_eq_some found)
    · split <;> decide

def collectImage (result : Dict String CostBreakdown) (group : Group (Option String × String)) :
    Dict String CostBreakdown :=
  let assetType := classifyAssetOutputPath lower group.key.1
  let bucket := breakdown result assetType
  result.set assetType (bucket.set group.key.2 (amountIn group.key.2 bucket + group.total))

theorem amountIn_collectImage (result : Dict String CostBreakdown) (group : Group (Option String × String))
    (assetType currency : String) :
    amountIn currency (breakdown (collectImage lower result group) assetType) =
      amountIn currency (breakdown result assetType) +
        if classifyAssetOutputPath lower group.key.1 = assetType ∧ group.key.2 = currency then group.total
        else 0 := by
  rw [collectImage, breakdown_set]
  by_cases sameType : assetType = classifyAssetOutputPath lower group.key.1
  · rw [if_pos sameType, amountIn_set, ← sameType]
    by_cases sameCurrency : currency = group.key.2
    · simp [sameCurrency]
    · simp [sameCurrency, Ne.symm sameCurrency]
  · simp [sameType, Ne.symm sameType]

theorem amountIn_images (groups : List (Group (Option String × String))) (assetType currency : String) :
    amountIn currency (breakdown (imageCostsByAssetType lower groups) assetType) =
      (groups.map fun group => if classifyAssetOutputPath lower group.key.1 = assetType ∧
        group.key.2 = currency then group.total else 0).sum := by
  have general : ∀ result : Dict String CostBreakdown,
      amountIn currency (breakdown (groups.foldl (collectImage lower) result) assetType) =
        amountIn currency (breakdown result assetType) +
          (groups.map fun group => if classifyAssetOutputPath lower group.key.1 = assetType ∧
            group.key.2 = currency then group.total else 0).sum := by
    induction groups with
    | nil => simp
    | cons group groups ih =>
      intro result
      rw [List.foldl_cons, ih, amountIn_collectImage, List.map_cons, List.sum_cons, Int.add_assoc]
  have start := general .empty
  rwa [amountIn_breakdown_empty, Int.zero_add] at start

/-- The asset images together are the images without a segment. -/
theorem sum_images {table : List SpendRow} {groups : List (Group (Option String × String))}
    (selected : groups.Perm (assetGroups table)) (currency : String) :
    (imageTypes.map fun assetType =>
      amountIn currency (breakdown (imageCostsByAssetType lower groups) assetType)).sum =
      sumWhere (fun row => row.billed && (row.callType = "image" && row.segmentId.isNone) &&
        row.currency = currency) table := by
  have swapped : (imageTypes.map fun assetType =>
      amountIn currency (breakdown (imageCostsByAssetType lower groups) assetType)).sum =
        (groups.map fun group => if group.key.2 = currency then group.total else 0).sum := by
    simp only [amountIn_images]
    clear selected
    induction groups with
    | nil => rfl
    | cons group groups ih =>
      rw [List.map_cons, List.sum_cons, ← ih]
      have once := sum_if_eq (by decide : imageTypes.Nodup) (classifyAssetOutputPath lower group.key.1)
        fun _ => if group.key.2 = currency then group.total else 0
      rw [if_pos (classify_mem lower _)] at once
      rw [← once, ← sum_map_add]
      congr 1
      apply List.map_congr_left
      intro assetType _
      rw [List.map_cons, List.sum_cons]
      by_cases here : classifyAssetOutputPath lower group.key.1 = assetType <;> simp [here]
  have sums := sum_groupCosts (fun row => (row.outputPath, row.currency))
    (fun key => key.2 = currency)
    (table.filter fun row => row.billed && row.callType = "image" && row.segmentId.isNone)
  rw [sumWhere_filter] at sums
  simp only [decide_eq_true_eq] at sums
  rw [swapped, (selected.map _).sum_eq]
  refine sums.trans (sumWhere_congr fun row _ => ?_)
  rw [Bool.and_assoc row.billed]

end Assets

section Left

/-- The slots of the segments. -/
def slots (actual : ActualBySegment) : List (String × String) :=
  (actual.keys.filter (· ≠ projectLevelSegmentKey)).flatMap fun key =>
    actualCostTypes.map fun costType => (key, costType)

theorem mem_slots {actual : ActualBySegment} {slot : String × String} :
    slot ∈ slots actual ↔
      slot.1 ∈ actual.keys ∧ slot.1 ≠ projectLevelSegmentKey ∧ slot.2 ∈ actualCostTypes := by
  obtain ⟨key, costType⟩ := slot
  simp [slots, List.mem_flatMap, and_assoc]

theorem nodup_slotList (actual : ActualBySegment) : (slots actual).Nodup :=
  ((Dict.keys_nodup actual).filter _).product (by decide : actualCostTypes.Nodup)

theorem sum_flatMap {α : Type} (f : α → List Int) (items : List α) :
    (items.flatMap f).sum = (items.map fun item => (f item).sum).sum := by
  rw [List.flatMap, List.sum_flatten, List.map_map]
  rfl

/-- What is left are the slots that were not claimed. -/
theorem sum_leftovers (actual : ActualBySegment) (claimed : Claimed) (currency : String) :
    ((leftovers actual claimed).map fun entry => amountIn currency entry.2).sum =
      ((slots actual).map fun slot => if slot ∈ claimed then 0 else amountOf actual currency slot).sum := by
  have each : ∀ entry ∈ actual.entries,
      (((if entry.1 = projectLevelSegmentKey then []
        else actualCostTypes.filterMap fun costType =>
          let amounts := breakdown entry.2 costType
          if amounts.entries.isEmpty || (entry.1, costType) ∈ claimed then none
          else some (entry.1, amounts)) : List (String × CostBreakdown)).map fun entry =>
            amountIn currency entry.2).sum =
        if entry.1 ≠ projectLevelSegmentKey then (actualCostTypes.map fun costType =>
          if (entry.1, costType) ∈ claimed then 0 else amountOf actual currency (entry.1, costType)).sum
        else 0 := by
    intro entry member
    have own : ∀ costType, amountOf actual currency (entry.1, costType) =
        amountIn currency (breakdown entry.2 costType) := by
      intro costType
      rw [amountOf, (Dict.get?_eq_some_iff actual entry.1 entry.2).mpr member, Option.getD_some]
    split
    · next here => simp [here]
    · simp only [own]
      generalize actualCostTypes = costTypes
      induction costTypes with
      | nil => rfl
      | cons costType costTypes ih =>
        rw [List.map_cons, List.sum_cons, ← ih, List.filterMap_cons]
        by_cases known : (entry.1, costType) ∈ claimed
        · simp [known]
        · by_cases empty : (breakdown entry.2 costType).entries.isEmpty = true
          · simp [known, empty, amountIn_of_isEmpty empty]
          · simp [known, empty]
  rw [leftovers, List.map_flatMap, sum_flatMap, List.map_congr_left each, slots, List.map_flatMap, sum_flatMap,
    sum_map_filter, Dict.keys, List.map_map]
  congr 1
  apply List.map_congr_left
  intro entry _
  simp [Function.comp_def]

/-- What was claimed and what is left are all slots. -/
theorem claimed_and_left {actual : ActualBySegment} {claimed : Claimed}
    (within : ∀ slot ∈ claimed, slot.1 ≠ projectLevelSegmentKey ∧ slot.2 ∈ actualCostTypes)
    (currency : String) :
    claimedIn actual currency claimed +
      ((leftovers actual claimed).map fun entry => amountIn currency entry.2).sum =
        ((slots actual).map (amountOf actual currency)).sum := by
  have inside : claimedIn actual currency claimed =
      ((slots actual).map fun slot => if slot ∈ claimed then amountOf actual currency slot else 0).sum := by
    rw [← List.sum_toFinset _ (nodup_slotList actual), ← Finset.sum_filter, claimedIn]
    symm
    apply Finset.sum_subset
    · intro slot member
      exact (Finset.mem_filter.mp member).2
    · intro slot member outside
      have missing : slot.1 ∉ actual.keys := by
        intro known
        apply outside
        rw [Finset.mem_filter, List.mem_toFinset, mem_slots]
        exact ⟨⟨known, within slot member⟩, member⟩
      rw [amountOf, (Dict.get?_eq_none_iff actual slot.1).mpr missing]
      rfl
  rw [inside, sum_leftovers, ← sum_map_add]
  congr 1
  apply List.map_congr_left
  intro slot _
  split <;> simp

end Left

section Settle

theorem totalIn_addUnassigned (totals : Dict String CostBreakdown) (amounts : CostBreakdown)
    (currency : String) :
    totalIn currency (addUnassigned totals amounts) = totalIn currency totals + amountIn currency amounts :=
  totalIn_merged totals "unassigned" currency amounts

theorem adds_unassigned {cost : EpisodeCost} (adds : cost.Adds) (amounts : CostBreakdown) :
    ({ cost with actual := addUnassigned cost.actual amounts } : EpisodeCost).Adds := by
  intro costType ofType currency
  have apart : costType ≠ "unassigned" := by
    intro same
    rw [same] at ofType
    exact absurd ofType (by decide)
  rw [addUnassigned, breakdown_set, if_neg apart]
  exact adds costType ofType currency

theorem adds_attributeCosts {episodes : List EpisodeCost} (adds : ∀ cost ∈ episodes, cost.Adds)
    (metas : List Json) (episode : Int) (amounts : CostBreakdown) :
    ∀ cost ∈ attributeCosts metas episodes episode amounts, cost.Adds := by
  intro cost member
  unfold attributeCosts at member
  split at member
  · obtain ⟨index, inside, same⟩ := List.mem_iff_getElem.mp member
    rw [List.getElem_modify] at same
    rw [List.length_modify] at inside
    have before := adds episodes[index] (List.getElem_mem inside)
    rw [← same]
    split
    · exact adds_unassigned before amounts
    · exact before
  · split at member
    · rcases List.mem_append.mp member with old | new
      · exact adds cost old
      · rw [List.mem_singleton.mp new]
        intro costType ofType currency
        have apart : costType ≠ "unassigned" := by
          intro same
          rw [same] at ofType
          exact absurd ofType (by decide)
        rw [addUnassigned, breakdown_set, if_neg apart]
        rfl
    · exact adds cost member

/-- The leftovers go to the project, and change no type of an episode. -/
theorem assignLeftovers_spec (digit : Char → Option Nat) (metas : List Json) {accounts : Accounts}
    (adds : ∀ cost ∈ accounts.episodes, cost.Adds) (left : List (String × CostBreakdown)) :
    let after := assignLeftovers digit metas accounts left
    (∀ currency, totalIn currency after.project = totalIn currency accounts.project +
      (left.map fun entry => amountIn currency entry.2).sum) ∧
    (∀ key, key ≠ "unassigned" → after.project.get? key = accounts.project.get? key) ∧
    ∀ cost ∈ after.episodes, cost.Adds := by
  induction left generalizing accounts with
  | nil => exact ⟨fun _ => (Int.add_zero _).symm, fun _ _ => rfl, adds⟩
  | cons entry left ih =>
    intro after
    have step : ∀ cost ∈ (assignLeftovers digit metas accounts [entry]).episodes, cost.Adds := by
      dsimp only [assignLeftovers, List.foldl_cons, List.foldl_nil]
      split
      · exact adds_attributeCosts adds metas _ entry.2
      · exact adds
    obtain ⟨totals, keys, episodes⟩ := @ih ⟨_, addUnassigned accounts.project entry.2, accounts.claimed⟩ step
    refine ⟨fun currency => ?_, fun key other => ?_, episodes⟩
    · have rest := totals currency
      rw [totalIn_addUnassigned] at rest
      rw [List.map_cons, List.sum_cons]
      exact rest.trans (by omega)
    · refine (keys key other).trans ?_
      rw [addUnassigned, Dict.get?_set, if_neg other]

theorem totalIn_listed (images : Dict String CostBreakdown) (currency : String) {types : List String}
    (distinct : types.Nodup) {project : Dict String CostBreakdown}
    (fresh : ∀ assetType ∈ types, project.get? assetType = none) :
    totalIn currency (types.foldl (fun project assetType =>
      let bucket := breakdown images assetType
      if bucket.entries.isEmpty then project else project.set assetType bucket) project) =
        totalIn currency project + (types.map fun assetType =>
          amountIn currency (breakdown images assetType)).sum := by
  induction types generalizing project with
  | nil => simp
  | cons assetType types ih =>
    rw [List.nodup_cons] at distinct
    rw [List.foldl_cons, List.map_cons, List.sum_cons]
    dsimp only
    by_cases empty : (breakdown images assetType).entries.isEmpty = true
    · rw [if_pos empty, ih distinct.2 fun other member => fresh other (List.mem_cons_of_mem _ member),
        amountIn_of_isEmpty empty]
      omega
    · rw [if_neg empty, ih distinct.2, totalIn, Dict.total_set_new (fresh assetType List.mem_cons_self), totalIn]
      · omega
      · intro other member
        rw [Dict.get?_set, if_neg]
        · exact fresh other (List.mem_cons_of_mem _ member)
        · exact fun same => distinct.1 (same ▸ member)

/-- The asset images and what has no segment are added. -/
theorem totalIn_addProjectLevel (actual : ActualBySegment) (images : Dict String CostBreakdown)
    {project : Dict String CostBreakdown} (fresh : ∀ assetType ∈ assetTypes, project.get? assetType = none)
    (currency : String) :
    totalIn currency (addProjectLevel actual images project) = totalIn currency project +
      (imageTypes.map fun assetType => amountIn currency (breakdown images assetType)).sum +
        amountOf actual currency (projectLevelSegmentKey, "video") +
          amountOf actual currency (projectLevelSegmentKey, "audio") := by
  have added : ∀ (project : Dict String CostBreakdown) (amounts : CostBreakdown),
      totalIn currency (if amounts.entries.isEmpty then project else addUnassigned project amounts) =
        totalIn currency project + amountIn currency amounts := by
    intro project amounts
    split
    · next empty => rw [amountIn_of_isEmpty empty, Int.add_zero]
    · exact totalIn_addUnassigned project amounts currency
  rw [addProjectLevel]
  dsimp only
  rw [List.foldl_cons, List.foldl_cons, List.foldl_cons, List.foldl_nil, added, added, added,
    totalIn_listed images currency (by decide) fresh, imageTypes, List.map_append, List.sum_append,
    List.map_singleton, List.sum_singleton, amountOf, amountOf]
  dsimp only
  omega

end Settle

section Conserved

variable {table : List SpendRow} {groups : List (Group (Option String × String × String))}

/-- The successful billed image, video and audio rows. -/
def spent (currency : String) (table : List SpendRow) : Int :=
  ((table.filter fun row => row.billed && row.callType ∈ actualCostTypes &&
    row.currency = currency).map SpendRow.costAmount).sum

theorem known_of_billed (selected : groups.Perm (segmentGroups table)) {row : SpendRow} (member : row ∈ table)
    (billed : row.billed = true) :
    row.segmentId.getD projectLevelSegmentKey ∈ (actualCostsBySegment groups).keys := by
  have key : (row.segmentId, row.callType, row.currency) ∈ ((table.filter SpendRow.billed).map
      fun row => (row.segmentId, row.callType, row.currency)).dedup :=
    List.mem_dedup.mpr (List.mem_map_of_mem (f := fun row : SpendRow => (row.segmentId, row.callType, row.currency))
      (List.mem_filter.mpr ⟨member, billed⟩))
  obtain ⟨group, inside, is⟩ : ∃ group ∈ groups, group.key = (row.segmentId, row.callType, row.currency) := by
    refine ⟨_, selected.mem_iff.mpr (List.mem_map_of_mem key), rfl⟩
  have known := get?_actualCosts inside
  rw [is, slotOf] at known
  by_contra missing
  exact known ((Dict.get?_eq_none_iff _ _).mpr missing)

/-- All slots hold the billed rows that have a segment. -/
theorem sum_slots (selected : groups.Perm (segmentGroups table))
    (free : ∀ row ∈ table, row.segmentId ≠ some projectLevelSegmentKey) (currency : String) :
    ((slots (actualCostsBySegment groups)).map (amountOf (actualCostsBySegment groups) currency)).sum =
      sumWhere (fun row => row.billed && row.segmentId.isSome && row.callType ∈ actualCostTypes &&
        row.currency = currency) table := by
  have each : ∀ rows : List SpendRow, ((slots (actualCostsBySegment groups)).map fun slot =>
      sumWhere (fun row => row.billed &&
        slotOf (row.segmentId, row.callType, row.currency) = (slot, currency)) rows).sum =
      sumWhere (fun row => row.billed && row.currency = currency &&
        (row.segmentId.getD projectLevelSegmentKey, row.callType) ∈ slots (actualCostsBySegment groups))
          rows := by
    intro rows
    induction rows with
    | nil => simp [sumWhere]
    | cons row rows ih =>
      have once := sum_if_eq (nodup_slotList (actualCostsBySegment groups))
        (row.segmentId.getD projectLevelSegmentKey, row.callType)
        fun _ => if row.billed && row.currency = currency then row.costAmount else 0
      simp only [sumWhere, List.map_cons, List.sum_cons] at ih ⊢
      rw [sum_map_add, ih]
      congr 1
      refine Eq.trans ?_ (once.trans ?_)
      · congr 1
        apply List.map_congr_left
        intro slot _
        by_cases here : (row.segmentId.getD projectLevelSegmentKey, row.callType) = slot
        · simp [slotOf, here]
        · simp [slotOf, here]
      · by_cases known : (row.segmentId.getD projectLevelSegmentKey, row.callType) ∈
            slots (actualCostsBySegment groups)
        · simp [known]
        · simp [known]
  have amounts : (slots (actualCostsBySegment groups)).map (amountOf (actualCostsBySegment groups) currency) =
      (slots (actualCostsBySegment groups)).map fun slot => sumWhere (fun row => row.billed &&
        slotOf (row.segmentId, row.callType, row.currency) = (slot, currency)) table :=
    List.map_congr_left fun slot _ => amountOf_eq_sumWhere selected free currency slot
  rw [amounts, each table]
  apply sumWhere_congr
  intro row member
  cases billed : row.billed with
  | false => rfl
  | true =>
    have known := known_of_billed selected member billed
    cases segment : row.segmentId with
    | none => simp [mem_slots]
    | some id =>
      rw [segment, Option.getD_some] at known
      have apart : id ≠ projectLevelSegmentKey := fun same => free row member (by rw [segment, same])
      simp [mem_slots, known, apart, Bool.and_comm]

/-- A row counts once: for its segment, as an image without one, or as a video or audio without one. -/
theorem row_parts {row : SpendRow} (free : row.segmentId ≠ some projectLevelSegmentKey) (currency : String) :
    (if (row.billed && row.callType ∈ actualCostTypes && row.currency = currency) = true then row.costAmount
      else 0) =
      (if (row.billed && row.segmentId.isSome && row.callType ∈ actualCostTypes &&
        row.currency = currency) = true then row.costAmount else 0) +
      (if (row.billed && (row.callType = "image" && row.segmentId.isNone) &&
        row.currency = currency) = true then row.costAmount else 0) +
      (if (row.billed && slotOf (row.segmentId, row.callType, row.currency) =
        ((projectLevelSegmentKey, "video"), currency)) = true then row.costAmount else 0) +
      (if (row.billed && slotOf (row.segmentId, row.callType, row.currency) =
        ((projectLevelSegmentKey, "audio"), currency)) = true then row.costAmount else 0) := by
  cases segment : row.segmentId with
  | some id =>
    have apart : id ≠ projectLevelSegmentKey := fun same => free (by rw [segment, same])
    simp [slotOf, apart]
  | none =>
    by_cases paid : row.billed = true ∧ row.currency = currency
    · simp only [slotOf, paid.1, paid.2, Option.getD_none, Prod.mk.injEq, actualCostTypes, List.mem_cons,
        List.not_mem_nil, or_false]
      by_cases image : row.callType = "image"
      · simp [image]
      · by_cases video : row.callType = "video"
        · simp [video]
        · simp [image, video]
    · rw [not_and] at paid
      by_cases billed : row.billed = true
      · simp [slotOf, paid billed]
      · simp [billed]

/-- Whatever the segments, grids, units and assets: the project total is what was spent, and the totals of
every episode are the sums over its segments. -/
theorem costs_conserved {digit : Char → Option Nat} {lower : String → String}
    {assets : List (Group (Option String × String))} {metas : List Json} {scripts : Dict String Json}
    {referenceVideo : Bool} {episodes : List EpisodeCost} {project : Dict String CostBreakdown}
    (selected : groups.Perm (segmentGroups table)) (listed : assets.Perm (assetGroups table))
    (rowsFree : ∀ row ∈ table, row.segmentId ≠ some projectLevelSegmentKey)
    (scriptsFree : ∀ file script, scripts.get? file = some script →
      .str projectLevelSegmentKey ∉ claimableIds script)
    (done : compute digit (actualCostsBySegment groups) (imageCostsByAssetType lower assets) metas scripts
      referenceVideo = some (episodes, project)) :
    (∀ currency, totalIn currency project = spent currency table) ∧ ∀ cost ∈ episodes, cost.Adds := by
  rw [compute, Option.bind_eq_bind, Option.bind_eq_some_iff] at done
  obtain ⟨accounts, accumulated, done⟩ := done
  dsimp only at done
  split at done
  · cases done
  rw [Option.some.injEq, Prod.mk.injEq] at done
  have start : AccountsInv (actualCostsBySegment groups) ⟨[], .empty, ∅⟩ := by
    constructor
    · exact fun _ => rfl
    · exact fun _ _ => rfl
    · exact fun _ member => absurd member (Finset.notMem_empty _)
    · exact fun _ member => absurd member List.not_mem_nil
  have inv := accountsInv_run scriptsFree start accumulated
  obtain ⟨totals, keys, adds⟩ := assignLeftovers_spec digit metas inv.episodes
    (leftovers (actualCostsBySegment groups) accounts.claimed)
  constructor
  · intro currency
    have fresh : ∀ assetType ∈ assetTypes, (assignLeftovers digit metas accounts
        (leftovers (actualCostsBySegment groups) accounts.claimed)).project.get? assetType = none := by
      intro assetType member
      have apart : assetType ≠ "unassigned" ∧ assetType ∉ actualCostTypes := by
        revert assetType
        decide
      rw [keys assetType apart.1]
      exact inv.types assetType apart.2
    have balanced := inv.balanced currency
    have all : claimedIn (actualCostsBySegment groups) currency accounts.claimed + _ = _ :=
      claimed_and_left inv.slots currency
    have segments := sum_slots selected rowsFree currency
    have images := sum_images lower listed currency
    have video := amountOf_eq_sumWhere selected rowsFree currency (projectLevelSegmentKey, "video")
    have audio := amountOf_eq_sumWhere selected rowsFree currency (projectLevelSegmentKey, "audio")
    have parts : spent currency table =
        sumWhere (fun row => row.billed && row.segmentId.isSome && row.callType ∈ actualCostTypes &&
          row.currency = currency) table +
        sumWhere (fun row => row.billed && (row.callType = "image" && row.segmentId.isNone) &&
          row.currency = currency) table +
        sumWhere (fun row => row.billed && slotOf (row.segmentId, row.callType, row.currency) =
          ((projectLevelSegmentKey, "video"), currency)) table +
        sumWhere (fun row => row.billed && slotOf (row.segmentId, row.callType, row.currency) =
          ((projectLevelSegmentKey, "audio"), currency)) table := by
      rw [spent, sum_map_filter]
      simp only [sumWhere]
      rw [← sum_map_add, ← sum_map_add, ← sum_map_add]
      congr 1
      apply List.map_congr_left
      intro row member
      exact row_parts (rowsFree row member) currency
    rw [← done.2, totalIn_addProjectLevel _ _ fresh, totals currency]
    omega
  · intro cost member
    rw [← done.1, (List.perm_insertionSort _ _).mem_iff] at member
    exact adds cost member

section Page

def paid (callType : String) (segmentId outputPath : Option String) (costAmount : Int) : SpendRow :=
  ⟨callType, .success, segmentId, outputPath, costAmount, "USD"⟩

/-- A grid over two segments, a video, a picture of a character and a song of nothing. -/
def mixedTable : List SpendRow :=
  [paid "image" (some "grid1") none 5, paid "video" (some "E1S01") none 7,
    paid "image" none (some "characters/a.png") 3, paid "audio" none none 2, paid "image" (some "E2S09") none 4]

def onGrid (segmentId : String) : Json :=
  .obj [("segment_id", .str segmentId), ("generated_assets", .obj [("grid_id", .str "grid1")])]

def oneEpisode : List Json := [.obj [("episode", .int 1), ("script_file", .str "scripts/episode_1.json")]]

def oneScript : Dict String Json := Dict.empty.set "scripts/episode_1.json" (.obj
  [("content_mode", .str "narration"), ("segments", .arr [onGrid "E1S01", onGrid "E1S02"])])

/-- The page of `mixedTable`: the shares of the grid add up to its price. -/
theorem mixed_page_balances : ∃ episodes project,
    compute (fun c => if c.isDigit then some (c.toNat - 48) else none)
      (actualCostsBySegment (segmentGroups mixedTable)) (imageCostsByAssetType id (assetGroups mixedTable))
      oneEpisode oneScript false = some (episodes, project) ∧ episodes.length = 1 ∧
      ((∀ currency, totalIn currency project = spent currency mixedTable) ∧
        ∀ cost ∈ episodes, cost.Adds) := by
  have returned : (compute (fun c => if c.isDigit then some (c.toNat - 48) else none)
      (actualCostsBySegment (segmentGroups mixedTable)) (imageCostsByAssetType id (assetGroups mixedTable))
      oneEpisode oneScript false).map (fun page => page.1.length) = some 1 := by
    decide
  obtain ⟨⟨episodes, project⟩, done, single⟩ := Option.map_eq_some_iff.mp returned
  refine ⟨episodes, project, done, single, ?_⟩
  refine costs_conserved (.refl _) (.refl _) ?_ ?_ done
  · decide
  · intro file script found
    rw [oneScript, Dict.get?_set, Dict.get?_empty] at found
    split at found
    · rw [Option.some.injEq] at found
      rw [← found]
      have ids : claimableIds (.obj [("content_mode", .str "narration"),
          ("segments", .arr [onGrid "E1S01", onGrid "E1S02"])]) =
            [.str "E1S01", .str "E1S02", .str "grid1", .str "grid1"] := rfl
      rw [ids]
      simp [projectLevelSegmentKey]
    · cases found

/-- A unit whose id is the key of what has no segment. -/
def reservedScript : Dict String Json := Dict.empty.set "scripts/episode_1.json" (.obj
  [("video_units", .arr [.obj [("unit_id", .str projectLevelSegmentKey)]])])

/-- That unit claims the picture of the character, and the page lists the picture once more. -/
theorem reserved_id_counts_twice :
    (compute (fun _ => none) (actualCostsBySegment (segmentGroups
        [paid "image" none (some "characters/a.png") 3]))
      (imageCostsByAssetType id (assetGroups [paid "image" none (some "characters/a.png") 3]))
      oneEpisode reservedScript true).map (fun page => totalIn "USD" page.2) = some 6 ∧
    spent "USD" [paid "image" none (some "characters/a.png") 3] = 3 := by
  decide +kernel

end Page

end Conserved

end ArcReel.Billing
