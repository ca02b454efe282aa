import Mathlib.Data.List.Basic
import Mathlib.Tactic

/-! `lib.grid`: the layout of a grid image, the chunks of a group of scenes, and the frame chain
of a chunk. -/

namespace ArcReel.Grid

/-- The two numbers of a ratio `w:h`. -/
structure AspectRatio where
  w : Int
  h : Int
  deriving DecidableEq, Repr

structure GridLayout where
  gridSize : String
  rows : Nat
  cols : Nat
  gridAspectRatio : String
  cellCount : Nat
  placeholderCount : Nat
  deriving DecidableEq, Repr

inductive Orientation where
  | horizontal
  | vertical
  deriving DecidableEq, Repr

/-- `(cell_count, grid_size, side)`, in the order of the choice. -/
def gridLadder : List (Nat × String × Nat) :=
  [(4, "grid_4", 2), (9, "grid_9", 3), (16, "grid_16", 4), (25, "grid_25", 5)]

def gatedMaxCellCount : Nat := 9

def largestCellCount : Nat := 25

def maxCellCount (allowLargeGrid : Bool) : Nat :=
  if allowLargeGrid then largestCellCount else gatedMaxCellCount

def orientationOf (aspectRatio : AspectRatio) : Orientation :=
  if aspectRatio.w > aspectRatio.h then .horizontal else .vertical

def orientationAspect : Orientation → String
  | .horizontal => "16:9"
  | .vertical => "9:16"

def calculateGridLayout (numScenes : Nat) (aspectRatio : AspectRatio) (allowLargeGrid : Bool) :
    Option GridLayout :=
  if numScenes < 1 then none
  else
    let effective := min numScenes (maxCellCount allowLargeGrid)
    (gridLadder.find? fun cfg => decide (effective ≤ cfg.1)).map fun cfg =>
      { gridSize := cfg.2.1
        rows := cfg.2.2
        cols := cfg.2.2
        gridAspectRatio := orientationAspect (orientationOf aspectRatio)
        cellCount := cfg.1
        placeholderCount := cfg.1 - effective }

/-- The multiples of `step` below `stop`: `range(0, stop, step)`. -/
def steps (stop step : Nat) : List Nat :=
  (List.range ((stop + step - 1) / step)).map fun turn => turn * step

def planGridChunks {α : Type} (group : List α) (aspectRatio : AspectRatio) (allowLargeGrid : Bool) :
    List (List α × GridLayout) :=
  match calculateGridLayout group.length aspectRatio allowLargeGrid with
  | none => []
  | some layout =>
      (steps group.length layout.cellCount).filterMap fun i =>
        let chunk := (group.drop i).take layout.cellCount
        (calculateGridLayout chunk.length aspectRatio allowLargeGrid).map fun layout => (chunk, layout)

inductive FrameType where
  | first
  | transition
  | placeholder
  deriving DecidableEq, Repr

structure FrameCell where
  index : Nat
  row : Nat
  col : Nat
  frameType : FrameType
  prevSceneId : Option String
  nextSceneId : Option String
  imagePath : Option String
  deriving DecidableEq, Repr

/-- One turn of the loop of `build_frame_chain`. -/
def frameCell (sceneIds : List String) (cols idx : Nat) : FrameCell :=
  let row := idx / cols
  let col := idx % cols
  if idx = 0 then ⟨idx, row, col, .first, none, sceneIds[0]?, none⟩
  else if idx < sceneIds.length then
    ⟨idx, row, col, .transition, sceneIds[idx - 1]?, sceneIds[idx]?, none⟩
  else ⟨idx, row, col, .placeholder, none, none, none⟩

def buildFrameChain (sceneIds : List String) (rows cols : Nat) : List FrameCell :=
  (List.range (rows * cols)).map (frameCell sceneIds cols)

/-! A layout. -/

section Layout

variable {count : Nat} {aspectRatio : AspectRatio} {allowLargeGrid : Bool} {layout : GridLayout}

/-- The layout is the smallest step of the ladder that has a place for each of the scenes, up to
the limit; placeholders take the rest. -/
structure GridLayout.Fits (layout : GridLayout) (count : Nat) (allowLargeGrid : Bool) : Prop where
  filled : min count (maxCellCount allowLargeGrid) + layout.placeholderCount = layout.cellCount
  cells : layout.cellCount = layout.rows * layout.cols
  step : ∃ cfg ∈ gridLadder, cfg.1 = layout.cellCount
  least : ∀ cfg ∈ gridLadder, min count (maxCellCount allowLargeGrid) ≤ cfg.1 →
    layout.cellCount ≤ cfg.1

theorem GridLayout.Fits.bounded (fits : layout.Fits count allowLargeGrid) :
    layout.cellCount ≤ maxCellCount allowLargeGrid := by
  have step : ∃ cfg ∈ gridLadder, cfg.1 = maxCellCount allowLargeGrid := by
    cases allowLargeGrid <;> decide
  obtain ⟨cfg, listed, limit⟩ := step
  rw [← limit]
  exact fits.least cfg listed (by rw [limit]; exact Nat.min_le_right _ _)

theorem gridLadder_sorted : gridLadder.Pairwise fun a b => a.1 ≤ b.1 := by decide

theorem calculateGridLayout_fits
    (calculated : calculateGridLayout count aspectRatio allowLargeGrid = some layout) :
    0 < count ∧ layout.Fits count allowLargeGrid := by
  unfold calculateGridLayout at calculated
  split_ifs at calculated with few
  obtain ⟨cfg, found, made⟩ := Option.map_eq_some_iff.mp calculated
  obtain ⟨reached, before, after, split, smaller⟩ := List.find?_eq_some_iff_append.mp found
  have listed : cfg ∈ gridLadder := List.mem_of_find?_eq_some found
  have square : cfg.1 = cfg.2.2 * cfg.2.2 := by
    fin_cases listed <;> rfl
  have enough := of_decide_eq_true reached
  refine ⟨by omega, ?_⟩
  rw [← made]
  refine ⟨by simp only; omega, square, ⟨cfg, listed, rfl⟩, ?_⟩
  intro other member room
  have sorted := gridLadder_sorted
  rw [split, List.pairwise_append, List.pairwise_cons] at sorted
  rw [split] at member
  cases List.mem_append.mp member with
  | inl earlier =>
    have none_ := smaller other earlier
    rw [decide_eq_true room] at none_
    cases none_
  | inr here =>
    cases List.mem_cons.mp here with
    | inl same => rw [same]
    | inr later => exact sorted.2.1.1 other later

theorem calculateGridLayout_isSome (some_ : 0 < count) :
    (calculateGridLayout count aspectRatio allowLargeGrid).isSome = true := by
  unfold calculateGridLayout
  rw [if_neg (by omega), Option.isSome_map, List.find?_isSome]
  refine ⟨(25, "grid_25", 5), by decide, ?_⟩
  have limit : maxCellCount allowLargeGrid ≤ 25 := by
    cases allowLargeGrid <;> decide
  exact decide_eq_true (le_trans (Nat.min_le_right _ _) limit)

end Layout

/-! The chunks of a group. -/

section Chunks

variable {α : Type} {group : List α} {aspectRatio : AspectRatio} {allowLargeGrid : Bool}
  {layout : GridLayout}

theorem flatten_windows (group : List α) (size count : Nat) :
    ((List.range count).map fun turn => (group.drop (turn * size)).take size).flatten =
      group.take (count * size) := by
  induction count with
  | zero => simp
  | succ count ih =>
    rw [List.range_succ, List.map_append, List.flatten_append, ih, List.map_singleton,
      List.flatten_singleton, Nat.succ_mul, List.take_add]

/-- As many steps as a group needs. -/
theorem steps_cover {stop step : Nat} (positive : 0 < step) :
    stop ≤ (stop + step - 1) / step * step ∧
      ∀ turn < (stop + step - 1) / step, turn * step < stop := by
  have divided := Nat.div_add_mod (stop + step - 1) step
  have rest := Nat.mod_lt (stop + step - 1) positive
  rw [Nat.mul_comm] at divided
  refine ⟨by omega, ?_⟩
  intro turn within
  have next : (turn + 1) * step ≤ (stop + step - 1) / step * step :=
    Nat.mul_le_mul_right step within
  rw [Nat.succ_mul] at next
  omega

/-- Every chunk gets a layout. -/
theorem planGridChunks_windows
    (calculated : calculateGridLayout group.length aspectRatio allowLargeGrid = some layout) :
    (planGridChunks group aspectRatio allowLargeGrid).map Prod.fst =
      (List.range ((group.length + layout.cellCount - 1) / layout.cellCount)).map fun turn =>
        (group.drop (turn * layout.cellCount)).take layout.cellCount := by
  obtain ⟨some_, fits⟩ := calculateGridLayout_fits calculated
  have positive : 0 < layout.cellCount := by
    have filled := fits.filled
    have limit : 0 < maxCellCount allowLargeGrid := by cases allowLargeGrid <;> decide
    omega
  unfold planGridChunks
  simp only [calculated]
  rw [List.map_filterMap, steps, List.filterMap_map, ← List.filterMap_eq_map]
  apply List.filterMap_congr
  intro turn member
  have below := (steps_cover positive).2 turn (List.mem_range.mp member)
  have nonempty : 0 < ((group.drop (turn * layout.cellCount)).take layout.cellCount).length := by
    rw [List.length_take, List.length_drop]
    omega
  have isSome : (calculateGridLayout _ aspectRatio allowLargeGrid).isSome = true :=
    calculateGridLayout_isSome nonempty
  obtain ⟨chunkLayout, made⟩ := Option.isSome_iff_exists.mp isSome
  simp only [Function.comp_apply, made, Option.map_some]

theorem mem_planGridChunks {plan : List α × GridLayout}
    (member : plan ∈ planGridChunks group aspectRatio allowLargeGrid) :
    calculateGridLayout plan.1.length aspectRatio allowLargeGrid = some plan.2 := by
  unfold planGridChunks at member
  split at member
  · cases member
  · obtain ⟨i, -, made⟩ := List.mem_filterMap.mp member
    obtain ⟨chunkLayout, calculated, same⟩ := Option.map_eq_some_iff.mp made
    rw [← same]
    exact calculated

end Chunks

/-! The frame chain of a chunk. -/

section Chain

variable {sceneIds : List String} {rows cols placeholders : Nat}

/-- The cells of a chain: in the order of the rows, the scenes first, each linked to the one
before it, and the placeholders after them. -/
structure Chains (sceneIds : List String) (rows cols placeholders : Nat) (chain : List FrameCell) :
    Prop where
  length : chain.length = rows * cols
  rowMajor : ∀ idx cell, chain[idx]? = some cell →
    cell.index = idx ∧ cell.row < rows ∧ cell.col < cols ∧ cell.row * cols + cell.col = idx
  next : chain.map FrameCell.nextSceneId =
    sceneIds.map some ++ List.replicate placeholders none
  prev : chain.map FrameCell.prevSceneId =
    none :: sceneIds.dropLast.map some ++ List.replicate placeholders none
  empty : (chain.filter fun cell => cell.frameType == .placeholder).length = placeholders
  once : ∀ id, (chain.filter fun cell => cell.nextSceneId == some id).length = sceneIds.count id

theorem frameCell_place (sceneIds : List String) (cols idx : Nat) :
    (frameCell sceneIds cols idx).index = idx ∧ (frameCell sceneIds cols idx).row = idx / cols ∧
      (frameCell sceneIds cols idx).col = idx % cols := by
  unfold frameCell
  simp only
  split_ifs <;> exact ⟨rfl, rfl, rfl⟩

theorem frameCell_next (sceneIds : List String) (cols idx : Nat) :
    (frameCell sceneIds cols idx).nextSceneId = sceneIds[idx]? := by
  unfold frameCell
  simp only
  split_ifs with top known
  · rw [top]
  · rfl
  · exact (List.getElem?_eq_none (not_lt.mp known)).symm

theorem frameCell_prev (some_ : sceneIds ≠ []) (cols idx : Nat) :
    (frameCell sceneIds cols idx).prevSceneId = (none :: sceneIds.dropLast.map some)[idx]?.join := by
  unfold frameCell
  cases idx with
  | zero => rfl
  | succ idx =>
    have positive := List.length_pos_of_ne_nil some_
    simp only [Nat.add_one_ne_zero, if_false, List.getElem?_cons_succ, List.getElem?_map,
      Nat.add_sub_cancel]
    split_ifs with known
    · rw [List.getElem?_dropLast, if_pos (by omega)]
      cases sceneIds[idx]? <;> rfl
    · rw [List.getElem?_dropLast, if_neg (by omega)]
      rfl

theorem frameCell_empty (some_ : sceneIds ≠ []) (cols idx : Nat) :
    ((frameCell sceneIds cols idx).frameType == .placeholder) = decide (sceneIds.length ≤ idx) := by
  have positive := List.length_pos_of_ne_nil some_
  unfold frameCell
  simp only
  split_ifs with top known
  · rw [top, decide_eq_false (by omega)]
    rfl
  · rw [decide_eq_false (by omega)]
    rfl
  · rw [decide_eq_true (by omega)]
    rfl

/-- The first values of a list that may be too short. -/
theorem map_range_getElem? {α β : Type} (values : List α) (f : Option α → β) (extra : Nat) :
    (List.range (values.length + extra)).map (fun idx => f values[idx]?) =
      values.map (fun value => f (some value)) ++ List.replicate extra (f none) := by
  apply List.ext_getElem?
  intro idx
  rw [List.getElem?_map]
  by_cases within : idx < values.length
  · rw [List.getElem?_append_left (by rwa [List.length_map]), List.getElem?_map,
      List.getElem?_range (by omega), Option.map_some, List.getElem?_eq_getElem within, Option.map_some]
  · rw [List.getElem?_append_right (by rw [List.length_map]; omega), List.length_map,
      List.getElem?_replicate]
    by_cases inside : idx < values.length + extra
    · rw [List.getElem?_range inside, if_pos (by omega), Option.map_some,
        List.getElem?_eq_none (by omega)]
    · rw [List.getElem?_eq_none (by rw [List.length_range]; omega), if_neg (by omega)]
      rfl

theorem buildFrameChain_chains (some_ : sceneIds ≠ [])
    (filled : sceneIds.length + placeholders = rows * cols) :
    Chains sceneIds rows cols placeholders (buildFrameChain sceneIds rows cols) := by
  have next : (buildFrameChain sceneIds rows cols).map FrameCell.nextSceneId =
      sceneIds.map some ++ List.replicate placeholders none := by
    have shape := map_range_getElem? sceneIds id placeholders
    unfold buildFrameChain
    rw [List.map_map, ← filled]
    simp only [Function.comp_def, frameCell_next sceneIds]
    exact shape
  refine ⟨?_, ?_, next, ?_, ?_, ?_⟩
  · unfold buildFrameChain
    rw [List.length_map, List.length_range]
  · intro idx cell found
    unfold buildFrameChain at found
    rw [List.getElem?_map] at found
    obtain ⟨other, within, made⟩ := Option.map_eq_some_iff.mp found
    obtain ⟨bound, same⟩ := List.getElem?_eq_some_iff.mp within
    rw [List.getElem_range] at same
    rw [List.length_range] at bound
    have place := frameCell_place sceneIds cols other
    have wide : 0 < cols := Nat.pos_of_ne_zero fun none_ => by
      rw [none_, Nat.mul_zero] at bound
      omega
    rw [← made, place.1, place.2.1, place.2.2, ← same]
    refine ⟨rfl, ?_, Nat.mod_lt _ wide, ?_⟩
    · rw [Nat.div_lt_iff_lt_mul wide]
      exact bound
    · rw [Nat.mul_comm]
      exact Nat.div_add_mod idx cols
  · have positive := List.length_pos_of_ne_nil some_
    have shape := map_range_getElem? (none :: sceneIds.dropLast.map some) Option.join placeholders
    rw [List.length_cons, List.length_map, List.length_dropLast, Nat.sub_add_cancel positive] at shape
    unfold buildFrameChain
    rw [List.map_map, ← filled]
    simp only [Function.comp_def, frameCell_prev some_]
    rw [shape, List.map_cons, List.map_map]
    rfl
  · unfold buildFrameChain
    rw [List.filter_map, List.length_map, ← filled, List.range_add, List.filter_append]
    simp only [Function.comp_def, frameCell_empty some_]
    have front : (List.range sceneIds.length).filter (fun idx => decide (sceneIds.length ≤ idx)) =
        [] := by
      rw [List.filter_eq_nil_iff]
      intro idx member
      have below := List.mem_range.mp member
      simpa using below
    have back : ((List.range placeholders).map (sceneIds.length + ·)).filter
        (fun idx => decide (sceneIds.length ≤ idx)) =
          (List.range placeholders).map (sceneIds.length + ·) := by
      rw [List.filter_eq_self]
      intro idx member
      obtain ⟨extra, -, same⟩ := List.mem_map.mp member
      rw [← same]
      simp
    rw [front, back, List.nil_append, List.length_map, List.length_range]
  · intro id
    have counted : ((buildFrameChain sceneIds rows cols).filter fun cell =>
        cell.nextSceneId == some id).length =
          ((buildFrameChain sceneIds rows cols).map FrameCell.nextSceneId).count (some id) := by
      rw [List.count_eq_countP, List.countP_map, List.countP_eq_length_filter]
      rfl
    rw [counted, next, List.count_append, List.count_replicate, if_neg (by simp), Nat.add_zero]
    exact List.count_map_of_injective sceneIds some (Option.some_injective _) id

end Chain

/-- Every plan of a group: its chunks make up the group, none of them is empty, each fits its
layout and has a chain of frames, and each but the last is full. -/
theorem planGridChunks_covers {α : Type} (group : List α) (sceneId : α → String)
    (aspectRatio : AspectRatio) (allowLargeGrid : Bool) :
    ((planGridChunks group aspectRatio allowLargeGrid).map Prod.fst).flatten = group ∧
    (∀ plan ∈ planGridChunks group aspectRatio allowLargeGrid,
      plan.1 ≠ [] ∧ plan.1.length + plan.2.placeholderCount = plan.2.cellCount ∧
        plan.2.cellCount = plan.2.rows * plan.2.cols ∧
        plan.2.cellCount ≤ maxCellCount allowLargeGrid ∧
        Chains (plan.1.map sceneId) plan.2.rows plan.2.cols plan.2.placeholderCount
          (buildFrameChain (plan.1.map sceneId) plan.2.rows plan.2.cols)) ∧
    ∀ plan ∈ (planGridChunks group aspectRatio allowLargeGrid).dropLast,
      plan.1.length = plan.2.cellCount := by
  cases calculated : calculateGridLayout group.length aspectRatio allowLargeGrid with
  | none =>
    have few : group = [] := by
      by_contra some_
      have isSome : (calculateGridLayout group.length aspectRatio allowLargeGrid).isSome = true :=
        calculateGridLayout_isSome (List.length_pos_of_ne_nil some_)
      rw [calculated] at isSome
      cases isSome
    have none_ : planGridChunks group aspectRatio allowLargeGrid = [] := by
      unfold planGridChunks
      rw [calculated]
    rw [none_, few]
    exact ⟨rfl, fun _ member => (nomatch member), fun _ member => nomatch member⟩
  | some layout =>
    obtain ⟨some_, fits⟩ := calculateGridLayout_fits calculated
    have limit : 0 < maxCellCount allowLargeGrid := by cases allowLargeGrid <;> decide
    have filled := fits.filled
    have positive : 0 < layout.cellCount := by omega
    have windows := planGridChunks_windows calculated
    have cover := @steps_cover group.length layout.cellCount positive
    generalize (group.length + layout.cellCount - 1) / layout.cellCount = count at windows cover
    have short : ∀ plan ∈ planGridChunks group aspectRatio allowLargeGrid,
        plan.1.length ≤ layout.cellCount := by
      intro plan member
      have listed := List.mem_map_of_mem (f := Prod.fst) member
      rw [windows] at listed
      obtain ⟨turn, -, same⟩ := List.mem_map.mp listed
      rw [← same]
      exact List.length_take_le _ _
    have own : ∀ plan ∈ planGridChunks group aspectRatio allowLargeGrid,
        0 < plan.1.length ∧ plan.2.Fits plan.1.length allowLargeGrid ∧
          plan.1.length + plan.2.placeholderCount = plan.2.cellCount := by
      intro plan member
      obtain ⟨nonempty, ownFits⟩ := calculateGridLayout_fits (mem_planGridChunks member)
      have bound := short plan member
      have ownFilled := ownFits.filled
      have top := fits.bounded
      rw [Nat.min_eq_left (by omega)] at ownFilled
      exact ⟨nonempty, ownFits, ownFilled⟩
    refine ⟨?_, ?_, ?_⟩
    · rw [windows, flatten_windows]
      exact List.take_of_length_le cover.1
    · intro plan member
      obtain ⟨nonempty, ownFits, ownFilled⟩ := own plan member
      have ids : plan.1.map sceneId ≠ [] := by
        rw [Ne, List.map_eq_nil_iff]
        exact List.ne_nil_of_length_pos nonempty
      have cells : (plan.1.map sceneId).length + plan.2.placeholderCount = plan.2.rows * plan.2.cols := by
        rw [List.length_map, ownFilled, ownFits.cells]
      have chained := buildFrameChain_chains ids cells
      exact ⟨List.ne_nil_of_length_pos nonempty, ownFilled, ownFits.cells, ownFits.bounded, chained⟩
    · intro plan member
      have listed := List.mem_map_of_mem (f := Prod.fst) member
      rw [List.map_dropLast, windows, ← List.map_dropLast] at listed
      obtain ⟨turn, early, same⟩ := List.mem_map.mp listed
      have beforeLast : turn + 1 < count := by
        cases count with
        | zero => cases early
        | succ count =>
          rw [List.range_succ, List.dropLast_concat, List.mem_range] at early
          omega
      have next := cover.2 (turn + 1) beforeLast
      rw [Nat.succ_mul] at next
      have full : plan.1.length = layout.cellCount := by
        rw [← same, List.length_take, List.length_drop]
        omega
      obtain ⟨-, ownFits, ownFilled⟩ := own plan (List.mem_of_mem_dropLast member)
      obtain ⟨cfg, listed', step⟩ := fits.step
      have least := ownFits.least cfg listed' (by
        rw [step, ← full]
        exact Nat.min_le_left _ _)
      omega

example : (planGridChunks (List.range 10) ⟨16, 9⟩ false).map
    (fun plan => (plan.1.length, plan.2.cellCount)) = [(9, 9), (1, 4)] := by decide

end ArcReel.Grid
