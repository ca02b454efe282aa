import ArcReel.Billing.ApiCall
import ArcReel.Lib.Totals
import ArcReel.Script.Editor

/-! `CostEstimationService.compute`: how the spending of a project is attributed to the segments and units
of its scripts, to its assets, and to nothing. Amounts are in millionths. -/

namespace ArcReel.Billing
open Lib

/-- The columns of a row of `api_calls` that the cost page goes by. -/
structure SpendRow where
  callType : String
  status : CallStatus
  segmentId : Option String
  outputPath : Option String
  costAmount : Int
  currency : String
  deriving DecidableEq

abbrev CostBreakdown : Type := Dict String Int

/-- By segment and by type of call. -/
abbrev ActualBySegment : Type := Dict String (Dict String CostBreakdown)

def projectLevelSegmentKey : String := "\x00__project__"

def actualCostTypes : List String := ["image", "video", "audio"]

def amountIn (currency : String) (cost : CostBreakdown) : Int := (cost.get? currency).getD 0

/-- A missing breakdown is an empty one. -/
def breakdown (byType : Dict String CostBreakdown) (costType : String) : CostBreakdown :=
  (byType.get? costType).getD .empty

section Queries

/-- A row of a grouped sum. -/
structure Group (κ : Type) where
  key : κ
  total : Int
  deriving DecidableEq

/-- `SELECT key, SUM(cost_amount) .. GROUP BY key`. -/
def groupCosts {κ : Type} [DecidableEq κ] (key : SpendRow → κ) (rows : List SpendRow) : List (Group κ) :=
  (rows.map key).dedup.map fun value =>
    ⟨value, ((rows.filter fun row => key row = value).map SpendRow.costAmount).sum⟩

def SpendRow.billed (row : SpendRow) : Bool := row.status = .success && 0 < row.costAmount

/-- The rows that `get_actual_costs_by_segment` selects, in some order. -/
def segmentGroups (table : List SpendRow) : List (Group (Option String × String × String)) :=
  groupCosts (fun row => (row.segmentId, row.callType, row.currency)) (table.filter SpendRow.billed)

/-- `get_actual_costs_by_segment` from its selected rows. -/
def actualCostsBySegment (groups : List (Group (Option String × String × String))) : ActualBySegment :=
  groups.foldl (fun result group =>
    let key := group.key.1.getD projectLevelSegmentKey
    let byType := (result.get? key).getD .empty
    let cost := breakdown byType group.key.2.1
    result.set key (byType.set group.key.2.1 (cost.set group.key.2.2 group.total))) .empty

def assetTypes : List String := ["characters", "scenes", "props", "products"]

/-- `_classify_asset_output_path`, for the `str.lower` of Python. -/
def classifyAssetOutputPath (lower : String → String) (outputPath : Option String) : String :=
  match outputPath with
  | none | some "" => "other"
  | some path =>
    let normalized := (lower (path.map fun c => if c = '\\' then '/' else c)).toList
    let holds (folder : String) : Bool :=
      decide ('/' :: folder.toList ++ ['/'] <:+: normalized) || (folder.toList ++ ['/']).isPrefixOf normalized
    match assetTypes.find? holds with
    | some assetType => assetType
    | none => if holds "clues" then "props" else "other"

/-- The rows that `get_project_image_costs_by_asset_type` selects, in some order. -/
def assetGroups (table : List SpendRow) : List (Group (Option String × String)) :=
  groupCosts (fun row => (row.outputPath, row.currency))
    (table.filter fun row => row.billed && row.callType = "image" && row.segmentId.isNone)

/-- `get_project_image_costs_by_asset_type` from its selected rows. -/
def imageCostsByAssetType (lower : String → String) (groups : List (Group (Option String × String))) :
    Dict String CostBreakdown :=
  groups.foldl (fun result group =>
    let assetType := classifyAssetOutputPath lower group.key.1
    let bucket := breakdown result assetType
    result.set assetType (bucket.set group.key.2 (amountIn group.key.2 bucket + group.total))) .empty

end Queries

/-- `_merge_breakdowns`. -/
def mergeBreakdowns (a b : CostBreakdown) : CostBreakdown :=
  b.entries.foldl (fun merged entry => merged.set entry.1 (amountIn entry.1 merged + entry.2)) a

/-- What was claimed, by segment and type. -/
abbrev Claimed : Type := Finset (String × String)

/-- `_claim_actual` of an id that is a string. -/
def claimActual (actual : ActualBySegment) (claimed : Claimed) (segmentId : String)
    (costTypes : List String) : Dict String CostBreakdown × Claimed :=
  if segmentId = "" then (.empty, claimed)
  else
    costTypes.foldl (fun state costType =>
      if (segmentId, costType) ∈ state.2 then state
      else
        let amounts := breakdown ((actual.get? segmentId).getD .empty) costType
        (if amounts.entries.isEmpty then state.1 else state.1.set costType amounts,
          insert (segmentId, costType) state.2)) (.empty, claimed)

/-- `_claim_actual` of any value: a key that is no string has no amounts, and one that cannot be hashed
raises. -/
def claimValue (actual : ActualBySegment) (claimed : Claimed) (segmentId : Json) :
    Option (Dict String CostBreakdown × Claimed) :=
  match segmentId with
  | .str segmentId => some (claimActual actual claimed segmentId actualCostTypes)
  | .arr (_ :: _) | .obj (_ :: _) => none
  | _ => some (.empty, claimed)

/-- `round(amount / parts)`, to even. -/
def roundedShare (amount : Int) (parts : Nat) : Int :=
  let doubled := 2 * (amount % parts)
  if doubled < parts ∨ doubled = parts ∧ amount / parts % 2 = 0 then amount / parts else amount / parts + 1

/-- `_split_cost_across`. -/
def splitCostAcross (cost : CostBreakdown) (parts : Nat) : List CostBreakdown :=
  (List.range parts).map fun index => cost.mapValues fun _ amount =>
    if index + 1 < parts then roundedShare amount parts else amount - roundedShare amount parts * (parts - 1)

structure SegmentCost where
  segmentId : Json
  image : CostBreakdown
  video : CostBreakdown
  audio : CostBreakdown

def SegmentCost.ofType (segment : SegmentCost) (costType : String) : CostBreakdown :=
  if costType = "image" then segment.image
  else if costType = "video" then segment.video
  else segment.audio

structure EpisodeCost where
  episode : Json
  title : Json
  segments : List SegmentCost
  actual : Dict String CostBreakdown

/-- Every type of cost is merged in. -/
def addByType (totals : Dict String CostBreakdown) (costs : String → CostBreakdown) :
    Dict String CostBreakdown :=
  actualCostTypes.foldl (fun totals costType =>
    totals.set costType (mergeBreakdowns (breakdown totals costType) (costs costType))) totals

/-- The totals of an episode, segment after segment. -/
def episodeTotals (segments : List SegmentCost) : Dict String CostBreakdown :=
  segments.foldl (fun totals segment => addByType totals segment.ofType) .empty

section Storyboard

/-- What can be no key of a dictionary. -/
def unhashable : Json → Bool
  | .arr _ | .obj _ => true
  | _ => false

/-- `get_generated_assets(seg).get("grid_id")`, where both it and the id are truthy. -/
def gridId (idKey : String) (item : Json) : Json :=
  let grid := (item.get "generated_assets").get "grid_id"
  if (item.get idKey).truthy && grid.truthy then grid else .null

/-- `grid_to_indices`: the positions of the items of each grid; a grid id that is no string has no costs. -/
def gridToIndices (idKey : String) (items : List Json) : Dict String (List Nat) :=
  items.zipIdx.foldl (fun grids item =>
    match gridId idKey item.1 with
    | .str grid => grids.addTo grid item.2
    | _ => grids) .empty

/-- The image costs of a grid, split over its positions. -/
def shareGrid (actual : ActualBySegment) (state : Dict Nat CostBreakdown × Claimed)
    (grid : String × List Nat) : Dict Nat CostBreakdown × Claimed :=
  let claim := claimActual actual state.2 grid.1 ["image"]
  let cost := breakdown claim.1 "image"
  (if cost.entries.isEmpty then state.1
    else (grid.2.zip (splitCostAcross cost grid.2.length)).foldl
      (fun shares share => shares.set share.1 share.2) state.1, claim.2)

/-- `grid_actual_per_index`. -/
def gridActualPerIndex (actual : ActualBySegment) (claimed : Claimed) (grids : List (String × List Nat)) :
    Dict Nat CostBreakdown × Claimed :=
  grids.foldl (shareGrid actual) (.empty, claimed)

/-- The image costs of a segment with its share of a grid. -/
def withShare (own : CostBreakdown) : Option CostBreakdown → CostBreakdown
  | some share => mergeBreakdowns own share
  | none => own

/-- The segments of a storyboard episode, from the given position on. -/
def storyboardSegments (actual : ActualBySegment) (shares : Dict Nat CostBreakdown) (idKey : String) :
    List Json → Nat → Claimed → Option (List SegmentCost × Claimed)
  | [], _, claimed => some ([], claimed)
  | item :: items, index, claimed => do
    let segmentId := item.getOr idKey (.str "")
    let (own, claimed) ← claimValue actual claimed segmentId
    let image := withShare (breakdown own "image") (shares.get? index)
    let (segments, claimed) ← storyboardSegments actual shares idKey items (index + 1) claimed
    some (⟨segmentId, image, breakdown own "video", breakdown own "audio"⟩ :: segments, claimed)

/-- The items and the field of their ids; a script with a broken list has no items. -/
def storyboardItems (script : Json) : List Json × String :=
  match Script.resolveItems script with
  | .ok (items, kind) => if kind = Script.Kind.videoUnits then ([], kind.idField) else (items, kind.idField)
  | .error _ => ([], "segment_id")

/-- An episode on the storyboard route. -/
def storyboardEpisode (actual : ActualBySegment) (claimed : Claimed) (script : Json) :
    Option (List SegmentCost × Claimed) :=
  let (items, idKey) := storyboardItems script
  let raises := items.any fun item => !item.isObj || unhashable (gridId idKey item)
  if raises then none
  else
    let (shares, claimed) := gridActualPerIndex actual claimed (gridToIndices idKey items).entries
    storyboardSegments actual shares idKey items 0 claimed

end Storyboard

def referenceUnits (script : Json) : List Json :=
  match script.get "video_units" with
  | .arr units => units.filter Json.isObj
  | _ => []

/-- The units of an episode on the reference video route. -/
def referenceEpisode (actual : ActualBySegment) (claimed : Claimed) (script : Json) :
    List SegmentCost × Claimed :=
  (referenceUnits script).foldl (fun state unit =>
    match unit.get "unit_id" with
    | .str "" => state
    | .str unitId =>
      let (own, claimed) := claimActual actual state.2 unitId actualCostTypes
      (state.1 ++ [⟨.str unitId, breakdown own "image", breakdown own "video", breakdown own "audio"⟩], claimed)
    | _ => state) ([], claimed)

/-- What the loops of `compute` fill. -/
structure Accounts where
  episodes : List EpisodeCost
  project : Dict String CostBreakdown
  claimed : Claimed

/-- `_accumulate_episode`. -/
def accumulateEpisode (accounts : Accounts) (entry : Json) (segments : List SegmentCost) (claimed : Claimed) :
    Accounts :=
  let totals := episodeTotals segments
  { episodes := accounts.episodes ++ [⟨entry.get "episode", entry.getOr "title" (.str ""), segments, totals⟩]
    project := addByType accounts.project (breakdown totals)
    claimed := claimed }

/-- `scripts.get(ep_meta.get("script_file", ""))`, if there is something in it. -/
def scriptOf (scripts : Dict String Json) (entry : Json) : Option Json :=
  match entry.getOr "script_file" (.str "") with
  | .str file => (scripts.get? file).filter Json.truthy
  | _ => none

/-- The segments of an episode on the route of the project. -/
def episodeSegments (actual : ActualBySegment) (referenceVideo : Bool) (claimed : Claimed) (script : Json) :
    Option (List SegmentCost × Claimed) :=
  if !script.isObj then none
  else if referenceVideo then some (referenceEpisode actual claimed script)
  else storyboardEpisode actual claimed script

def accumulateEpisodes (actual : ActualBySegment) (scripts : Dict String Json) (referenceVideo : Bool) :
    List Json → Accounts → Option Accounts
  | [], accounts => some accounts
  | entry :: metas, accounts =>
    match scriptOf scripts entry with
    | none => accumulateEpisodes actual scripts referenceVideo metas accounts
    | some script => do
      let (segments, claimed) ← episodeSegments actual referenceVideo accounts.claimed script
      accumulateEpisodes actual scripts referenceVideo metas (accumulateEpisode accounts entry segments claimed)

section Leftovers

/-- `re.match(r"^E(\d+)(?:S|U)", segment_id)`, for the decimal digits of Python. -/
def episodeOfSegment (digit : Char → Option Nat) (segmentId : String) : Option Int :=
  match segmentId.toList with
  | 'E' :: rest =>
    let digits := rest.takeWhile fun c => (digit c).isSome
    let next := (rest.dropWhile fun c => (digit c).isSome).head?
    if digits ≠ [] ∧ (next = some 'S' ∨ next = some 'U') then
      some (digits.foldl (fun number c => 10 * number + ((digit c).getD 0 : Int)) 0)
    else none
  | _ => none

/-- What no segment, unit or grid has claimed. -/
def leftovers (actual : ActualBySegment) (claimed : Claimed) : List (String × CostBreakdown) :=
  actual.entries.flatMap fun entry =>
    if entry.1 = projectLevelSegmentKey then []
    else actualCostTypes.filterMap fun costType =>
      let amounts := breakdown entry.2 costType
      if amounts.entries.isEmpty || (entry.1, costType) ∈ claimed then none else some (entry.1, amounts)

def addUnassigned (totals : Dict String CostBreakdown) (amounts : CostBreakdown) : Dict String CostBreakdown :=
  totals.set "unassigned" (mergeBreakdowns (breakdown totals "unassigned") amounts)

/-- The last of the episodes with the number. -/
def lastNumbered {α : Type} (number : α → Json) (items : List α) (episode : Int) : Option Nat :=
  (items.zipIdx.filter fun item => (number item.1).sameKey (.int episode)).getLast?.map Prod.snd

/-- `_attribution_target`, and the amounts that it gets. -/
def attributeCosts (metas : List Json) (episodes : List EpisodeCost) (episode : Int) (amounts : CostBreakdown) :
    List EpisodeCost :=
  match lastNumbered EpisodeCost.episode episodes episode with
  | some index =>
    episodes.modify index fun cost => { cost with actual := addUnassigned cost.actual amounts }
  | none =>
    match lastNumbered (fun entry => entry.get "episode") metas episode with
    | some index =>
      episodes ++ [⟨.int episode, ((metas[index]?).getD .null).getOr "title" (.str ""), [],
        addUnassigned .empty amounts⟩]
    | none => episodes

def assignLeftovers (digit : Char → Option Nat) (metas : List Json) (accounts : Accounts)
    (left : List (String × CostBreakdown)) : Accounts :=
  left.foldl (fun accounts entry =>
    { accounts with
      project := addUnassigned accounts.project entry.2
      episodes := match episodeOfSegment digit entry.1 with
        | some episode => attributeCosts metas accounts.episodes episode entry.2
        | none => accounts.episodes }) accounts

/-- The place of an episode in `project.json`. -/
def metaOrder (metas : List Json) (cost : EpisodeCost) : Nat :=
  ((metas.zipIdx.filter fun entry => (entry.1.get "episode").sameKey cost.episode).getLast?.map
    Prod.snd).getD metas.length

/-- The asset images, and what has no segment otherwise. -/
def addProjectLevel (actual : ActualBySegment) (images : Dict String CostBreakdown)
    (project : Dict String CostBreakdown) : Dict String CostBreakdown :=
  let listed := assetTypes.foldl (fun project assetType =>
    let bucket := breakdown images assetType
    if bucket.entries.isEmpty then project else project.set assetType bucket) project
  let projectLevel := (actual.get? projectLevelSegmentKey).getD .empty
  [breakdown images "other", breakdown projectLevel "video", breakdown projectLevel "audio"].foldl
    (fun project amounts => if amounts.entries.isEmpty then project else addUnassigned project amounts) listed

end Leftovers

/-- The actual costs that `compute` returns, from what the two queries return; `none` is a raise. -/
def compute (digit : Char → Option Nat) (actual : ActualBySegment) (images : Dict String CostBreakdown)
    (metas : List Json) (scripts : Dict String Json) (referenceVideo : Bool) :
    Option (List EpisodeCost × Dict String CostBreakdown) := do
  let raises := metas.any fun entry => !entry.isObj || unhashable (entry.get "episode") ||
    unhashable (entry.getOr "script_file" (.str ""))
  let accounts ← accumulateEpisodes actual scripts referenceVideo metas ⟨[], .empty, ∅⟩
  if raises then none
  else
    let settled := assignLeftovers digit metas accounts (leftovers actual accounts.claimed)
    some (settled.episodes.insertionSort (metaOrder metas · ≤ metaOrder metas ·),
      addProjectLevel actual images settled.project)

end ArcReel.Billing
