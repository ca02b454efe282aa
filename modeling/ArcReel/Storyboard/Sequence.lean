import ArcReel.Lib.PyText

/-! The order of storyboards: which image continues which, the groups between segment breaks and the
plan of a batch. -/

namespace ArcReel.Storyboard
open ArcReel.Lib.PyText

/-- `generated_assets.storyboard_image` of an item: unset is `None` or empty. -/
inductive ImageRef where
  | unset
  | text (rel : List Char)
  | other
  deriving DecidableEq, Repr

/-- An item of a script: its id as `str` writes it, whether that id and `segment_break` are truthy. -/
structure Item where
  idText : List Char
  idTruthy : Bool
  segmentBreak : Bool
  storyboardImage : ImageRef
  deriving DecidableEq, Repr

/-- `str(item.get(id_field) or "").strip()`. -/
def Item.resourceId (item : Item) : List Char := if item.idTruthy then strip item.idText else []

structure StoryboardTaskPlan where
  resourceId : List Char
  scriptFile : Option (List Char)
  dependencyResourceId : Option (List Char)
  dependencyGroup : List Char
  dependencyIndex : Nat
  deriving DecidableEq, Repr

/-! The image of the previous storyboard. -/

section Previous

variable {P : Type}

/-- What the lookup of an image meets on the disk: a reference that does not stay under `storyboards/`
resolves to nothing. -/
structure Disk (P : Type) where
  schemaIsCurrent : Bool
  resolveImageRef : List Char → Option P
  scenePath : List Char → P
  isFile : P → Bool
  present : P → Bool

inductive ResolveError where
  | notFound (resourceId : List Char)
  | invalidImageRef
  deriving DecidableEq, Repr

def findStoryboardItem (items : List Item) (resourceId : List Char) : Option (Item × Nat) :=
  (items.zipIdx).find? fun entry => entry.1.idText == resourceId

def resolvePreviousStoryboardPath (disk : Disk P) (items : List Item) (resourceId : List Char) :
    Except ResolveError (Option P) :=
  match findStoryboardItem items resourceId with
  | none => .error (.notFound resourceId)
  | some (target, index) =>
    if index == 0 || target.segmentBreak then .ok none
    else
      match items[index - 1]? with
      | none => .ok none
      | some previous =>
        if previous.resourceId.isEmpty then .ok none
        else
          match previous.storyboardImage with
          | .text rel =>
            match disk.resolveImageRef rel with
            | none => .error .invalidImageRef
            | some path => .ok (if disk.isFile path then some path else none)
          | .other => .error .invalidImageRef
          | .unset =>
            if disk.schemaIsCurrent then .ok none
            else if disk.present (disk.scenePath previous.resourceId) then
              .ok (some (disk.scenePath previous.resourceId))
            else .ok none

end Previous

/-! Groups and plans. -/

def groupFrom (groups : List (List Item)) (current : List Item) : List Item → List (List Item)
  | [] => if current.isEmpty then groups else groups ++ [current]
  | item :: rest =>
    if item.segmentBreak && !current.isEmpty then groupFrom (groups ++ [current]) [item] rest
    else groupFrom groups (current ++ [item]) rest

def groupScenesBySegmentBreak (items : List Item) : List (List Item) := groupFrom [] [] items

section Plan

variable (selectedIds : List (List Char)) (scriptFile : Option (List Char))

/-- `not resource_id or resource_id not in selected_set`, the other way round. -/
def Item.selected (item : Item) : Bool :=
  !item.resourceId.isEmpty && selectedIds.contains item.resourceId

/-- `script_file or 'storyboard'`. -/
def scriptLabel : List Char := (scriptFile.filter fun name => !name.isEmpty).getD "storyboard".toList

def groupLabel (counter : Nat) : List Char :=
  scriptLabel scriptFile ++ ":group:".toList ++ (toString counter).toList

/-- The loop of `build_storyboard_dependency_plan` from an item on; `previous` is the item before. -/
def planFrom (previous : Option Item) (groupCounter : Nat) (currentGroup : List Char)
    (currentGroupIndex : Nat) : List Item → List StoryboardTaskPlan
  | [] => []
  | item :: rest =>
    if !item.selected selectedIds then planFrom (some item) groupCounter currentGroup currentGroupIndex rest
    else
      if item.segmentBreak || !previous.any (Item.selected selectedIds) then
        ⟨item.resourceId, scriptFile, none, groupLabel scriptFile (groupCounter + 1), 0⟩ ::
          planFrom (some item) (groupCounter + 1) (groupLabel scriptFile (groupCounter + 1)) 0 rest
      else
        ⟨item.resourceId, scriptFile, previous.map Item.resourceId, currentGroup, currentGroupIndex + 1⟩ ::
          planFrom (some item) groupCounter currentGroup (currentGroupIndex + 1) rest

def buildStoryboardDependencyPlan (items : List Item) : List StoryboardTaskPlan :=
  if selectedIds.isEmpty then [] else planFrom selectedIds scriptFile none 0 [] 0 items

end Plan

end ArcReel.Storyboard
