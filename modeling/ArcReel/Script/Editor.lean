import ArcReel.Lib.Except
import ArcReel.Lib.JsonObject

/-! `lib.script_skeleton` and the parts of `lib.script_editor` that find an item of a script and
set one of its fields. -/

namespace ArcReel.Script
open ArcReel.Lib

/-- What an adapter finds out about the speech of a unit; it is allowed if it has no problems. -/
structure SpeechAdmission (π : Type) where
  preparation : π
  problems : List String
  deriving DecidableEq

/-- `str` of a value that is not a string, the equality of values, the speech adapter of each kind
of item, and the references that a list of shots names; `none` is an exception. -/
structure Runtime (π : Type) where
  strOf : Json → String
  equal : Json → Json → Bool
  prepare : String → Json → Option (SpeechAdmission π)
  referencesOf : Json → Json → Option Json

/-- The kinds of skeletons. -/
inductive Kind where
  | segments
  | scenes
  | shots
  | videoUnits
  deriving DecidableEq, Repr

def Kind.key : Kind → String
  | .segments => "segments"
  | .scenes => "scenes"
  | .shots => "shots"
  | .videoUnits => "video_units"

def Kind.idField : Kind → String
  | .segments => "segment_id"
  | .scenes => "scene_id"
  | .shots => "shot_id"
  | .videoUnits => "unit_id"

inductive EditError where
  | itemsNotList (kind : Kind)
  | itemNotFound (id : String)
  | illegalPath (path : String)
  | protectedField (root : String)
  | parentNotObject (path : String)
  | noSuchPath (path : String)
  | missingItemId (idField : String)
  | duplicateId (id : String)
  | ownAnchor (id : String)
  | raised
  deriving DecidableEq, Repr

def resolveScriptKind (script : Json) : Kind :=
  if script.has "video_units" &&
      !(["segments", "scenes", "shots"].any fun key => script.has key) then .videoUnits
  else
    match (script.get "content_mode").str? with
    | some "ad" => .shots
    | some "drama" => .scenes
    | some "narration" =>
        if !script.has "segments" && script.has "scenes" then .scenes else .segments
    | _ =>
        if script.has "scenes" && !script.has "segments" then .scenes
        else if script.has "shots" && !script.has "segments" then .shots
        else .segments

/-- The items of the script and their kind. Without the key the list is a new one that is no part
of the script. -/
def resolveItems (script : Json) : Except EditError (List Json × Kind) :=
  let kind := resolveScriptKind script
  if !script.has kind.key then .ok ([], kind)
  else
    match script.get kind.key with
    | .arr items => .ok (items, kind)
    | _ => .error (.itemsNotList kind)

/-- The script after a change of the list that `resolve_items` has returned. -/
def storeItems (script : Json) (kind : Kind) (items : List Json) : Json :=
  if script.has kind.key then script.put kind.key (.arr items) else script

section Items

variable {π : Type} (rt : Runtime π)

/-- `str(value)`. -/
def pyStr : Json → String
  | .str value => value
  | value => rt.strOf value

def isItem (idField id : String) (item : Json) : Bool :=
  item.isObj && pyStr rt (item.get idField) == id

def findIndex (items : List Json) (idField id : String) : Except EditError Nat :=
  match items.findIdx? (isItem rt idField id) with
  | some index => .ok index
  | none => .error (.itemNotFound id)

/-- The roots that a patch must not change. -/
def protectedRoots : List String :=
  ["generated_assets", "needs_replan", "migration_requires_content_replan", "end_frame_image",
    "segment_id", "scene_id", "unit_id", "shot_id"]

/-- The walk of `_set_nested` along the parts of a path. -/
def setAlong (path : String) (value : Json) : List String → Json → Except EditError Json
  | [], _ => .error (.illegalPath path)
  | [leaf], cur => if cur.isObj then .ok (cur.put leaf value) else .error (.parentNotObject path)
  | part :: next :: later, cur =>
      if !cur.isObj then .error (.parentNotObject path)
      else if !cur.has part then .error (.noSuchPath path)
      else if !(cur.get part).isObj then .error (.parentNotObject path)
      else do
        let inner ← setAlong path value (next :: later) (cur.get part)
        .ok (cur.put part inner)

def pathParts (path : String) : List String := (path.toList.splitOn '.').map String.ofList

def setNested (item : Json) (path : String) (value : Json) : Except EditError Json :=
  match pathParts path with
  | [] => .error (.illegalPath path)
  | root :: later =>
      if (root :: later).any fun part => part == "" then .error (.illegalPath path)
      else if protectedRoots.contains root then .error (.protectedField root)
      else setAlong path value (root :: later) item

def patchField (script : Json) (id path : String) (value : Json) : Except EditError Json := do
  let (items, kind) ← resolveItems script
  let index ← findIndex rt items kind.idField id
  let item ← setNested (items[index]?.getD .null) path value
  .ok (storeItems script kind (items.set index item))

end Items

end ArcReel.Script
