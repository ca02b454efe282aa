import ArcReel.Rename.Rewrite

/-! What a rename reads before it plans: the name, the schema, the shared name space, the errors of
the project and the number in the name of a script. -/

namespace ArcReel.Rename
open Lib PyText Mention Prompt

section Names

variable (u : Unicode)

def illegalAssetNameChars : List Char := "/\\\x00:*?\"<>|]".toList

def windowsReservedBasenames : List String :=
  ["CON", "PRN", "AUX", "NUL"] ++
    (["COM", "LPT"].flatMap fun port => (List.range 9).map fun i => port ++ toString (i + 1))

/-- `validate_asset_name`; no letter of a reserved name is the upper case of a letter that is not
ASCII. -/
def validateAssetName (name : String) : Option String :=
  let cleaned := u.nfc (strip name.toList)
  if cleaned.isEmpty then none
  else if !(occurrences "..".toList 0 cleaned).isEmpty || cleaned.any (· ∈ illegalAssetNameChars) ||
      cleaned.any (fun c => c.toNat < 32 || c.toNat == 127) then none
  else if cleaned.getLast? = some '.' then none
  else if String.ofList ((cleaned.takeWhile (· ≠ '.')).map Char.toUpper) ∈ windowsReservedBasenames then
    none
  else some (String.ofList cleaned)

/-- The table that a name of a table stands for. -/
def resolveAssetType (table : String) : Option AssetType :=
  AssetType.all.find? fun type => type.bucketKey = table

/-- `ASSET_SPECS` by `namespace_priority`. -/
def namespaceOrder : List AssetType := [.character, .scene, .prop, .product]

def projectAssetNames (project : Json) : List (AssetType × String) :=
  namespaceOrder.flatMap fun type =>
    match project.get type.bucketKey with
    | .obj fields => fields.map fun field => (type, field.1)
    | _ => []

/-- The first name equivalent to `name`, the excluded entry apart. -/
def findProjectAssetName (project : Json) (name : String) (exclude : AssetType × String) :
    Option (AssetType × String) :=
  (projectAssetNames project).find? fun other =>
    other ≠ exclude && comparisonKey u other.2 = comparisonKey u name

/-- No two names of the four tables are equivalent. -/
def assetNamespaceUnique (project : Json) : Bool :=
  let keys := (projectAssetNames project).map fun other => comparisonKey u other.2
  keys.dedup.length = keys.length

end Names

section Schema

def currentProjectSchemaVersion : Int := 8

def parseProjectSchemaVersion (project : Json) : Option Int :=
  match project.get "schema_version" with
  | .null => some 0
  | .int version => if version < 0 then none else some version
  | _ => none

end Schema

section Errors

/-- A value in a message: a text, or the `repr` of something else. -/
inductive Param where
  | text (value : String)
  | repr (value : String)
  deriving DecidableEq, Repr

/-- `ValidationMessage`. -/
structure Message where
  key : String
  params : Dict String Param

variable (u : Unicode) (oldName newName : String)

/-- `text.replace(old, new)` for an `old` that is not empty. -/
def replaceAll (old new : List Char) : Nat → List Char → List Char
  | 0, text => text
  | _, [] => []
  | fuel + 1, c :: rest =>
    if old.isPrefixOf (c :: rest) then new ++ replaceAll old new fuel ((c :: rest).drop old.length)
    else c :: replaceAll old new fuel rest

def foldName (value : String) : String :=
  if normalizeAssetName u value = normalizeAssetName u newName then oldName
  else
    let bracketed (name : String) := '[' :: (name.toList ++ [']'])
    String.ofList (replaceAll (bracketed newName) (bracketed oldName) value.length value.toList)

/-- A message without the name that changes. -/
def fingerprint (message : Message) : String × List (String × String) :=
  (message.key, (message.params.entries.map fun param => (param.1, match param.2 with
    | .text value => foldName u oldName newName value
    | .repr value => value)).insertionSort fun a b => a.1 ≤ b.1)

/-- The rename adds no error to those the project had. -/
def noNewErrors (before after : List Message) : Bool :=
  after.all fun message => fingerprint u oldName newName message ∈
    before.map (fingerprint u oldName newName)

end Errors

section Filename

/-- The letters that a letter of the pattern matches when case is ignored. -/
def sameLetter (letter c : Char) : Bool :=
  c == letter || c == letter.toUpper || (letter == 's' && c == 'ſ') ||
    (letter == 'i' && (c == 'İ' || c == 'ı'))

def dropWord : List Char → List Char → Option (List Char)
  | [], text => some text
  | letter :: word, c :: text => if sameLetter letter c then dropWord word text else none
  | _ :: _, [] => none

variable (digitValue : Char → Option Nat)

/-- `episode[-_\s]*(\d+)` from here on. -/
def episodeAt (text : List Char) : Option Nat :=
  match dropWord "episode".toList text with
  | none => none
  | some rest =>
    let digits := (rest.dropWhile fun c => c == '-' || c == '_' || isSpace c).takeWhile
      fun c => (digitValue c).isSome
    if digits.isEmpty then none
    else some (digits.foldl (fun number c => number * 10 + (digitValue c).getD 0) 0)

/-- The number in the name of a script. -/
def filenameEpisode : List Char → Option Nat
  | [] => none
  | c :: rest => (episodeAt digitValue (c :: rest)).or (filenameEpisode rest)

/-- `require_filename_episode_consistency`: `True` and `False` are numbers. -/
def filenameEpisodeConsistent (script : Json) (filename : String) : Bool :=
  match filenameEpisode digitValue filename.toList with
  | none => true
  | some number =>
    match script.get "episode" with
    | .int episode => episode = number
    | .bool value => (if value then 1 else 0) = number
    | _ => true

end Filename

section Durations

def positiveInt : Json → Option Int
  | .int value => if 0 < value then some value else none
  | _ => none

def eraseField (fields : List (String × Json)) (key : String) : List (String × Json) :=
  fields.filter fun field => field.1 ≠ key

def hasField (fields : List (String × Json)) (key : String) : Bool :=
  (fields.map Prod.fst).contains key

/-- The fields of a unit without the durations of its shots, and these. -/
def stripLegacyShotDurations (fields : List (String × Json)) : List (String × Json) × Int × Bool :=
  match (Json.obj fields).get "shots" with
  | .arr shots =>
    let legacy := shots.filterMap fun shot => match shot with
      | .obj shotFields => shotFields.lookup "duration"
      | _ => none
    let stripped := shots.map fun shot => match shot with
      | .obj shotFields => .obj (eraseField shotFields "duration")
      | other => other
    (Dict.setEntries fields "shots" (.arr stripped),
      (legacy.map fun value => (positiveInt value).getD 0).sum, !legacy.isEmpty)
  | _ => (fields, 0, false)

def migrateUnitDurations (unit : Json) : Json :=
  match unit with
  | .obj fields =>
    let (stripped, total, changed) := stripLegacyShotDurations fields
    let plain := eraseField stripped "duration_override"
    if !changed && !hasField stripped "duration_override" then unit
    else
      match (positiveInt ((Json.obj plain).get "duration_seconds")).or
          (if total = 0 then none else some total) with
      | none => .obj plain
      | some target => .obj (Dict.setEntries plain "duration_seconds" (.int (min (max target 1) 300)))
  | other => other

/-- `migrate_script_unit_durations`, which runs at every read of a script. -/
def migrateScriptUnitDurations (script : Json) : Json :=
  match script, script.get "video_units" with
  | .obj fields, .arr units =>
    .obj (Dict.setEntries fields "video_units" (.arr (units.map migrateUnitDurations)))
  | other, _ => other

end Durations

end ArcReel.Rename
