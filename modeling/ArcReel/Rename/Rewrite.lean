import ArcReel.Prompt.References

/-! `lib.asset_rename` and the parts of `lib.asset_types` it uses: the references to an asset in a
script or draft, its path fields and its files, under a new name. -/

namespace ArcReel.Rename
open Lib PyText Mention Prompt

/-- The fields of a script that list names of a type. -/
def referenceListFields : AssetType → List String
  | .character => ["characters_in_segment", "characters_in_scene", "characters_in_shot"]
  | .scene => ["scenes"]
  | .prop => ["props"]
  | .product => ["products_in_shot"]

/-- Only products have a list of numbered reference images. -/
def sequencedRefs (type : AssetType) : Bool := type = .product

section Names

variable (u : Unicode)

def normalizeAssetName (name : String) : String := String.ofList (u.nfc name.toList)

def comparisonKey (name : String) : String := String.ofList (assetNameComparisonKey u name.toList)

def resolveAssetKey (bucket : Json) (name : String) : Option String :=
  match bucket with
  | .obj fields => ((fields.map Prod.fst).filter fun key =>
      normalizeAssetName u key = normalizeAssetName u name).getLast?
  | _ => none

/-- The keys equivalent to the old name become the new one: the first place, the last value. -/
def rekeyFields (fields : List (String × Json)) (oldName newName : String) : List (String × Json) :=
  fields.foldl (fun rekeyed field => Dict.setEntries rekeyed
    (if normalizeAssetName u field.1 = normalizeAssetName u oldName then newName else field.1) field.2) []

def rewriteMentions (text : String) (oldName newName : String) : String × Nat :=
  let chars := text.toList
  let replacement := "@[".toList ++ newName.toList ++ [']']
  let rec go : Nat → List MentionSpan → List Char × Nat
    | last, [] => (chars.drop last, 0)
    | last, mention :: rest =>
      if comparisonKey u (String.ofList mention.name) ≠ comparisonKey u oldName ∨
          (chars.take mention.stop).drop mention.start = replacement then go last rest
      else
        let later := go mention.stop rest
        ((chars.take mention.start).drop last ++ replacement ++ later.1, later.2 + 1)
  let result := go 0 (iterMentions chars)
  if result.2 = 0 then (text, 0) else (String.ofList result.1, result.2)

end Names

section Payload

variable (u : Unicode) (type : AssetType) (oldName newName : String)

def refersTo : Json → Bool
  | .str value => comparisonKey u value = comparisonKey u oldName && value ≠ newName
  | _ => false

/-- One item of `references`. -/
def rewriteReference (item : Json) : Json × Nat :=
  match item with
  | .obj fields =>
    if (item.get "type").str? = some type.label ∧ refersTo u oldName newName (item.get "name") then
      (.obj (Dict.setEntries fields "name" (.str newName)), 1)
    else (item, 0)
  | _ => (item, 0)

/-- The text of one shot or unit. -/
def rewriteText (item : Json) : Json × Nat :=
  match item with
  | .obj fields =>
    match item.get "text" with
    | .str text =>
      let rewritten := rewriteMentions u text oldName newName
      if rewritten.2 = 0 then (item, 0)
      else (.obj (Dict.setEntries fields "text" (.str rewritten.1)), rewritten.2)
    | _ => (item, 0)
  | _ => (item, 0)

def sumCounts {α : Type} (results : List (α × Nat)) : List α × Nat :=
  (results.map Prod.fst, (results.map Prod.snd).sum)

mutual

/-- `_walk`. -/
def walk : Json → Json × Nat
  | .obj fields => let result := walkFields fields; (.obj result.1, result.2)
  | .arr items => let result := walkItems items; (.arr result.1, result.2)
  | other => (other, 0)

def walkItems : List Json → List Json × Nat
  | [] => ([], 0)
  | item :: rest =>
    let first := walk item
    let later := walkItems rest
    (first.1 :: later.1, first.2 + later.2)

/-- The items of a list of names. -/
def walkNames : List Json → List Json × Nat
  | [] => ([], 0)
  | item :: rest =>
    let first := if refersTo u oldName newName item then (Json.str newName, 1) else walk item
    let later := walkNames rest
    (first.1 :: later.1, first.2 + later.2)

/-- The items of `shots` or `units`; a walk does not touch their texts. -/
def walkShots : List Json → List Json × Nat
  | [] => ([], 0)
  | item :: rest =>
    let walked := walk item
    let first := rewriteText u oldName newName walked.1
    let later := walkShots rest
    (first.1 :: later.1, walked.2 + first.2 + later.2)

def walkFields : List (String × Json) → List (String × Json) × Nat
  | [] => ([], 0)
  | (key, value) :: rest =>
    let first : Json × Nat :=
      match value with
      | .arr items =>
        if key ∈ referenceListFields type then
          let result := walkNames items; (.arr result.1, result.2)
        else if key = "references" then
          let result := sumCounts (items.map (rewriteReference u type oldName newName))
          (.arr result.1, result.2)
        else if key = "shots" ∨ key = "units" then
          let result := walkShots items; (.arr result.1, result.2)
        else let result := walkItems items; (.arr result.1, result.2)
      | value =>
        if key = "speaker" ∧ type = .character ∧ refersTo u oldName newName value then
          (.str newName, 1)
        else walk value
    let later := walkFields rest
    ((key, first.1) :: later.1, first.2 + later.2)

end

end Payload

section Paths

/-- `PurePosixPath`: its root and its components. -/
structure PosixPath where
  root : String
  parts : List String
  deriving DecidableEq, Repr

def splitSlashes (text : List Char) : List (List Char) := text.splitOnP (· == '/')

/-- `PurePosixPath(value)`. -/
def purePosixPath (chars : List Char) : PosixPath :=
  let slashes := (chars.takeWhile (· == '/')).length
  { root := if slashes = 0 then "" else if slashes = 2 then "//" else "/"
    parts := ((splitSlashes chars).filter fun part => part ≠ [] ∧ part ≠ ['.']).map String.ofList }

/-- `PurePosixPath(value.replace("\\", "/"))`. -/
def posixPath (value : String) : PosixPath :=
  purePosixPath (value.toList.map fun c => if c = '\\' then '/' else c)

def PosixPath.text (path : PosixPath) : String :=
  if path.root = "" ∧ path.parts = [] then "." else path.root ++ "/".intercalate path.parts

def PosixPath.parent (path : PosixPath) : PosixPath := { path with parts := path.parts.dropLast }

def PosixPath.name (path : PosixPath) : String := path.parts.getLastD ""

/-- The stem of a file name and its suffix, from the last dot that is neither first nor last. -/
def stemSuffix (name : String) : String × String :=
  let chars := name.toList
  let suffix := (chars.reverse.takeWhile (· ≠ '.')).reverse
  let front := chars.length - suffix.length - 1
  if suffix.length < chars.length ∧ front ≠ 0 ∧ suffix ≠ [] then
    (String.ofList (chars.take front), String.ofList (chars.drop front))
  else (name, "")

variable (u : Unicode) (digit : Char → Bool) (oldName newName : String)

/-- The stem of a file of the asset under the new name. -/
def renamedFileStem (stem : String) (allowSequence : Bool) : Option String :=
  let normalized := (normalizeAssetName u stem).toList
  let mark := (normalizeAssetName u oldName).toList ++ ['_']
  let number := normalized.drop mark.length
  if normalizeAssetName u stem = normalizeAssetName u oldName then some newName
  else if allowSequence && mark.isPrefixOf normalized && !number.isEmpty && number.all digit then
    some (newName ++ "_" ++ String.ofList number)
  else none

def renamedRelpath (rel : String) (allowSequence : Bool) : Option String :=
  let path := posixPath rel
  let (stem, suffix) := stemSuffix path.name
  (renamedFileStem u digit oldName newName stem allowSequence).map fun renamed =>
    PosixPath.text { path with parts := path.parts.dropLast ++ [renamed ++ suffix] }

/-- The directories of the files of a type: its own and two for uploads. -/
inductive Folder where
  | base
  | refs
  | refsAudio
  deriving DecidableEq, Repr

def Folder.path (folder : Folder) (type : AssetType) : PosixPath where
  root := ""
  parts := type.bucketKey :: match folder with
    | base => []
    | refs => ["refs"]
    | refsAudio => ["refs_audio"]

def Folder.all : List Folder := [.base, .refs, .refsAudio]

/-- A path field under the new name, if it changes. -/
def rewritePath (type : AssetType) (value : String) (sequencedField : Bool) : Option String :=
  let parent := (posixPath value).parent
  if (Folder.all.map (·.path type)).contains parent then
    (renamedRelpath u digit oldName newName value
      (sequencedField && sequencedRefs type && parent = Folder.refs.path type)).filter (· ≠ value)
  else none

def rewritePathField (type : AssetType) (entry : List (String × Json)) (field : String) :
    List (String × Json) × Nat :=
  match (Json.obj entry).get field with
  | .str value =>
    if value = "" then (entry, 0)
    else match rewritePath u digit oldName newName type value false with
      | some renamed => (Dict.setEntries entry field (.str renamed), 1)
      | none => (entry, 0)
  | _ => (entry, 0)

def rewriteImage (type : AssetType) (image : Json) : Json × Nat :=
  match image with
  | .str value =>
    if value = "" then (image, 0)
    else match rewritePath u digit oldName newName type value true with
      | some renamed => (.str renamed, 1)
      | none => (image, 0)
  | _ => (image, 0)

def rewriteEntryPaths (type : AssetType) (entry : List (String × Json)) : List (String × Json) × Nat :=
  let fields := [type.sheetField, "reference_image", "reference_audio"].foldl
    (fun (done : List (String × Json) × Nat) field =>
      let next := rewritePathField u digit oldName newName type done.1 field
      (next.1, done.2 + next.2)) (entry, 0)
  match (Json.obj fields.1).get "reference_images" with
  | .arr images =>
    let rewritten := sumCounts (images.map (rewriteImage u digit oldName newName type))
    if rewritten.2 = 0 then fields
    else (Dict.setEntries fields.1 "reference_images" (.arr rewritten.1), fields.2 + rewritten.2)
  | _ => fields

/-- The character table that old scripts embed. -/
def rewriteEmbedded (payload : List (String × Json)) : List (String × Json) × Nat :=
  match (Json.obj payload).get "characters" with
  | .obj embedded =>
    if (resolveAssetKey u (.obj embedded) oldName).isNone then (payload, 0)
    else
      let rekeyed := rekeyFields u embedded oldName newName
      let moved := if rekeyed.map Prod.fst = embedded.map Prod.fst then 0 else 1
      match (Json.obj rekeyed).get newName with
      | .obj entry =>
        let paths := rewriteEntryPaths u digit oldName newName .character entry
        (Dict.setEntries payload "characters" (.obj (Dict.setEntries rekeyed newName (.obj paths.1))),
          moved + paths.2)
      | _ => (Dict.setEntries payload "characters" (.obj rekeyed), moved)
  | _ => (payload, 0)

/-- `rewrite_payload_references`; a character in a payload that is no object raises. -/
def rewritePayloadReferences (type : AssetType) (payload : Json) : Option (Json × Nat) :=
  match type, payload with
  | .character, .obj fields =>
    let embedded := rewriteEmbedded u digit oldName newName fields
    let walked := walk u type oldName newName (.obj embedded.1)
    some (walked.1, embedded.2 + walked.2)
  | .character, _ => none
  | _, _ => some (walk u type oldName newName payload)

end Paths

section Files

/-- The bytes of a file. -/
abbrev File := List UInt8

/-- A planned move within a folder. -/
structure Move where
  folder : Folder
  source : String
  destination : String
  deriving DecidableEq, Repr

variable (u : Unicode) (digit : Char → Bool) (oldName newName : String)

/-- The names of a folder, in the order of their code points. -/
def sortedNames (names : List String) : List String := names.insertionSort (· ≤ ·)

/-- The moves within a folder; a destination that is taken is the error. -/
def planFolder (folder : Folder) (allowSequence : Bool) (names : List String) :
    List String → List String → Except String (List Move)
  | _, [] => .ok []
  | planned, name :: rest =>
    let (stem, suffix) := stemSuffix name
    match (renamedFileStem u digit oldName newName stem allowSequence).filter (· ≠ stem) with
    | some renamed =>
      let destination := renamed ++ suffix
      if destination ∈ planned ∨ destination ∈ names then .error destination
      else do
        let later ← planFolder folder allowSequence names (destination :: planned) rest
        return ⟨folder, name, destination⟩ :: later
    | none => planFolder folder allowSequence names planned rest

/-- `plan_asset_file_renames`: `folders` are the names of the files of the type's directories. -/
def planAssetFileRenames (type : AssetType) (folders : Folder → List String) :
    Except String (List Move) := do
  let base ← planFolder u digit oldName newName .base false (folders .base) []
    (sortedNames (folders .base))
  let refs ← planFolder u digit oldName newName .refs (sequencedRefs type) (folders .refs) []
    (sortedNames (folders .refs))
  let audio ← planFolder u digit oldName newName .refsAudio false (folders .refsAudio) []
    (sortedNames (folders .refsAudio))
  return base ++ refs ++ audio

end Files

end ArcReel.Rename
