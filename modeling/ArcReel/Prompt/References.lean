import ArcReel.Lib.Dict
import ArcReel.Prompt.Shots

/-! The asset tables of a project, the references that mentions resolve to, and the images that
references expand to and are clamped to. -/

namespace ArcReel.Prompt
open Lib PyText Mention

inductive AssetType where
  | product
  | character
  | scene
  | prop
  deriving DecidableEq, Repr

namespace AssetType

def label : AssetType → String
  | product => "product"
  | character => "character"
  | scene => "scene"
  | prop => "prop"

def bucketKey : AssetType → String
  | product => "products"
  | character => "characters"
  | scene => "scenes"
  | prop => "props"

def sheetField : AssetType → String
  | product => "product_sheet"
  | character => "character_sheet"
  | scene => "scene_sheet"
  | prop => "prop_sheet"

/-- The order in which a name is looked up and in which references are sorted. -/
def all : List AssetType := [product, character, scene, prop]

end AssetType

/-- `ReferenceResource`. -/
structure Reference where
  type : AssetType
  name : List Char
  deriving DecidableEq, Repr

section Tables

variable (u : Unicode)

/-- A table by normalized name; of two spellings of a name the later one wins. -/
def normalizeAssetBucket : Json → Dict (List Char) Json
  | .obj fields => fields.foldl (fun bucket field => bucket.set (u.nfc field.1.toList) field.2) .empty
  | _ => .empty

def bucket (project : Json) (type : AssetType) : Dict (List Char) Json :=
  normalizeAssetBucket u (project.get type.bucketKey)

/-- The first table that has the name. -/
def registeredType (project : Json) (name : List Char) : Option AssetType :=
  AssetType.all.find? fun type => ((bucket u project type).get? name).isSome

def resolveReferences (names : List (List Char)) (project : Json) :
    List Reference × List (List Char) :=
  let seen := firstSeen (names.map (assetNameComparisonKey u))
  (seen.filterMap fun name => (registeredType u project name).map (⟨·, name⟩),
    seen.filter fun name => (registeredType u project name).isNone)

/-- The declared references of one type, in order. -/
def declaredOf (type : AssetType) (item : Json) : Option Reference :=
  match (item.get "type").str?, (item.get "name").str? with
  | some label, some name =>
    let canonical := assetNameComparisonKey u name.toList
    if label = type.label ∧ canonical ≠ [] then some ⟨type, canonical⟩ else none
  | _, _ => none

/-- By type, then in the declared order, each once. -/
def canonicalizeReferences (references : Json) : List Reference :=
  match references with
  | .arr items => firstSeen (AssetType.all.flatMap fun type => items.filterMap (declaredOf u type))
  | _ => []

end Tables

inductive ImageKind where
  | sheet
  | original
  | single
  deriving DecidableEq, Repr

/-- `ResolvedReferenceAsset`. -/
structure Asset where
  path : String
  reference : Reference
  kind : ImageKind
  deriving DecidableEq, Repr

section Assets

-- `_candidate_path`: the path of a field value inside the project, if it is one.
variable (u : Unicode) (candidatePath : Json → Option String)

/-- The images of one reference. -/
def imagesOf (project : Json) (reference : Reference) : List Asset :=
  match (bucket u project reference.type).get? reference.name with
  | some (.obj fields) =>
    let entry := Json.obj fields
    let sheet := candidatePath (entry.get reference.type.sheetField)
    match reference.type with
    | .product =>
      let originals := match entry.get "reference_images" with
        | .arr paths => paths.filterMap candidatePath
        | _ => []
      sheet.toList.map (⟨·, reference, .sheet⟩) ++ originals.map (⟨·, reference, .original⟩)
    | _ => sheet.toList.map (⟨·, reference, .single⟩)
  | _ => []

def resolveReferenceAssets (project references : Json) : List Asset :=
  (canonicalizeReferences u references).flatMap (imagesOf u candidatePath project)

end Assets

/-- Product sheets before product originals before the rest. -/
def Asset.rank (asset : Asset) : Nat :=
  if asset.reference.type = .product ∧ asset.kind = .sheet then 0
  else if asset.reference.type = .product ∧ asset.kind = .original then 1
  else 2

def clampReferenceAssets (assets : List Asset) (limit : Option Nat) : List Asset :=
  match limit with
  | none => assets
  | some limit =>
    if assets.length ≤ limit then assets
    else ([0, 1, 2].flatMap fun rank => assets.filter (·.rank = rank)).take limit

end ArcReel.Prompt
