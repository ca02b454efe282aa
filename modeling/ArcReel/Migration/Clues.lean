import Mathlib.Data.Finmap
import ArcReel.Lib.Crash
import ArcReel.Lib.Dict
import ArcReel.Lib.Regex

/-! `lib.project_migrations.v0_to_v1_clues_to_scenes_props`: the clues of a project become scenes and
props, file by file, then the scripts, then `project.json`. -/

namespace ArcReel.Migration
open Lib Crash

section Glob

/-- A character of the set between brackets. -/
def inSet : List Char → Char → Bool
  | low :: '-' :: high :: rest, c => (low ≤ c && c ≤ high) || inSet rest c
  | d :: rest, c => c == d || inSet rest c
  | [], _ => false

/-- The set after a `[`, with its length; a `]` that comes first belongs to the set. -/
def bracket (rest : List Char) : Option (Nat × (Char → Bool)) :=
  let mark := if rest.head? = some '!' then 1 else 0
  let first := if (rest.drop mark).head? = some ']' then 1 else 0
  let body := (rest.drop (mark + first)).takeWhile (· ≠ ']')
  let length := mark + first + body.length
  if length < rest.length then
    let set := inSet ((rest.drop mark).take (first + body.length))
    some (length + 1, fun c => if mark = 1 then !set c else set c)
  else none

/-- `fnmatch.translate`; `skip` characters belong to a set already translated. -/
def translate : Nat → List Char → Regex
  | _, [] => .atEnd
  | skip + 1, _ :: rest => translate skip rest
  | 0, '*' :: rest => .seq (.star fun _ => true) (translate 0 rest)
  | 0, '?' :: rest => .seq (.char fun _ => true) (translate 0 rest)
  | 0, c :: rest =>
    match if c = '[' then bracket rest else none with
    | some (length, set) => .seq (.char set) (translate length rest)
    | none => .seq (.char (· == c)) (translate 0 rest)

def fnmatch (pattern name : String) : Bool :=
  ((Regex.seq .atStart (translate 0 pattern.toList)).exec? name.toList).isSome

end Glob

/-- The bytes of a file. -/
abbrev File := List UInt8

/-- A directory of files by name. -/
abbrev Dir := Finmap fun _ : String => File

inductive Kind where
  | scene
  | prop
  deriving DecidableEq, Repr

structure Clue where
  type : Option String
  description : String
  clueSheet : Option String
  deriving DecidableEq, Repr

/-- An entry of `scenes` or `props`. -/
structure Item where
  description : String
  sheet : Option String
  deriving DecidableEq, Repr

/-- `project.json`: no clues are an empty, null or missing field; `scenes` and `props` may be
missing (none) or null (some none). -/
structure Project where
  schemaVersion : Int
  clues : Dict String Clue
  scenes : Option (Option (Dict String Item))
  props : Option (Option (Dict String Item))
  deriving DecidableEq, Repr

/-- A scene or segment of a script: the names in its legacy fields and in its new ones. -/
structure ScriptItem where
  clues : Option (List String)
  cluesInSegment : Option (List String)
  cluesInScene : Option (List String)
  scenes : Option (List String)
  props : Option (List String)
  deriving DecidableEq, Repr

structure Script where
  schemaVersion : Int
  scenes : List ScriptItem
  segments : List ScriptItem
  deriving DecidableEq, Repr

/-- A directory whose files are sorted into two others; none is a directory that does not exist. -/
structure Sorting where
  source : Option Dir
  target : Kind → Option Dir

/-- What the migration reads and writes of a project: `clues` with `scenes` and `props`, the same
under `versions`, the scripts (none is a file that cannot be read) and `project.json`. -/
structure Tree where
  images : Sorting
  versions : Sorting
  scripts : Finmap fun _ : String => Option Script
  project : Project

/-- An order in which the files of a directory are listed. -/
structure Listing where
  files : Dir → List String
  mem_files : ∀ dir name, name ∈ files dir ↔ name ∈ dir
  scripts : (Finmap fun _ : String => Option Script) → List String
  mem_scripts : ∀ dir name, name ∈ scripts dir ↔ name ∈ dir

def Clue.kind (clue : Clue) : Kind :=
  let type := match clue.type with
    | some type => if type = "" then "prop" else type
    | none => "prop"
  if type.toLower = "location" then .scene else .prop

/-- `text.replace(old, new, 1)`. -/
def replaceFirst (old new : List Char) : List Char → List Char
  | [] => if old = [] then new else []
  | c :: rest =>
    if old.isPrefixOf (c :: rest) then new ++ (c :: rest).drop old.length
    else c :: replaceFirst old new rest

def movedSheet (folder : String) (clue : Clue) : Option String :=
  match clue.clueSheet with
  | some sheet =>
    if sheet = "" then none
    else some (String.ofList (replaceFirst "clues/".toList folder.toList sheet.toList))
  | none => none

def splitClues (clues : Dict String Clue) : Dict String Item × Dict String Item :=
  ((clues.filter fun _ clue => clue.kind = .scene).mapValues fun _ clue =>
      ⟨clue.description, movedSheet "scenes/" clue⟩,
    (clues.filter fun _ clue => clue.kind = .prop).mapValues fun _ clue =>
      ⟨clue.description, movedSheet "props/" clue⟩)

section Files

def mkdir (kind : Kind) : Prog Sorting :=
  .reading fun s =>
    if (s.target kind).isNone then
      .write fun s => { s with target := fun k => if k = kind then some ∅ else s.target k }
    else .skip

/-- `shutil.move` of a file that is there. -/
def move (kind : Kind) (name : String) : Prog Sorting :=
  .reading fun s =>
    match s.source, s.target kind with
    | some source, some target =>
      match source.lookup name with
      | some file => .write fun s =>
          { source := some (source.erase name)
            target := fun k => if k = kind then some (target.insert name file) else s.target k }
      | none => .skip
    | _, _ => .skip

/-- `rmdir`, which fails for a directory that is not empty. -/
def rmdir : Prog Sorting :=
  .reading fun s =>
    match s.source with
    | some source => if source.keys = ∅ then .write fun s => { s with source := none } else .skip
    | none => .skip

def exts : List String := ["png", "jpg", "jpeg", "webp"]

def imageNames (name : String) : List String := exts.map fun ext => name ++ "." ++ ext

/-- The files of `versions/clues` that `glob(f"{name}*")` returns. -/
def versionNames (listing : Listing) (name : String) (s : Sorting) : List String :=
  match s.source with
  | some source => (listing.files source).filter (fnmatch (name ++ "*"))
  | none => []

def relocateImages (clues : Dict String Kind) : Prog Sorting :=
  (mkdir .scene).seq <| (mkdir .prop).seq <|
    (Prog.each clues.entries fun clue => .each (imageNames clue.1) (move clue.2)).seq rmdir

def relocateVersions (listing : Listing) (clues : Dict String Kind) : Prog Sorting :=
  .reading fun s =>
    if s.source.isSome then
      (Prog.each clues.entries fun clue => (mkdir clue.2).seq
        (.reading fun s => .each (versionNames listing clue.1 s) (move clue.2))).seq rmdir
    else .skip

def relocateClueFiles (listing : Listing) (clues : Dict String Kind) : Prog Tree :=
  .reading fun t =>
    if t.images.source.isSome then
      (Prog.within Tree.images (fun t part => { t with images := part }) (relocateImages clues)).seq
        (.within Tree.versions (fun t part => { t with versions := part })
          (relocateVersions listing clues))
    else .skip

end Files

section Scripts

/-- The names of the legacy fields, each once. -/
def mergedClues (item : ScriptItem) : List String :=
  (item.clues.getD [] ++ item.cluesInSegment.getD [] ++ item.cluesInScene.getD []).foldl
    (fun seen name => if name ∈ seen then seen else seen ++ [name]) []

def kindOf (clues : Dict String Kind) (name : String) : Kind := (clues.get? name).getD .prop

def migrateItem (clues : Dict String Kind) (item : ScriptItem) : ScriptItem :=
  if item.clues.isNone && item.cluesInSegment.isNone && item.cluesInScene.isNone then item
  else
    { clues := none, cluesInSegment := none, cluesInScene := none
      scenes := some ((mergedClues item).filter fun name => kindOf clues name = .scene)
      props := some ((mergedClues item).filter fun name => kindOf clues name = .prop) }

def migrateScript (clues : Dict String Kind) (script : Script) : Script where
  schemaVersion := 1
  scenes := script.scenes.map (migrateItem clues)
  segments := script.segments.map (migrateItem clues)

/-- A script that is read and not migrated yet is written. -/
def migrateScriptFile (clues : Dict String Kind) (name : String) : Prog Tree :=
  .reading fun t =>
    match t.scripts.lookup name with
    | some (some script) =>
      if 1 ≤ script.schemaVersion then .skip
      else .write fun t => { t with scripts := t.scripts.insert name (some (migrateScript clues script)) }
    | _ => .skip

def migrateScripts (listing : Listing) (clues : Dict String Kind) : Prog Tree :=
  .reading fun t =>
    .each ((listing.scripts t.scripts).filter (fnmatch "*.json")) (migrateScriptFile clues)

end Scripts

def oldClues (project : Project) : Dict String Kind := project.clues.mapValues fun _ clue => clue.kind

def namesOf (field : Option (Option (Dict String Item))) : List String :=
  (field.join.getD .empty).keys

def reconstructOldCluesFromV1 (project : Project) : Dict String Kind :=
  (namesOf project.props).foldl (fun old name => old.set name .prop)
    ((namesOf project.scenes).foldl (fun old name => old.set name .scene) .empty)

def migrateProject (project : Project) : Project :=
  if project.clues.entries = [] then
    { schemaVersion := 1, clues := .empty
      scenes := some (project.scenes.getD (some .empty))
      props := some (project.props.getD (some .empty)) }
  else
    { schemaVersion := 1, clues := .empty
      scenes := some (some (splitClues project.clues).1)
      props := some (some (splitClues project.clues).2) }

def migrateV0ToV1 (listing : Listing) : Prog Tree :=
  .reading fun t =>
    if 1 ≤ t.project.schemaVersion then
      let clues := reconstructOldCluesFromV1 t.project
      match t.images.source with
      | some source =>
        if source.keys = ∅ then .skip
        else (relocateClueFiles listing clues).seq (migrateScripts listing clues)
      | none => .skip
    else
      let clues := oldClues t.project
      (relocateClueFiles listing clues).seq <| (migrateScripts listing clues).seq <|
        .write fun t => { t with project := migrateProject t.project }

end ArcReel.Migration
