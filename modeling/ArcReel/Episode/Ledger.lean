import Mathlib.Data.List.Sort
import ArcReel.Lib.Dict
import ArcReel.Lib.Json
import ArcReel.Lib.PyText

/-! The episode ledger: `lib.episode_ledger` over the parts of `project.json` and of
the `source/` directory that planning and resetting read and write. -/

namespace ArcReel.Episode
open ArcReel.Lib

/-- A candidate source file with its normalized text. -/
structure SourceDoc where
  relPath : String
  text : List Char
  deriving DecidableEq, Repr

/-- What `discover_sources` lists, in order: no path occurs twice. -/
structure Sources where
  docs : List SourceDoc
  distinct : (docs.map SourceDoc.relPath).Nodup

/-- Unicode normalization, the decimal value of a string of digits that are not all ASCII,
digests, the other files of the project that can be read, and the integer part of `n * 1.2`. -/
structure Runtime where
  nfc : List Char → List Char
  otherDigits : String → Option Int
  sha256 : List Char → String
  readText : String → Option (List Char)
  stretch : Nat → Nat

/-- The fields of `project.json` that planning uses. -/
structure Project where
  episodes : Option Json
  planningCursor : Option Json
  sourceFingerprints : Option Json
  planningWindowChars : Option Json
  planningMaxEpisodes : Option Json

/-- The project, and the files of `source/` that are not candidate sources. -/
structure ProjectState where
  project : Project
  files : Dict String (List Char)

/-- The downstream products on disk: the paths that exist, the names under `scripts/`, the
directories under `drafts/` with a `step1_*` file, and the fingerprint of an episode's step 1. -/
structure Products where
  pathExists : String → Bool
  scripts : List String
  drafts : List String
  step1Revision : Int → Json

def normalizeSourceText (rt : Runtime) (text : List Char) : List Char :=
  PyText.unifyNewlines (rt.nfc text)

/-- The digits between a start and an end, as in the pattern `start([0-9]+)end`. -/
def numberBetween (start stop name : String) : Option Nat :=
  let chars := name.toList
  let digits := (chars.drop start.length).take (chars.length - start.length - stop.length)
  if start.toList.isPrefixOf chars && stop.toList.isSuffixOf chars && !digits.isEmpty &&
      digits.all Char.isDigit && start.length + stop.length < chars.length then
    some (digits.foldl (fun n c => 10 * n + (c.toNat - '0'.toNat)) 0)
  else none

def episodeFileNum : String → Option Nat := numberBetween "episode_" ".txt"

def episodeFileName (num : Int) : String := "episode_" ++ toString num ++ ".txt"

def episodeScriptRelpath (num : Int) : String := "scripts/episode_" ++ toString num ++ ".json"

def parseEpisodeNum (rt : Runtime) : Json → Option Int
  | .int value => some value
  | .str value =>
      if value.isEmpty then none
      else if value.toList.all Char.isDigit then
        some (value.toList.foldl (fun n c => 10 * n + (c.toNat - '0'.toNat)) 0 : Nat)
      else rt.otherDigits value
  | _ => none

/-- The number of an entry that is an object. -/
def entryNum (rt : Runtime) (entry : Json) : Option Int :=
  if entry.isObj then parseEpisodeNum rt (entry.get "episode") else none

def parseSourceRange (entry : Json) : Option (String × Int × Int) :=
  let range := entry.get "source_range"
  match (range.get "source_file").str?, (range.get "start").int?, (range.get "end").int? with
  | some rel, some start, some stop => some (rel, start, stop)
  | _, _, _ => none

/-- Sorted by number; the sort is stable. -/
def sortByNum (rt : Runtime) (entries : List Json) : List Json :=
  entries.insertionSort fun a b =>
    (parseEpisodeNum rt (a.get "episode")).getD 0 ≤ (parseEpisodeNum rt (b.get "episode")).getD 0

/-- `_sort_episodes_if_possible`. -/
def sortEpisodesIfPossible (rt : Runtime) (entries : List Json) : List Json :=
  if entries.all fun entry => (entryNum rt entry).isSome then sortByNum rt entries else entries

/-- The names of the derived episode files by number, in the order of the names. -/
def discoverEpisodeFileAliases (files : Dict String (List Char)) : List (Nat × String) :=
  (files.keys.insertionSort (· ≤ ·)).filterMap fun name =>
    (episodeFileNum name).map fun num => (num, name)

/-- The number and the first name of each derived episode file. -/
def discoverEpisodeFiles (files : Dict String (List Char)) : List (Nat × String) :=
  (discoverEpisodeFileAliases files).foldl
    (fun found file => if found.any (·.1 == file.1) then found else found ++ [file]) []

def discoverProductEpisodeNums (products : Products) : List Nat :=
  products.scripts.filterMap (numberBetween "episode_" ".json") ++
    products.drafts.filterMap (numberBetween "episode_" "")

def hasDownstreamProducts (products : Products) (num : Int) (entry : Json) : Bool :=
  (entry.get "script_file").str?.any products.pathExists ||
    products.scripts.contains ("episode_" ++ toString num ++ ".json") ||
    products.drafts.contains ("episode_" ++ toString num)

/-- The entry of a derived episode file that the ledger does not know. -/
def orphanEntry (products : Products) (num : Nat) : Json :=
  let fields := [("episode", .int num), ("title", .str ""),
    ("script_file", .str (episodeScriptRelpath num))]
  .obj (fields ++ [("ledger_status",
    .str (if hasDownstreamProducts products num (.obj fields) then "consumed" else "planned"))])

def registerOrphanEpisodeEntries (rt : Runtime) (products : Products) (s : ProjectState) : Project :=
  match s.project.episodes.getD (.arr []) with
  | .arr entries =>
      let known := entries.filterMap (entryNum rt)
      let nums := ((discoverEpisodeFiles s.files).map Prod.fst).insertionSort (· ≤ ·)
      let orphans := nums.filter fun (num : Nat) => !known.contains (num : Int)
      { s.project with
        episodes := some (.arr (sortEpisodesIfPossible rt
          (entries ++ orphans.map (orphanEntry products)))) }
  | _ => s.project

/-- The numbers of the entries without a position record. -/
def episodesWithoutSourceRange (rt : Runtime) (project : Project) : List Int :=
  match project.episodes with
  | some (.arr entries) =>
      (entries.filterMap fun entry =>
        (entryNum rt entry).filter fun _ => (parseSourceRange entry).isNone).dedup.insertionSort (· ≤ ·)
  | _ => []

def computeSourceFingerprints (rt : Runtime) (sources : Sources) : List (String × String) :=
  sources.docs.map fun doc => (doc.relPath, rt.sha256 doc.text)

/-- The recorded files whose text is no longer the recorded one. -/
def mismatchedSourceFingerprints (rt : Runtime) (recorded : Option Json) (sources : Sources) :
    List String :=
  match recorded with
  | some (.obj fields) =>
      ((fields.filter fun field => field.2.str?.any fun fingerprint =>
        (computeSourceFingerprints rt sources).lookup field.1 != some fingerprint).map
          Prod.fst).insertionSort (· ≤ ·)
  | _ => []

end ArcReel.Episode
