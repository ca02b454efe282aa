import ArcReel.Episode.Planner

/-! `lib.episode_reset`: full and partial resets of the ledger. The artifact manifest,
which can only make a reset fail, is left out. -/

namespace ArcReel.Episode
open ArcReel.Lib

inductive ResetError where
  | fromEpisodeNotPositive (fromEpisode : Int)
  | ledgerNotList
  | entryNotObject
  | entryWithoutNum
  | entryNumNotPositive (num : Int)
  | duplicateNum (num : Int)
  | unknownEpisode (fromEpisode : Int) (known : List Int)
  | gapInRetained (expected : Int)
  | sourceChanged (paths : List String)
  | rangeInvalid (num : Int) (rel : String) (length : Nat) (start stop : Int)
  | unanchoredBefore (num : Int)
  | firstNotAtStart (rel : String) (start stop : Int)
  | sourceSwitchInvalid (num : Int) (prevRel : String)
  | notContiguous (num expected start : Int)
  | retainedUnanchored (num : Int)
  | conflict
  deriving DecidableEq, Repr

/-- The entries by number, in the order of the list; the shape must be clean. -/
def entriesByNum (rt : Runtime) :
    List Json → Dict Int Json → Except ResetError (Dict Int Json)
  | [], found => .ok found
  | entry :: later, found =>
      if !entry.isObj then .error .entryNotObject
      else
        match parseEpisodeNum rt (entry.get "episode") with
        | none => .error .entryWithoutNum
        | some num =>
            if num < 1 then .error (.entryNumNotPositive num)
            else if num ∈ found.keys then .error (.duplicateNum num)
            else entriesByNum rt later (found.set num entry)

/-- The first number from `expected` on that the sorted numbers miss. -/
def firstGap : List Int → Int → Int
  | [], expected => expected
  | num :: later, expected => if num = expected then firstGap later (expected + 1) else expected

/-- The position of a path among the candidates. -/
def sourceIndex (sources : Sources) (rel : String) : Option Nat :=
  sources.docs.findIdx? fun doc => doc.relPath == rel

def textByRel (sources : Sources) (rel : String) : Option (List Char) :=
  (sources.docs.find? fun doc => doc.relPath == rel).map SourceDoc.text

/-- A range that starts the ledger. -/
def startsLedger (sources : Sources) (rel : String) (start : Int) : Bool :=
  decide (start = 0) && (sourceIndex sources rel).any fun idx =>
    (sources.docs.take idx).all fun doc => PyText.isBlank doc.text

/-- A range of another file may follow the end of an exhausted one. -/
def switchesSource (sources : Sources) (prevRel : String) (prevEnd : Int) (rel : String) : Bool :=
  match sourceIndex sources prevRel, sourceIndex sources rel, textByRel sources prevRel with
  | some prevIdx, some idx, some prevText =>
      decide (prevIdx < idx) && PyText.isBlank (PyText.sliceFrom prevText prevEnd) &&
        ((sources.docs.take idx).drop (prevIdx + 1)).all fun doc => PyText.isBlank doc.text
  | _, _, _ => false

/-- One turn of the loop over the retained entries. -/
def checkRetained (sources : Sources) (num : Int) (entry : Json) (prev : Option (String × Int)) :
    Except ResetError (Option (String × Int)) :=
  match parseSourceRange entry with
  | none => .ok none
  | some (rel, start, stop) =>
      match textByRel sources rel with
      | none => .error (.rangeInvalid num rel 0 start stop)
      | some text =>
          if ¬(0 ≤ start ∧ start < stop ∧ stop ≤ text.length) then
            .error (.rangeInvalid num rel text.length start stop)
          else
            match prev with
            | none =>
                if num ≠ 1 then .error (.unanchoredBefore num)
                else if startsLedger sources rel start then .ok (some (rel, stop))
                else .error (.firstNotAtStart rel start stop)
            | some (prevRel, prevEnd) =>
                if rel = prevRel then
                  if start = prevEnd then .ok (some (rel, stop))
                  else .error (.notContiguous num prevEnd start)
                else if !switchesSource sources prevRel prevEnd rel then
                  .error (.sourceSwitchInvalid num prevRel)
                else if start = 0 then .ok (some (rel, stop))
                else .error (.notContiguous num 0 start)

/-- The loop over the numbers `num, num + 1, …` of the retained entries. -/
def checkAllRetained (sources : Sources) (entries : Dict Int Json) :
    Nat → Int → Option (String × Int) → Except ResetError (Option (String × Int))
  | 0, _, prev => .ok prev
  | count + 1, num, prev => do
      let prev ← checkRetained sources num ((entries.get? num).getD .null) prev
      checkAllRetained sources entries count (num + 1) prev

/-- The planning position after a partial reset. -/
def resolvePartialResetCursor (rt : Runtime) (sources : Sources) (project : Project)
    (fromEpisode : Int) : Except ResetError (String × Int) := do
  match project.episodes with
  | some (.arr items) =>
      let entries ← entriesByNum rt items .empty
      let known := entries.keys.insertionSort (· ≤ ·)
      if fromEpisode ∉ entries.keys then throw (.unknownEpisode fromEpisode known)
      let expected := firstGap (known.filter fun num => decide (num < fromEpisode)) 1
      if expected ≠ fromEpisode then throw (.gapInRetained expected)
      let mismatched := mismatchedSourceFingerprints rt project.sourceFingerprints sources
      if mismatched ≠ [] then throw (.sourceChanged mismatched)
      match ← checkAllRetained sources entries (fromEpisode - 1).toNat 1 none with
      | none => throw (.retainedUnanchored (fromEpisode - 1))
      | some cursor => .ok cursor
  | _ => throw .ledgerNotList

/-- The plan of a reset: the numbers it removes, those that were consumed, and the files it
deletes or renames. -/
structure ResetPlan where
  episodeNums : List Int
  consumed : List Int
  deletes : List String
  archives : List String
  deriving DecidableEq, Repr

def inScope (fromEpisode num : Int) : Bool := fromEpisode == 1 || decide (fromEpisode ≤ num)

def scan (rt : Runtime) (products : Products) (s : ProjectState) (fromEpisode : Int) : ResetPlan :=
  let items := match s.project.episodes with
    | some (.arr items) => items
    | _ => []
  let entries := items.filterMap fun entry => (entryNum rt entry).map fun num => (num, entry)
  let aliases := (discoverEpisodeFileAliases s.files).map fun file => ((file.1 : Int), file.2)
  let productNums := (discoverProductEpisodeNums products).map fun (num : Nat) => (num : Int)
  let nums := ((entries.map Prod.fst ++ aliases.map Prod.fst ++ productNums).dedup.insertionSort
    (· ≤ ·)).filter (inScope fromEpisode)
  let dupes := fun num => (entries.filter fun entry => entry.1 == num).map Prod.snd
  let paths := fun num => (aliases.filter fun file => file.1 == num).map Prod.snd
  let recreatable := fun num => !(dupes num).isEmpty &&
    (dupes num).all fun entry => (parseSourceRange entry).isSome
  let consumed := fun num => (dupes num).any (fun entry =>
      match entry.get "ledger_status" with
      | .str status => status == "consumed"
      | _ => false) ||
    productNums.contains num ||
    (if (dupes num).isEmpty then [.obj []] else dupes num).any (hasDownstreamProducts products num)
  { episodeNums := ((entries.map Prod.fst).dedup.insertionSort (· ≤ ·)).filter (inScope fromEpisode)
    consumed := nums.filter consumed
    deletes := (nums.filter recreatable).flatMap paths
    archives := (nums.filter fun num => !recreatable num).flatMap paths }

/-- The first free name of an archived file; a directory with `fuel` files has no more names. -/
def archivePath (files : Dict String (List Char)) (name : String) : Nat → Nat → String
  | 0, index => "_" ++ name ++ "." ++ toString index ++ ".bak"
  | fuel + 1, index =>
      let candidate := if index = 0 then "_" ++ name ++ ".bak"
        else "_" ++ name ++ "." ++ toString index ++ ".bak"
      if candidate ∈ files.keys then archivePath files name fuel (index + 1) else candidate

def applyFiles (plan : ResetPlan) (files : Dict String (List Char)) : Dict String (List Char) :=
  let kept := plan.deletes.foldl (fun files name => files.erase name) files
  let archived := plan.archives.foldl (fun files name =>
    match files.get? name with
    | none => files
    | some content => (files.erase name).set (archivePath files name files.size 0) content) kept
  archived.erase "_remaining.txt"

/-- The entries that a partial reset keeps. -/
def retainedEntries (rt : Runtime) (fromEpisode : Int) (items : List Json) : List Json :=
  sortByNum rt (items.filter fun entry =>
    entry.isObj && decide ((parseEpisodeNum rt (entry.get "episode")).getD 0 < fromEpisode))

inductive ResetOutcome where
  | confirmationRequired (consumed : List Int) (archived : List String)
  | reset (plan : ResetPlan)

/-- `reset_episode_planning`: `seen` is what the call has read before it takes the lock. -/
def resetEpisodePlanning (rt : Runtime) (sources : Sources) (products : Products)
    (seen : ProjectState) (fromEpisode : Int) (confirmConsumed : Bool) (current : ProjectState) :
    Except ResetError (ResetOutcome × ProjectState) := do
  if fromEpisode < 1 then throw (.fromEpisodeNotPositive fromEpisode)
  if 1 < fromEpisode then
    let _ ← resolvePartialResetCursor rt sources seen.project fromEpisode
  let plan := scan rt products seen fromEpisode
  if !plan.consumed.isEmpty && !confirmConsumed then
    return (.confirmationRequired plan.consumed plan.archives, current)
  let project ← if 1 < fromEpisode then do
      let cursor ← resolvePartialResetCursor rt sources current.project fromEpisode
      let items := ((current.project.episodes.getD .null).iterate?).getD []
      pure { current.project with
        episodes := some (.arr (retainedEntries rt fromEpisode items))
        planningCursor := some (.obj [("source_file", .str cursor.1), ("offset", .int cursor.2)]) }
    else pure { current.project with
      episodes := some (.arr [])
      planningCursor := some .null
      sourceFingerprints := none }
  let commitPlan := scan rt products current fromEpisode
  if commitPlan.consumed.any fun num => !plan.consumed.contains num then throw .conflict
  return (.reset commitPlan, ⟨project, applyFiles commitPlan current.files⟩)

end ArcReel.Episode
