import ArcReel.Episode.Ledger

/-! `lib.episode_planner`: the cuts of a window, the start of a batch and the commit
of `EpisodePlanner.plan`. Prompts and statistics are left out. -/

namespace ArcReel.Episode
open ArcReel.Lib

/-- A draft of the text model; `outline` is present for drama. -/
structure EpisodeDraft where
  title : String
  hook : String
  endAnchor : List Char
  outline : Option (List String × Option String)
  deriving DecidableEq, Repr

/-- The field lengths of the draft schema. -/
def EpisodeDraft.valid (draft : EpisodeDraft) : Bool :=
  !draft.title.isEmpty && !draft.hook.isEmpty && decide (2 ≤ draft.endAnchor.length) &&
    draft.outline.all fun outline => !outline.1.isEmpty

/-- Why a draft is rejected; `idx` counts from one. -/
inductive RejectReason where
  | missingAnchor (idx : Nat) (anchor : List Char)
  | ambiguousAnchor (idx : Nat) (anchor : List Char) (count : Nat) (folded : Bool)
  | anchorNotAdvancing (idx : Nat) (anchor : List Char)
  deriving DecidableEq, Repr

inductive PlanningError where
  | missingSourceRange (nums : List Int)
  | sourceChanged (paths : List String)
  | noSource
  | sourceUnreadable (rel : String)
  | startOutOfBounds (rel : String) (length : Nat) (start : Int)
  | attemptsExhausted
  | generationFailed
  | conflict
  | rangeRecordInvalid (num : Int)
  | rangeOutOfBounds (num start stop : Int) (length : Nat)
  | notIterable
  deriving DecidableEq, Repr

/-- The half-width form of a punctuation character. -/
def punctFold (c : Char) : Option Char :=
  match c with
  | '。' | '．' => some '.'
  | '，' => some ','
  | '！' => some '!'
  | '？' => some '?'
  | '：' => some ':'
  | '；' => some ';'
  | '（' => some '('
  | '）' => some ')'
  | '～' | '〜' => some '~'
  | '“' | '”' | '＂' => some (Char.ofNat 0x22)
  | '‘' | '’' | '＇' => some (Char.ofNat 0x27)
  | _ => none

def foldForMatch (text : List Char) : List Char :=
  text.map fun c => (punctFold c).getD (if PyText.isSpace c then ' ' else c)

def findAllOverlapping (haystack needle : List Char) : List Nat :=
  if needle.isEmpty then [] else PyText.occurrences needle 0 haystack

/-- Where an anchor occurs, the length of the match, and whether it was found by folding. -/
def locateAnchor (rt : Runtime) (window anchor : List Char) : List Nat × Nat × Bool :=
  match findAllOverlapping window anchor with
  | [] =>
      let normalized := normalizeSourceText rt anchor
      (findAllOverlapping (foldForMatch window) (foldForMatch normalized), normalized.length, true)
  | starts => (starts, anchor.length, false)

/-- The variables of the loop of `_resolve_boundaries`. -/
structure BoundaryScan where
  reasons : List RejectReason
  ends : List Nat
  pos : Nat
  orderingValid : Bool

def BoundaryScan.start : BoundaryScan := ⟨[], [], 0, true⟩

def BoundaryScan.reject (scan : BoundaryScan) (reason : RejectReason) : BoundaryScan :=
  { scan with reasons := scan.reasons ++ [reason], orderingValid := false }

def scanDraft (rt : Runtime) (window : List Char) (scan : BoundaryScan) (idx : Nat)
    (draft : EpisodeDraft) : BoundaryScan :=
  let anchor := draft.endAnchor
  match locateAnchor rt window anchor with
  | ([], _, _) => scan.reject (.missingAnchor idx anchor)
  | ([start], length, _) =>
      let stop := start + length
      if scan.orderingValid && decide (stop ≤ scan.pos) then
        scan.reject (.anchorNotAdvancing idx anchor)
      else { scan with ends := scan.ends ++ [stop], pos := stop }
  | (starts, _, folded) => scan.reject (.ambiguousAnchor idx anchor starts.length folded)

def scanDrafts (rt : Runtime) (window : List Char) :
    List EpisodeDraft → Nat → BoundaryScan → BoundaryScan
  | [], _, scan => scan
  | draft :: later, idx, scan =>
      scanDrafts rt window later (idx + 1) (scanDraft rt window scan idx draft)

/-- The last end moves to the end of the window if only blanks are left. -/
def snapTail (window : List Char) (snapWhitespaceTail : Bool) (ends : List Nat) : List Nat :=
  match ends.getLast? with
  | some last =>
      if snapWhitespaceTail && decide (last < window.length) && PyText.isBlank (window.drop last) then
        ends.dropLast ++ [window.length]
      else ends
  | none => ends

def resolveBoundaries (rt : Runtime) (window : List Char) (drafts : List EpisodeDraft)
    (snapWhitespaceTail : Bool) : Except (List RejectReason) (List Nat) :=
  let scan := scanDrafts rt window drafts 1 .start
  if scan.reasons.isEmpty then .ok (snapTail window snapWhitespaceTail scan.ends)
  else .error scan.reasons

/-- The answers of the text model, one an attempt: `none` is not the JSON of a plan. -/
def requestValidatedDrafts (rt : Runtime) (window : List Char) (snapWhitespaceTail : Bool)
    (maxEpisodes : Nat) :
    Nat → List (Option (List EpisodeDraft)) → Except PlanningError (List EpisodeDraft × List Nat)
  | 0, _ => .error .attemptsExhausted
  | _ + 1, [] => .error .generationFailed
  | attempts + 1, none :: later =>
      requestValidatedDrafts rt window snapWhitespaceTail maxEpisodes attempts later
  | attempts + 1, some drafts :: later =>
      if drafts.isEmpty || !drafts.all EpisodeDraft.valid then
        requestValidatedDrafts rt window snapWhitespaceTail maxEpisodes attempts later
      else
        let kept := drafts.take maxEpisodes
        match resolveBoundaries rt window kept snapWhitespaceTail with
        | .ok ends => .ok (kept, ends)
        | .error _ => requestValidatedDrafts rt window snapWhitespaceTail maxEpisodes attempts later

/-- The number and the end of an entry with a position record. -/
def anchoredEnd (rt : Runtime) (entry : Json) : Option (Int × String × Int) :=
  let range := entry.get "source_range"
  match entryNum rt entry, (range.get "source_file").str?, (range.get "end").int? with
  | some num, some rel, some stop => some (num, rel, stop)
  | _, _, _ => none

/-- The anchored entry with the largest number; the first of equal ones. -/
def lastAnchored (rt : Runtime) (entries : List Json) : Option (Int × String × Int) :=
  entries.foldl (fun best entry =>
    match anchoredEnd rt entry with
    | none => best
    | some found => if best.all fun other => decide (other.1 < found.1) then some found else best)
    none

/-- A cursor with a non-negative offset. -/
def cursorPosition (cursor : Option Json) : Option (String × Int) :=
  match cursor with
  | some cursor =>
      match (cursor.get "source_file").str?, (cursor.get "offset").int? with
      | some rel, some offset => if 0 ≤ offset then some (rel, offset) else none
      | _, _ => none
  | none => none

def effectiveStart (rt : Runtime) (sources : Sources) (project : Project) :
    Except PlanningError (String × Int) :=
  match (project.episodes.getD .null).iterate? with
  | none => .error .notIterable
  | some entries =>
      let rels := sources.docs.map SourceDoc.relPath
      match (lastAnchored rt entries).map Prod.snd, cursorPosition project.planningCursor with
      | some last, some cur =>
          if cur.1 = last.1 then .ok (last.1, max last.2 cur.2)
          else
            match rels.findIdx? (· == last.1), rels.findIdx? (· == cur.1) with
            | none, none => .ok last
            | none, some _ => .ok cur
            | some _, none => .ok last
            | some lastIdx, some curIdx => if curIdx < lastIdx then .ok last else .ok cur
      | some last, none => .ok last
      | none, some cur => .ok cur
      | none, none =>
          match sources.docs with
          | [] => .error .noSource
          | doc :: _ => .ok (doc.relPath, 0)

/-- The candidates from a path on. -/
def sourcesFrom (rel : String) : List SourceDoc → List SourceDoc
  | [] => []
  | doc :: later => if doc.relPath = rel then doc :: later else sourcesFrom rel later

/-- The text of a path: of a candidate source, or read from the project. -/
def sourceText (rt : Runtime) (sources : Sources) (rel : String) : Except PlanningError (List Char) :=
  match sourcesFrom rel sources.docs with
  | doc :: _ => .ok doc.text
  | [] =>
      match rt.readText rel with
      | some text => .ok (normalizeSourceText rt text)
      | none => .error (.sourceUnreadable rel)

/-- The first candidate, from this one on, that still has text after its start. -/
def firstWithText (rel : String) (text : List Char) (start : Int) :
    List SourceDoc → Option (String × Int × List Char)
  | [] => if PyText.isBlank (PyText.sliceFrom text start) then none else some (rel, start, text)
  | next :: later =>
      if PyText.isBlank (PyText.sliceFrom text start) then
        firstWithText next.relPath next.text 0 later
      else some (rel, start, text)

/-- `_setting_int`. -/
def settingInt (value : Option Json) (default : Nat) : Nat :=
  match value with
  | some (.int n) => if 1 ≤ n then n.toNat else default
  | _ => default

def defaultPlanningWindowChars : Nat := 30000

def defaultPlanningMaxEpisodes : Nat := 20

def maxPlanAttempts : Nat := 3

/-- The end of the window of a batch. -/
def windowEnd (rt : Runtime) (project : Project) (length : Nat) (start : Int) : Int :=
  let windowChars := settingInt project.planningWindowChars defaultPlanningWindowChars
  if length - start ≤ rt.stretch windowChars then length else start + windowChars

def sourceRangeJson (rel : String) (start stop : Int) : Json :=
  .obj [("source_file", .str rel), ("start", .int start), ("end", .int stop)]

def ledgerEntryFromDraft (draft : EpisodeDraft) (num : Int) (rel : String) (start stop : Int)
    (status : String) : List (String × Json) :=
  [("episode", .int num), ("title", .str draft.title),
    ("script_file", .str (episodeScriptRelpath num)),
    ("source_range", sourceRangeJson rel start stop),
    ("hook", .str draft.hook), ("ledger_status", .str status)] ++
  match draft.outline with
  | none => []
  | some (beats, teaser) => [("outline", .obj [("story_beats", .arr (beats.map .str)),
      ("next_episode_teaser", (teaser.map .str).getD .null)])]

/-- The new entry of a draft: stale if the number already has products. -/
def newEntry (products : Products) (draft : EpisodeDraft) (num : Int) (rel : String)
    (start stop : Int) : Json :=
  let planned := ledgerEntryFromDraft draft num rel start stop "planned"
  if hasDownstreamProducts products num (.obj planned) then
    .obj (ledgerEntryFromDraft draft num rel start stop "stale" ++
      [("stale_step1_revision", products.step1Revision num)])
  else .obj planned

/-- The entries of a batch: each starts where the one before it ends. -/
def newEntries (products : Products) (rel : String) (start : Int) :
    Int → Int → List (EpisodeDraft × Nat) → List Json
  | _, _, [] => []
  | num, prev, (draft, relEnd) :: later =>
      newEntry products draft num rel prev (start + relEnd) ::
        newEntries products rel start (num + 1) (start + relEnd) later

/-- The file of an entry, if the entry has a number. -/
def derivedFile (rt : Runtime) (sources : Sources) (entry : Json) :
    Except PlanningError (Option (Int × List Char)) :=
  match entryNum rt entry with
  | none => .ok none
  | some num =>
      match parseSourceRange entry with
      | none => .error (.rangeRecordInvalid num)
      | some (rel, start, stop) => do
          let text ← sourceText rt sources rel
          if 0 ≤ start ∧ start ≤ stop ∧ stop ≤ text.length then
            .ok (some (num, PyText.slice text start stop))
          else .error (.rangeOutOfBounds num start stop text.length)

def reconcileDerivedFiles (rt : Runtime) (sources : Sources) (entries : List Json)
    (files : Dict String (List Char)) : Except PlanningError (Dict String (List Char)) := do
  let writes := (← entries.mapM (derivedFile rt sources)).filterMap id
  let written := writes.foldl (fun files write => files.set (episodeFileName write.1) write.2) files
  let keep := writes.map Prod.fst
  let residual := (discoverEpisodeFiles written).filter fun file => !keep.contains (file.1 : Int)
  .ok ((residual.foldl (fun files file => files.erase file.2) written).erase "_remaining.txt")

def checkSourceRanges (rt : Runtime) (project : Project) : Except PlanningError Unit :=
  let missing := episodesWithoutSourceRange rt project
  if missing.isEmpty then .ok () else .error (.missingSourceRange missing)

def checkSourceFingerprints (rt : Runtime) (sources : Sources) (project : Project) :
    Except PlanningError Unit :=
  let mismatched := mismatchedSourceFingerprints rt project.sourceFingerprints sources
  if mismatched.isEmpty then .ok () else .error (.sourceChanged mismatched)

def fingerprintsJson (rt : Runtime) (sources : Sources) : Json :=
  .obj ((computeSourceFingerprints rt sources).map fun field => (field.1, .str field.2))

/-- A batch that is ready for its commit: the start it was planned from, the source and the
offset at which its episodes begin, and the drafts with their ends. -/
structure Batch where
  startRef : String × Int
  rel : String
  start : Int
  text : List Char
  drafts : List EpisodeDraft
  ends : List Nat

/-- The callback that `plan` commits under the project lock. -/
def commitBatch (rt : Runtime) (sources : Sources) (products : Products) (batch : Batch)
    (current : ProjectState) : Except PlanningError ProjectState := do
  let p := registerOrphanEpisodeEntries rt products current
  checkSourceRanges rt p
  let startRef ← effectiveStart rt sources p
  if startRef ≠ batch.startRef then throw .conflict
  checkSourceFingerprints rt sources p
  -- A text that is not a candidate has no current fingerprint to agree with.
  if (sourcesFrom batch.rel sources.docs).isEmpty then throw (.sourceChanged [batch.rel])
  let entries ← match (p.episodes.getD .null).iterate? with
    | none => throw .notIterable
    | some entries => pure (entries.filter fun entry => !entry.isNull)
  let nums := (entries.filterMap (entryNum rt)).filter fun num => decide (0 < num)
  let all := sortEpisodesIfPossible rt (entries ++
    newEntries products batch.rel batch.start (nums.foldl max 0 + 1) batch.start
      (batch.drafts.zip batch.ends))
  let files ← reconcileDerivedFiles rt sources all current.files
  .ok ⟨{ p with
    episodes := some (.arr all)
    planningCursor := some (.obj [("source_file", .str batch.rel),
      ("offset", .int (batch.start + batch.ends.getLast?.getD 0))])
    sourceFingerprints := some (fingerprintsJson rt sources) }, files⟩

/-- A project whose sources are exhausted and that has no fingerprints yet records them. -/
def backfillSourceFingerprints (rt : Runtime) (sources : Sources) (seen : Project) (rel : String)
    (current : ProjectState) : Except PlanningError ProjectState := do
  if !(seen.sourceFingerprints.getD .null).isNull then return current
  checkSourceFingerprints rt sources current.project
  if (sourcesFrom rel sources.docs).isEmpty then throw (.sourceChanged [rel])
  .ok { current with project := { current.project with
    sourceFingerprints := some (fingerprintsJson rt sources) } }

/-- `EpisodePlanner.plan`: `seen` is the project that the call has loaded, `current` the one
that it finds under the lock. -/
def plan (rt : Runtime) (sources : Sources) (products : Products) (seen : ProjectState)
    (answers : List (Option (List EpisodeDraft))) (current : ProjectState) :
    Except PlanningError ProjectState := do
  let project := registerOrphanEpisodeEntries rt products seen
  checkSourceRanges rt project
  checkSourceFingerprints rt sources project
  let startRef ← effectiveStart rt sources project
  let text ← sourceText rt sources startRef.1
  if (text.length : Int) < startRef.2 then
    throw (.startOutOfBounds startRef.1 text.length startRef.2)
  match firstWithText startRef.1 text startRef.2 (sourcesFrom startRef.1 sources.docs).tail with
  | none => backfillSourceFingerprints rt sources project startRef.1 current
  | some (rel, start, text) =>
      let stop := windowEnd rt project text.length start
      let window := PyText.slice text start stop
      let (drafts, ends) ← requestValidatedDrafts rt window (decide ((text.length : Int) ≤ stop))
        (settingInt project.planningMaxEpisodes defaultPlanningMaxEpisodes) maxPlanAttempts answers
      commitBatch rt sources products ⟨startRef, rel, start, text, drafts, ends⟩ current

end ArcReel.Episode
