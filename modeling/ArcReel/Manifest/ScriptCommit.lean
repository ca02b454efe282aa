import ArcReel.Manifest.Rekeying

/-! The claims of an episode when its script is replaced: those of the items that are gone are
forgotten together with the registration of the script, in one guarded write. -/

namespace ArcReel.Manifest
open Lib

/-- Membership in lists of texts is decided with one proof here. -/
local instance lawfulStr : LawfulBEq Str := inferInstance

variable {p : Primitives} {codec : DocumentCodec}

/-- The kinds of what is generated for one item of a script. -/
def ArtifactKind.isEpisodeResource : ArtifactKind → Bool
  | .episodeStoryboard | .episodeVideo | .episodeAudio | .episodeSubtitle | .episodePresentation => true
  | _ => false

namespace ArtifactKey

def episodeNumber (key : ArtifactKey p) : Option Int :=
  if key.kind = .assetSheet then none
  else match key.components with
    | .number episode :: _ => some episode
    | _ => none

/-- `key.components[1]`. -/
def resourceId (key : ArtifactKey p) : Option Str :=
  match key.components with
  | _ :: .text resourceId :: _ => some resourceId
  | _ => none

/-- The kinds and variants of the artifacts of one item. -/
def itemArtifacts : List (ArtifactKind × List Value) :=
  [(.episodeStoryboard, []), (.episodeVideo, []), (.episodeAudio, []),
    (.episodeSubtitle, [.str (text "post_production")]), (.episodeSubtitle, [.str (text "use_tts")]),
    (.episodePresentation, [.str (text "post_production")]),
    (.episodePresentation, [.str (text "use_tts")])]

def episodeResourceArtifacts (episode : Int) (resourceId : Str) : Except PyError (List (ArtifactKey p)) :=
  itemArtifacts.mapM fun artifact => make artifact.1 (.int episode :: .str resourceId :: artifact.2)

end ArtifactKey

structure ScriptReplacement where
  episode : Int
  artifactPath : Str
  resourceIds : List Str
  removedResourceIds : List Str
  basis : Option BasisDescriptor

namespace ScriptReplacement

/-- A claim of the episode whose item is not among the final ones. -/
def isOrphan (r : ScriptReplacement) (key : ArtifactKey p) : Bool :=
  key.episodeNumber = some r.episode && key.kind.isEpisodeResource &&
    key.resourceId.all fun resourceId => resourceId ∉ r.resourceIds

/-- `sorted(removed_ids - remaining_ids)`. -/
def removedIds (r : ScriptReplacement) : List Str :=
  ((r.removedResourceIds.filter fun resourceId => resourceId ∉ r.resourceIds).dedup).insertionSort
    fun a b => a ≤ b

def isGrid (r : ScriptReplacement) (key : ArtifactKey p) : Bool :=
  key.kind = .episodeGrid && key.episodeNumber = some r.episode

end ScriptReplacement

/-- What the closure of a preflight has frozen. -/
structure ScriptPreflight (p : Primitives) where
  scriptKey : ArtifactKey p
  orphanedKeys : List (ArtifactKey p)
  gridClaims : Claims p
  expected : Changes p
  frozenEntry : Option ManifestEntry

/-- What the closure finds of the project besides the manifest. -/
structure CommitView (p : Primitives) where
  active : Bool
  present : Str → Bool
  resolveGrid : ArtifactKey p → Except PyError (Option ManifestEntry)
  preflightUnchanged : Except PyError Unit
  resolveScript : Except PyError (Option ManifestEntry)

namespace Project

/-- `prepare_episode_script_manifest_commit` in a project whose manifest is active; `blocked` is what
`inspect_artifact` finds. -/
def prepareEpisodeScriptManifestCommit (blocked : Str → Bool) (file : File codec)
    (r : ScriptReplacement) : Except PyError (ScriptPreflight p) := do
  if r.episode < 1 then throw .valueError
  if [] ∈ r.resourceIds ++ r.removedResourceIds then throw .valueError
  let entries ← load p file
  let snapshot ← decodeEntries p entries
  if blocked r.artifactPath then throw .manifestError
  let scriptKey ← ArtifactKey.make .episodeScript [.int r.episode]
  let removed ← r.removedIds.mapM (ArtifactKey.episodeResourceArtifacts r.episode)
  let orphanedKeys := (snapshot.keys.filter r.isOrphan ++ removed.flatten).eraseDups
  let gridClaims := snapshot.filter fun key _ => r.isGrid key
  return {
    scriptKey, orphanedKeys, gridClaims
    expected := (Dict.empty.setAll (scriptKey :: orphanedKeys) snapshot.get?).setAll gridClaims.keys
      gridClaims.get?
    frozenEntry := r.basis.map fun basis => ⟨r.artifactPath, basis.digest⟩ }

/-- `_plan_artifact_claim_reconciliation`: the claims whose target is gone or has another path. -/
def planArtifactClaimReconciliation (resolve : ArtifactKey p → Except PyError (Option ManifestEntry)) :
    List (ArtifactKey p × ManifestEntry) → Except PyError (List (ArtifactKey p))
  | [] => .ok []
  | (key, frozenEntry) :: claims => do
    let target ← resolve key
    let later ← planArtifactClaimReconciliation resolve claims
    return if target.map ManifestEntry.artifactPath = some frozenEntry.artifactPath then later
      else key :: later

def gridReplacements (view : CommitView p) (gridClaims : Claims p) :
    Except PyError (List (ArtifactKey p)) :=
  if gridClaims.size = 0 then .ok []
  else do
    let dropped ← planArtifactClaimReconciliation view.resolveGrid gridClaims.entries
    view.preflightUnchanged
    return dropped

/-- `frozen_entry or resolve_current_artifact_target(project_dir, script_key)`. -/
def scriptTarget (view : CommitView p) : Option ManifestEntry → Except PyError (Option ManifestEntry)
  | some entry => .ok (some entry)
  | none => view.resolveScript

def scriptReplacements (view : CommitView p) (preflight : ScriptPreflight p) :
    Except PyError (Changes p) := do
  let dropped ← gridReplacements view preflight.gridClaims
  let script ← scriptTarget view preflight.frozenEntry
  return ((Dict.empty.setAll preflight.orphanedKeys fun _ => none).setAll dropped fun _ => none).set
    preflight.scriptKey script

/-- The claims of the keys; each is read on its own, from the file there is at that time. -/
def observe (reads : ArtifactKey p → File codec) : List (ArtifactKey p) → Except PyError (Changes p)
  | [] => .ok .empty
  | key :: keys => do
    let found ← getEntry (reads key) key
    let observed ← observe reads keys
    return observed.set key found

/-- The entries that were observed, with the replacements. -/
def replacingPlan (observed replacements : Changes p) : RekeyPlan p where
  before := observed
  after := observed.mapValues fun key entry => (replacements.get? key).getD entry
  changed := true
  aligned := (Dict.keys_mapValues _ observed).symm

/-- `register_artifact_entries_atomically`: what `expected` gets by default is what was observed. The
write meets `file`. -/
def registerArtifactEntriesAtomically (view : CommitView p) (reads : ArtifactKey p → File codec)
    (fault rollback : Fault) (file : File codec) (replacements expected : Changes p) :
    Except Raised Bool × File codec :=
  if replacements.size = 0 ∨ view.active = false then (.ok false, file)
  else match observe reads (expected.keys ++ replacements.keys) with
    | .error e => (.error (.failed e), file)
    | .ok observed =>
      if replacements.values.any fun entry => entry.any fun entry => !view.present entry.artifactPath then
        (.error (.failed .manifestError), file)
      else if expected.entries.any fun change => observed.get? change.1 ≠ some change.2 then
        (.error (.failed .manifestError), file)
      else if replacements.entries.all fun change => observed.get? change.1 = some change.2 then
        (.ok false, file)
      else commit fault rollback file (replacingPlan observed replacements)

/-- The closure of a preflight. -/
def commitScript (view : CommitView p) (reads : ArtifactKey p → File codec) (fault rollback : Fault)
    (file : File codec) (preflight : ScriptPreflight p) : Except Raised Bool × File codec :=
  match scriptReplacements view preflight with
  | .error e => (.error (.failed e), file)
  | .ok replacements =>
    registerArtifactEntriesAtomically view reads fault rollback file replacements preflight.expected

end Project

end ArcReel.Manifest
