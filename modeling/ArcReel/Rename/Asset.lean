import ArcReel.Rename.Stores

/-! `ProjectManager.rename_asset`: the scan of everything that names the asset, and then the writes,
one file after another. -/

namespace ArcReel.Rename
open Lib PyText Mention Prompt

/-- The files of a project that a rename reads or writes. A script or draft without a value does
not parse. -/
structure Store where
  project : Option Json
  scripts : Dict String (Option Json)
  drafts : Dict (String × String) (Option Json)
  files : Dict PosixPath File
  versions : Option Json
  manifest : ManifestFile

/-- What the rename is told by the rest of the program: the structure checks of projects and
scripts, and the totals that a script's metadata records. -/
structure Env where
  u : Unicode
  digit : Char → Bool
  digitValue : Char → Option Nat
  casefold : String → String
  validateProject : Json → List Message
  validStructure : Json → Bool
  scriptTotals : Json → Option (Nat × Int)

/-- The arguments, and the time at which a file is written. -/
structure Call where
  table : String
  oldName : String
  newName : String
  clock : String → String

/-- `AssetRenameReport`. -/
structure Report where
  table : String
  oldName : String
  newName : String
  episodes : Nat
  references : Nat
  files : Nat
  dryRun : Bool
  deriving DecidableEq, Repr

/-- A script that the rename changes. -/
structure ChangedScript where
  filename : String
  before : Json
  after : Json
  changes : Nat

structure ChangedDraft where
  path : String × String
  payload : Json
  changes : Nat

/-- What the scan has found and the writes will do. -/
structure Plan where
  type : AssetType
  scripts : List ChangedScript
  drafts : List ChangedDraft
  moves : List Move
  history : HistoryRename
  project : Option Json
  rekey : Option RekeyPlan

/-- `_RENAME_DRAFT_FILENAMES`. -/
def renameDraftFilenames : List String :=
  ["step1_normalized_script.json", "step1_segments.json", "step1_reference_units.json",
    "step1_reference_units.invalid.json", "step2_reference_script.invalid.json"]

section Scan

variable (env : Env) (type : AssetType) (oldKey newName : String)

/-- The reference rewrite of this rename. -/
def rewritten (payload : Json) : Option (Json × Nat) :=
  rewritePayloadReferences env.u env.digit oldKey newName type payload

/-- One script as the scan reads it; `none` stands for a script without a reference. -/
def scanScript (filename : String) (json : Option Json) : Except RenameError (Option ChangedScript) :=
  match json with
  | none => .error (.unreadableScript filename)
  | some raw =>
    let script := migrateScriptUnitDurations raw
    match rewritten env type oldKey newName script with
    | none => .error (.malformedScript filename)
    | some (after, changes) =>
      .ok (if changes = 0 then none else some ⟨filename, script, after, changes⟩)

def scanScripts (scripts : Dict String (Option Json)) : Except RenameError (List ChangedScript) := do
  let found ← (sortedNames scripts.keys).mapM fun filename =>
    scanScript env type oldKey newName filename ((scripts.get? filename).getD none)
  return found.reduceOption

/-- A draft that does not parse, or is no object, is passed over. -/
def scanDraft (path : String × String) (json : Option Json) : Option ChangedDraft :=
  match json with
  | some (.obj fields) =>
    match rewritten env type oldKey newName (.obj fields) with
    | some (payload, changes) => if changes = 0 then none else some ⟨path, payload, changes⟩
    | none => none
  | _ => none

def draftPaths (drafts : Dict (String × String) (Option Json)) : List (String × String) :=
  (drafts.keys.filter fun path => "episode_".isPrefixOf path.1 && renameDraftFilenames.contains path.2).insertionSort
    fun a b => a.1 < b.1 ∨ a.1 = b.1 ∧ a.2 ≤ b.2

def scanDrafts (drafts : Dict (String × String) (Option Json)) : List ChangedDraft :=
  (draftPaths drafts).filterMap fun path => scanDraft env type oldKey newName path ((drafts.get? path).getD none)

/-- The names of the files of a folder. -/
def folderNames (files : Dict PosixPath File) (folder : Folder) : List String :=
  (files.keys.filter fun path => path.parent = folder.path type && path.parts ≠ []).map PosixPath.name

end Scan

section Preflight

variable (env : Env)

/-- The entry of the asset under the new name. -/
def renamedEntry (type : AssetType) (oldKey newName : String) (bucket : List (String × Json)) : Json :=
  match (Json.obj (rekeyFields env.u bucket oldKey newName)).get newName with
  | .obj fields => .obj (rewriteEntryPaths env.u env.digit oldKey newName type fields).1
  | other => other

def mutatedProject (type : AssetType) (oldKey newName : String) (project bucket : List (String × Json)) : Json :=
  .obj (Dict.setEntries project type.bucketKey (.obj (Dict.setEntries
    (rekeyFields env.u bucket oldKey newName) newName (renamedEntry env type oldKey newName bucket))))

/-- The path that the rename of a sheet gives to the claim, if it changes. -/
def sheetRewrite (source target : Json) : Option (String × String) :=
  match source, target with
  | .str old, .str new => if old ≠ "" ∧ new ≠ "" ∧ old ≠ new then some (old, new) else none
  | _, _ => none

/-- `_plan_manifest_rekey`. -/
def planManifestRekey (file : ManifestFile) (type : AssetType) (sourceName targetName : String)
    (sourceSheet targetSheet : Json) : Except RenameError RekeyPlan := do
  let source ← assetSheetKey env.u type sourceName
  let target ← assetSheetKey env.u type targetName
  planEntryRekey env.u env.casefold file source target (sheetRewrite sourceSheet targetSheet)

/-- The rekey of the sheet, if the rename keeps the manifest. -/
def planSheetRekey (file : ManifestFile) (type : AssetType) (oldKey newName : String)
    (bucket : List (String × Json)) (keeps : Bool) : Except RenameError (Option RekeyPlan) :=
  if keeps then
    (planManifestRekey env file type oldKey newName (((Json.obj bucket).get oldKey).get type.sheetField)
      ((renamedEntry env type oldKey newName bucket).get type.sheetField)).map some
  else .ok none

/-- Whether the rename keeps the manifest: the schema is current and there is a manifest. -/
def keepsManifest (store : Store) (version : Int) : Bool :=
  version = currentProjectSchemaVersion && match store.manifest with
    | .absent => false
    | _ => true

def zeroReport (call : Call) (oldName newName : String) : Report :=
  ⟨call.table, oldName, newName, 0, 0, 0, true⟩

/-- The old name is gone and the new one is there: only the claim may be left to rekey. -/
def recovery (call : Call) (store : Store) (type : AssetType) (bucket : Json) (completed : String)
    (keeps : Bool) : Except RenameError (Report × Plan) :=
  let old := normalizeAssetName env.u call.oldName
  if keeps then do
    let source ← assetSheetKey env.u type old
    let manifest ← loadManifest env.u env.casefold store.manifest
    match manifest.get? source, (bucket.get completed).get type.sheetField with
    | some claim, .str sheet =>
      if sheet = "" then .error (.notFound call.oldName true)
      else
        let rekey ← planManifestRekey env store.manifest type old completed (.str claim.artifactPath) (.str sheet)
        return (zeroReport call old completed, ⟨type, [], [], [], ⟨0, [], none⟩, none, some rekey⟩)
    | _, _ => .error (.notFound call.oldName true)
  else .error (.notFound call.oldName true)

/-- The scan behind a name that is there; `fields` are those of the project. -/
def scan (call : Call) (store : Store) (type : AssetType) (newName oldKey : String)
    (fields bucket : List (String × Json)) (version : Int) (keeps : Bool) :
    Except RenameError (Report × Plan) := do
  match findProjectAssetName env.u (.obj fields) newName (type, oldKey) with
  | some taken => .error (.nameTaken taken.1 taken.2)
  | none =>
    let scripts ← scanScripts env type oldKey newName store.scripts
    let drafts := scanDrafts env type oldKey newName store.drafts
    let moves ← (planAssetFileRenames env.u env.digit oldKey newName type
      (folderNames type store.files)).mapError .fileCollision
    let history ← renameResource env.u type oldKey newName store.versions
    let mutated := mutatedProject env type oldKey newName fields bucket
    if 6 ≤ version ∧ !assetNamespaceUnique env.u mutated then .error .namespaceConflict
    else if !noNewErrors env.u oldKey newName (env.validateProject (.obj fields))
        (env.validateProject mutated) then .error .projectStructure
    else
      let rekey ← planSheetRekey env store.manifest type oldKey newName bucket keeps
      let episodes := scripts.map (fun script => (stemSuffix script.filename).1) ++
        drafts.map fun draft => draft.path.1
      return (⟨call.table, oldKey, newName, episodes.dedup.length,
          (scripts.map (·.changes)).sum + (drafts.map (·.changes)).sum, moves.length + history.count, true⟩,
        ⟨type, scripts, drafts, moves, history, some mutated, rekey⟩)

/-- Everything that a rename does before its first write. -/
def preflight (call : Call) (store : Store) : Except RenameError (Report × Plan) :=
  match resolveAssetType call.table, validateAssetName env.u call.newName, store.project with
  | none, _, _ => .error (.unknownTable call.table)
  | some _, none, _ => .error .invalidName
  | some _, some _, none => .error .projectMissing
  | some type, some newName, some (.obj fields) =>
    let bucket := (Json.obj fields).get type.bucketKey
    match parseProjectSchemaVersion (.obj fields) with
    | none => .error .schemaVersion
    | some version =>
      if currentProjectSchemaVersion < version then .error .schemaVersion
      else
        let keeps := keepsManifest store version
        match resolveAssetKey env.u bucket call.oldName, resolveAssetKey env.u bucket newName, bucket with
        | none, none, _ => .error (.notFound call.oldName false)
        | none, some completed, _ => recovery env call store type bucket completed keeps
        | some oldKey, conflicting, .obj entries =>
          if conflicting.any (· ≠ oldKey) then .error (.conflict (conflicting.getD ""))
          else scan env call store type newName oldKey fields entries version keeps
        | some _, _, _ => .error .malformedProject
  | some _, some _, some _ => .error .malformedProject

end Preflight

section Writes

variable (env : Env) (clock : String → String)

/-- A write: the store it leaves, and the error if it raises. -/
abbrev Step := Store → Store × Option RenameError

/-- The checks of `_write_script_unlocked`. -/
def checkScript (script : ChangedScript) : Except RenameError Unit :=
  if !env.validStructure script.after && env.validStructure script.before then
    .error (.scriptStructure script.filename)
  else if !script.after.isObj then .error (.malformedScript script.filename)
  else if !filenameEpisodeConsistent env.digitValue script.after script.filename then
    .error (.episodeMismatch script.filename)
  else .ok ()

def setDefault (fields : List (String × Json)) (key : String) (value : Json) : List (String × Json) :=
  if hasField fields key then fields else Dict.setEntries fields key value

/-- The script with its metadata brought up to date. -/
def stampScript (now : String) (script : Json) : Json :=
  match script with
  | .obj fields =>
    let metadata := match script.get "metadata" with
      | .obj known => known
      | _ => []
    let dated := Dict.setEntries (setDefault (setDefault metadata "created_at" (.str now)) "status"
      (.str "draft")) "updated_at" (.str now)
    let counted := match env.scriptTotals script with
      | none => dated
      | some (scenes, seconds) => Dict.setEntries (Dict.setEntries dated "total_scenes" (.int scenes))
        "estimated_duration_seconds" (.int seconds)
    .obj (Dict.setEntries fields "metadata" (.obj counted))
  | other => other

def writeScript (script : ChangedScript) : Step := fun store =>
  match checkScript env script with
  | .error raised => (store, some raised)
  | .ok _ =>
    let stamped := stampScript env (clock script.filename) script.after
    ({ store with scripts := store.scripts.set script.filename (some stamped) }, none)

def writeDraft (draft : ChangedDraft) : Step := fun store =>
  ({ store with drafts := store.drafts.set draft.path (some draft.payload) }, none)

/-- `os.replace` of a file that is there. -/
def moveFile (source destination : PosixPath) : Step := fun store =>
  match store.files.get? source with
  | none => (store, none)
  | some file => ({ store with files := (store.files.erase source).set destination file }, none)

def moveAssetFile (type : AssetType) (move : Move) : Step :=
  let within (name : String) : PosixPath :=
    { move.folder.path type with parts := (move.folder.path type).parts ++ [name] }
  moveFile (within move.source) (within move.destination)

def writeVersions (versions : Json) : Step := fun store => ({ store with versions := some versions }, none)

/-- `_touch_metadata`: metadata that is no object raises. -/
def touchMetadata (now : String) (project : Json) : Option Json :=
  match project with
  | .obj fields =>
    match fields.lookup "metadata" with
    | none => some (.obj (Dict.setEntries fields "metadata"
        (.obj [("created_at", .str now), ("updated_at", .str now)])))
    | some (.obj metadata) => some (.obj (Dict.setEntries fields "metadata"
        (.obj (Dict.setEntries metadata "updated_at" (.str now)))))
    | some _ => none
  | _ => none

def writeProject (project : Json) : Step := fun store =>
  match touchMetadata (clock "project.json") project with
  | none => (store, some .malformedMetadata)
  | some touched => ({ store with project := some touched }, none)

/-- The commit of the claims; when it raises, `project.json` is put back. -/
def commitManifest (before : Option Json) (rekey : RekeyPlan) : Step := fun store =>
  match rekey.commit env.u env.casefold store.manifest with
  | .error raised => ({ store with project := before }, some raised)
  | .ok manifest => ({ store with manifest := manifest }, none)

/-- The writes of a plan, in their order. -/
def Plan.steps (plan : Plan) (before : Option Json) : List Step :=
  plan.scripts.map (writeScript env clock) ++ plan.drafts.map writeDraft ++
    plan.moves.map (moveAssetFile plan.type) ++
    plan.history.moves.map (fun move => moveFile move.1 move.2) ++
    plan.history.versions.toList.map writeVersions ++
    plan.project.toList.map (writeProject clock) ++
    plan.rekey.toList.map (commitManifest env before)

/-- The steps up to the first that raises. -/
def runSteps : List Step → Step
  | [], store => (store, none)
  | step :: rest, store =>
    match step store with
    | (after, none) => runSteps rest after
    | (after, some raised) => (after, some raised)

end Writes

/-- `rename_asset`. -/
def renameAsset (env : Env) (call : Call) (dryRun : Bool) (store : Store) :
    Store × Except RenameError Report :=
  match preflight env call store with
  | .error raised => (store, .error raised)
  | .ok (report, plan) =>
    if dryRun then (store, .ok report)
    else match runSteps (plan.steps env call.clock store.project) store with
      | (after, some raised) => (after, .error raised)
      | (after, none) => (after, .ok { report with dryRun := false })

end ArcReel.Rename
