import ArcReel.Rename.Checks

/-! The version history (`rename_resource`) and the artifact manifest (`plan_entry_rekey` and its
commit) under a rename. -/

namespace ArcReel.Rename
open Lib PyText Mention Prompt

/-- Why a rename raises. -/
inductive RenameError where
  | unknownTable (table : String)
  | invalidName
  | projectMissing
  | malformedProject
  | schemaVersion
  | notFound (name : String) (done : Bool)
  | conflict (key : String)
  | nameTaken (type : AssetType) (name : String)
  | unreadableScript (filename : String)
  | malformedScript (filename : String)
  | fileCollision (name : String)
  | malformedVersions
  | historyCollision (id : String)
  | namespaceConflict
  | projectStructure
  | artifactKey
  | artifactPath
  | manifestUnreadable
  | claimTaken
  | claimsChanged
  | pathClaimedTwice
  | scriptStructure (filename : String)
  | episodeMismatch (filename : String)
  | malformedMetadata
  deriving DecidableEq, Repr

section History

/-- What `rename_resource` will do: the number of snapshots, their moves, and the new
`versions.json` if it is written. -/
structure HistoryRename where
  count : Nat
  moves : List (PosixPath × PosixPath)
  versions : Option Json

variable (u : Unicode) (type : AssetType) (oldId newId : String)

/-- `record.get("versions", [])`; what cannot be iterated raises, and neither a text nor an object
has a record among its elements. -/
def historyRecords (record : List (String × Json)) : Option (List Json) :=
  match record.lookup "versions" with
  | none | some (.str _) | some (.obj _) => some []
  | some (.arr items) => some items
  | some _ => none

def snapshotFolder : PosixPath := ⟨"", ["versions", type.bucketKey]⟩

/-- The path of a snapshot under the new id. -/
def renamedSnapshot (file : String) : Option PosixPath :=
  let basename := (normalizeAssetName u (posixPath file).name).toList
  let mark := (normalizeAssetName u oldId).toList ++ ['_', 'v']
  if mark.isPrefixOf basename then
    some { snapshotFolder type with
      parts := (snapshotFolder type).parts ++ [newId ++ "_v" ++ String.ofList (basename.drop mark.length)] }
  else none

/-- The file of a record. -/
def recordFile : Json → Option String
  | .obj fields => ((Json.obj fields).get "file").str?
  | _ => none

def renameRecord (record : Json) : Json :=
  match record, (recordFile record).bind (renamedSnapshot u type oldId newId) with
  | .obj fields, some path => .obj (Dict.setEntries fields "file" (.str path.text))
  | _, _ => record

def snapshotMove (record : Json) : Option (PosixPath × PosixPath) :=
  (recordFile record).bind fun file =>
    (renamedSnapshot u type oldId newId file).map fun path => (purePosixPath file.toList, path)

def setHistory (data bucket record : List (String × Json)) (key : String) (records : List Json) : Json :=
  let moved := if hasField record "versions" then
      Dict.setEntries record "versions" (.arr (records.map (renameRecord u type oldId newId)))
    else record
  .obj (Dict.setEntries data type.bucketKey
    (.obj (rekeyFields u (Dict.setEntries bucket key (.obj moved)) oldId newId)))

def renameHistory (data bucket record : List (String × Json)) (key : String) :
    Except RenameError HistoryRename :=
  match resolveAssetKey u (.obj bucket) newId with
  | some existing => if existing ≠ key then .error (.historyCollision newId) else renamed
  | none => renamed
where
  renamed : Except RenameError HistoryRename :=
    match historyRecords record with
    | none => .error .malformedVersions
    | some records => .ok {
        count := (records.filter fun item => (recordFile item).isSome).length
        moves := records.filterMap (snapshotMove u type oldId newId)
        versions := some (match record.lookup "versions" with
          | some (.arr _) => setHistory u type oldId newId data bucket record key records
          | _ => .obj (Dict.setEntries data type.bucketKey (.obj (rekeyFields u bucket oldId newId)))) }

/-- `rename_resource`; nothing that a rename writes before it changes `versions.json`, so its dry
run and its run read the same. -/
def renameResource (versions : Option Json) : Except RenameError HistoryRename :=
  match versions with
  | none => .ok ⟨0, [], none⟩
  | some (.obj data) =>
    match (Json.obj data).get type.bucketKey with
    | .obj bucket =>
      match resolveAssetKey u (.obj bucket) oldId with
      | none => .ok ⟨0, [], none⟩
      | some key =>
        match (Json.obj bucket).get key with
        | .obj record => renameHistory u type oldId newId data bucket record key
        | _ => .ok ⟨0, [], none⟩
    | _ => .ok ⟨0, [], none⟩
  | some _ => .error .malformedVersions

end History

section Manifest

/-- `ArtifactKey`: a sheet, or a claim of another kind by its encoding. -/
inductive ArtifactKey where
  | assetSheet (type : AssetType) (id : String)
  | other (encoded : String)
  deriving DecidableEq, Repr

/-- `ArtifactManifestEntry`. -/
structure Claim where
  artifactPath : String
  basisDigest : String
  deriving DecidableEq, Repr

abbrev Manifest := Dict ArtifactKey Claim

/-- The manifest on disk. -/
inductive ManifestFile where
  | absent
  | unreadable
  | claims (manifest : Manifest)

variable (u : Unicode) (casefold : String → String)

def assetSheetKey (type : AssetType) (id : String) : Except RenameError ArtifactKey :=
  if id = "" ∨ comparisonKey u id = "" then .error .artifactKey
  else .ok (.assetSheet type (comparisonKey u id))

def reservedArtifactPaths : List String := [".arcreel_artifacts.json", ".artifact_manifest.lock"]

def rstripDots (part : List Char) : List Char := part.rdropWhile fun c => c == ' ' || c == '.'

/-- `normalize_artifact_path`: a path is canonical or raises; every drive and every absolute path
has a colon or an empty part. -/
def normalizeArtifactPath (value : String) : Except RenameError String :=
  let parts := splitSlashes value.toList
  if value = "" ∨ value.toList.any (fun c => c.toNat == 0 || c == '\\') ∨
      parts.any (fun part => part.isEmpty || part == ['.'] || part == ['.', '.'] ||
        rstripDots part != part || part.contains ':') ∨
      value ∈ reservedArtifactPaths ∨
      (parts.length = 1 ∧ casefold value ∈ reservedArtifactPaths.map casefold) then .error .artifactPath
  else .ok value

/-- `_assert_unique_artifact_paths`. -/
def uniqueArtifactPaths (manifest : Manifest) : Bool :=
  decide ((manifest.values.map fun claim => casefold (normalizeAssetName u claim.artifactPath)).Nodup)

def loadManifest : ManifestFile → Except RenameError Manifest
  | .absent => .ok .empty
  | .unreadable => .error .manifestUnreadable
  | .claims manifest =>
    if uniqueArtifactPaths u casefold manifest then .ok manifest else .error .manifestUnreadable

/-- `ArtifactEntryRekeyPlan`. -/
structure RekeyPlan where
  before : List (ArtifactKey × Option Claim)
  after : List (ArtifactKey × Option Claim)
  changed : Bool
  deriving DecidableEq, Repr

def RekeyPlan.nothing : RekeyPlan := ⟨[], [], false⟩

/-- The paths of the rewrite, both canonical. -/
def canonicalRewrite : Option (String × String) → Except RenameError (Option (String × String))
  | none => .ok none
  | some (sheet, renamed) => do
    let sheet ← normalizeArtifactPath casefold sheet
    let renamed ← normalizeArtifactPath casefold renamed
    return some (sheet, renamed)

/-- The path of the claim under the new name. -/
def movedPath (rewrite : Option (String × String)) (path : String) : String :=
  match rewrite with
  | some (sheet, renamed) => if path = sheet then renamed else path
  | none => path

def movedClaim (rewrite : Option (String × String)) (claim : Claim) : Claim :=
  { claim with artifactPath := movedPath rewrite claim.artifactPath }

def rekeyClaim (manifest : Manifest) (source target : ArtifactKey) (rewrite : Option (String × String)) :
    Except RenameError RekeyPlan :=
  if source = target then
    match manifest.get? source with
    | none => .ok .nothing
    | some claim =>
      if movedClaim rewrite claim = claim then .ok .nothing
      else .ok ⟨[(source, some claim)], [(source, some (movedClaim rewrite claim))], true⟩
  else
    match manifest.get? target, manifest.get? source with
    | some _, _ => .error .claimTaken
    | none, none => .ok .nothing
    | none, some claim =>
      .ok ⟨[(source, some claim), (target, none)],
        [(source, none), (target, some (movedClaim rewrite claim))], true⟩

/-- `plan_entry_rekey`. -/
def planEntryRekey (file : ManifestFile) (source target : ArtifactKey) (rewrite : Option (String × String)) :
    Except RenameError RekeyPlan := do
  let rewrite ← canonicalRewrite casefold rewrite
  let manifest ← loadManifest u casefold file
  rekeyClaim manifest source target rewrite

def putClaim (manifest : Manifest) (entry : ArtifactKey × Option Claim) : Manifest :=
  match entry.2 with
  | none => manifest.erase entry.1
  | some claim => manifest.set entry.1 claim

def RekeyPlan.rekey (plan : RekeyPlan) (manifest : Manifest) : Manifest :=
  plan.after.foldl putClaim manifest

/-- `ArtifactEntryRekeyPlan.commit`: a commit that raises has put back what it found. -/
def RekeyPlan.commit (plan : RekeyPlan) (file : ManifestFile) : Except RenameError ManifestFile := do
  if plan.changed then
    let manifest ← loadManifest u casefold file
    let rekeyed := plan.rekey manifest
    if plan.before.any fun entry => manifest.get? entry.1 ≠ entry.2 then .error .claimsChanged
    else if rekeyed.size = 0 then return .absent
    else if !uniqueArtifactPaths u casefold rekeyed then .error .pathClaimedTwice
    else if plan.after.all fun entry => manifest.get? entry.1 = entry.2 then .error .claimsChanged
    else return .claims rekeyed
  else return file

end Manifest

end ArcReel.Rename
