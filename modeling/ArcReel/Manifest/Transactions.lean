import ArcReel.Manifest.Interchange

/-! Registering, forgetting and rekeying claims in a manifest file, with a rollback when a write
fails. -/

namespace ArcReel.Manifest
open Lib

/-- What an operation raises: its own error, or that its rollback is incomplete. -/
inductive Raised where
  | failed (error : PyError)
  | rollbackIncomplete
  deriving DecidableEq

/-- The claims of some keys before and after, as a plan, and as a receipt once it is committed. -/
structure RekeyPlan (p : Primitives) where
  before : Changes p
  after : Changes p
  changed : Bool
  aligned : before.keys = after.keys

/-- `ArtifactBasisDescriptor`, of which a registration keeps the digest. -/
structure BasisDescriptor where
  digest : Str
  canonical : isDigest digest = true

namespace Project

variable {p : Primitives} {codec : DocumentCodec}

def getEntry (file : File codec) (key : ArtifactKey p) : Except PyError (Option ManifestEntry) := do
  let entries ← load p file
  let encoded ← key.encode
  return entries.get? encoded

/-- `_entries_match`. -/
def entriesMatch (file : File codec) : List (ArtifactKey p × Option ManifestEntry) → Except PyError Bool
  | [] => .ok true
  | (key, entry) :: rest =>
    match getEntry file key with
    | .error e => .error e
    | .ok found => if found = entry then entriesMatch file rest else .ok false

def putBack (rollback : Fault) (file : File codec) (key : ArtifactKey p) :
    Option ManifestEntry → Except PyError Bool × File codec
  | none => deleteEntry rollback file key
  | some entry => putEntry rollback file key entry

/-- What follows a registration that raised: the prior claim is put back if the new one is there. -/
def restoreEntry (rollback : Fault) (file : File codec) (key : ArtifactKey p)
    (expected : ManifestEntry) (previous : Option ManifestEntry) (raised : PyError) :
    Except Raised Bool × File codec :=
  match getEntry file key with
  | .error _ => (.error .rollbackIncomplete, file)
  | .ok current =>
    if current = some expected then
      match putBack rollback file key previous with
      | (.ok _, file) => (.error (.failed raised), file)
      | (.error _, file) => (.error .rollbackIncomplete, file)
    else (.error (.failed raised), file)

/-- `register_descriptor`: `present` is what `inspect_artifact` finds. -/
def registerDescriptor (present : Str → Bool) (fault : Fault) (file : File codec)
    (key : ArtifactKey p) (artifactPath : Str) (basis : BasisDescriptor) :
    Except PyError Bool × File codec :=
  match normalizeArtifactPath p (.str artifactPath) with
  | .error _ => (.error .manifestError, file)
  | .ok path =>
    if present path then putEntry fault file key ⟨path, basis.digest⟩
    else (.error .manifestError, file)

def registerDescriptorTransactionally (present : Str → Bool) (fault rollback : Fault)
    (file : File codec) (key : ArtifactKey p) (artifactPath : Str) (basis : BasisDescriptor) :
    Except Raised Bool × File codec :=
  match getEntry file key, normalizeArtifactPath p (.str artifactPath) with
  | .ok previous, .ok path =>
    match registerDescriptor present fault file key artifactPath basis with
    | (.ok value, file) => (.ok value, file)
    | (.error raised, file) => restoreEntry rollback file key ⟨path, basis.digest⟩ previous raised
  | .error e, _ => (.error (.failed e), file)
  | _, .error e => (.error (.failed e), file)

def registerEntryTransactionally (present : Str → Bool) (fault rollback : Fault) (file : File codec)
    (key : ArtifactKey p) (entry : ManifestEntry) : Except Raised Bool × File codec :=
  match encodeTargetEntries [(key, entry)] with
  | .error e => (.error (.failed e), file)
  | .ok _ =>
    if present entry.artifactPath then
      match getEntry file key with
      | .error e => (.error (.failed e), file)
      | .ok previous =>
        match putEntry fault file key entry with
        | (.ok value, file) => (.ok value, file)
        | (.error raised, file) => restoreEntry rollback file key entry previous raised
    else (.error (.failed .manifestError), file)

/-- A plan that changes nothing. -/
def unchangedPlan : RekeyPlan p := ⟨.empty, .empty, false, rfl⟩

def movedEntry (rewrites : List (Str × Str)) (entry : ManifestEntry) : ManifestEntry :=
  { entry with artifactPath := (rewrites.lookup entry.artifactPath).getD entry.artifactPath }

/-- The claim of one key, moved. -/
def movePlan (key : ArtifactKey p) (entry moved : ManifestEntry) : RekeyPlan p :=
  ⟨⟨[(key, some entry)], List.nodup_singleton key⟩, ⟨[(key, some moved)], List.nodup_singleton key⟩,
    true, rfl⟩

/-- The claim of one key under another key that has none. -/
def rekeyPlan {source target : ArtifactKey p} (apart : source ≠ target) (entry moved : ManifestEntry) :
    RekeyPlan p :=
  ⟨⟨[(source, some entry), (target, none)], by simpa using apart⟩,
    ⟨[(source, none), (target, some moved)], by simpa using apart⟩, true, rfl⟩

/-- `plan_entry_rekey`. -/
def planEntryRekey (file : File codec) (source target : ArtifactKey p) (rewrites : List (Str × Str)) :
    Except PyError (RekeyPlan p) := do
  let rewrites ← rewrites.mapM fun rewrite => do
    let sheet ← normalizeArtifactPath p (.str rewrite.1)
    let renamed ← normalizeArtifactPath p (.str rewrite.2)
    return (sheet, renamed)
  let sourceEntry ← getEntry file source
  if apart : source ≠ target then
    let targetEntry ← getEntry file target
    match targetEntry, sourceEntry with
    | some _, _ => throw .manifestError
    | none, none => return unchangedPlan
    | none, some entry => return rekeyPlan apart entry (movedEntry rewrites entry)
  else
    match sourceEntry with
    | none => return unchangedPlan
    | some entry =>
      if movedEntry rewrites entry = entry then return unchangedPlan
      else return movePlan source entry (movedEntry rewrites entry)

/-- What follows a commit that raised. -/
def rollBack (rollback : Fault) (file : File codec) (plan : RekeyPlan p) (raised : PyError) :
    Except Raised Bool × File codec :=
  match replaceEntriesIfMatches rollback file plan.after plan.before with
  | (.ok true, file) => (.error (.failed raised), file)
  | (.ok false, file) =>
    match entriesMatch file plan.before.entries with
    | .ok true => (.error (.failed raised), file)
    | _ => (.error .rollbackIncomplete, file)
  | (.error _, file) => (.error .rollbackIncomplete, file)

/-- `ArtifactEntryRekeyPlan.commit`. -/
def commit (fault rollback : Fault) (file : File codec) (plan : RekeyPlan p) :
    Except Raised Bool × File codec :=
  if plan.changed then
    match replaceEntriesIfMatches fault file plan.before plan.after with
    | (.ok true, file) => (.ok true, file)
    | (.ok false, file) => (.error (.failed .manifestError), file)
    | (.error raised, file) => rollBack rollback file plan raised
  else (.ok false, file)

/-- `ArtifactEntryRekeyReceipt.compensate`. -/
def compensate (fault : Fault) (file : File codec) (receipt : RekeyPlan p) :
    Except Raised Bool × File codec :=
  if receipt.changed then
    match replaceEntriesIfMatches fault file receipt.after receipt.before with
    | (.ok true, file) => (.ok true, file)
    | (.ok false, file) =>
      match entriesMatch file receipt.before.entries with
      | .ok true => (.ok false, file)
      | .ok false => (.error (.failed .manifestError), file)
      | .error e => (.error (.failed e), file)
    | (.error e, file) => (.error (.failed e), file)
  else (.ok false, file)

/-- `{key: None for key in before}`. -/
def forgetPlan (before : Claims p) : RekeyPlan p where
  before := before.mapValues fun _ entry => some entry
  after := before.mapValues fun _ _ => none
  changed := true
  aligned := by rw [Dict.keys_mapValues, Dict.keys_mapValues]

/-- The claims of the keys that have one. -/
def claimsOf (file : File codec) : List (ArtifactKey p) → Except PyError (Claims p)
  | [] => .ok .empty
  | key :: keys => do
    let found ← getEntry file key
    let claims ← claimsOf file keys
    return match found with
      | some entry => claims.set key entry
      | none => claims

def forgetEntriesTransactionally (fault rollback : Fault) (file : File codec)
    (keys : List (ArtifactKey p)) : Except Raised Bool × File codec :=
  match claimsOf file keys with
  | .error e => (.error (.failed e), file)
  | .ok before => if before.size = 0 then (.ok false, file) else commit fault rollback file (forgetPlan before)

end Project

end ArcReel.Manifest
