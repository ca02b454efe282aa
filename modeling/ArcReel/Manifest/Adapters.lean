import ArcReel.Manifest.Document

/-! The two stores of a manifest: a dictionary in memory and a file in the project directory. -/

namespace ArcReel.Manifest
open Lib

/-- Claims by their keys, and claims or their absence. -/
abbrev Claims (p : Primitives) := Dict (ArtifactKey p) ManifestEntry

abbrev Changes (p : Primitives) := Dict (ArtifactKey p) (Option ManifestEntry)

/-- What becomes of the one write of an operation. -/
inductive Fault where
  | none
  | before
  | after
  deriving DecidableEq

inductive Operation (p : Primitives) where
  | getEntry (key : ArtifactKey p)
  | snapshotEntries
  | putEntry (key : ArtifactKey p) (entry : ManifestEntry)
  | deleteEntry (key : ArtifactKey p)
  | replaceEntriesIfMatches (expected replacements : Changes p)
  | replaceSnapshotIfMatches (expected replacement : Claims p)
  | replaceEntries (entries : Claims p)

inductive Reply (p : Primitives) where
  | entry (entry : Option ManifestEntry)
  | snapshot (claims : Claims p)
  | flag (value : Bool)

section Encoding

variable {p : Primitives}

/-- `_encode_target_entries` as a dictionary. -/
def targetEntries (claims : Claims p) : Except PyError Entries :=
  (encodeTargetEntries claims.entries).map .ofEntries

def presentClaims (changes : Changes p) : List (ArtifactKey p × ManifestEntry) :=
  changes.entries.filterMap fun change => change.2.map fun entry => (change.1, entry)

/-- `_encode_optional_entries`. -/
def encodeOptionalEntries (changes : Changes p) : Except PyError (List (Str × Option ManifestEntry)) := do
  let encoded ← encodeTargetEntries (presentClaims changes)
  changes.entries.mapM fun change => do
    let key ← change.1.encode
    return (key, change.2.bind fun _ => encoded.lookup key)

/-- The store has what is expected under each key. -/
def matchesExpected (entries : Entries) (expected : List (Str × Option ManifestEntry)) : Bool :=
  expected.all fun change => entries.get? change.1 = change.2

def applyChange (entries : Entries) (change : Str × Option ManifestEntry) : Entries :=
  match change.2 with
  | none => entries.erase change.1
  | some entry => entries.set change.1 entry

def applyChanges (entries : Entries) (changes : List (Str × Option ManifestEntry)) : Entries :=
  changes.foldl applyChange entries

/-- `{ArtifactKey.decode(encoded): entry …}`. -/
def decodeEntries (p : Primitives) (entries : Entries) : Except PyError (Claims p) := do
  let claims ← entries.entries.mapM fun entry => do
    let key ← ArtifactKey.decode p entry.1
    return (key, entry.2)
  return .ofEntries claims

end Encoding

-- `InMemoryArtifactManifestAdapter`.
namespace Memory

variable {p : Primitives}

def putEntry (entries : Entries) (key : ArtifactKey p) (entry : ManifestEntry) :
    Except PyError Bool × Entries :=
  match key.encode with
  | .error e => (.error e, entries)
  | .ok encoded =>
    if entries.get? encoded = some entry then (.ok false, entries)
    else if uniquePaths p (entries.set encoded entry).values then (.ok true, entries.set encoded entry)
    else (.error .manifestError, entries)

def deleteEntry (entries : Entries) (key : ArtifactKey p) : Except PyError Bool × Entries :=
  match key.encode with
  | .error e => (.error e, entries)
  | .ok encoded => (.ok (entries.get? encoded).isSome, entries.erase encoded)

def replaceEntriesIfMatches (entries : Entries) (expected replacements : Changes p) :
    Except PyError Bool × Entries :=
  match encodeOptionalEntries expected, encodeOptionalEntries replacements with
  | .ok expected, .ok replacements =>
    if matchesExpected entries expected = false then (.ok false, entries)
    else if (applyChanges entries replacements).same entries then (.ok false, entries)
    else if uniquePaths p (applyChanges entries replacements).values then
      (.ok true, applyChanges entries replacements)
    else (.error .manifestError, entries)
  | .error e, _ => (.error e, entries)
  | _, .error e => (.error e, entries)

def replaceSnapshotIfMatches (entries : Entries) (expected replacement : Claims p) :
    Except PyError Bool × Entries :=
  match targetEntries expected, targetEntries replacement with
  | .ok expected, .ok replacement =>
    if uniquePaths p replacement.values = false then (.error .manifestError, entries)
    else if entries.same expected = false then (.ok false, entries)
    else (.ok true, replacement)
  | .error e, _ => (.error e, entries)
  | _, .error e => (.error e, entries)

def replaceEntries (entries : Entries) (claims : Claims p) : Except PyError Bool × Entries :=
  match targetEntries claims with
  | .error e => (.error e, entries)
  | .ok target =>
    if uniquePaths p target.values = false then (.error .manifestError, entries)
    else if entries.same target then (.ok false, entries)
    else (.ok true, target)

/-- One operation: what it returns and what it leaves. -/
def step (entries : Entries) : Operation p → Except PyError (Reply p) × Entries
  | .getEntry key => (key.encode.map fun encoded => .entry (entries.get? encoded), entries)
  | .snapshotEntries => ((decodeEntries p entries).map .snapshot, entries)
  | .putEntry key entry => (putEntry entries key entry).map (·.map .flag) id
  | .deleteEntry key => (deleteEntry entries key).map (·.map .flag) id
  | .replaceEntriesIfMatches expected replacements =>
    (replaceEntriesIfMatches entries expected replacements).map (·.map .flag) id
  | .replaceSnapshotIfMatches expected replacement =>
    (replaceSnapshotIfMatches entries expected replacement).map (·.map .flag) id
  | .replaceEntries claims => (replaceEntries entries claims).map (·.map .flag) id

end Memory

-- `ProjectArtifactManifestAdapter`: the bytes of the file, if there is one.
namespace Project

variable {p : Primitives} {codec : DocumentCodec}

abbrev File (codec : DocumentCodec) := Option codec.Bytes

/-- `_load_unlocked`. -/
def load (p : Primitives) (file : File codec) : Except PyError Entries :=
  match file with
  | none => .ok .empty
  | some raw => parseManifest p codec raw

/-- `_atomic_replace` or `unlink`, which may fail before or after its effect. -/
def write (fault : Fault) (file content : File codec) : Except PyError Bool × File codec :=
  match fault with
  | .none => (.ok true, content)
  | .before => (.error .manifestError, file)
  | .after => (.error .manifestError, content)

/-- The end of most operations: serialize, compare with the bytes of the file, replace it. -/
def replaceFile (p : Primitives) (fault : Fault) (file : File codec) (entries : Entries) :
    Except PyError Bool × File codec :=
  match serializeManifest p codec entries with
  | .error e => (.error e, file)
  | .ok bytes => if file = some bytes then (.ok false, file) else write fault file (some bytes)

def putEntry (fault : Fault) (file : File codec) (key : ArtifactKey p) (entry : ManifestEntry) :
    Except PyError Bool × File codec :=
  match load p file, key.encode with
  | .ok entries, .ok encoded =>
    if entries.get? encoded = some entry ∧ file.isSome then (.ok false, file)
    else replaceFile p fault file (entries.set encoded entry)
  | .error e, _ => (.error e, file)
  | _, .error e => (.error e, file)

def deleteEntry (fault : Fault) (file : File codec) (key : ArtifactKey p) :
    Except PyError Bool × File codec :=
  match load p file, key.encode with
  | .ok entries, .ok encoded =>
    if entries.get? encoded = none then (.ok false, file)
    else if (entries.erase encoded).size = 0 then write fault file none
    else replaceFile p fault file (entries.erase encoded)
  | .error e, _ => (.error e, file)
  | _, .error e => (.error e, file)

/-- Removes the file; `FileNotFoundError` passes. -/
def unlink (fault : Fault) (file : File codec) : Except PyError Bool × File codec :=
  match file with
  | none => (.ok false, none)
  | some _ => write fault file none

def replaceEntriesIfMatches (fault : Fault) (file : File codec) (expected replacements : Changes p) :
    Except PyError Bool × File codec :=
  match encodeOptionalEntries expected, encodeOptionalEntries replacements, load p file with
  | .ok expected, .ok replacements, .ok entries =>
    if matchesExpected entries expected = false then (.ok false, file)
    else if (applyChanges entries replacements).size = 0 then unlink fault file
    else replaceFile p fault file (applyChanges entries replacements)
  | .error e, _, _ => (.error e, file)
  | _, .error e, _ => (.error e, file)
  | _, _, .error e => (.error e, file)

def replaceSnapshotIfMatches (fault : Fault) (file : File codec) (expected replacement : Claims p) :
    Except PyError Bool × File codec :=
  match targetEntries expected, targetEntries replacement with
  | .ok expected, .ok replacement =>
    match serializeManifest p codec replacement, load p file with
    | .ok bytes, .ok current =>
      if current.same expected = false then (.ok false, file)
      else if current.same replacement then (.ok true, file)
      else if replacement.size = 0 then (unlink fault file).map (·.map fun _ => true) id
      else if file = some bytes then (.ok true, file)
      else write fault file (some bytes)
    | .error e, _ => (.error e, file)
    | _, .error e => (.error e, file)
  | .error e, _ => (.error e, file)
  | _, .error e => (.error e, file)

/-- `present` is what `inspect_artifact` finds: a file without a blocker. -/
def replaceEntries (present : Str → Bool) (fault : Fault) (file : File codec) (claims : Claims p) :
    Except PyError Bool × File codec :=
  match targetEntries claims with
  | .error e => (.error e, file)
  | .ok target =>
    if target.values.any fun entry => !present entry.artifactPath then (.error .manifestError, file)
    else
      match serializeManifest p codec target, load p file with
      | .ok _, .ok _ => replaceFile p fault file target
      | .error e, _ => (.error e, file)
      | _, .error e => (.error e, file)

/-- One operation: what it returns and what it leaves. -/
def step (present : Str → Bool) (fault : Fault) (file : File codec) :
    Operation p → Except PyError (Reply p) × File codec
  | .getEntry key =>
    (load p file >>= fun entries => key.encode.map fun encoded => .entry (entries.get? encoded), file)
  | .snapshotEntries => ((load p file >>= decodeEntries p).map .snapshot, file)
  | .putEntry key entry => (putEntry fault file key entry).map (·.map .flag) id
  | .deleteEntry key => (deleteEntry fault file key).map (·.map .flag) id
  | .replaceEntriesIfMatches expected replacements =>
    (replaceEntriesIfMatches fault file expected replacements).map (·.map .flag) id
  | .replaceSnapshotIfMatches expected replacement =>
    (replaceSnapshotIfMatches fault file expected replacement).map (·.map .flag) id
  | .replaceEntries claims => (replaceEntries present fault file claims).map (·.map .flag) id

end Project

end ArcReel.Manifest
