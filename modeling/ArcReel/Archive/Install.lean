import ArcReel.Lib.Dict

/-! The install phase of an archive import: the conflict policy, the move of the staged tree into the
projects directory, and the rollback. -/

namespace ArcReel.Archive
open Lib

variable {β : Type}

/-- A directory: what is below it, with the bytes of the files. -/
abbrev Dir (β : Type) := Dict (List String) (Option β)

/-- The directories of the projects root by their names. -/
abbrev Projects (β : Type) := Dict String (Dir β)

inductive ConflictPolicy where
  | prompt
  | rename
  | overwrite
  deriving DecidableEq

inductive ImportError where
  | conflict
  | failed
  deriving DecidableEq

/-- What `sync_agent_profile` makes of a project. -/
structure ProfileSync (β : Type) where
  sync : Dir β → Dir β
  elsewhere : ∀ dir path, path.head? ∉ [some ".claude", some "CLAUDE.md",
    some ".arcreel_profile_manifest.json", some ".profile_sync.lock"] →
    (sync dir).get? path = dir.get? path

/-- A rename that raises may have had its effect. -/
inductive RenameFate where
  | done
  | raises (effect : Bool)
  deriving DecidableEq

/-- A move that raises may have copied a part of the tree, and a sync that raises may have changed
the directory. -/
inductive CopyFate (β : Type) where
  | done
  | raises (left : Option (Dir β))

inductive SyncFate (β : Type) where
  | done
  | raises (left : Dir β)

structure Faults (β : Type) where
  rename : RenameFate := .done
  move : CopyFate β := .done
  sync : SyncFate β := .done

/-- Directories that other requests create under the target name: before the install looks at it,
and before the staged tree is moved. -/
structure Race (β : Type) where
  beforeInstall : Option (Dir β) := none
  beforeMove : Option (Dir β) := none

/-- A name that `generate_project_name` has found unused. -/
abbrev UnusedName (projects : Projects β) := {name : String // projects.get? name = none}

/-- `_resolve_conflict`. -/
def resolveConflict (projects : Projects β) (preferredName : String) (generated : UnusedName projects) :
    ConflictPolicy → Except ImportError String
  | .prompt => if (projects.get? preferredName).isSome then .error .conflict else .ok preferredName
  | .rename => if (projects.get? preferredName).isSome then .ok generated else .ok preferredName
  | .overwrite => .ok preferredName

/-- `mkdir` of another request: an existing directory stays. -/
def create (projects : Projects β) (name : String) : Option (Dir β) → Projects β
  | none => projects
  | some dir => if (projects.get? name).isSome then projects else projects.set name dir

/-- `os.rename` of a directory that is there; only an empty directory may be in its way. -/
def renameDir (projects : Projects β) (dir : Dir β) (source target : String) : Option (Projects β) :=
  if (projects.get? target).all fun other => other.size = 0 then
    some ((projects.erase source).set target dir)
  else none

/-- A tree in a directory under the name of the staging directory. -/
def nest (child dir : Dir β) : Dir β :=
  child.entries.foldl (fun dir entry => dir.set ("project" :: entry.1) entry.2) (dir.set ["project"] none)

/-- `shutil.move` to the target: into a directory that is there, unless it has an entry of the same
name. What is at the target afterwards, and whether the move has returned. -/
def moveTree (fate : CopyFate β) (staged : Dir β) : Option (Dir β) → Option (Dir β) × Bool
  | none =>
    match fate with
    | .done => (some staged, true)
    | .raises left => (left, false)
  | some dir =>
    if (dir.get? ["project"]).isSome then (some dir, false)
    else
      match fate with
      | .done => (some (nest staged dir), true)
      | .raises none => (some dir, false)
      | .raises (some left) => (some (nest left dir), false)

def put (projects : Projects β) (name : String) : Option (Dir β) → Projects β
  | none => projects.erase name
  | some dir => projects.set name dir

/-- The `except` clause: what is at the target goes, and a backup that is there comes back. -/
def rollback (projects : Projects β) (name : String) (backup : Option String) : Projects β :=
  match backup.bind fun backup => (projects.get? backup).map fun dir => (backup, dir) with
  | none => projects.erase name
  | some (backup, dir) => ((projects.erase name).erase backup).set name dir

def backupName (name token : String) : String := ".import-backup-" ++ name ++ "-" ++ token

/-- The move and the sync, behind the rename of the old project. -/
def moveAndSync (profile : ProfileSync β) (faults : Faults β) (staged : Dir β) (projects : Projects β)
    (name : String) (backup : Option String) : Except ImportError Unit × Projects β :=
  match moveTree faults.move staged (projects.get? name) with
  | (left, false) => (.error .failed, rollback (put projects name left) name backup)
  | (left, true) =>
    match faults.sync with
    | .raises dir => (.error .failed, rollback (projects.set name dir) name backup)
    | .done =>
      let installed := put projects name (left.map profile.sync)
      (.ok (), match backup with
        | none => installed
        | some backup => installed.erase backup)

/-- `_install_project_dir`. -/
def installProjectDir (profile : ProfileSync β) (faults : Faults β) (race : Option (Dir β))
    (token : String) (staged : Dir β) (projects : Projects β) (name : String) (overwrite : Bool) :
    Except ImportError Unit × Projects β :=
  match overwrite, projects.get? name with
  | true, some old =>
    let backup := backupName name token
    match renameDir projects old name backup, faults.rename with
    | some moved, .done =>
      moveAndSync profile faults staged (create moved name race) name (some backup)
    | some moved, .raises true => (.error .failed, rollback moved name (some backup))
    | _, _ => (.error .failed, rollback projects name (some backup))
  | _, _ => moveAndSync profile faults staged (create projects name race) name none

/-- The install phase of `import_project_archive`. -/
def importProject (profile : ProfileSync β) (faults : Faults β) (race : Race β) (token : String)
    (staged : Dir β) (projects : Projects β) (preferredName : String)
    (generated : UnusedName projects) (policy : ConflictPolicy) :
    Except ImportError String × Projects β :=
  match resolveConflict projects preferredName generated policy with
  | .error e => (.error e, projects)
  | .ok name =>
    (installProjectDir profile faults race.beforeMove token staged
      (create projects name race.beforeInstall) name (policy = .overwrite)).map
        (·.map fun _ => name) id

end ArcReel.Archive
