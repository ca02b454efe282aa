import ArcReel.Review.FormalWrite

/-! `ProjectManager._update_project_with_files`: files and `project.json` are replaced together. -/

namespace ArcReel.Project
open Review

structure Path where
  parent : List String
  name : List Char
  deriving DecidableEq

namespace Path

def withName (path : Path) (name : List Char) : Path := { path with name }

/-- `.\x7bname\x7d.\x7btoken\x7d-\x7bindex\x7d` and a suffix, next to the path. -/
def beside (token suffix : List Char) (index : Nat) (path : Path) : Path :=
  path.withName ('.' :: (path.name ++ '.' :: (token ++ '-' :: (Nat.toDigits 10 index ++ suffix))))

def temporary (token : List Char) : Nat → Path → Path := beside token ['.', 't', 'm', 'p']

def backup (token : List Char) : Nat → Path → Path := beside token ['.', 'b', 'a', 'k']

end Path

variable {β δ : Type}

/-- The entries of a file system: the bytes of a file, or a link. -/
abbrev Disk (β : Type) := Files Path β

/-- `os.replace`: there must be something to move. -/
def replace (disk : Disk β) (source destination : Path) : Option (Disk β) :=
  (disk source).map fun entry =>
    Function.update (Function.update disk source none) destination (some entry)

/-- `unlink(missing_ok=True)`. -/
def unlink (disk : Disk β) (path : Path) : Disk β := Function.update disk path none

/-- What a destination is to hold: a copy of a file, or bytes. -/
inductive Source (β : Type) where
  | copy (path : Path)
  | write (content : β)

def Source.read (disk : Disk β) : Source β → Option β
  | copy path => disk path
  | write content => some content

/-- The two lists of a call, in the order of their staging. -/
structure Lists (β : Type) where
  copies : List (Path × Path)
  writes : List (β × Path)

def Lists.pending (lists : Lists β) : List (Source β × Path) :=
  (lists.copies.map fun copy => (.copy copy.1, copy.2)) ++
    lists.writes.map fun write => (.write write.1, write.2)

def Lists.destinations (lists : Lists β) : List Path := lists.pending.map Prod.snd

/-- A call of `_update_project_with_files`, with the functions that it uses: of JSON, of the asset
namespace, and the three changes before a save. -/
structure Update (β δ : Type) where
  projectFile : Path
  token : List Char
  lists : Lists β
  load : β → Option δ
  requiresUniqueAssetNamespace : δ → Option Bool
  ensureProjectAssetNamespace : δ → Option Unit
  mutateFn : δ → Lists β → Option (δ × Lists β)
  onSave : δ → Option δ
  dump : δ → Option β
  /-- Whether the callback raises, and the disk that it leaves. -/
  onCommit : Option (Disk β → Bool × Disk β)

/-- Which steps raise, by the index of their file; a staging that raises leaves what it has written. -/
structure Faults (β : Type) where
  snapshot : Bool
  stage : Nat → Option (Option β)
  backup : Nat → Bool
  install : Nat → Bool
  writeProject : Bool

namespace Update

def checkNamespace (u : Update β δ) (project : δ) : Option Unit := do
  if ← u.requiresUniqueAssetNamespace project then u.ensureProjectAssetNamespace project

/-- What is read and decided before a file is touched. -/
def plan (u : Update β δ) (disk : Disk β) : Option (δ × Lists β) := do
  let content ← disk u.projectFile
  let project ← u.load content
  u.checkNamespace project
  let (project, lists) ← u.mutateFn project u.lists
  u.checkNamespace project
  let project ← u.onSave project
  some (project, lists)

end Update

section Steps

variable (token : List Char) (faults : Faults β)

/-- The temporary files with their destinations, whether a step has raised, and the disk. -/
def stage : Nat → List (Source β × Path) → Disk β → List (Path × Path) × Bool × Disk β
  | _, [], disk => ([], false, disk)
  | index, (source, destination) :: pending, disk =>
      let temporary := destination.temporary token index
      match source.read disk with
      | none => ([], true, disk)
      | some content =>
          match faults.stage index with
          | some left => ([], true, Function.update disk temporary left)
          | none =>
              let rest := stage (index + 1) pending (Function.update disk temporary (some content))
              ((temporary, destination) :: rest.1, rest.2)

/-- The old entry of a destination goes to its backup, if there is one. -/
def moveAside (index : Nat) (destination : Path) (disk : Disk β) : Option Path × Disk β :=
  match replace disk destination (destination.backup token index) with
  | none => (none, disk)
  | some moved => (some (destination.backup token index), moved)

/-- The destinations with their backups, whether a step has raised, and the disk. -/
def install : Nat → List (Path × Path) → Disk β → List (Path × Option Path) × Bool × Disk β
  | _, [], disk => ([], false, disk)
  | index, (temporary, destination) :: staged, disk =>
      if (disk destination).isSome ∧ faults.backup index = true then ([], true, disk)
      else
        let aside := moveAside token index destination disk
        if faults.install index then ([(destination, aside.1)], true, aside.2)
        else
          match replace aside.2 temporary destination with
          | none => ([(destination, aside.1)], true, aside.2)
          | some disk =>
              let rest := install (index + 1) staged disk
              ((destination, aside.1) :: rest.1, rest.2)

end Steps

/-- The destination is taken away, and its backup moved back. -/
def restore (disk : Disk β) (file : Path × Option Path) : Disk β :=
  let disk := unlink disk file.1
  match file.2 with
  | none => disk
  | some backup => (replace disk backup file.1).getD disk

/-- The files of the `except` branch, the last one first. -/
def rollBack (installed : List (Path × Option Path)) (disk : Disk β) : Disk β :=
  installed.reverse.foldl restore disk

/-- What the `try` block has come to. -/
structure Attempt (β δ : Type) where
  project : Option δ
  staged : List (Path × Path) := []
  installed : List (Path × Option Path) := []
  disk : Disk β

namespace Update

/-- `atomic_write_json`, then the callback. -/
def commit (u : Update β δ) (faults : Faults β) (project : δ) (disk : Disk β) : Option δ × Disk β :=
  match u.dump project with
  | none => (none, disk)
  | some content =>
      if faults.writeProject then (none, disk)
      else
        let written := Function.update disk u.projectFile (some content)
        match u.onCommit with
        | none => (some project, written)
        | some onCommit => (if (onCommit written).1 then none else some project, (onCommit written).2)

/-- The `try` block. -/
def attempt (u : Update β δ) (faults : Faults β) (disk : Disk β) : Attempt β δ :=
  match u.plan disk with
  | none => { project := none, disk }
  | some (project, lists) =>
      if lists.destinations.Nodup then
        let files := stage u.token faults 0 lists.pending disk
        if files.2.1 then { project := none, staged := files.1, disk := files.2.2 }
        else
          let moved := install u.token faults 0 files.1 files.2.2
          if moved.2.1 then
            { project := none, staged := files.1, installed := moved.1, disk := moved.2.2 }
          else
            let done := u.commit faults project moved.2.2
            { project := done.1, staged := files.1, installed := moved.1, disk := done.2 }
      else { project := none, disk }

/-- The `except` and `finally` branches. -/
def finish (attempt : Attempt β δ) : Option δ × Disk β :=
  let disk := match attempt.project with
    | none => rollBack attempt.installed attempt.disk
    | some _ => attempt.disk
  let disk := (attempt.staged.map Prod.fst).foldl unlink disk
  match attempt.project with
  | none => (none, disk)
  | some project => (some project, (attempt.installed.filterMap Prod.snd).foldl unlink disk)

/-- The call: the project that it returns, or `none` if it raises, and the disk. A transaction on the
project file is around it when there is a callback. -/
def run (u : Update β δ) (faults : Faults β) (disk : Disk β) : Option δ × Disk β :=
  let done := finish (u.attempt faults disk)
  match u.onCommit with
  | none => done
  | some _ =>
      if faults.snapshot then (none, disk)
      else
        (done.1, (formalWriteTransaction [u.projectFile] disk done.2 done.1.isNone fun _ => true).files)

end Update

end ArcReel.Project
