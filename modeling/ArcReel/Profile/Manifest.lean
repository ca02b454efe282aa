import ArcReel.Lib.Dict
import ArcReel.Lib.Run

/-! Profile sync: the decision table over profile, project and manifest, the loop over all paths,
and the runs in which syncs meet profile upgrades, the user's file operations and crashes. -/

namespace ArcReel.Profile
open Lib

/-- The contents of a file. -/
abbrev Bytes : Type := List UInt8

/-- A manifest entry: an active baseline, or the mark of a deletion. -/
inductive Entry where
  | active (sha256 : String) (size : Nat)
  | tombstone (deletedAt : Nat)
  deriving DecidableEq

/-- A project file, with who wrote its present content. -/
structure File where
  content : Bytes
  byUser : Bool
  deriving DecidableEq

/-- The rows of the decision table, in its order; row 15 has two outcomes. -/
inductive Decision where
  | firstDelivery
  | userDeleted
  | inAgreement
  | upgrade
  | converged
  | userModified
  | prune
  | orphaned
  | userOnly
  | restored
  | stillDeleted
  | orphanRestored
  | bothMissing
  | doubleDelete
  | adopt
  | collision
  deriving DecidableEq

/-- The statistics a sync returns. -/
inductive Stat where
  | created | repaired | skipped | errors | upgraded | userModified | userOnly | pruned | orphaned
  | deletedUser | tombstoned | unchanged | collision
  deriving DecidableEq

/-- The row for the hashes of the profile file and the project file and the manifest entry;
nothing on all three sides is not a row. -/
def decision (p d : Option String) (m : Option Entry) : Option Decision :=
  match p, d, m with
  | some _, none, none => some .firstDelivery
  | some _, none, some (.active _ _) => some .userDeleted
  | some p, some d, some (.active m _) => some <|
      if d = p ∧ m = p then .inAgreement
      else if d = m ∧ d ≠ p then .upgrade
      else if d ≠ m ∧ d = p then .converged
      else .userModified
  | none, some d, some (.active m _) => some (if d = m then .prune else .orphaned)
  | none, some _, none => some .userOnly
  | some _, some _, some (.tombstone _) => some .restored
  | some _, none, some (.tombstone _) => some .stillDeleted
  | none, some _, some (.tombstone _) => some .orphanRestored
  | none, none, some (.tombstone _) => some .bothMissing
  | none, none, some (.active _ _) => some .doubleDelete
  | some p, some d, none => some (if d = p then .adopt else .collision)
  | none, none, none => none

def Decision.stats : Decision → List Stat
  | .firstDelivery => [.created]
  | .userDeleted => [.deletedUser, .skipped]
  | .inAgreement | .converged => [.unchanged, .skipped]
  | .upgrade => [.upgraded, .repaired]
  | .userModified => [.userModified, .skipped]
  | .prune | .doubleDelete => [.pruned, .repaired]
  | .orphaned => [.orphaned, .skipped]
  | .userOnly | .restored | .orphanRestored => [.userOnly, .skipped]
  | .stillDeleted | .bothMissing => [.tombstoned, .skipped]
  | .adopt | .collision => [.collision, .skipped]

/-- What the loop of a sync works on: the project files, the manifest in memory and the
statistics. The contents it copied to a path, and those it found there and took over as its
own, are recorded. -/
structure Work where
  project : Dict String File
  entries : Dict String Entry
  stats : List Stat
  delivered : List (String × Bytes)
  adopted : List (String × Bytes)

section Table

variable (sha256 : Bytes → String) (now : Nat) (profile : Dict String Bytes)

def profileActiveEntry (content : Bytes) : Entry := .active (sha256 content) content.length

def tombstoneEntry : Entry := .tombstone now

/-- One row applied to one path. -/
def applyRow (row : Decision) (content : Bytes) (path : String) (w : Work) : Work :=
  let w := { w with stats := w.stats ++ row.stats }
  match row with
  | .firstDelivery | .upgrade =>
    { w with
      project := w.project.set path ⟨content, false⟩
      entries := w.entries.set path (profileActiveEntry sha256 content)
      delivered := w.delivered ++ [(path, content)] }
  | .converged | .adopt =>
    { w with
      entries := w.entries.set path (profileActiveEntry sha256 content)
      adopted := w.adopted ++ [(path, content)] }
  | .prune =>
    { w with
      project := w.project.erase path
      entries := w.entries.set path (tombstoneEntry now) }
  | .userDeleted | .doubleDelete => { w with entries := w.entries.set path (tombstoneEntry now) }
  | .restored | .orphanRestored => { w with entries := w.entries.erase path }
  | .inAgreement | .userModified | .orphaned | .userOnly | .stillDeleted | .bothMissing
  | .collision => w

def applyDecision (w : Work) (path : String) : Work :=
  let p := profile.get? path
  let d := w.project.get? path
  match decision (p.map sha256) (d.map fun file => sha256 file.content) (w.entries.get? path) with
  | some row => applyRow sha256 now row (p.getD []) path w
  | none => w

/-- The body of the loop; a path that escapes the project or cannot be read is counted and
left alone. -/
def syncPath (refused : List String) (w : Work) (path : String) : Work :=
  if path ∈ refused then { w with stats := w.stats ++ [.errors] }
  else applyDecision sha256 now profile w path

end Table

/-- The disk, and what the syncs of the run delivered and adopted. -/
structure State where
  profile : Dict String Bytes
  project : Dict String File
  manifest : Dict String Entry
  delivered : List (String × Bytes)
  adopted : List (String × Bytes)

/-- The paths of all three sides, sorted. -/
def allKeys (s : State) : List String :=
  ((s.profile.keys ++ s.project.keys ++ s.manifest.keys).dedup).insertionSort (· ≤ ·)

/-- After a crash the files are as the loop left them, and the manifest is the old one. -/
inductive Fate where
  | saved
  | crashed (visited : Nat)

/-- `sync_profile_to_project` with a manifest of the same mode; an empty profile raises before
anything is touched. -/
def sync (sha256 : Bytes → String) (now : Nat) (refused : List String) (fate : Fate) (s : State) :
    State :=
  if s.profile.keys = [] then s
  else
    let work : Work := ⟨s.project, s.manifest, [], s.delivered, s.adopted⟩
    match fate with
    | .saved =>
      let w := (allKeys s).foldl (syncPath sha256 now s.profile refused) work
      ⟨s.profile, w.project, w.entries, w.delivered, w.adopted⟩
    | .crashed visited =>
      let w := ((allKeys s).take visited).foldl (syncPath sha256 now s.profile refused) work
      ⟨s.profile, w.project, s.manifest, w.delivered, s.adopted⟩

inductive Step where
  | sync (now : Nat) (refused : List String) (fate : Fate)
  | upgrade (profile : Dict String Bytes)
  | write (path : String) (content : Bytes)
  | remove (path : String)

def step (sha256 : Bytes → String) (s : State) : Step → Option State
  | .sync now refused fate => some (sync sha256 now refused fate s)
  | .upgrade profile => some { s with profile }
  | .write path content => some { s with project := s.project.set path ⟨content, true⟩ }
  | .remove path => some { s with project := s.project.erase path }

/-- `_full_reset_from_profile`, from which the manifest starts; a file that cannot be copied is
left out. -/
def fullReset (sha256 : Bytes → String) (profile : Dict String Bytes) (refused : List String) :
    State :=
  let copied := profile.filter fun path _ => path ∉ refused
  { profile
    project := copied.mapValues fun _ content => ⟨content, false⟩
    manifest := copied.mapValues fun _ content => profileActiveEntry sha256 content
    delivered := copied.entries
    adopted := [] }

end ArcReel.Profile
