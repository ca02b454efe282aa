import ArcReel.Events.Snapshot

/-! The channel of a project: its baseline, the explicit batches in flight and the watch task that
scans. A read runs in a thread, so it may return any snapshot; all else runs between two awaits. -/

namespace ArcReel.Events
open ArcReel.Lib

inductive Source where
  | webui
  | worker
  | filesystem
  deriving DecidableEq, Repr

/-- How far the task of an explicit batch is; `checking` looks whether the project is gone. -/
inductive BatchPhase where
  | waiting
  | reading (coveredSources : Finset Source)
  | checking
  deriving DecidableEq

structure Batch where
  source : Source
  changes : List Change
  phase : BatchPhase
  deriving DecidableEq

/-- `Counter(_change_identity(change) for change in changes)`. -/
def Batch.identities (batch : Batch) : Multiset Identity := (batch.changes.map changeIdentity : List Identity)

/-- How far the watch task is; `looping` is before the test for subscribers. -/
inductive WatchPhase where
  | off
  | looping
  | waiting
  | reading
  | checking
  | idle
  deriving DecidableEq, Repr

inductive Holder where
  | watch
  | batch (id : Nat)
  deriving DecidableEq, Repr

/-- What happens on a channel: `replaced` has the changes between a baseline and the snapshot that
takes its place. -/
inductive Entry where
  | replaced (changes : List Change)
  | broadcast (fingerprint : String) (source : Source) (changes : List Change)
  | deleted
  deriving DecidableEq, Repr

structure Channel (β : Type) where
  registered : Bool
  scanNow : Bool
  rebuildLock : Option Holder
  inflightBatchIdentities : Multiset Identity
  pendingSources : Finset Source
  watch : WatchPhase
  snapshot : Option (Snapshot β)
  fingerprint : String
  batches : Dict Nat Batch
  log : List Entry

/-- A channel is registered when it is created. -/
def Channel.start {β : Type} : Channel β := ⟨true, false, none, 0, ∅, .off, none, "", .empty, []⟩

inductive Step (β : Type) where
  | applyHint (source : Source)
  | applyEmittedBatch (id : Nat) (source : Source) (changes : List Change)
  | batchReads (id : Nat)
  | batchSettles (id : Nat) (snapshot : Snapshot β)
  | batchReadFails (id : Nat)
  | batchReadMissing (id : Nat)
  | batchChecked (id : Nat) (gone : Bool)
  | startWatch
  | stopWatch
  | watchLoops (hasSubscribers : Bool)
  | watchReads
  | scanSettles (snapshot : Snapshot β)
  | scanFails
  | scanMissing
  | scanChecked (gone : Bool)
  | watchWakes

section Steps

variable {β : Type} [DecidableEq β] (fingerprintOf : Snapshot β → String)

def resolveBatchSource (pendingSources : Finset Source) : Source :=
  if .worker ∈ pendingSources then .worker
  else if .webui ∈ pendingSources then .webui
  else .filesystem

def sweepUncoveredChanges (previous : Option (Snapshot β)) (snapshot : Snapshot β)
    (covered : Multiset Identity) : List Change :=
  match previous with
  | none => []
  | some previous => (diffSnapshots previous snapshot).filter fun change => changeIdentity change ∉ covered

namespace Channel

/-- A new baseline. Where there was none, nothing is replaced. -/
def replaceBaseline (s : Channel β) (snapshot : Snapshot β) : Channel β :=
  { s with
    snapshot := some snapshot
    fingerprint := fingerprintOf snapshot
    log := s.log ++ (s.snapshot.map fun previous => Entry.replaced (diffSnapshots previous snapshot)).toList }

def broadcastChanges (s : Channel β) (source : Source) (changes : List Change) : Channel β :=
  { s with log := s.log ++ [.broadcast s.fingerprint source changes] }

/-- The watch task is cancelled; a read it waits for is given up. -/
def cancelWatch (s : Channel β) : Channel β :=
  { s with
    watch := .off
    rebuildLock := if s.rebuildLock = some .watch then none else s.rebuildLock }

def handleProjectDeleted (s : Channel β) : Channel β :=
  if s.registered then
    { s.cancelWatch with registered := false, log := s.log ++ [.deleted] }
  else s

def setPhase (s : Channel β) (id : Nat) (batch : Batch) (phase : BatchPhase) : Channel β :=
  { s with batches := s.batches.set id { batch with phase } }

/-- The task of a batch ends: it gives the lock back and its identities are no longer in flight. -/
def endBatch (s : Channel β) (id : Nat) (batch : Batch) : Channel β :=
  { s with
    rebuildLock := none
    inflightBatchIdentities := s.inflightBatchIdentities - batch.identities
    batches := s.batches.erase id }

def applyEmittedBatch (s : Channel β) (id : Nat) (source : Source) (changes : List Change) :
    Option (Channel β) :=
  if s.registered = false ∨ changes = [] then some s
  else if id ∈ s.batches.keys then none
  else
    let batch : Batch := ⟨source, changes, .waiting⟩
    some { s with
      scanNow := false
      inflightBatchIdentities := s.inflightBatchIdentities + batch.identities
      batches := s.batches.set id batch }

/-- The rest of a rebuild whose read succeeded. -/
def settleBatch (s : Channel β) (id : Nat) (batch : Batch) (coveredSources : Finset Source)
    (snapshot : Snapshot β) : Channel β :=
  let own := (s.replaceBaseline fingerprintOf snapshot).broadcastChanges batch.source batch.changes
  let swept := sweepUncoveredChanges s.snapshot snapshot s.inflightBatchIdentities
  let all := if swept = [] then own else own.broadcastChanges (resolveBatchSource coveredSources) swept
  all.endBatch id batch

def applyScanResult (s : Channel β) (snapshot : Snapshot β) : Channel β :=
  match s.snapshot with
  | none => { s.replaceBaseline fingerprintOf snapshot with pendingSources := ∅ }
  | some previous =>
    if fingerprintOf snapshot = s.fingerprint then { s with pendingSources := ∅ }
    else
      let source := resolveBatchSource s.pendingSources
      let changes := diffSnapshots previous snapshot
      let replaced := { s.replaceBaseline fingerprintOf snapshot with pendingSources := ∅ }
      if changes = [] then replaced else replaced.broadcastChanges source changes

end Channel

/-- One step of the channel; `none` if it cannot be taken. -/
def step (s : Channel β) : Step β → Option (Channel β)
  | .applyHint source =>
    if s.registered then
      some { s with pendingSources := insert source s.pendingSources, scanNow := true }
    else some s
  | .applyEmittedBatch id source changes => s.applyEmittedBatch id source changes
  | .batchReads id =>
    (s.batches.get? id).bind fun batch =>
      if batch.phase = .waiting ∧ s.rebuildLock = none then
        some { s.setPhase id batch (.reading s.pendingSources) with
          rebuildLock := some (.batch id), pendingSources := ∅ }
      else none
  | .batchSettles id snapshot =>
    (s.batches.get? id).bind fun batch =>
      match batch.phase with
      | .reading coveredSources =>
        some (s.settleBatch fingerprintOf id batch coveredSources snapshot)
      | _ => none
  | .batchReadFails id =>
    (s.batches.get? id).bind fun batch =>
      match batch.phase with
      | .reading coveredSources =>
        some { s.endBatch id batch with pendingSources := s.pendingSources ∪ coveredSources }
      | _ => none
  | .batchReadMissing id =>
    (s.batches.get? id).bind fun batch =>
      match batch.phase with
      | .reading coveredSources =>
        some { s.setPhase id batch .checking with
          pendingSources := s.pendingSources ∪ coveredSources }
      | _ => none
  | .batchChecked id gone =>
    (s.batches.get? id).bind fun batch =>
      if batch.phase = .checking then
        some ((if gone then s.handleProjectDeleted else s).endBatch id batch)
      else none
  | .startWatch =>
    if s.registered ∧ s.watch = .off then
      some { s with scanNow := false, pendingSources := ∅, watch := .looping }
    else none
  | .stopWatch =>
    if s.registered then some { s.cancelWatch with registered := false } else none
  | .watchLoops hasSubscribers =>
    if s.watch = .looping then
      some { s with watch := if hasSubscribers then .waiting else .off }
    else none
  | .watchReads =>
    if s.watch = .waiting ∧ s.rebuildLock = none then
      some { s with watch := .reading, rebuildLock := some .watch }
    else none
  | .scanSettles snapshot =>
    if s.watch = .reading then
      some { s.applyScanResult fingerprintOf snapshot with watch := .idle, rebuildLock := none }
    else none
  | .scanFails =>
    if s.watch = .reading then some { s with watch := .idle, rebuildLock := none } else none
  | .scanMissing =>
    if s.watch = .reading then some { s with watch := .checking, rebuildLock := none } else none
  | .scanChecked gone =>
    if s.watch = .checking then
      some (if gone then { s.handleProjectDeleted with watch := .off } else { s with watch := .idle })
    else none
  | .watchWakes =>
    if s.watch = .idle then some { s with watch := .looping, scanNow := false } else none

end Steps

end ArcReel.Events
