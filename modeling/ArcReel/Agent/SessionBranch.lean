import ArcReel.Agent.PrefixFork
import ArcReel.Lib.Successors

/-! Branches of sessions, their withdrawal and the deletion of session rows, one committed transaction
after the other. -/

namespace ArcReel.Agent
open Lib Transcript

/-- A row of `agent_sessions`. -/
structure SessionRow where
  projectName : String
  supersededBy : Option String
  forkParentSessionId : Option String
  forkAnchorUuid : Option String
  deriving DecidableEq

abbrev Sessions : Type := Dict String SessionRow

/-- `SessionRepository.create`. -/
def createSession (sessions : Sessions) (sessionId : String) (job : Job) : Sessions :=
  sessions.set job.newId ⟨job.projectName, none, some sessionId, some job.anchorUuid⟩

/-- `mark_superseded`; `none` is `False`. -/
def markSuperseded (sessions : Sessions) (sessionId newId : String) : Option Sessions :=
  match sessions.get? sessionId with
  | some row =>
    if row.supersededBy.isNone then some (sessions.set sessionId { row with supersededBy := some newId })
    else none
  | none => none

/-- `clear_superseded`. -/
def clearSuperseded (sessions : Sessions) (sessionId newId : String) : Sessions :=
  match sessions.get? sessionId with
  | some row =>
    if row.supersededBy = some newId then sessions.set sessionId { row with supersededBy := none }
    else sessions
  | none => sessions

/-- `SessionRepository.delete`: the rows that point to the deleted one get its own pointer. -/
def deleteSession (sessions : Sessions) (sessionId : String) : Sessions :=
  let successor := (sessions.get? sessionId).bind SessionRow.supersededBy
  (sessions.mapValues fun _ row =>
    if row.supersededBy = some sessionId then { row with supersededBy := successor } else row).erase sessionId

/-- `store.delete` without a subpath. -/
def dropEntries (rows : List Row) (projectKey sessionId : String) : List Row :=
  rows.filter fun row => !hits ⟨projectKey, sessionId, none⟩ row.key

/-- Where a `branch` call is: before which of its awaits. -/
inductive Phase where
  | lookup
  | resolve (projectName projectKey : String)
  | copy (job : Job) (stage : CopyStage)
  | mark (job : Job)
  | clear (job : Job)
  | dropEntries (job : Job)
  | dropRow (job : Job)
  | returned (job : Job)
  | raised (job : Option Job)

def Phase.job? : Phase → Option Job
  | lookup | resolve _ _ => none
  | copy job _ | mark job | clear job | dropEntries job | dropRow job | returned job => some job
  | raised job => job

structure Branch where
  sessionId : String
  phase : Phase

/-- Where a `discard` call is. -/
inductive DiscardPhase where
  | lookup
  | clear (projectKey : Option String)
  | dropEntries (projectKey : String)
  | dropRow
  | done
  deriving DecidableEq

structure Discard where
  originSessionId : String
  newSessionId : String
  phase : DiscardPhase
  deriving DecidableEq

structure Conversations where
  sessions : Sessions
  entries : List Row
  branches : Dict Nat Branch
  discards : Dict Nat Discard

inductive BranchStep where
  | branch (call : Nat) (sessionId : String)
  | anchored (call : Nat) (anchorUuid : Option String) (newId : String)
  | proceed (call : Nat) (nowMs : Nat) (nowIso : String)
  | fail (call : Nat) (committed : Bool) (nowMs : Nat) (nowIso : String)
  | discard (call : Nat) (originSessionId newSessionId : String)
  | withdraw (call : Nat)
  | withdrawFails (call : Nat)
  | delete (sessionId : String)

/-- An id that occurs nowhere, as `uuid4` gives one. -/
def Unused (s : Conversations) (newId : String) : Bool :=
  newId ∉ s.sessions.keys &&
    (s.sessions.values.all fun row => row.supersededBy ≠ some newId) &&
    (s.entries.all fun row => row.key.sessionId ≠ newId) &&
    s.branches.values.all fun branch => branch.sessionId ≠ newId &&
      branch.phase.job?.all fun job => job.newId ≠ newId

section Steps

-- The project key of the directory of a project, if the project is available.
variable (projectKeyOf : String → Option String)

/-- The sessions, the entries and the phase after the next await of a branch. -/
def Branch.proceed (branch : Branch) (sessions : Sessions) (entries : List Row) (nowMs : Nat)
    (nowIso : String) : Option (Sessions × List Row × Phase) :=
  match branch.phase with
  | .lookup =>
    match sessions.get? branch.sessionId with
    | some row =>
      match projectKeyOf row.projectName with
      | some projectKey => some (sessions, entries, .resolve row.projectName projectKey)
      | none => some (sessions, entries, .raised none)
    | none => some (sessions, entries, .raised none)
  | .copy job .done => some (createSession sessions branch.sessionId job, entries, .mark job)
  | .copy job stage =>
    match copyStep branch.sessionId job entries nowMs nowIso stage with
    | .go written next => some (sessions, written, .copy job next)
    | .invalidAnchor => some (sessions, entries, .raised (some job))
    | .failed => some (sessions, entries, .clear job)
  | .mark job =>
    match markSuperseded sessions branch.sessionId job.newId with
    | some marked => some (marked, entries, .returned job)
    | none => some (sessions, entries, .clear job)
  | .clear job => some (clearSuperseded sessions branch.sessionId job.newId, entries, .dropEntries job)
  | .dropEntries job =>
    some (sessions, Agent.dropEntries entries job.projectKey job.newId, .dropRow job)
  | .dropRow job => some (deleteSession sessions job.newId, entries, .raised (some job))
  | .resolve _ _ | .returned _ | .raised _ => none

/-- The next await raises, before its transaction is committed or after it. -/
def Branch.fail (branch : Branch) (sessions : Sessions) (entries : List Row) (committed : Bool)
    (nowMs : Nat) (nowIso : String) : Option (Sessions × List Row × Phase) :=
  match branch.phase with
  | .lookup | .resolve _ _ => some (sessions, entries, .raised none)
  | .copy job _ | .mark job =>
    if committed then
      (branch.proceed projectKeyOf sessions entries nowMs nowIso).map fun after =>
        (after.1, after.2.1, .clear job)
    else some (sessions, entries, .clear job)
  | .clear _ | .dropEntries _ | .dropRow _ | .returned _ | .raised _ => none

/-- The next await of a `discard` call. -/
def Discard.proceed (discard : Discard) (sessions : Sessions) (entries : List Row) :
    Option (Sessions × List Row × DiscardPhase) :=
  match discard.phase with
  | .lookup =>
    some (sessions, entries, .clear ((sessions.get? discard.newSessionId).bind fun row =>
      projectKeyOf row.projectName))
  | .clear projectKey =>
    some (clearSuperseded sessions discard.originSessionId discard.newSessionId, entries,
      match projectKey with
      | some projectKey => .dropEntries projectKey
      | none => .dropRow)
  | .dropEntries projectKey =>
    some (sessions, Agent.dropEntries entries projectKey discard.newSessionId, .dropRow)
  | .dropRow => some (deleteSession sessions discard.newSessionId, entries, .done)
  | .done => none

/-- The origin is not superseded while the row of the branch is gone: the pointer that is about
to be set would name nothing. -/
def Branch.pointsAtLiving (branch : Branch) (sessions : Sessions) : Bool :=
  match branch.phase with
  | .mark job =>
    (sessions.get? branch.sessionId).all (fun row => row.supersededBy.isSome) ||
      (sessions.get? job.newId).isSome
  | _ => true

def Conversations.moveBranch (s : Conversations) (call : Nat) (branch : Branch)
    (after : Sessions × List Row × Phase) : Conversations :=
  ⟨after.1, after.2.1, s.branches.set call { branch with phase := after.2.2 }, s.discards⟩

def Conversations.moveDiscard (s : Conversations) (call : Nat) (discard : Discard)
    (after : Sessions × List Row × DiscardPhase) : Conversations :=
  ⟨after.1, after.2.1, s.branches, s.discards.set call { discard with phase := after.2.2 }⟩

def branchStep (s : Conversations) : BranchStep → Option Conversations
  | .branch call sessionId =>
    if (s.branches.get? call).isSome then none
    else some { s with branches := s.branches.set call ⟨sessionId, .lookup⟩ }
  | .anchored call anchorUuid newId =>
    (s.branches.get? call).bind fun branch =>
      match branch.phase with
      | .resolve projectName projectKey =>
        match anchorUuid with
        | none => some (s.moveBranch call branch (s.sessions, s.entries, .raised none))
        | some anchorUuid =>
          if Unused s newId then
            some (s.moveBranch call branch
              (s.sessions, s.entries, .copy ⟨newId, projectName, projectKey, anchorUuid⟩ .load))
          else none
      | _ => none
  | .proceed call nowMs nowIso =>
    (s.branches.get? call).bind fun branch =>
      (branch.proceed projectKeyOf s.sessions s.entries nowMs nowIso).map (s.moveBranch call branch)
  | .fail call committed nowMs nowIso =>
    (s.branches.get? call).bind fun branch =>
      (branch.fail projectKeyOf s.sessions s.entries committed nowMs nowIso).map (s.moveBranch call branch)
  | .discard call originSessionId newSessionId =>
    if (s.discards.get? call).isSome then none
    else some { s with discards := s.discards.set call ⟨originSessionId, newSessionId, .lookup⟩ }
  | .withdraw call =>
    (s.discards.get? call).bind fun discard =>
      (discard.proceed projectKeyOf s.sessions s.entries).map (s.moveDiscard call discard)
  | .withdrawFails call =>
    (s.discards.get? call).bind fun discard =>
      if discard.phase = .lookup then some (s.moveDiscard call discard (s.sessions, s.entries, .done))
      else none
  | .delete sessionId => some { s with sessions := deleteSession s.sessions sessionId }

/-- Where the step sets the pointer of a branch, it names a row. -/
def pointsAtLiving (s : Conversations) : BranchStep → Bool
  | .proceed call _ _ | .fail call true _ _ =>
    (s.branches.get? call).all fun branch => branch.pointsAtLiving s.sessions
  | _ => true

end Steps

section Chains

/-- The pointers of the rows. -/
def successors (sessions : Sessions) : Successors String :=
  fun sessionId => (sessions.get? sessionId).map SessionRow.supersededBy

theorem successors_eq_some {sessions : Sessions} {sessionId : String} {successor : Option String} :
    successors sessions sessionId = some successor ↔
      ∃ row, sessions.get? sessionId = some row ∧ row.supersededBy = successor := by
  rw [successors, Option.map_eq_some_iff]

theorem successors_eq_none {sessions : Sessions} {sessionId : String} :
    successors sessions sessionId = none ↔ sessions.get? sessionId = none := by
  rw [successors, Option.map_eq_none_iff]

theorem successors_create (sessions : Sessions) (sessionId : String) (job : Job) :
    successors (createSession sessions sessionId job) =
      Function.update (successors sessions) job.newId (some none) := by
  funext other
  rw [successors, createSession, Dict.get?_set, Function.update_apply]
  by_cases same : other = job.newId <;> simp [same, successors]

theorem successors_mark {sessions marked : Sessions} {sessionId newId : String}
    (found : markSuperseded sessions sessionId newId = some marked) :
    successors sessions sessionId = some none ∧
      successors marked = Function.update (successors sessions) sessionId (some (some newId)) := by
  unfold markSuperseded at found
  split at found
  · next row there =>
    split_ifs at found with open_
    rw [Option.some.injEq] at found
    refine ⟨successors_eq_some.mpr ⟨row, there, Option.isNone_iff_eq_none.mp open_⟩, ?_⟩
    funext other
    rw [← found, successors, Dict.get?_set, Function.update_apply]
    by_cases same : other = sessionId <;> simp [same, successors]
  · cases found

theorem all_superseded_of_mark {sessions : Sessions} {sessionId newId : String}
    (refused : markSuperseded sessions sessionId newId = none) :
    ((sessions.get? sessionId).all fun row => row.supersededBy.isSome) = true := by
  unfold markSuperseded at refused
  split at refused
  · next row there =>
    split_ifs at refused with single
    rw [there, Option.all_some, ← Option.not_isNone, Bool.not_eq_true'] 
    exact Bool.eq_false_iff.mpr single
  · next missing =>
    rw [missing]
    rfl

theorem successors_clear (sessions : Sessions) (sessionId newId : String) :
    successors (clearSuperseded sessions sessionId newId) = fun other =>
      if other = sessionId ∧ successors sessions sessionId = some (some newId) then some none
      else successors sessions other := by
  funext other
  unfold clearSuperseded
  cases there : sessions.get? sessionId with
  | none => simp [successors, there]
  | some row =>
    dsimp only
    by_cases points : row.supersededBy = some newId
    · rw [if_pos points, successors, Dict.get?_set]
      by_cases same : other = sessionId <;> simp [same, successors, there, points]
    · rw [if_neg points]
      simp [successors, there, points]

theorem successors_delete (sessions : Sessions) (sessionId : String) :
    successors (deleteSession sessions sessionId) = (successors sessions).remove sessionId := by
  funext other
  rw [successors, deleteSession, Dict.get?_erase, Successors.remove]
  by_cases same : other = sessionId
  · simp [same]
  · have joined : (successors sessions sessionId).join =
        (sessions.get? sessionId).bind SessionRow.supersededBy := by
      rw [successors]
      cases sessions.get? sessionId <;> rfl
    rw [if_neg same, if_neg same, Dict.get?_mapValues, joined]
    cases there : sessions.get? other with
    | none => simp [successors, there]
    | some row =>
      by_cases points : row.supersededBy = some sessionId
      · simp [successors, there, points]
      · simp [successors, there, points]

end Chains

end ArcReel.Agent
