import ArcReel.Lib.Run
import ArcReel.Review.DurationMigration
import ArcReel.Review.FormalWrite

/-! `lib.script_review`: the content of step1 and its confirmation, one write after the other. -/

namespace ArcReel.Review
open Lib

inductive Step1Kind where
  | drama
  | narration
  | referenceVideo
  deriving DecidableEq

inductive ReviewStatus where
  | notApplicable
  | noStep1
  | pendingReview
  | confirmed
  deriving DecidableEq

def step1Kind (project : Json) : Option Step1Kind :=
  let kind := match project.get "content_mode" with
    | .str "drama" => some Step1Kind.drama
    | .str "narration" => some .narration
    | _ => none
  if (project.get "generation_mode").str? = some "reference_video" then kind.map fun _ => .referenceVideo
  else kind

def referenceStep1Name : String := "step1_reference_units.json"

def step1QuarantineName : String := "step1_reference_units.invalid.json"

def step2QuarantineName : String := "step2_reference_script.invalid.json"

def Step1Kind.filename : Step1Kind → String
  | drama => "step1_normalized_script.json"
  | narration => "step1_segments.json"
  | referenceVideo => referenceStep1Name

/-- How the content of a file is read, written and compared. -/
structure Storage (β : Type) where
  loads : β → Option Json
  dumps : Json → β
  fingerprintOfData : Json → String
  fingerprintOfBytes : β → String
  equal : Json → Json → Bool
  str : Json → String

/-- The project and the files of one episode; `scripts` are the script files that exist. -/
structure Gate (β : Type) where
  project : Json
  drafts : Files String β
  scripts : String → Bool

section Project

variable (episode : Int)

/-- `ep.get("episode") == episode`. -/
def isEpisode (entry : Json) : Bool := entry.isObj && (entry.get "episode").sameKey (.int episode)

def episodesOf (project : Json) : List Json :=
  match project.get "episodes" with
  | .arr entries => entries
  | _ => []

def findEpisode (project : Json) : Option Json := (episodesOf project).find? (isEpisode episode)

/-- The entry that `find_episode` finds is changed in place. -/
def updateFound (change : Json → Json) : List Json → List Json
  | [] => []
  | entry :: entries =>
    if isEpisode episode entry then change entry :: entries else entry :: updateFound change entries

def storedReview (project : Json) : Json :=
  match (findEpisode episode project).map fun entry : Json => entry.get "step1_review" with
  | some (.obj fields) => .obj fields
  | _ => .obj []

/-- `stored_review(..).get("fingerprint")`. -/
def storedFingerprint (project : Json) : Json := (storedReview episode project).get "fingerprint"

/-- `none` is `False`. -/
def applyConfirmation (project : Json) (fingerprint confirmedAt : String) : Option Json :=
  if (findEpisode episode project).isSome then
    let review := .obj [("fingerprint", .str fingerprint), ("confirmed_at", .str confirmedAt)]
    some (project.put "episodes" (.arr (updateFound episode (fun entry => entry.put "step1_review" review)
      (episodesOf project))))
  else none

end Project

section Gate

variable {β : Type} (storage : Storage β) (episode : Int)

/-- `content_fingerprint`; `none` is a missing file. -/
def contentFingerprint (file : Option β) : Option String :=
  file.map fun raw =>
    match storage.loads raw with
    | some data => storage.fingerprintOfData data
    | none => storage.fingerprintOfBytes raw

def step2Generated (s : Gate β) : Bool :=
  let scriptFile := ((findEpisode episode s.project).getD (.obj [])).get "script_file"
  if scriptFile.truthy then scriptFile.str?.any s.scripts
  else s.scripts ("scripts/episode_" ++ toString episode ++ ".json")

/-- The fingerprint of the step1 of the kind of the project. -/
def liveFingerprint (s : Gate β) : Option String :=
  (step1Kind s.project).bind fun kind => contentFingerprint storage (s.drafts kind.filename)

def reviewStatus (s : Gate β) : ReviewStatus :=
  match step1Kind s.project with
  | none => .notApplicable
  | some kind =>
    if kind = .referenceVideo ∧ (s.drafts step1QuarantineName).isSome then .pendingReview
    else
      match contentFingerprint storage (s.drafts kind.filename) with
      | none => .noStep1
      | some live =>
        if (storedFingerprint episode s.project).isNull then
          if step2Generated episode s then .confirmed else .pendingReview
        else if (storedFingerprint episode s.project).str? = some live then .confirmed
        else .pendingReview

/-- Where the body of a write raises: before the file is replaced, after that, or at the end. -/
inductive WriteFault where
  | beforeReplace
  | afterReplace
  | afterClear
  deriving DecidableEq

inductive WriteOutcome where
  | returned (changed : Bool)
  | conflict
  | raised
  | rollbackIncomplete
  deriving DecidableEq

/-- The files after the part of the body that runs. -/
def writeBody (drafts : Files String β) (content : Json) (clears : Bool) :
    Option WriteFault → Files String β
  | some .beforeReplace => drafts
  | some .afterReplace => Function.update drafts referenceStep1Name (some (storage.dumps content))
  | some .afterClear | none =>
    let written := Function.update drafts referenceStep1Name (some (storage.dumps content))
    if clears then Function.update written step2QuarantineName none else written

/-- `write_step1_locked`; an expected fingerprint that is not checked is `none`. -/
def writeStep1Locked (drafts : Files String β) (content : Json) (expected : Option (Option String))
    (clearStep2Quarantine : Bool) (fault : Option WriteFault) (restores : String → Bool) :
    WriteOutcome × Files String β :=
  if expected.any fun fingerprint => fingerprint ≠ contentFingerprint storage (drafts referenceStep1Name)
  then (.conflict, drafts)
  else
    let previous := ((drafts referenceStep1Name).bind storage.loads).getD .null
    let changed := !storage.equal previous content
    match formalWriteTransaction [referenceStep1Name, step2QuarantineName] drafts
        (writeBody storage drafts content (changed && clearStep2Quarantine) fault) fault.isSome restores with
    | .returned files => (.returned changed, files)
    | .raised files => (.raised, files)
    | .rollbackIncomplete files => (.rollbackIncomplete, files)

/-- `str(stored.get("confirmed_at") or "")`. -/
def storedConfirmedAt (project : Json) : String :=
  let confirmedAt := (storedReview episode project).get "confirmed_at"
  if confirmedAt.truthy then confirmedAt.str?.getD (storage.str confirmedAt) else ""

/-- `carry_confirmation_through_migration`. -/
def carryConfirmation (project : Json) (before after : String) : Json :=
  if (storedFingerprint episode project).str? = some before then
    (applyConfirmation episode project after (storedConfirmedAt storage episode project)).getD project
  else project

/-- An episode without a fingerprint gets the one of the content before the migration. -/
def invalidateGrandfathered (project : Json) (before : String) : Json :=
  if (storedFingerprint episode project).truthy then project
  else (applyConfirmation episode project before (storedConfirmedAt storage episode project)).getD project

/-- The content of the draft that a migration reads. -/
def draftContent (s : Gate β) : Option Json :=
  ((s.drafts referenceStep1Name).bind storage.loads).filter Json.isObj

/-- `migrate_step1_draft_in_place` up to the update of the project. -/
def migrateProject (project content : Json) (migrated : Migrated) : Json :=
  let before := storage.fingerprintOfData content
  if migrated.warnings.isEmpty then
    carryConfirmation storage episode project before (storage.fingerprintOfData migrated.content)
  else invalidateGrandfathered storage episode project before

/-- What happens to a migration after the update of the project. -/
inductive MigrationEnd where
  | crash
  | write (fault : Option WriteFault) (restores : String → Bool)

def migrateStep1Draft (s : Gate β) (supportedDurations : List Int) (finish : MigrationEnd) : Gate β :=
  match draftContent storage s with
  | none => s
  | some content =>
    let migrated := migrateUnitDurations content supportedDurations
    if !migrated.changed then s
    else
      let project := migrateProject storage episode s.project content migrated
      match finish with
      | .crash => { s with project := project }
      | .write fault restores =>
        { s with
          project := project
          drafts := (writeStep1Locked storage s.drafts migrated.content none false fault restores).2 }

inductive GateStep where
  | write (content : Json) (expected : Option (Option String)) (clearStep2Quarantine : Bool)
      (fault : Option WriteFault) (restores : String → Bool)
  | migrate (supportedDurations : List Int) (finish : MigrationEnd)
  | confirm (confirmedAt : String)

/-- A confirmation needs a content, and raises without an entry of the episode. -/
def gateStep (s : Gate β) : GateStep → Option (Gate β)
  | .write content expected clearStep2Quarantine fault restores =>
    some { s with
      drafts := (writeStep1Locked storage s.drafts content expected clearStep2Quarantine fault restores).2 }
  | .migrate supportedDurations finish => some (migrateStep1Draft storage episode s supportedDurations finish)
  | .confirm confirmedAt =>
    (liveFingerprint storage s).map fun fingerprint =>
      { s with project := (applyConfirmation episode s.project fingerprint confirmedAt).getD s.project }

end Gate

end ArcReel.Review
