import ArcReel.Lib.Dict
import ArcReel.Lib.Run
import Mathlib.Data.List.DropRight

/-! `stores/tasks-store.ts`: the marks of resources that a request in flight is about to occupy, and
the selector that reads them. -/

namespace ArcReel.Tasks
open Lib

/-- Membership in lists of texts is decided with one proof here. -/
local instance lawfulText : LawfulBEq (List Char) := inferInstance

abbrev Text := List Char

def nul : Char := Char.ofNat 0

/-- `TASK_ID_SEP`. -/
def taskIdSep : Char := Char.ofNat 1

inductive ResourceKind where
  | character
  | scene
  | prop
  | product
  | storyboard
  | video
  | tts
  | referenceVideo
  | grid
  deriving DecidableEq

def ResourceKind.text : ResourceKind → Text
  | character => "character".toList
  | scene => "scene".toList
  | prop => "prop".toList
  | product => "product".toList
  | storyboard => "storyboard".toList
  | video => "video".toList
  | tts => "tts".toList
  | referenceVideo => "reference_video".toList
  | grid => "grid".toList

inductive TaskStatus where
  | queued
  | running
  | cancelling
  | succeeded
  | failed
  | cancelled
  deriving DecidableEq

structure TaskItem where
  taskId : Text
  projectName : Text
  taskType : Text
  resourceType : Option Text
  resourceId : Text
  status : TaskStatus
  updatedAt : String

def isOccupyingStatus : TaskStatus → Bool
  | .queued | .running | .cancelling => true
  | .succeeded | .failed | .cancelled => false

def taskResourceKind (task : TaskItem) : Text :=
  if task.taskType = "image_edit".toList then task.resourceType.getD []
  else if task.taskType = "voice_sample".toList then "character".toList
  else task.taskType

/-! Sets of strings keep the order of their first insertion. -/

def setAdd (marks : List Text) (key : Text) : List Text :=
  if key ∈ marks then marks else marks ++ [key]

def setDelete (marks : List Text) (key : Text) : List Text := marks.filter (· ≠ key)

def encodeTaskIds (taskIds : List Text) : Text := [taskIdSep].intercalate taskIds

def markTaskIds (key : Text) : List Text :=
  let encoded := (key.splitOn nul).getLastD []
  if encoded = [] then [] else encoded.splitOn taskIdSep

def optimisticKey (projectName : Text) (resourceKind : ResourceKind)
    (resourceId pendingTaskType : Text) (seq : Nat) (taskIds : List Text) : Text :=
  projectName ++ nul :: (resourceKind.text ++ nul :: (resourceId ++ nul :: (pendingTaskType ++
    nul :: (Nat.toDigits 10 seq ++ nul :: encodeTaskIds taskIds))))

def stripScriptsPrefix (path : Text) : Text :=
  if "scripts/".toList <+: path then path.drop 8 else path

def optimisticScriptFileKey (projectName taskType scriptFile : Text) (seq : Nat) (taskIds : List Text) :
    Text :=
  projectName ++ nul :: (taskType ++ nul :: (stripScriptsPrefix scriptFile ++
    nul :: (Nat.toDigits 10 seq ++ nul :: encodeTaskIds taskIds)))

/-- Up to the last separator of fields, and then other ids. -/
def withTaskIds (key : Text) (taskIds : List Text) : Text :=
  key.rdropWhile (· ≠ nul) ++ encodeTaskIds taskIds

def landedTaskIds (tasks : List TaskItem) : List Text := tasks.map TaskItem.taskId

def keepMark (key : Text) (landed : List Text) : Option Text :=
  let taskIds := markTaskIds key
  if taskIds.length = 0 then some key
  else
    let remaining := taskIds.filter fun id => !landed.contains id
    if remaining.length = 0 then none
    else if remaining.length = taskIds.length then some key
    else some (withTaskIds key remaining)

def pruneSupersededOptimistic (tasks : List TaskItem) (marks : List Text) : List Text :=
  let landed := landedTaskIds tasks
  marks.foldl (fun next key =>
    match keepMark key landed with
    | none => next
    | some kept => setAdd next kept) []

/-- The arguments of `beginOptimisticActive` and of `beginOptimisticActiveForScriptFile`. -/
inductive Marking where
  | resource (projectName : Text) (resourceKind : ResourceKind) (resourceId pendingTaskType : Text)
  | scriptFile (projectName taskType scriptFile : Text)

/-- The set in which a mark is kept. -/
inductive Field where
  | optimisticActive
  | optimisticActiveScriptFile
  deriving DecidableEq

namespace Marking

def field : Marking → Field
  | resource .. => .optimisticActive
  | scriptFile .. => .optimisticActiveScriptFile

def keyOf (seq : Nat) (taskIds : List Text) : Marking → Text
  | resource projectName resourceKind resourceId pendingTaskType =>
      optimisticKey projectName resourceKind resourceId pendingTaskType seq taskIds
  | scriptFile projectName taskType file =>
      optimisticScriptFileKey projectName taskType file seq taskIds

end Marking

/-- The store, with the markings of the handles that it has given out: the handle at position `n` has
the number `n + 1`. -/
structure Store where
  tasks : List TaskItem
  marks : Field → List Text
  handles : List Marking

namespace Store

def start : Store := ⟨[], fun _ => [], []⟩

def setMarks (s : Store) (field : Field) (marks : List Text) : Store :=
  { s with marks := Function.update s.marks field marks }

/-- `beginMark`. -/
def begin (s : Store) (marking : Marking) : Store :=
  let pendingKey := marking.keyOf (s.handles.length + 1) []
  let next := pruneSupersededOptimistic s.tasks (s.marks marking.field)
  { s.setMarks marking.field (setAdd next pendingKey) with handles := s.handles ++ [marking] }

/-- `drop` of a handle. -/
def drop (s : Store) (field : Field) (pendingKey : Text) (replacement : Option Text) : Store :=
  if pendingKey ∈ s.marks field then
    let next := setDelete (s.marks field) pendingKey
    s.setMarks field (match replacement.bind fun key => keepMark key (landedTaskIds s.tasks) with
      | none => next
      | some kept => setAdd next kept)
  else s

def setTasks (s : Store) (tasks : List TaskItem) : Store :=
  { s with tasks, marks := fun field => pruneSupersededOptimistic tasks (s.marks field) }

end Store

inductive Op where
  | begin (marking : Marking)
  | settle (handle : Nat) (taskIds : List Text)
  | rollback (handle : Nat)
  | setTasks (tasks : List TaskItem)

/-- Only a handle that has been given out can be called. -/
def step (s : Store) : Op → Option Store
  | .begin marking => some (s.begin marking)
  | .settle handle taskIds => (s.handles[handle]?).map fun marking =>
      s.drop marking.field (marking.keyOf (handle + 1) [])
        (if 0 < taskIds.length then some (marking.keyOf (handle + 1) taskIds) else none)
  | .rollback handle => (s.handles[handle]?).map fun marking =>
      s.drop marking.field (marking.keyOf (handle + 1) []) none
  | .setTasks tasks => some (s.setTasks tasks)

/-- The latest task of every resource and task type. -/
def latestTasks (tasks : List TaskItem) (taskType : ResourceKind) (projectName : Text) : Dict Text TaskItem :=
  tasks.foldl (fun latest task =>
    if task.projectName ≠ projectName then latest
    else if taskResourceKind task ≠ taskType.text then latest
    else
      let key := task.resourceId ++ nul :: task.taskType
      match latest.get? key with
      | none => latest.set key task
      | some prev => if prev.updatedAt < task.updatedAt then latest.set key task else latest) .empty

/-- The resources that the tasks themselves occupy. -/
def occupiedByTasks (tasks : List TaskItem) (taskType : ResourceKind) (projectName : Text) : List Text :=
  (latestTasks tasks taskType projectName).values.foldl (fun ids task =>
    if isOccupyingStatus task.status then setAdd ids task.resourceId else ids) []

def selectActiveResourceIds (tasks : List TaskItem) (taskType : ResourceKind) (projectName : Text)
    (optimisticActive : List Text) : List Text :=
  let landed := landedTaskIds tasks
  optimisticActive.foldl (fun ids key =>
    match key.splitOn nul with
    | kProject :: kResourceKind :: kResourceId :: _ =>
        if kProject ≠ projectName ∨ kResourceKind ≠ taskType.text then ids
        else if (keepMark key landed).isSome then setAdd ids kResourceId else ids
    | _ => ids) (occupiedByTasks tasks taskType projectName)

end ArcReel.Tasks
