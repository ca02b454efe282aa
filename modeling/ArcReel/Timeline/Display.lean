import ArcReel.Timeline.Projector

/-! The display half of `createTimelineProjector`: turns are shown through caches that
are keyed by versions, and `project` decides whether the entries continue those of the
last call. -/

namespace ArcReel.Timeline
open ArcReel.Lib

mutual

/-- `Turn`. -/
inductive TurnView where
  | mk (type : TurnType) (content : List BlockView) (uuid timestamp : Option String)

/-- A block of a turn, with the sub-timeline and the task that are mounted on it. -/
inductive BlockView where
  | mk (block : Block) (subTurns : Option (List TurnView)) (taskInfo : Option Block)

end

namespace BlockView

def block : BlockView → Block
  | mk block _ _ => block

def subTurns : BlockView → Option (List TurnView)
  | mk _ subTurns _ => subTurns

def withBlock (view : BlockView) (block : Block) : BlockView :=
  match view with
  | mk _ subTurns taskInfo => mk block subTurns taskInfo

def withTask (task : Block) : BlockView → BlockView
  | mk block subTurns _ => mk block subTurns (some task)

end BlockView

section Tasks

/-- The id of a tool_use block. -/
def toolUse? (block : Block) : Option String :=
  if block.type = "tool_use" then truthy block.id else none

def completedAgentIds (views : List BlockView) : List String :=
  (views.filter fun view => view.block.name = some "Agent" ∧ view.block.result.isSome).filterMap
    fun view => toolUse? view.block

/-- A started task whose Agent call has a result counts as completed. -/
def inferCompleted (views : List BlockView) : List BlockView :=
  views.map fun view =>
    if view.block.type = "task_progress" ∧ view.block.status = some "task_started" ∧
        (truthy view.block.toolUseId).any (· ∈ completedAgentIds views) then
      view.withBlock { view.block with status := some "task_notification", taskStatus := some "completed" }
    else view

/-- The last tool_use block with an id. -/
def anchorIndex (views : List BlockView) (id : String) : Option Nat :=
  (List.range views.length).reverse.find? fun index =>
    (views[index]?).any fun view => toolUse? view.block = some id

/-- The block into which a task is folded. -/
def taskAnchor (views : List BlockView) (view : BlockView) : Option Nat :=
  if view.block.type = "task_progress" then (truthy view.block.toolUseId).bind (anchorIndex views)
  else none

def foldTasks (views : List BlockView) : List BlockView :=
  let noted := views.foldl (fun noted view => match taskAnchor views view with
    | some index => noted.modify index (BlockView.withTask view.block)
    | none => noted) views
  noted.filter fun view => (taskAnchor views view).isNone

def viewOf (turn : InternalTurn) (views : List BlockView) : TurnView :=
  .mk turn.type (foldTasks (inferCompleted views)) turn.uuid turn.timestamp

end Tasks

/-- `displayVersion` and `display` of the folds, `turnViewCache`, and `composed`. -/
structure Cache where
  displays : Key → Option (Nat × List TurnView)
  views : Key → Nat → Option (Nat × TurnView)
  composed : List TurnView

namespace Cache

def empty : Cache := ⟨fun _ => none, fun _ _ => none, []⟩

def setDisplay (cache : Cache) (key : Key) (version : Nat) (display : List TurnView) : Cache :=
  { cache with displays := Function.update cache.displays key (some (version, display)) }

def setView (cache : Cache) (key : Key) (turn version : Nat) (view : TurnView) : Cache :=
  { cache with
    views := Function.update cache.views key
      (Function.update (cache.views key) turn (some (version, view))) }

end Cache

/-- A cached value of the version. -/
def hit {α : Type} (cached : Option (Nat × α)) (version : Nat) : Option α :=
  (cached.filter fun entry => entry.1 = version).map Prod.snd

section Display

variable (core : Core)

/-- The group whose sub-timeline is mounted on a block. -/
def mounted (site : ToolUseSite) (block : Block) : Option String :=
  (toolUse? block).filter fun id => core.anchor (.group id) = some site

section Turn

variable (child : Cache → String → Option (Cache × List TurnView)) (key : Key)

def subTurnsOf (site : ToolUseSite) (block : Block) (cache : Cache) :
    Option (Cache × Option (List TurnView)) :=
  match mounted core site block with
  | some id => (child cache id).map fun (cache, display) => (cache, some display)
  | none => some (cache, none)

/-- The views of the blocks from an index on. -/
def blockViews (turn : Nat) : Nat → List Block → Cache → Option (Cache × List BlockView)
  | _, [], cache => some (cache, [])
  | index, block :: later, cache =>
      (subTurnsOf core child ⟨key, turn, index⟩ block cache).bind fun (cache, subTurns) =>
        (blockViews turn (index + 1) later cache).map fun (cache, views) =>
          (cache, .mk block subTurns none :: views)

/-- `turnView` and `buildTurnView`. -/
def turnView (index : Nat) (turn : InternalTurn) (cache : Cache) : Option (Cache × TurnView) :=
  match hit (cache.views key index) turn.version with
  | some view => some (cache, view)
  | none => (blockViews core child key index 0 turn.content cache).map fun (cache, views) =>
      (cache.setView key index turn.version (viewOf turn views), viewOf turn views)

def turnViews : Nat → List InternalTurn → Cache → Option (Cache × List TurnView)
  | _, [], cache => some (cache, [])
  | index, turn :: later, cache =>
      (turnView core child key index turn cache).bind fun (cache, view) =>
        (turnViews (index + 1) later cache).map fun (cache, views) => (cache, view :: views)

end Turn

/-- `foldDisplay`; the recursion ends unless anchors form a cycle. -/
def foldDisplay : Nat → Cache → Key → Option (Cache × List TurnView)
  | 0, _, _ => none
  | fuel + 1, cache, key =>
      match hit (cache.displays key) (core.fold key).version with
      | some display => some (cache, display)
      | none => (turnViews core (fun cache id => foldDisplay fuel cache (.group id)) key 0
          (core.fold key).turns cache).map fun (cache, display) =>
            (cache.setDisplay key (core.fold key).version display, display)

/-- The synthetic card of a group without an anchor. -/
def card (id : String) (display : List TurnView) : TurnView :=
  .mk .system [.mk { type := "tool_use", id := some id, name := some "Agent", rest := [("input", .obj [])] }
    (some display) none] (some ("subagent-" ++ id)) none

def cards (fuel : Nat) : List String → Cache → Option (Cache × List TurnView)
  | [], cache => some (cache, [])
  | id :: later, cache =>
      (foldDisplay core fuel cache (.group id)).bind fun (cache, display) =>
        (cards fuel later cache).map fun (cache, views) => (cache, card id display :: views)

/-- `compose` with `composedDirty`; a chain of folds is never longer than their number. -/
def compose (composedDirty : Bool) (cache : Cache) : Option (Cache × List TurnView) :=
  if composedDirty then
    (foldDisplay core (core.groups.size + 1) cache .main).bind fun (cache, out) =>
      (cards core (core.groups.size + 1) core.pendingGroups cache).map fun (cache, views) =>
        ({ cache with composed := out ++ views }, out ++ views)
  else some (cache, cache.composed)

end Display

/-- A projector; entries are references to objects. -/
structure Projector (ρ : Type) where
  source : List ρ
  count : Nat
  core : Core
  composedDirty : Bool
  cache : Cache

namespace Projector

variable {ρ : Type}

/-- `createTimelineProjector`. -/
def create : Projector ρ := ⟨[], 0, .start, true, .empty⟩

def reset (projector : Projector ρ) : Projector ρ := { (create : Projector ρ) with source := projector.source }

variable [DecidableEq ρ] (entryOf : ρ → Entry)

def extendsPrefix (projector : Projector ρ) (entries : List ρ) : Bool :=
  projector.count ≤ entries.length && (projector.count = 0 ||
    (entries[0]? = projector.source[0]? &&
      entries[projector.count - 1]? = projector.source[projector.count - 1]?))

def append (projector : Projector ρ) (entry : ρ) : Projector ρ :=
  let (core, dirty) := projector.core.appendOne (entryOf entry)
  { projector with core := core, composedDirty := projector.composedDirty || dirty }

def project (projector : Projector ρ) (entries : List ρ) : Option (Projector ρ × List TurnView) :=
  let kept := if projector.extendsPrefix entries then projector else projector.reset
  let folded := (entries.drop kept.count).foldl (append entryOf) kept
  (compose folded.core folded.composedDirty folded.cache).map fun (cache, turns) =>
    (⟨entries, entries.length, folded.core, false, cache⟩, turns)

/-- The results of successive calls. -/
def projectAll (projector : Projector ρ) : List (List ρ) → Option (List (List TurnView))
  | [] => some []
  | entries :: later =>
      (projector.project entryOf entries).bind fun (projector, turns) =>
        (projector.projectAll later).map (turns :: ·)

end Projector

/-- `projectEntriesToTurns`. -/
def projectEntriesToTurns {ρ : Type} [DecidableEq ρ] (entryOf : ρ → Entry) (entries : List ρ) :
    Option (List TurnView) :=
  (Projector.create.project entryOf entries).map Prod.snd

end ArcReel.Timeline
