import ArcReel.Lib.Dict
import ArcReel.Lib.Forest
import ArcReel.Lib.Json

/-! The accumulating half of `createTimelineProjector` in `utils/entry-projection.ts`:
entries are folded into the main timeline and into one timeline per subagent group. -/

namespace ArcReel.Timeline
open ArcReel.Lib

/-- A content block; an `undefined` field counts as missing. `rest` has the fields that the
projection only copies. -/
structure Block where
  type : String
  id : Option String := none
  name : Option String := none
  text : Option String := none
  toolUseId : Option String := none
  result : Option String := none
  isError : Option Bool := none
  answers : Option Json := none
  taskId : Option String := none
  status : Option String := none
  summary : Option String := none
  taskStatus : Option String := none
  usage : Option Json := none
  rest : List (String × Json) := []

inductive EntryType where
  | user
  | assistant
  | toolResult
  | system
  deriving DecidableEq, Repr

inductive Content where
  | missing
  | text (value : String)
  | blocks (items : List Block)

/-- `TimelineEntry`. -/
structure Entry where
  seq : Int
  type : EntryType
  content : Content := .missing
  uuid : Option String := none
  timestamp : Option String := none
  parentToolUseId : Option String := none
  toolUseId : Option String := none
  isError : Bool := false
  subtype : Option String := none
  taskId : Option String := none
  description : Option String := none
  summary : Option String := none
  taskStatus : Option String := none
  usage : Option Json := none
  skillName : Option String := none
  skillArgs : Option String := none
  answers : Option Json := none
  failure : Option Json := none

/-- A text that counts as true. -/
def truthy (text : Option String) : Option String := text.filter (· ≠ "")

def entryBlocks (entry : Entry) : List Block :=
  match entry.content with
  | .blocks items => items
  | .text value => if value = "" then [] else [{ type := "text", text := some value }]
  | .missing => []

def blocksText (blocks : List Block) : String :=
  "\n".intercalate ((blocks.filter fun block => block.type = "text").map fun block => block.text.getD "")

def resultText (entry : Entry) : String :=
  match entry.content with
  | .text value => value
  | _ => blocksText (entryBlocks entry)

inductive TurnType where
  | user
  | assistant
  | system
  deriving DecidableEq, Repr

/-- `InternalTurn`. -/
structure InternalTurn where
  type : TurnType
  content : List Block
  uuid : Option String
  timestamp : Option String
  version : Nat

/-- The committed turns and then the cursor, which is the last turn. -/
structure Fold where
  turns : List InternalTurn
  version : Nat

def newFold : Fold := ⟨[], 0⟩

/-- The folds: that of the main timeline and those of the groups. -/
inductive Key where
  | main
  | group (id : String)
  deriving DecidableEq, Repr

/-- The place of a tool_use block. Turns and blocks are only added at the end, so that an index
identifies one for good. -/
structure ToolUseSite where
  fold : Key
  turn : Nat
  block : Nat
  deriving DecidableEq, Repr

structure SubagentGroup where
  fold : Fold
  anchor : Option ToolUseSite

/-- What `appendOne` changes. -/
structure Core where
  versionCounter : Nat
  main : Fold
  groups : Dict String SubagentGroup
  pendingGroups : List String
  toolUseSites : Dict String ToolUseSite

namespace Core

def start : Core := ⟨0, newFold, .empty, [], .empty⟩

variable (core : Core)

def fold : Key → Fold
  | .main => core.main
  | .group id => ((core.groups.get? id).map SubagentGroup.fold).getD newFold

def setFold (key : Key) (fold : Fold) : Core :=
  match key with
  | .main => { core with main := fold }
  | .group id => match core.groups.get? id with
      | some group => { core with groups := core.groups.set id { group with fold := fold } }
      | none => core

def anchor : Key → Option ToolUseSite
  | .main => none
  | .group id => (core.groups.get? id).bind SubagentGroup.anchor

/-- The fold of the anchor. -/
def parent (key : Key) : Option Key := (core.anchor key).map ToolUseSite.fold

/-- The folds that the loops of `touch` and `anchorCreatesCycle` visit; each turn of the loops adds a
fold to those that are seen. -/
def chain (key : Key) : List Key := climb core.parent (core.groups.size + 1) [] key

def anchorCreatesCycle (anchorFold targetFold : Key) : Bool := targetFold ∈ core.chain anchorFold

def modifyTurns (key : Key) (change : List InternalTurn → List InternalTurn) : Core :=
  core.setFold key { core.fold key with turns := change (core.fold key).turns }

/-- `turn.version = ++versionCounter`. -/
def bumpTurn (key : Key) (turn : Nat) : Core :=
  { core.modifyTurns key (·.modify turn fun old => { old with version := core.versionCounter + 1 }) with
    versionCounter := core.versionCounter + 1 }

def bumpFold (key : Key) : Core :=
  { core.setFold key { core.fold key with version := core.versionCounter + 1 } with
    versionCounter := core.versionCounter + 1 }

/-- One turn of the loop of `touch`. -/
def bump (key : Key) : Core :=
  match core.anchor key with
  | some site => (core.bumpFold key).bumpTurn site.fold site.turn
  | none => core.bumpFold key

/-- `touch`; that it sets `composedDirty` is returned by `appendOne`. -/
def touch (key : Key) (turn : Nat) : Core := (core.chain key).foldl bump (core.bumpTurn key turn)

/-- The index of the cursor. -/
def cursor? (key : Key) : Option (Nat × InternalTurn) :=
  (core.fold key).turns.getLast?.map fun turn => ((core.fold key).turns.length - 1, turn)

/-- The core and the index of the new turn. -/
def startTurn (key : Key) (type : TurnType) (content : List Block) (entry : Entry) : Core × Nat :=
  let index := (core.fold key).turns.length
  let turn : InternalTurn := ⟨type, content, entry.uuid, entry.timestamp, 0⟩
  ((core.modifyTurns key (· ++ [turn])).touch key index, index)

/-- `turn.content` is changed and the turn touched. -/
def editTurn (key : Key) (turn : Nat) (edit : List Block → List Block) : Core :=
  (core.modifyTurns key (·.modify turn fun old => { old with content := edit old.content })).touch key turn

/-- The cursor, if it is an assistant turn. -/
def assistantCursor? (key : Key) : Option Nat :=
  ((core.cursor? key).filter fun cursor => cursor.2.type = .assistant).map Prod.fst

def attachSystemBlock (key : Key) (entry : Entry) (block : Block) : Core :=
  match core.assistantCursor? key with
  | some turn => core.editTurn key turn (· ++ [block])
  | none => (core.startTurn key .system [block] entry).1

def isTask (taskId : String) (block : Block) : Bool :=
  block.type = "task_progress" && block.taskId = some taskId

/-- The latest turn with a block of the task, and the first such block in it. -/
def findTaskSite (key : Key) (taskId : String) : Option (Nat × Nat) :=
  let turns := (core.fold key).turns
  ((List.range turns.length).reverse.find? fun turn => (turns[turn]?).any fun old =>
    old.content.any (isTask taskId)).map fun turn =>
      (turn, ((turns[turn]?).map fun old => old.content.findIdx (isTask taskId)).getD 0)

/-- The fields of an existing task block that an update replaces. -/
def updateTask (update existing : Block) : Block :=
  { existing with
    status := update.status
    summary := (truthy update.summary).orElse fun _ => existing.summary
    taskStatus := (truthy update.taskStatus).orElse fun _ => existing.taskStatus
    usage := update.usage.orElse fun _ => existing.usage }

def applyTaskBlock (key : Key) (entry : Entry) (taskBlock : Block) (updateOnly : Bool) : Core :=
  let site := if updateOnly then (truthy taskBlock.taskId).bind (core.findTaskSite key) else none
  match site with
  | some (turn, block) => core.editTurn key turn (·.modify block (updateTask taskBlock))
  | none => core.attachSystemBlock key entry taskBlock

/-- `group.anchor = site`. -/
def setAnchor (id : String) (group : SubagentGroup) (site : ToolUseSite) : Core :=
  { core with groups := core.groups.set id { group with anchor := some site } }

/-- The first block with an id is the one that counts. -/
def registerSite (id : String) (site : ToolUseSite) : Core :=
  if (core.toolUseSites.get? id).isSome then core
  else { core with toolUseSites := core.toolUseSites.set id site }

/-- The group of a registered id, if it waits for an anchor. -/
def anchorWaiting (id : String) : Core :=
  match core.groups.get? id, core.toolUseSites.get? id with
  | some group, some site =>
      if group.anchor.isNone && !core.anchorCreatesCycle site.fold (.group id) then
        ({ core.setAnchor id group site with
          pendingGroups := core.pendingGroups.filter (· ≠ id) }).touch site.fold site.turn
      else core
  | _, _ => core

def registerToolUse (key : Key) (turn block : Nat) (id : Option String) : Core :=
  match truthy id with
  | some id => (core.registerSite id ⟨key, turn, block⟩).anchorWaiting id
  | none => core

/-- The tool_use blocks of `blocks`, which are in the turn from the index `first` on. -/
def registerAll (core : Core) (key : Key) (turn : Nat) : Nat → List Block → Core
  | _, [] => core
  | first, block :: later =>
      let core := if block.type = "tool_use" then core.registerToolUse key turn first block.id else core
      registerAll core key turn (first + 1) later

/-- The core with the group, and whether the group is new. -/
def groupFoldFor (parentId : String) : Core × Bool :=
  if (core.groups.get? parentId).isSome then (core, false)
  else
    let created := { core with groups := core.groups.set parentId ⟨newFold, none⟩ }
    match core.toolUseSites.get? parentId with
    | some site =>
        if created.anchorCreatesCycle site.fold (.group parentId) then
          ({ created with pendingGroups := core.pendingGroups ++ [parentId] }, true)
        else ((created.setAnchor parentId ⟨newFold, none⟩ site).touch site.fold site.turn, true)
    | none => ({ created with pendingGroups := core.pendingGroups ++ [parentId] }, true)

def appendAssistant (key : Key) (entry : Entry) : Core :=
  let blocks := entryBlocks entry
  match core.assistantCursor? key with
  | some turn =>
      let first := (((core.fold key).turns[turn]?).map fun old => old.content.length).getD 0
      (core.editTurn key turn (· ++ blocks)).registerAll key turn first blocks
  | none =>
      let (core, turn) := core.startTurn key .assistant blocks entry
      core.registerAll key turn 0 blocks

/-- The registered block of the entry's tool_use id, if it is in the entry's own timeline. -/
def siteOf (key : Key) (toolUseId : Option String) : Option ToolUseSite :=
  ((truthy toolUseId).bind core.toolUseSites.get?).filter fun site => site.fold = key

def appendResult (key : Key) (entry : Entry) : Core :=
  match core.siteOf key entry.toolUseId with
  | some site => core.editTurn site.fold site.turn (·.modify site.block fun block =>
      { block with result := some (resultText entry), isError := some entry.isError })
  | none => core.attachSystemBlock key entry
      { type := "tool_result", toolUseId := entry.toolUseId, isError := some entry.isError,
        rest := [("content", .str (resultText entry))] }

def textField (name : String) (value : Option String) : List (String × Json) :=
  value.toList.map fun value => (name, .str value)

/-- The core, and whether something was touched. -/
def appendSystem (key : Key) (entry : Entry) : Core × Bool :=
  match entry.subtype, entry.failure with
  | some "agent_turn_failure", some failure => ((core.startTurn key .system
      [{ type := "agent_failure", rest := [("failure", failure)] }] entry).1, true)
  | some "skill_invocation", _ =>
      match (entry.toolUseId.bind core.toolUseSites.get?).filter fun site => site.fold = key with
      | some _ => (core, false)
      | none => (core.attachSystemBlock key entry
          { type := "skill_invocation", toolUseId := entry.toolUseId,
            rest := textField "skill_name" entry.skillName ++ textField "skill_args" entry.skillArgs },
          true)
  | some "interrupt", _ => ((core.startTurn key .system [{ type := "interrupt_notice" }] entry).1, true)
  | some subtype, _ =>
      if subtype ∈ ["task_started", "task_progress", "task_notification"] then
        (core.applyTaskBlock key entry
          { type := "task_progress", taskId := entry.taskId, status := some subtype,
            summary := entry.summary, taskStatus := entry.taskStatus, usage := entry.usage,
            toolUseId := entry.toolUseId, rest := [("description", .str (entry.description.getD ""))] }
          (subtype ≠ "task_started"), true)
      else (core, false)
  | none, _ => (core, false)

/-- What a question answer writes into the block of its question. -/
def answerBlock (entry : Entry) (block : Block) : Block :=
  { block with
    result := some (resultText entry)
    isError := some entry.isError
    answers := entry.answers.orElse fun _ => block.answers }

def appendAnswer (key : Key) (entry : Entry) : Core :=
  let site := core.siteOf key entry.toolUseId
  let answered := match site with
    | some site => core.editTurn site.fold site.turn (·.modify site.block (answerBlock entry))
    | none => core
  if entry.isError then
    match site with
    | some _ => answered
    | none => answered.attachSystemBlock key entry
        { type := "tool_result", toolUseId := entry.toolUseId, isError := some true,
          rest := [("content", .str (resultText entry))] }
  else (answered.startTurn key .user
    [{ type := "question_answer", answers := entry.answers, text := some (resultText entry) }] entry).1

def appendTo (key : Key) (entry : Entry) : Core × Bool :=
  match entry.type with
  | .assistant => (core.appendAssistant key entry, true)
  | .toolResult => (core.appendResult key entry, true)
  | .system => core.appendSystem key entry
  | .user =>
      if entry.subtype = some "question_answer" then (core.appendAnswer key entry, true)
      else ((core.startTurn key .user (entryBlocks entry) entry).1, true)

/-- `appendOne`: the core, and whether `composedDirty` was set. -/
def appendOne (entry : Entry) : Core × Bool :=
  match truthy entry.parentToolUseId with
  | some parentId =>
      let (core, created) := core.groupFoldFor parentId
      let (core, touched) := core.appendTo (.group parentId) entry
      (core, created || touched)
  | none => core.appendTo .main entry

end Core

end ArcReel.Timeline
