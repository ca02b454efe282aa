import ArcReel.Lib.Dict
import ArcReel.Lib.Json

/-! `DraftAccumulator` of `server.agent_runtime.entry_pipeline`: the draft that the
server keeps of the message that is being streamed, and the deltas that it broadcasts. -/

namespace ArcReel.Draft
open ArcReel.Lib

/-- A content block: the fields of an object in order. -/
abbrev Block := Dict String Json

/-- What the two languages do with values: string formatting, and parsing of a text as JSON. -/
structure Runtime where
  pyFormat : Json → String
  jsFormat : Json → String
  loads : String → Option Json
  parse : String → Option Json
  pyFormat_str : ∀ text, pyFormat (.str text) = text
  jsFormat_str : ∀ text, jsFormat (.str text) = text

inductive DeltaKind where
  | text
  | thinking
  | inputJson
  deriving DecidableEq, Repr

namespace DeltaKind

def blockType : DeltaKind → String
  | text => "text"
  | thinking => "thinking"
  | inputJson => "tool_use"

/-- The field to which chunks are appended. -/
def field : DeltaKind → String
  | text => "text"
  | thinking => "thinking"
  | inputJson => "input"

/-- The block that `_ensure_block` makes. -/
def newBlock : DeltaKind → Block
  | text => ((.empty : Block).set "type" (.str "text")).set "text" (.str "")
  | thinking => ((.empty : Block).set "type" (.str "thinking")).set "thinking" (.str "")
  | inputJson => ((((.empty : Block).set "type" (.str "tool_use")).set "id" .null).set "name"
      (.str "")).set "input" (.obj [])

end DeltaKind

/-- The event of a stream message; an index that is no number counts as missing, and a delta without
text as `other`. -/
inductive Event where
  | messageStart (messageId : Option String)
  | contentBlockStart (index : Option Int) (contentBlock : Option Block)
  | contentBlockDelta (kind : DeltaKind) (index : Option Int) (chunk : String)
  | other

structure Message where
  parentToolUseId : Option String
  event : Event

/-- What a delta carries besides its place. -/
inductive Change where
  | blockStart (block : Block)
  | chunk (kind : DeltaKind) (chunk : String)

structure Payload where
  messageId : String
  parentToolUseId : Option String
  blockIndex : Int
  rev : Nat
  change : Change

structure Accumulator where
  messageId : Option String
  parentToolUseId : Option String
  blocks : Dict Int Block
  toolInputJson : Dict Int String
  rev : Nat

def Accumulator.start : Accumulator := ⟨none, none, .empty, .empty, 0⟩

structure Snapshot where
  messageId : String
  parentToolUseId : Option String
  content : List Block
  toolJson : Dict Int String

section Normalize

def truthy : Json → Bool
  | .null | .bool false | .int 0 | .str "" | .arr [] | .obj [] => false
  | .float value => value != some 0
  | _ => true

variable (rt : Runtime)

/-- `_stringify_content`. -/
def stringifyContent : Json → String
  | .str text => text
  | .arr items => "\n".intercalate (items.map fun item => if item.isObj then
      (if truthy (item.get "text") then rt.pyFormat (item.get "text") else "")
      else rt.pyFormat item)
  | .null => ""
  | other => rt.pyFormat other

def inferBlockType (block : Block) : String :=
  let isTruthy := fun key => (block.get? key).any truthy
  match block.get? "type" with
  | some (.str type) => if type.isEmpty then byFields isTruthy else type
  | _ => byFields isTruthy
where
  byFields (truthy : String → Bool) : String :=
    if truthy "tool_use_id" && ((block.get? "content").isSome || (block.get? "is_error").isSome) then
      "tool_result"
    else if truthy "id" && truthy "name" && (block.get? "input").isSome then "tool_use"
    else if (block.get? "thinking").isSome then "thinking"
    else if (block.get? "text").isSome then "text"
    else ""

def setDefault (block : Block) (key : String) (value : Json) : Block :=
  if (block.get? key).isSome then block else block.set key value

def normalizeBlock (block : Block) : Block :=
  let type := inferBlockType block
  let typed := if type ≠ "" then block.set "type" (.str type)
    else setDefault block "type" (.str "text")
  match typed.get? "type" with
  | some (.str "text") => setDefault typed "text" (.str "")
  | some (.str "thinking") => setDefault typed "thinking" (.str "")
  | some (.str "tool_use") =>
      if ((typed.get? "input").any Json.isObj) then typed else typed.set "input" (.obj [])
  | some (.str "tool_result") =>
      typed.set "content" (.str (stringifyContent rt ((typed.get? "content").getD (.str ""))))
  | _ => typed

end Normalize

section Server

variable (rt : Runtime)

namespace Accumulator

def resolveIndex (acc : Accumulator) (index : Option Int) : Int :=
  index.getD ((acc.blocks.keys.max?).getD 0)

/-- The accumulated text of the input of a tool, with one more chunk. -/
def updatedJson (acc : Accumulator) (index : Int) (chunk : String) : String :=
  (acc.toolInputJson.get? index).getD "" ++ chunk

/-- A chunk in a block of the server. -/
def grow (kind : DeltaKind) (chunk : String) (updated : String) (block : Block) : Block :=
  let block := block.set "type" (.str kind.blockType)
  match kind with
  | .inputJson =>
      let block := if (block.get? "input").any Json.isObj then block else block.set "input" (.obj [])
      match rt.loads updated with
      | some (.obj fields) => block.set "input" (.obj fields)
      | _ => block
  | _ => block.set kind.field (.str ((block.get? kind.field).elim "" rt.pyFormat ++ chunk))

def payload (acc : Accumulator) (messageId : String) (index : Int) (change : Change) : Payload :=
  ⟨messageId, acc.parentToolUseId, index, acc.rev + 1, change⟩

/-- `apply_stream_event`. -/
def applyStreamEvent (acc : Accumulator) (message : Message) : Accumulator × Option Payload :=
  match message.event, acc.messageId with
  | .messageStart messageId, _ =>
      (⟨messageId, message.parentToolUseId, .empty, .empty, acc.rev⟩, none)
  | _, none => (acc, none)
  | event, some messageId =>
      if message.parentToolUseId ≠ acc.parentToolUseId then (acc, none)
      else match event with
        | .contentBlockStart index contentBlock =>
            let index := acc.resolveIndex index
            let block := normalizeBlock rt (contentBlock.getD DeltaKind.text.newBlock)
            ({ acc with blocks := acc.blocks.set index block, rev := acc.rev + 1 },
              some (acc.payload messageId index (.blockStart block)))
        | .contentBlockDelta kind index chunk =>
            if chunk = "" then (acc, none)
            else
              let index := acc.resolveIndex index
              let updated := acc.updatedJson index chunk
              let block := grow rt kind chunk updated ((acc.blocks.get? index).getD kind.newBlock)
              let toolInputJson := if kind = .inputJson then acc.toolInputJson.set index updated
                else acc.toolInputJson
              ({ acc with
                  blocks := acc.blocks.set index block
                  toolInputJson := toolInputJson
                  rev := acc.rev + 1 },
                some (acc.payload messageId index (.chunk kind chunk)))
        | _ => (acc, none)

/-- The blocks in the order of their indices, without the indices. -/
def ordered (acc : Accumulator) : List (Int × Block) :=
  acc.blocks.entries.insertionSort fun a b => a.1 ≤ b.1

def snapshot (acc : Accumulator) : Option Snapshot :=
  match acc.messageId with
  | some messageId =>
      if acc.blocks.entries.isEmpty then none
      else some ⟨messageId, acc.parentToolUseId, acc.ordered.map Prod.snd, acc.toolInputJson⟩
  | none => none

end Accumulator

end Server

end ArcReel.Draft
