import ArcReel.Draft.Accumulator

/-! `applyDraftDelta` of `utils/entry-projection.ts` and the draft part of
`stores/assistant-store.ts`: the draft as the client rebuilds it. -/

namespace ArcReel.Draft
open ArcReel.Lib

section Array

variable {β : Type}

/-- The length that an array cannot exceed; larger indices are plain properties, which copying the
array drops. -/
def maxLength : Nat := 2 ^ 32 - 1

/-- `array[index] = value` on an array with holes. -/
def setAt : List (Option β) → Nat → β → List (Option β)
  | [], 0, value => [some value]
  | [], index + 1, value => none :: setAt [] index value
  | _ :: rest, 0, value => some value :: rest
  | head :: rest, index + 1, value => head :: setAt rest index value

/-- `[...array]` after `array[index] = value`. -/
def assign (content : List (Option β)) (index : Int) (value : β) : List (Option β) :=
  if 0 ≤ index ∧ index < maxLength then setAt content index.toNat value else content

def lookup (content : List (Option β)) (index : Int) : Option β :=
  if 0 ≤ index then content[index.toNat]?.join else none

end Array

/-- `DraftMirror`. -/
structure Mirror where
  messageId : String
  parentToolUseId : Option String
  content : List (Option Block)
  toolJson : Dict Int String

structure Store where
  draft : Option Mirror
  draftRev : Nat

section Client

variable (rt : Runtime)

/-- The block to which a chunk is added: that of the same type, or a new one. An `undefined` field is
read as `null` is. -/
def clientBase (kind : DeltaKind) (block : Option Block) : Block :=
  match block with
  | some block => if (block.get? "type").any (fun type => type.str? == some kind.blockType) then block
      else kind.newBlock
  | none => kind.newBlock

/-- The value of a template with `block.field ?? ""`. -/
def template (value : Option Json) : String :=
  match value with
  | none | some .null => ""
  | some value => rt.jsFormat value

/-- A chunk in a block of the client. -/
def clientGrow (kind : DeltaKind) (chunk updated : String) (block : Block) : Block :=
  match kind with
  | .inputJson =>
      match rt.parse updated with
      | some (.obj fields) => block.set "input" (.obj fields)
      | _ => block
  | _ => block.set kind.field (.str (template rt (block.get? kind.field) ++ chunk))

/-- The mirror to which a delta is applied: that of its message, or a new one. -/
def baseMirror (draft : Option Mirror) (messageId : String) (parentToolUseId : Option String) : Mirror :=
  match draft with
  | some mirror => if mirror.messageId = messageId then mirror
      else ⟨messageId, parentToolUseId, [], .empty⟩
  | none => ⟨messageId, parentToolUseId, [], .empty⟩

/-- `applyDraftDelta`. -/
def applyDraftDelta (draft : Option Mirror) (payload : Payload) : Mirror :=
  let base := baseMirror draft payload.messageId payload.parentToolUseId
  let index := payload.blockIndex
  match payload.change with
  | .blockStart block => { base with content := assign base.content index block }
  | .chunk kind chunk =>
      let updated := (base.toolJson.get? index).getD "" ++ chunk
      let block := clientGrow rt kind chunk updated (clientBase kind (lookup base.content index))
      { base with
        content := assign base.content index block
        toolJson := if kind = .inputJson then base.toolJson.set index updated else base.toolJson }

namespace Store

def setDraftSnapshot (draft : Option Snapshot) (rev : Nat) : Store :=
  ⟨draft.map fun snapshot => ⟨snapshot.messageId, snapshot.parentToolUseId,
    snapshot.content.map some, snapshot.toolJson⟩, rev⟩

def applyDelta (store : Store) (payload : Payload) : Store :=
  if payload.rev ≤ store.draftRev then store
  else ⟨some (applyDraftDelta rt store.draft payload), payload.rev⟩

def messageId (store : Store) : Option String := store.draft.map Mirror.messageId

/-- The blocks that `buildDraftTurn` shows: holes are filtered out. -/
def rendered (store : Store) : List Block :=
  (store.draft.map fun mirror => mirror.content.filterMap id).getD []

end Store

end Client

section Streams

def starts (message : Message) : Bool :=
  match message.event with
  | .messageStart _ => true
  | _ => false

variable (rt : Runtime)

/-- The deltas of a sequence of stream messages, and the accumulator after it. -/
def broadcast (acc : Accumulator) : List Message → Accumulator × List Payload
  | [] => (acc, [])
  | message :: later =>
      let (next, payload) := acc.applyStreamEvent rt message
      let (last, payloads) := broadcast next later
      (last, payload.toList ++ payloads)

/-- A client that has seen every delta of the current message from its start. -/
def attendant (acc : Accumulator) (store : Store) : List Message → Store
  | [] => store
  | message :: later =>
      let (next, payload) := acc.applyStreamEvent rt message
      let store := if starts message then ⟨none, store.draftRev⟩ else store
      attendant next (payload.toList.foldl (Store.applyDelta rt) store) later

/-- A client that takes the snapshot after `before` and then applies the deltas of `after`. -/
def reconnected (before after : List Message) : Store :=
  let acc := (broadcast rt .start before).1
  (broadcast rt acc after).2.foldl (Store.applyDelta rt) (.setDraftSnapshot acc.snapshot acc.rev)

end Streams

end ArcReel.Draft
