import ArcReel.Draft.Mirror

/-! A client that reconnects sees the same draft as one that has attended the current
message from its start, if what the snapshot compacts and what the two languages make of
a chunk cannot be told apart. -/

namespace ArcReel.Draft
open ArcReel.Lib

section Condition

variable (rt : Runtime)

/-- The object that a parsed text is, if it is one. -/
def objectOf : Option Json → Option (List (String × Json))
  | some (.obj fields) => some fields
  | _ => none

/-- A chunk may go to the block. -/
def accepts (kind : DeltaKind) (block : Block) : Bool :=
  (block.get? "type").any (fun type => type.str? == some kind.blockType) &&
    match kind with
    | .inputJson => (block.get? "input").any Json.isObj
    | _ => (block.get? kind.field).all fun value => value.str?.isSome

/-- A chunk that is broadcast goes to a new block or to one of its type, and both languages read the
same object from the accumulated input of a tool. -/
def Plain (acc : Accumulator) (message : Message) : Prop :=
  match message.event with
  | .contentBlockDelta kind index chunk =>
      (acc.applyStreamEvent rt message).2.isSome = true →
        (acc.blocks.get? (acc.resolveIndex index)).all (accepts kind) = true ∧
        (kind = .inputJson →
          objectOf (rt.loads (acc.updatedJson (acc.resolveIndex index) chunk)) =
            objectOf (rt.parse (acc.updatedJson (acc.resolveIndex index) chunk)))
  | _ => True

/-- The messages since the last `message_start` are plain. -/
def AllPlain (acc : Accumulator) : List Message → Prop
  | [] => True
  | message :: later => (later.any starts = false → Plain rt acc message) ∧
      AllPlain (acc.applyStreamEvent rt message).1 later

/-- Every index is one of an array. -/
def Accumulator.bounded (acc : Accumulator) : Bool :=
  acc.blocks.keys.all fun index => decide (0 ≤ index ∧ index < maxLength)

/-- The blocks have the indices 0, 1, 2 and so on. -/
def Accumulator.dense (acc : Accumulator) : Bool :=
  acc.ordered.map Prod.fst == (List.range acc.blocks.size).map Int.ofNat

/-- A client holds a draft of the message `held`, which is the current one if `known`. No message that
starts again and broadcasts has the id of the draft that is held, and the draft that is held at the end
is one of the current message. -/
def tracked (acc : Accumulator) (held : Option String) (known : Bool) : List Message → Bool
  | [] => known || held.isNone
  | message :: later =>
      let (next, payload) := acc.applyStreamEvent rt message
      if starts message then tracked next held false later
      else if payload.isSome then
        (known || held != acc.messageId) && tracked next acc.messageId true later
      else tracked next held known later

structure Faithful (before after : List Message) : Prop where
  plain : after.any starts = false →
    AllPlain rt .start before ∧ (broadcast rt .start before).1.bounded = true
  dense : after.any starts = false → (broadcast rt (broadcast rt .start before).1 after).2 ≠ [] →
    (broadcast rt .start before).1.dense = true
  tracked : tracked rt (broadcast rt .start before).1
    ((broadcast rt .start before).1.snapshot.map Snapshot.messageId) true after = true

end Condition

section Arrays

variable {β : Type}

theorem getElem?_setAt (content : List (Option β)) (index other : Nat) (value : β) :
    (setAt content index value)[other]?.join =
      if other = index then some value else content[other]?.join := by
  induction content generalizing index other with
  | nil =>
    induction index generalizing other with
    | zero => cases other <;> simp [setAt]
    | succ index ih =>
      cases other with
      | zero => simp [setAt]
      | succ other =>
        rw [setAt, List.getElem?_cons_succ, ih other]
        simp
  | cons head rest ih =>
    cases index with
    | zero => cases other <;> simp [setAt]
    | succ index =>
      cases other with
      | zero => simp [setAt]
      | succ other =>
        rw [setAt, List.getElem?_cons_succ, ih index other, List.getElem?_cons_succ]
        simp

theorem length_setAt (content : List (Option β)) (index : Nat) (value : β) :
    (setAt content index value).length = max content.length (index + 1) := by
  induction content generalizing index with
  | nil =>
    induction index with
    | zero => rfl
    | succ index ih =>
      rw [setAt, List.length_cons, ih]
      simp
  | cons head rest ih =>
    cases index with
    | zero => simp [setAt]
    | succ index =>
      rw [setAt, List.length_cons, List.length_cons, ih]
      omega

theorem lookup_assign (content : List (Option β)) (index other : Int) (value : β) :
    lookup (assign content index value) other =
      if other = index ∧ 0 ≤ index ∧ index < maxLength then some value else lookup content other := by
  unfold assign
  by_cases valid : 0 ≤ index ∧ index < maxLength
  · rw [if_pos valid]
    unfold lookup
    by_cases low : 0 ≤ other
    · rw [if_pos low, if_pos low, getElem?_setAt]
      by_cases same : other = index
      · rw [if_pos (congrArg Int.toNat same), if_pos ⟨same, valid⟩]
      · have apart : other.toNat ≠ index.toNat := by omega
        rw [if_neg apart, if_neg fun both => same both.1]
    · have apart : ¬(other = index ∧ 0 ≤ index ∧ index < maxLength) := by omega
      rw [if_neg low, if_neg low, if_neg apart]
  · rw [if_neg valid, if_neg fun both => valid both.2]

theorem length_assign {content : List (Option β)} (short : content.length ≤ maxLength) (index : Int)
    (value : β) : (assign content index value).length ≤ maxLength := by
  unfold assign
  split_ifs with valid
  · rw [length_setAt]
    omega
  · exact short

/-- What is shown depends on the look-ups only. -/
theorem filterMap_eq_of_lookup {first second : List (Option β)}
    (same : ∀ n : Nat, first[n]?.join = second[n]?.join) :
    first.filterMap id = second.filterMap id := by
  induction first generalizing second with
  | nil =>
    induction second with
    | nil => rfl
    | cons head rest ih =>
      have hole := same 0
      have later := ih fun n => same (n + 1)
      cases head with
      | none => exact later
      | some value => simp at hole
  | cons head rest ih =>
    cases second with
    | nil =>
      have hole := same 0
      have later : rest.filterMap id = ([] : List (Option β)).filterMap id := by
        apply ih
        intro n
        exact same (n + 1)
      cases head with
      | none => exact later
      | some value => simp at hole
    | cons head' rest' =>
      have equal : head = head' := same 0
      have later := ih fun n => same (n + 1)
      rw [equal, List.filterMap_cons, List.filterMap_cons, later]

/-- The values of an array are those of its sorted entries. -/
theorem filterMap_eq_of_entries {content : List (Option β)} {entries : List (Int × β)} (offset : Int)
    (sorted : entries.Pairwise fun first second => first.1 < second.1)
    (low : ∀ entry ∈ entries, offset ≤ entry.1)
    (same : ∀ (n : Nat) (value : β), content[n]?.join = some value ↔ (offset + n, value) ∈ entries) :
    content.filterMap id = entries.map Prod.snd := by
  induction content generalizing entries offset with
  | nil =>
    cases entries with
    | nil => rfl
    | cons entry later =>
      have first := low entry List.mem_cons_self
      have found := (same (entry.1 - offset).toNat entry.2).mpr (by
        rw [Int.toNat_of_nonneg (by omega), add_sub_cancel]
        exact List.mem_cons_self)
      simp at found
  | cons head rest ih =>
    have shift : ∀ n : Nat, offset + (n + 1 : Nat) = offset + 1 + n := by
      intro n
      omega
    cases head with
    | none =>
      refine ih (offset + 1) sorted ?_ ?_
      · intro entry member
        have atLeast := low entry member
        have apart : entry.1 ≠ offset := by
          intro isFirst
          have found := (same 0 entry.2).mpr (by
            rw [Nat.cast_zero, Int.add_zero, ← isFirst]
            exact member)
          simp at found
        omega
      · intro n value
        rw [← shift n]
        exact same (n + 1) value
    | some value =>
      have member := (same 0 value).mp rfl
      rw [Nat.cast_zero, Int.add_zero] at member
      cases entries with
      | nil => cases member
      | cons entry later =>
        rw [List.pairwise_cons] at sorted
        have isHead : entry = (offset, value) := by
          cases member with
          | head => rfl
          | tail _ below =>
            have above := sorted.1 _ below
            have atLeast := low entry List.mem_cons_self
            omega
        subst isHead
        refine congrArg (value :: ·) (ih (offset + 1) sorted.2 ?_ ?_)
        · intro entry below
          have above := sorted.1 entry below
          omega
        · intro n other
          rw [← shift n]
          refine (same (n + 1) other).trans ?_
          rw [List.mem_cons, Prod.mk.injEq]
          constructor
          · intro either
            cases either with
            | inl first => omega
            | inr below => exact below
          · exact Or.inr

end Arrays

section Blocks

variable {rt : Runtime} {kind : DeltaKind} {chunk updated : String} {block : Block}

theorem type_of_accepts (fits : accepts kind block = true) :
    block.get? "type" = some (.str kind.blockType) := by
  unfold accepts at fits
  rw [Bool.and_eq_true] at fits
  obtain ⟨type, found, isType⟩ := (Option.any_eq_true _ _).mp fits.1
  rw [found]
  cases type with
  | str value => rw [Option.some.inj (beq_iff_eq.mp isType)]
  | _ => cases isType

theorem clientBase_of_accepts (fits : accepts kind block = true) :
    clientBase kind (some block) = block := by
  unfold accepts at fits
  rw [Bool.and_eq_true] at fits
  exact if_pos fits.1

theorem pyFormat_eq_template {value : Option Json}
    (isText : value.all (fun value => value.str?.isSome) = true) :
    value.elim "" rt.pyFormat = template rt value := by
  cases value with
  | none => rfl
  | some value =>
    cases value with
    | str text => exact (rt.pyFormat_str text).trans (rt.jsFormat_str text).symm
    | _ => cases isText

/-- The input of a tool after its accumulated text has been parsed. -/
def withInput (block : Block) (value : Option Json) : Block :=
  (objectOf value).elim block fun fields => block.set "input" (.obj fields)

theorem grow_inputJson (isObj : (block.get? "input").any Json.isObj = true)
    (typed : block.set "type" (.str "tool_use") = block) :
    Accumulator.grow rt .inputJson chunk updated block = withInput block (rt.loads updated) := by
  simp only [Accumulator.grow, DeltaKind.blockType, typed]
  rw [if_pos isObj]
  cases rt.loads updated with
  | none => rfl
  | some value => cases value <;> rfl

theorem clientGrow_inputJson :
    clientGrow rt .inputJson chunk updated block = withInput block (rt.parse updated) := by
  unfold clientGrow
  cases rt.parse updated with
  | none => rfl
  | some value => cases value <;> rfl

/-- Both sides make the same block of a chunk. -/
theorem grow_eq_clientGrow (fits : accepts kind block = true)
    (alike : kind = .inputJson → objectOf (rt.loads updated) = objectOf (rt.parse updated)) :
    Accumulator.grow rt kind chunk updated block = clientGrow rt kind chunk updated block := by
  have typed := Dict.set_eq_self (type_of_accepts fits)
  unfold accepts at fits
  rw [Bool.and_eq_true] at fits
  cases kind with
  | text =>
    show (block.set _ _).set _ _ = _
    rw [typed, pyFormat_eq_template fits.2]
    rfl
  | thinking =>
    show (block.set _ _).set _ _ = _
    rw [typed, pyFormat_eq_template fits.2]
    rfl
  | inputJson =>
    rw [grow_inputJson fits.2 typed, clientGrow_inputJson, withInput, withInput, alike rfl]

theorem accepts_newBlock : accepts kind kind.newBlock = true := by
  cases kind <;> decide

end Blocks

section Steps

variable {rt : Runtime} {acc : Accumulator} {message : Message}

/-- The block and the accumulated inputs that the server writes for a change. -/
def Accumulator.written (rt : Runtime) (acc : Accumulator) (index : Int) :
    Change → Block × Dict Int String
  | .blockStart block => (block, acc.toolInputJson)
  | .chunk kind chunk =>
      (grow rt kind chunk (acc.updatedJson index chunk) ((acc.blocks.get? index).getD kind.newBlock),
        if kind = .inputJson then acc.toolInputJson.set index (acc.updatedJson index chunk)
        else acc.toolInputJson)

def Accumulator.write (rt : Runtime) (acc : Accumulator) (index : Int) (change : Change) :
    Accumulator :=
  { acc with
    blocks := acc.blocks.set index (acc.written rt index change).1
    toolInputJson := (acc.written rt index change).2
    rev := acc.rev + 1 }

/-- What `Plain` says of the change of a broadcast. -/
def Fits (rt : Runtime) (acc : Accumulator) (index : Int) : Change → Prop
  | .blockStart _ => True
  | .chunk kind chunk => (acc.blocks.get? index).all (accepts kind) = true ∧
      (kind = .inputJson → objectOf (rt.loads (acc.updatedJson index chunk)) =
        objectOf (rt.parse (acc.updatedJson index chunk)))

/-- An event starts a message, or changes nothing, or writes one block and broadcasts the change. -/
theorem applyStreamEvent_cases (rt : Runtime) (acc : Accumulator) (message : Message) :
    (∃ messageId, starts message = true ∧ acc.applyStreamEvent rt message =
      (⟨messageId, message.parentToolUseId, .empty, .empty, acc.rev⟩, none)) ∨
    (starts message = false ∧ acc.applyStreamEvent rt message = (acc, none)) ∨
    (∃ messageId index change, starts message = false ∧ acc.messageId = some messageId ∧
      acc.applyStreamEvent rt message =
        (acc.write rt index change, some (acc.payload messageId index change)) ∧
      (Plain rt acc message → Fits rt acc index change)) := by
  obtain ⟨parent, event⟩ := message
  cases event with
  | messageStart messageId => exact .inl ⟨messageId, rfl, rfl⟩
  | other =>
    refine .inr (.inl ⟨rfl, ?_⟩)
    unfold Accumulator.applyStreamEvent
    cases acc.messageId with
    | none => rfl
    | some messageId => exact ite_self _
  | contentBlockStart index contentBlock =>
    cases current : acc.messageId with
    | none => exact .inr (.inl ⟨rfl, by simp only [Accumulator.applyStreamEvent, current]⟩)
    | some messageId =>
      by_cases foreign : parent ≠ acc.parentToolUseId
      · exact .inr (.inl ⟨rfl, by simp only [Accumulator.applyStreamEvent, current, if_pos foreign]⟩)
      · refine .inr (.inr ⟨messageId, acc.resolveIndex index, .blockStart
          (normalizeBlock rt (contentBlock.getD DeltaKind.text.newBlock)), rfl, rfl, ?_,
          fun _ => trivial⟩)
        simp only [Accumulator.applyStreamEvent, current, if_neg foreign]
        rw [Accumulator.write, current]
        rfl
  | contentBlockDelta kind index chunk =>
    cases current : acc.messageId with
    | none => exact .inr (.inl ⟨rfl, by simp only [Accumulator.applyStreamEvent, current]⟩)
    | some messageId =>
      by_cases foreign : parent ≠ acc.parentToolUseId
      · exact .inr (.inl ⟨rfl, by simp only [Accumulator.applyStreamEvent, current, if_pos foreign]⟩)
      · by_cases empty : chunk = ""
        · exact .inr (.inl ⟨rfl, by
            simp only [Accumulator.applyStreamEvent, current, if_neg foreign, if_pos empty]⟩)
        · have result : acc.applyStreamEvent rt ⟨parent, .contentBlockDelta kind index chunk⟩ =
              (acc.write rt (acc.resolveIndex index) (.chunk kind chunk),
                some (acc.payload messageId (acc.resolveIndex index) (.chunk kind chunk))) := by
            simp only [Accumulator.applyStreamEvent, current, if_neg foreign, if_neg empty]
            rw [Accumulator.write, current]
            rfl
          refine .inr (.inr ⟨messageId, acc.resolveIndex index, .chunk kind chunk, rfl, rfl, result, ?_⟩)
          intro plain
          exact plain (congrArg (fun pair => pair.2.isSome) result)

end Steps

section Attending

variable {rt : Runtime} {acc : Accumulator} {store : Store}

/-- The client has what the server has of the current message. -/
structure Mirrors (acc : Accumulator) (mirror : Mirror) : Prop where
  messageId : acc.messageId = some mirror.messageId
  parent : mirror.parentToolUseId = acc.parentToolUseId
  short : mirror.content.length ≤ maxLength
  content : ∀ index : Int, 0 ≤ index → index < maxLength →
    lookup mirror.content index = acc.blocks.get? index
  toolJson : ∀ index : Int, mirror.toolJson.get? index = acc.toolInputJson.get? index

def Attends (acc : Accumulator) (draft : Option Mirror) : Prop :=
  match draft with
  | none => acc.blocks = .empty ∧ acc.toolInputJson = .empty
  | some mirror => Mirrors acc mirror ∧ acc.blocks.entries ≠ []

theorem lookup_nil (index : Int) : lookup ([] : List (Option Block)) index = none := by
  unfold lookup
  split_ifs <;> simp

theorem mirrors_base {messageId : String} (current : acc.messageId = some messageId)
    {draft : Option Mirror} (attends : Attends acc draft) :
    Mirrors acc (baseMirror draft messageId acc.parentToolUseId) := by
  cases draft with
  | none =>
    refine ⟨current, rfl, Nat.zero_le _, ?_, ?_⟩
    · intro index _ _
      rw [attends.1]
      exact lookup_nil index
    · intro index
      rw [attends.2]
      rfl
  | some mirror =>
    have mirrors : Mirrors acc mirror := attends.1
    have same : mirror.messageId = messageId := Option.some.inj (mirrors.messageId.symm.trans current)
    rw [baseMirror, if_pos same]
    exact mirrors

theorem mirrors_apply {messageId : String} {index : Int} {change : Change} {draft : Option Mirror}
    (current : acc.messageId = some messageId) (attends : Attends acc draft)
    (fits : Fits rt acc index change) :
    Attends (acc.write rt index change)
      (some (applyDraftDelta rt draft (acc.payload messageId index change))) := by
  have base := mirrors_base current attends
  have inArray : ∀ {other : Int} {block block' : Block}, 0 ≤ other → other < maxLength →
      (0 ≤ index → index < maxLength → block' = block) →
      lookup (assign (baseMirror draft messageId acc.parentToolUseId).content index block') other =
        (acc.blocks.set index block).get? other := by
    intro other block block' low high same
    rw [lookup_assign, Dict.get?_set]
    by_cases isIndex : other = index
    · have range : other = index ∧ 0 ≤ index ∧ index < maxLength := by omega
      rw [if_pos range, if_pos isIndex, same range.2.1 range.2.2]
    · rw [if_neg fun both => isIndex both.1, if_neg isIndex]
      exact base.content other low high
  have filled : (acc.write rt index change).blocks.entries ≠ [] := by
    intro none
    have known := (Dict.mem_keys_set acc.blocks index index (acc.written rt index change).1).mpr (.inr rfl)
    rw [Dict.keys, show (acc.blocks.set index _).entries = [] from none] at known
    cases known
  cases change with
  | blockStart block =>
    refine ⟨⟨base.messageId, base.parent, length_assign base.short index block, ?_, base.toolJson⟩, filled⟩
    intro other low high
    exact inArray low high fun _ _ => rfl
  | chunk kind chunk =>
    have updated : ((baseMirror draft messageId acc.parentToolUseId).toolJson.get? index).getD "" ++
        chunk = acc.updatedJson index chunk := by
      rw [base.toolJson index]
      rfl
    refine ⟨⟨base.messageId, base.parent, length_assign base.short index _, ?_, ?_⟩, filled⟩
    · intro other low high
      refine inArray low high ?_
      intro isLow isHigh
      show clientGrow rt kind chunk _ (clientBase kind _) = _
      simp only [Accumulator.payload]
      rw [updated, base.content index isLow isHigh]
      cases found : acc.blocks.get? index with
      | none =>
        symm
        rw [Accumulator.written, found]
        exact grow_eq_clientGrow accepts_newBlock fits.2
      | some block =>
        have accepted := fits.1
        rw [found, Option.all_some] at accepted
        rw [clientBase_of_accepts accepted, Accumulator.written, found]
        symm
        exact grow_eq_clientGrow accepted fits.2
    · intro other
      show Dict.get? (if kind = .inputJson then _ else _) other =
        Dict.get? (if kind = .inputJson then _ else _) other
      split_ifs
      · rw [Dict.get?_set, Dict.get?_set]
        simp only [Accumulator.payload]
        rw [updated, base.toolJson other]
        rfl
      · exact base.toolJson other

theorem applyDelta_of_lt {store : Store} {payload : Payload} (new : store.draftRev < payload.rev) :
    store.applyDelta rt payload = ⟨some (applyDraftDelta rt store.draft payload), payload.rev⟩ :=
  if_neg (Nat.not_le.mpr new)

/-- The store of an attending client and the accumulator after a sequence of messages. -/
theorem attendant_append (acc : Accumulator) (store : Store) (before after : List Message) :
    attendant rt acc store (before ++ after) =
      attendant rt (broadcast rt acc before).1 (attendant rt acc store before) after := by
  induction before generalizing acc store with
  | nil => rfl
  | cons message later ih => exact ih _ _

theorem attendant_attends (messages : List Message) {acc : Accumulator} {store : Store}
    (attends : messages.any starts = false → Attends acc store.draft)
    (recent : store.draftRev ≤ acc.rev) (plain : AllPlain rt acc messages) :
    Attends (broadcast rt acc messages).1 (attendant rt acc store messages).draft := by
  induction messages generalizing acc store with
  | nil => exact attends rfl
  | cons message later ih =>
    simp only [broadcast, attendant]
    have quiet : ∀ {first}, starts message = first → (message :: later).any starts = (first || later.any starts) := by
      intro first isFirst
      rw [List.any_cons, isFirst]
    rcases applyStreamEvent_cases rt acc message with
      ⟨messageId, start, result⟩ | ⟨start, result⟩ | ⟨messageId, index, change, start, current, result, fits⟩
    · have tail := plain.2
      rw [result] at tail ⊢
      rw [start]
      exact ih (fun _ => ⟨rfl, rfl⟩) recent tail
    · have tail := plain.2
      rw [result] at tail ⊢
      rw [start]
      exact ih (fun none => attends (by rw [quiet start, none]; rfl)) recent tail
    · have tail := plain.2
      rw [result] at tail ⊢
      rw [start]
      have new : store.draftRev < (acc.payload messageId index change).rev := Nat.lt_succ_of_le recent
      simp only [Option.toList_some, List.foldl_cons, List.foldl_nil, Bool.false_eq_true, if_false,
        applyDelta_of_lt new]
      refine ih ?_ (le_refl _) tail
      intro none
      have before := attends (by rw [quiet start, none]; rfl)
      exact mirrors_apply current before (fits (plain.1 none))

theorem attendant_recent (messages : List Message) {acc : Accumulator} {store : Store}
    (recent : store.draftRev ≤ acc.rev) :
    (attendant rt acc store messages).draftRev ≤ (broadcast rt acc messages).1.rev := by
  induction messages generalizing acc store with
  | nil => exact recent
  | cons message later ih =>
    simp only [broadcast, attendant]
    rcases applyStreamEvent_cases rt acc message with
      ⟨messageId, start, result⟩ | ⟨start, result⟩ | ⟨messageId, index, change, start, _, result, _⟩
    · rw [result, start]
      exact ih recent
    · rw [result, start]
      exact ih recent
    · rw [result, start]
      have new : store.draftRev < (acc.payload messageId index change).rev := Nat.lt_succ_of_le recent
      simp only [Option.toList_some, List.foldl_cons, List.foldl_nil, Bool.false_eq_true, if_false,
        applyDelta_of_lt new]
      exact ih (le_refl _)

end Attending

section Agreement

variable {rt : Runtime} {acc : Accumulator}

/-- Two mirrors that no delta can tell apart. -/
structure Similar (first second : Mirror) : Prop where
  messageId : first.messageId = second.messageId
  content : ∀ index, lookup first.content index = lookup second.content index
  toolJson : ∀ index, first.toolJson.get? index = second.toolJson.get? index

theorem Similar.refl (mirror : Mirror) : Similar mirror mirror := ⟨rfl, fun _ => rfl, fun _ => rfl⟩

inductive Agree : Option Mirror → Option Mirror → Prop
  | neither : Agree none none
  | both {first second : Mirror} (similar : Similar first second) : Agree (some first) (some second)

theorem similar_baseMirror {first second : Option Mirror} (agree : Agree first second)
    (messageId : String) (parent : Option String) :
    Similar (baseMirror first messageId parent) (baseMirror second messageId parent) := by
  cases agree with
  | neither => exact .refl _
  | both similar =>
    simp only [baseMirror, similar.messageId]
    split_ifs
    · exact similar
    · exact .refl _

theorem messageId_applyDraftDelta (draft : Option Mirror) (payload : Payload) :
    (applyDraftDelta rt draft payload).messageId = payload.messageId := by
  have base : (baseMirror draft payload.messageId payload.parentToolUseId).messageId =
      payload.messageId := by
    unfold baseMirror
    split
    · split_ifs with same
      · exact same
      · rfl
    · rfl
  unfold applyDraftDelta
  cases payload.change <;> exact base

/-- A draft of another message counts as none. -/
theorem similar_of_other {messageId : String} {draft : Option Mirror}
    (other : draft.map Mirror.messageId ≠ acc.messageId) (current : acc.messageId = some messageId)
    (parent : Option String) :
    Similar (baseMirror draft messageId parent) (baseMirror none messageId parent) := by
  cases draft with
  | none => exact .refl _
  | some mirror =>
    have apart : mirror.messageId ≠ messageId := by
      intro same
      rw [Option.map_some, same] at other
      exact other current.symm
    rw [baseMirror, if_neg apart]
    exact .refl _

theorem similar_applyDraftDelta {first second : Option Mirror} {payload : Payload}
    (base : Similar (baseMirror first payload.messageId payload.parentToolUseId)
      (baseMirror second payload.messageId payload.parentToolUseId)) :
    Similar (applyDraftDelta rt first payload) (applyDraftDelta rt second payload) := by
  unfold applyDraftDelta
  cases payload.change with
  | blockStart block =>
    refine ⟨base.messageId, ?_, base.toolJson⟩
    intro index
    rw [lookup_assign, lookup_assign, base.content index]
  | chunk kind chunk =>
    refine ⟨base.messageId, ?_, ?_⟩
    · intro index
      simp only [lookup_assign, base.content, base.toolJson]
    · intro index
      simp only
      split_ifs
      · rw [Dict.get?_set, Dict.get?_set, base.toolJson, base.toolJson]
      · exact base.toolJson index

theorem Agree.same {first second : Store} (agree : Agree first.draft second.draft) :
    first.messageId = second.messageId ∧ first.rendered = second.rendered := by
  obtain ⟨draft, rev⟩ := first
  obtain ⟨draft', rev'⟩ := second
  cases agree with
  | neither => exact ⟨rfl, rfl⟩
  | both similar =>
    refine ⟨congrArg some similar.messageId, filterMap_eq_of_lookup ?_⟩
    intro n
    have at_n := similar.content n
    unfold lookup at at_n
    rwa [if_pos (Int.natCast_nonneg n), if_pos (Int.natCast_nonneg n), Int.toNat_natCast] at at_n

/-- A client that reconnects with a draft of `held` and one that attends, until the end. -/
theorem agree_run (messages : List Message) {acc : Accumulator} {held : Option String} {known : Bool}
    {there back : Store} (holds : back.draft.map Mirror.messageId = held)
    (thereRecent : there.draftRev ≤ acc.rev) (backRecent : back.draftRev ≤ acc.rev)
    (alike : messages.any starts = false →
      if known then Agree back.draft there.draft else there.draft = none)
    (fair : tracked rt acc held known messages = true) :
    Agree ((broadcast rt acc messages).2.foldl (Store.applyDelta rt) back).draft
      (attendant rt acc there messages).draft := by
  induction messages generalizing acc held known there back with
  | nil =>
    have now := alike rfl
    cases known with
    | true => exact now
    | false =>
      have nothing : held = none := Option.isNone_iff_eq_none.mp fair
      rw [nothing, Option.map_eq_none_iff] at holds
      simp only [broadcast, attendant, List.foldl_nil, holds]
      rw [show there.draft = none from now]
      exact .neither
  | cons message later ih =>
    simp only [broadcast, attendant]
    unfold tracked at fair
    rcases applyStreamEvent_cases rt acc message with
      ⟨messageId, start, result⟩ | ⟨start, result⟩ | ⟨messageId, index, change, start, current, result, _⟩
    · rw [result, start] at fair
      rw [result, start]
      exact @ih _ _ false _ _ holds thereRecent backRecent (fun _ => rfl) fair
    · rw [result, start] at fair
      rw [result, start]
      refine ih holds thereRecent backRecent ?_ fair
      intro quiet
      exact alike (by rw [List.any_cons, start, quiet]; rfl)
    · rw [result, start] at fair
      rw [result, start]
      simp only [Option.isSome_some, if_true, Bool.false_eq_true, if_false, Bool.and_eq_true] at fair
      have thereNew : there.draftRev < (acc.payload messageId index change).rev :=
        Nat.lt_succ_of_le thereRecent
      have backNew : back.draftRev < (acc.payload messageId index change).rev :=
        Nat.lt_succ_of_le backRecent
      simp only [Option.toList_some, List.foldl_cons, List.foldl_nil, Bool.false_eq_true, if_false,
        List.foldl_append, applyDelta_of_lt thereNew, applyDelta_of_lt backNew]
      refine ih ?_ (le_refl _) (le_refl _) ?_ fair.2
      · exact (congrArg some (messageId_applyDraftDelta back.draft _)).trans current.symm
      · intro quiet
        have before := alike (by rw [List.any_cons, start, quiet]; rfl)
        refine .both (similar_applyDraftDelta ?_)
        cases known with
        | true => exact similar_baseMirror before _ _
        | false =>
          rw [show there.draft = none from before]
          exact similar_of_other (holds.symm ▸ bne_iff_ne.mp fair.1) current _

end Agreement

section Snapshots

variable {rt : Runtime} {acc : Accumulator} {mirror : Mirror}

theorem mem_ordered (acc : Accumulator) (index : Int) (block : Block) :
    (index, block) ∈ acc.ordered ↔ acc.blocks.get? index = some block := by
  rw [Accumulator.ordered, List.mem_insertionSort, Dict.get?_eq_some_iff]

theorem sorted_ordered (acc : Accumulator) :
    acc.ordered.Pairwise fun first second => first.1 < second.1 := by
  have total : Std.Total fun first second : Int × Block => first.1 ≤ second.1 :=
    ⟨fun first second => le_total first.1 second.1⟩
  have trans : IsTrans (Int × Block) fun first second => first.1 ≤ second.1 :=
    ⟨fun _ _ _ before after => le_trans before after⟩
  have weakly := List.pairwise_insertionSort (fun first second : Int × Block => first.1 ≤ second.1)
    acc.blocks.entries
  have perm := List.perm_insertionSort (fun first second : Int × Block => first.1 ≤ second.1)
    acc.blocks.entries
  have distinct := (perm.map Prod.fst).nodup_iff.mpr acc.blocks.distinct
  refine (weakly.and (List.pairwise_map.mp distinct)).imp ?_
  intro first second both
  exact lt_of_le_of_ne both.1 both.2

theorem bounded_mem {index : Int} {block : Block} (bounded : acc.bounded = true)
    (found : acc.blocks.get? index = some block) : 0 ≤ index ∧ index < maxLength := by
  have known := (Dict.mem_keys_iff acc.blocks index).mpr ⟨block, found⟩
  exact decide_eq_true_iff.mp (List.all_eq_true.mp bounded index known)

/-- What the attending client has at an index. -/
theorem lookup_mirrors (mirrors : Mirrors acc mirror) (bounded : acc.bounded = true) (n : Nat) :
    mirror.content[n]?.join = acc.blocks.get? n := by
  by_cases high : (n : Int) < maxLength
  · have found := mirrors.content n (Int.natCast_nonneg n) high
    unfold lookup at found
    rwa [if_pos (Int.natCast_nonneg n), Int.toNat_natCast] at found
  · have outside : mirror.content[n]? = none := by
      rw [List.getElem?_eq_none_iff]
      have short := mirrors.short
      omega
    rw [outside]
    symm
    rw [Option.join_none, Option.eq_none_iff_forall_ne_some]
    intro block found
    exact high (bounded_mem bounded found).2

theorem rendered_eq_ordered (mirrors : Mirrors acc mirror) (bounded : acc.bounded = true) :
    mirror.content.filterMap id = acc.ordered.map Prod.snd := by
  refine filterMap_eq_of_entries 0 (sorted_ordered acc) ?_ ?_
  · intro entry member
    exact (bounded_mem bounded ((mem_ordered acc entry.1 entry.2).mp member)).1
  · intro n block
    rw [lookup_mirrors mirrors bounded n, Int.zero_add, mem_ordered]

/-- With dense indices, the place of a block in the snapshot is its index. -/
theorem lookup_ordered (dense : acc.dense = true) (n : Nat) :
    ((acc.ordered.map Prod.snd).map some)[n]?.join = acc.blocks.get? n := by
  have keys : acc.ordered.map Prod.fst = (List.range acc.blocks.size).map Int.ofNat := beq_iff_eq.mp dense
  rw [List.getElem?_map, List.getElem?_map]
  have key := congrArg (fun list => list[n]?) keys
  simp only [List.getElem?_map] at key
  cases found : acc.ordered[n]? with
  | none =>
    symm
    rw [Option.map_none, Option.map_none, Option.join_none, Option.eq_none_iff_forall_ne_some]
    intro block known
    have member : (n : Int) ∈ acc.ordered.map Prod.fst :=
      List.mem_map_of_mem ((mem_ordered acc n block).mpr known)
    rw [keys, List.mem_map] at member
    obtain ⟨other, inRange, same⟩ := member
    have isN : other = n := Int.ofNat.inj same
    rw [isN] at inRange
    rw [found, List.getElem?_eq_getElem (by simpa using inRange)] at key
    cases key
  | some entry =>
    have size : n < acc.ordered.length := (List.getElem?_eq_some_iff.mp found).1
    have range : n < (List.range acc.blocks.size).length := by
      rw [Accumulator.ordered, List.length_insertionSort] at size
      rwa [List.length_range]
    rw [found, List.getElem?_eq_getElem range, List.getElem_range] at key
    have isN : entry.1 = n := Option.some.inj key
    have known := (mem_ordered acc entry.1 entry.2).mp (List.mem_of_getElem? found)
    rw [← isN, known]
    rfl

/-- The snapshot is none for a client without a draft, and one of the same message otherwise. -/
theorem snapshot_of_attends {draft : Option Mirror} (attends : Attends acc draft) :
    (draft = none ∧ acc.snapshot = none) ∨
    ∃ mirror, draft = some mirror ∧ Mirrors acc mirror ∧ acc.snapshot =
      some ⟨mirror.messageId, acc.parentToolUseId, acc.ordered.map Prod.snd, acc.toolInputJson⟩ := by
  unfold Accumulator.snapshot
  cases draft with
  | none =>
    left
    refine ⟨rfl, ?_⟩
    rw [attends.1]
    cases acc.messageId <;> rfl
  | some mirror =>
    right
    obtain ⟨mirrors, filled⟩ := attends
    refine ⟨mirror, rfl, mirrors, ?_⟩
    rw [mirrors.messageId]
    exact if_neg fun empty => filled (List.isEmpty_iff.mp empty)

theorem snapshot_agrees {draft : Option Mirror} (attends : Attends acc draft)
    (bounded : acc.bounded = true) (dense : acc.dense = true) (rev : Nat) :
    Agree (Store.setDraftSnapshot acc.snapshot rev).draft draft := by
  rcases snapshot_of_attends attends with ⟨none, taken⟩ | ⟨mirror, isMirror, mirrors, taken⟩
  · rw [none, taken]
    exact .neither
  · rw [isMirror, taken]
    refine .both ⟨rfl, ?_, fun index => (mirrors.toolJson index).symm⟩
    intro index
    unfold lookup
    by_cases low : 0 ≤ index
    · rw [if_pos low, if_pos low, lookup_mirrors mirrors bounded]
      exact lookup_ordered dense index.toNat
    · rw [if_neg low, if_neg low]

theorem snapshot_same {store : Store} (attends : Attends acc store.draft)
    (bounded : acc.bounded = true) (rev : Nat) :
    (Store.setDraftSnapshot acc.snapshot rev).messageId = store.messageId ∧
      (Store.setDraftSnapshot acc.snapshot rev).rendered = store.rendered := by
  unfold Store.messageId Store.rendered
  rcases snapshot_of_attends attends with ⟨none, taken⟩ | ⟨mirror, isMirror, mirrors, taken⟩
  · rw [none, taken]
    exact ⟨rfl, rfl⟩
  · rw [isMirror, taken]
    refine ⟨rfl, ?_⟩
    show ((acc.ordered.map Prod.snd).map some).filterMap id = mirror.content.filterMap id
    rw [rendered_eq_ordered mirrors bounded, List.filterMap_map]
    exact List.filterMap_some

theorem attendant_silent (messages : List Message) {acc : Accumulator} {store : Store}
    (quiet : messages.any starts = false) (silent : (broadcast rt acc messages).2 = []) :
    attendant rt acc store messages = store := by
  induction messages generalizing acc with
  | nil => rfl
  | cons message later ih =>
    rw [List.any_cons, Bool.or_eq_false_iff] at quiet
    simp only [broadcast, List.append_eq_nil_iff, Option.toList_eq_nil_iff] at silent
    simp only [attendant, quiet.1, silent.1]
    exact ih quiet.2 silent.2

end Snapshots

section Reconnecting

variable {rt : Runtime}

theorem reconnecting_client_sees_same_draft (rt : Runtime) (before after : List Message)
    (faithful : Faithful rt before after) :
    (reconnected rt before after).messageId =
        (attendant rt .start ⟨none, 0⟩ (before ++ after)).messageId ∧
      (reconnected rt before after).rendered =
        (attendant rt .start ⟨none, 0⟩ (before ++ after)).rendered := by
  rw [attendant_append]
  unfold reconnected
  have fair := faithful.tracked
  have recent : (attendant rt .start ⟨none, 0⟩ before).draftRev ≤ (broadcast rt .start before).1.rev :=
    attendant_recent before (le_refl 0)
  have attends : after.any starts = false →
      Attends (broadcast rt .start before).1 (attendant rt .start ⟨none, 0⟩ before).draft :=
    fun quiet => attendant_attends before (fun _ => ⟨rfl, rfl⟩) (le_refl 0) (faithful.plain quiet).1
  have dense := faithful.dense
  have plain := faithful.plain
  generalize (broadcast rt .start before).1 = acc at *
  have holds : (Store.setDraftSnapshot acc.snapshot acc.rev).draft.map Mirror.messageId =
      acc.snapshot.map Snapshot.messageId := by
    cases acc.snapshot <;> rfl
  by_cases quiet : after.any starts = false
  · by_cases silent : (broadcast rt acc after).2 = []
    · simp only [silent, List.foldl_nil, attendant_silent after quiet silent]
      exact snapshot_same (attends quiet) (plain quiet).2 acc.rev
    · refine (agree_run after holds recent (le_refl _) ?_ fair).same
      intro _
      exact snapshot_agrees (attends quiet) (plain quiet).2 (dense quiet silent) acc.rev
  · exact (agree_run after holds recent (le_refl _) (fun none => absurd none quiet) fair).same

private def textBlock (text : String) : Block :=
  ((.empty : Block).set "type" (.str "text")).set "text" (.str text)

private def toolBlock : Block :=
  ((((.empty : Block).set "type" (.str "tool_use")).set "id" (.str "toolu_1")).set "name"
    (.str "shoot")).set "input" (.obj [])

/-- The languages on strings and on the texts of these examples. -/
private def sample : Runtime where
  pyFormat | .str text => text | _ => ""
  jsFormat | .str text => text | _ => ""
  loads text := if text = "\x7b\"shot\": 1\x7d" then some (.obj [("shot", .int 1)]) else none
  parse text := if text = "\x7b\"shot\": 1\x7d" then some (.obj [("shot", .int 1)]) else none
  pyFormat_str _ := rfl
  jsFormat_str _ := rfl

private def toolStream : List Message :=
  [⟨none, .messageStart (some "msg_1")⟩,
    ⟨none, .contentBlockStart (some 0) (some (textBlock ""))⟩,
    ⟨none, .contentBlockDelta .text (some 0) "Sho"⟩,
    ⟨none, .contentBlockStart (some 1) (some toolBlock)⟩,
    ⟨none, .contentBlockDelta .inputJson (some 1) "\x7b\"shot\": "⟩]

private def toolRest : List Message :=
  [⟨none, .contentBlockDelta .inputJson (some 1) "1\x7d"⟩,
    ⟨none, .contentBlockDelta .text (some 0) "ot"⟩]

theorem reconnecting_client_sees_same_tool :
    (reconnected sample toolStream toolRest).messageId =
        (attendant sample .start ⟨none, 0⟩ (toolStream ++ toolRest)).messageId ∧
      (reconnected sample toolStream toolRest).rendered =
        (attendant sample .start ⟨none, 0⟩ (toolStream ++ toolRest)).rendered := by
  apply reconnecting_client_sees_same_draft
  refine ⟨fun _ => ⟨?_, by decide⟩, fun _ _ => by decide, by decide⟩
  refine ⟨fun _ => trivial, fun _ => trivial, fun _ _ => ⟨?_, nofun⟩, fun _ => trivial,
    fun _ _ => ⟨?_, fun _ => rfl⟩, trivial⟩
  · decide
  · decide

/-- A snapshot forgets the index of a block behind a gap, and a chunk for a block of another type gives
different blocks on the two sides. -/
theorem sparse_or_retyped_block_differs :
    ¬((reconnected sample
          [⟨none, .messageStart (some "msg_1")⟩,
            ⟨none, .contentBlockStart (some 0) (some (textBlock "one"))⟩,
            ⟨none, .contentBlockStart (some 2) (some (textBlock "two"))⟩]
          [⟨none, .contentBlockDelta .text (some 2) "!"⟩]).rendered =
        (attendant sample .start ⟨none, 0⟩
          [⟨none, .messageStart (some "msg_1")⟩,
            ⟨none, .contentBlockStart (some 0) (some (textBlock "one"))⟩,
            ⟨none, .contentBlockStart (some 2) (some (textBlock "two"))⟩,
            ⟨none, .contentBlockDelta .text (some 2) "!"⟩]).rendered) ∧
      ¬((reconnected sample
          [⟨none, .messageStart (some "msg_1")⟩,
            ⟨none, .contentBlockStart (some 0) (some (textBlock "one"))⟩,
            ⟨none, .contentBlockDelta .thinking (some 0) "hm"⟩] []).rendered =
        (attendant sample .start ⟨none, 0⟩
          [⟨none, .messageStart (some "msg_1")⟩,
            ⟨none, .contentBlockStart (some 0) (some (textBlock "one"))⟩,
            ⟨none, .contentBlockDelta .thinking (some 0) "hm"⟩]).rendered) := by
  have texts : ∀ {first second : List Block}, first = second →
      first.map (fun block => (block.get? "text").bind Json.str?) =
        second.map (fun block => (block.get? "text").bind Json.str?) := fun same => same ▸ rfl
  constructor
  · intro same
    exact absurd (texts same) (by decide)
  · intro same
    exact absurd (texts same) (by decide)

end Reconnecting

end ArcReel.Draft
