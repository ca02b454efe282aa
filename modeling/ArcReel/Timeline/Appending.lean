import ArcReel.Timeline.Anchors

/-! `appendOne` as a sequence of steps: every entry, also a malformed one, is folded by
site registrations, new groups and touched changes of one turn. -/

namespace ArcReel.Timeline
open ArcReel.Lib

namespace Core

variable {core : Core}

/-- Any number of steps. -/
def Moves (dirty : Bool) : Core → Core → Prop := Relation.ReflTransGen (Step dirty)

namespace Moves

variable {dirty : Bool} {later : Core}

theorem sound (moves : Moves dirty core later) (sound : Sound core) : Sound later := by
  induction moves with
  | refl => exact sound
  | tail _ step ih => exact step.sound ih

theorem holds (moves : Moves dirty core later) {site : ToolUseSite} {id : String}
    (held : core.Holds site id) : later.Holds site id := by
  induction moves with
  | refl => exact held
  | tail _ step ih => exact step.holds ih

theorem has (moves : Moves dirty core later) {key : Key} (known : core.has key = true) :
    later.has key = true := by
  induction moves with
  | refl => exact known
  | tail _ step ih => exact step.has ih

end Moves

section Turns

/-- An edit leaves every block at its place and every tool_use id as it is. -/
def Keeps (edit : List Block → List Block) : Prop :=
  ∀ (content : List Block) (index : Nat) (block : Block), content[index]? = some block →
    ∃ new, (edit content)[index]? = some new ∧ toolUse? new = toolUse? block

theorem keeps_append (blocks : List Block) : Keeps (· ++ blocks) := by
  intro content index block found
  refine ⟨block, ?_, rfl⟩
  rw [List.getElem?_append_left (List.getElem?_eq_some_iff.mp found).1]
  exact found

theorem keeps_modify (target : Nat) {change : Block → Block}
    (same : ∀ block, toolUse? (change block) = toolUse? block) : Keeps (·.modify target change) := by
  intro content index block found
  simp only [getElem?_modify_ite, found]
  split_ifs
  · exact ⟨change block, rfl, same block⟩
  · exact ⟨block, rfl, rfl⟩

theorem changed_modifyTurns {key : Key} {turn : Nat} (known : core.has key = true)
    {change : List InternalTurn → List InternalTurn}
    (others : ∀ index, index ≠ turn → (change (core.fold key).turns)[index]? = core.turn? key index)
    (kept : ∀ old, core.turn? key turn = some old → ∃ new,
      (change (core.fold key).turns)[turn]? = some new ∧ ∀ (index : Nat) block id,
        old.content[index]? = some block → toolUse? block = some id →
          ∃ block', new.content[index]? = some block' ∧ toolUse? block' = some id) :
    Changed core (core.modifyTurns key change) key turn where
  counter := versionCounter_setFold core key _
  size := le_of_eq (size_setFold core key _).symm
  fold := by
    intro other
    rw [modifyTurns, fold_setFold]
    split_ifs with here
    · rw [here.1]
    · rfl
  turns := by
    intro other index apart
    rw [turn?_modifyTurns]
    split_ifs with here
    · rw [here.1]
      exact others index fun same => apart ⟨here.1, same⟩
    · rfl
  holds := by
    intro site id held
    obtain ⟨old, block, found, atBlock, isId⟩ := held
    by_cases here : site.fold = key ∧ site.turn = turn
    · rw [here.1, here.2] at found
      obtain ⟨new, isNew, same⟩ := kept old found
      obtain ⟨block', atBlock', isId'⟩ := same site.block block id atBlock isId
      refine ⟨new, block', ?_, atBlock', isId'⟩
      rw [turn?_modifyTurns, if_pos ⟨here.1, known⟩, here.2]
      exact isNew
    · refine ⟨old, block, ?_, atBlock, isId⟩
      rw [turn?_modifyTurns]
      split_ifs with isKey
      · rw [others site.turn fun same => here ⟨isKey.1, same⟩, ← isKey.1]
        exact found
      · exact found
  anchor := by
    intro other
    left
    rw [modifyTurns, anchor_setFold]
  has := by
    intro other isKnown
    rw [modifyTurns, has_setFold]
    exact isKnown
  known := by
    rw [modifyTurns, has_setFold]
    exact known

theorem sound_modifyTurns (sound : Sound core) {key : Key} {turn : Nat}
    {change : List InternalTurn → List InternalTurn}
    (changed : Changed core (core.modifyTurns key change) key turn)
    (low : ∀ new, (core.modifyTurns key change).turn? key turn = some new →
      new.version ≤ core.versionCounter) : Sound (core.modifyTurns key change) := by
  refine sound.of_same ⟨?_, ?_⟩ (anchor_setFold core key _) (funext fun other => has_setFold core key other _)
    (pendingGroups_setFold core key _) (toolUseSites_setFold core key _) changed.holds
  · intro other index new found
    rw [changed.counter]
    by_cases here : other = key ∧ index = turn
    · rw [here.1, here.2] at found
      exact low new found
    · rw [changed.turns other index here] at found
      exact sound.bounded.turn other index new found
  · intro other
    rw [changed.fold, changed.counter]
    exact sound.bounded.fold other

theorem step_editTurn (sound : Sound core) {key : Key} (known : core.has key = true) (turn : Nat)
    {edit : List Block → List Block} (keeps : Keeps edit) : Step true core (core.editTurn key turn edit) := by
  have changed : Changed core (core.modifyTurns key (·.modify turn fun old =>
      { old with content := edit old.content })) key turn := by
    refine changed_modifyTurns known ?_ ?_
    · intro index apart
      rw [getElem?_modify_ite, if_neg apart]
      rfl
    · intro old found
      refine ⟨{ old with content := edit old.content }, ?_, ?_⟩
      · rw [getElem?_modify_ite, if_pos rfl, show (core.fold key).turns[turn]? = some old from found]
        rfl
      · intro index block id atBlock isId
        obtain ⟨new, atNew, same⟩ := keeps old.content index block atBlock
        exact ⟨new, atNew, same.trans isId⟩
  refine .touch changed (sound_modifyTurns sound changed ?_)
  intro new found
  rw [turn?_modifyTurns, if_pos ⟨rfl, known⟩, getElem?_modify_ite, if_pos rfl,
    Option.map_eq_some_iff] at found
  obtain ⟨old, isOld, same⟩ := found
  rw [← same]
  exact sound.bounded.turn key turn old isOld

theorem step_startTurn (sound : Sound core) {key : Key} (known : core.has key = true) (type : TurnType)
    (content : List Block) (entry : Entry) :
    Step true core (core.startTurn key type content entry).1 := by
  have changed : Changed core (core.modifyTurns key
      (· ++ [⟨type, content, entry.uuid, entry.timestamp, 0⟩])) key (core.fold key).turns.length := by
    refine changed_modifyTurns known ?_ ?_
    · intro index apart
      rw [List.getElem?_append]
      split_ifs with inside
      · rfl
      · have outside : (core.fold key).turns[index]? = none := List.getElem?_eq_none_iff.mpr (by omega)
        rw [turn?, outside]
        exact List.getElem?_eq_none_iff.mpr (by rw [List.length_singleton]; omega)
    · intro old found
      have inside := (List.getElem?_eq_some_iff.mp found).1
      omega
  refine .touch changed (sound_modifyTurns sound changed ?_)
  intro new found
  rw [turn?_modifyTurns, if_pos ⟨rfl, known⟩, List.getElem?_concat_length] at found
  rw [← Option.some.inj found]
  exact Nat.zero_le _

/-- The blocks of a new turn. -/
theorem holds_startTurn {key : Key} (known : core.has key = true) {type : TurnType}
    {content : List Block} {entry : Entry} {index : Nat} {block : Block} {id : String}
    (atBlock : content[index]? = some block) (isId : toolUse? block = some id) :
    (core.startTurn key type content entry).1.Holds
      ⟨key, (core.startTurn key type content entry).2, index⟩ id := by
  refine (later_touch _ _ _).holds ⟨⟨type, content, entry.uuid, entry.timestamp, 0⟩, block, ?_, atBlock, isId⟩
  rw [turn?_modifyTurns, if_pos ⟨rfl, known⟩]
  exact List.getElem?_concat_length

/-- The blocks that are added to a turn. -/
theorem holds_editTurn {key : Key} {turn : Nat} {old : InternalTurn} (found : core.turn? key turn = some old)
    {blocks : List Block} {index : Nat} {block : Block} {id : String}
    (atBlock : blocks[index]? = some block) (isId : toolUse? block = some id) :
    (core.editTurn key turn (· ++ blocks)).Holds ⟨key, turn, old.content.length + index⟩ id := by
  refine (later_touch _ _ _).holds ⟨{ old with content := old.content ++ blocks }, block, ?_, ?_, isId⟩
  · rw [turn?_modifyTurns, if_pos ⟨rfl, has_of_turn? found⟩, getElem?_modify_ite, if_pos rfl,
      show (core.fold key).turns[turn]? = some old from found]
    rfl
  · show (old.content ++ blocks)[old.content.length + index]? = some block
    rw [List.getElem?_append_right (Nat.le_add_right _ _), Nat.add_sub_cancel_left]
    exact atBlock

end Turns

section Anchoring

variable {id : String} {site : ToolUseSite} {group : SubagentGroup}

/-- The depth of a fold is at most the number of groups. -/
theorem depth_le_size {depth : Key → Nat} (forest : Forest core.parent depth) (key : Key) :
    depth key ≤ core.groups.size := by
  have inner : ∀ node, (core.parent node).isSome = true → node ∈ core.groups.keys.map Key.group := by
    intro node anchored
    cases node with
    | main => cases anchored
    | group id =>
      cases known : core.groups.get? id with
      | none => simp [parent, anchor, known] at anchored
      | some group =>
        exact List.mem_map_of_mem ((Dict.mem_keys_iff core.groups id).mpr ⟨group, known⟩)
  have short := forest.depth_le inner key
  rwa [List.length_map, Dict.length_keys] at short

/-- The loops visit everything above a fold. -/
theorem mem_chain (forest : ∃ depth, Forest core.parent depth) (key above : Key) :
    above ∈ core.chain key ↔ Relation.ReflTransGen (Up core.parent) key above := by
  obtain ⟨depth, forest⟩ := forest
  have short := depth_le_size forest key
  exact mem_climb forest (Nat.lt_succ_of_le short) (fun _ member => absurd member List.not_mem_nil) above

theorem anchor_setAnchor (core : Core) (id : String) (group : SubagentGroup) (site : ToolUseSite)
    (pending : List String) :
    ({ core.setAnchor id group site with pendingGroups := pending } : Core).anchor =
      Function.update core.anchor (.group id) (some site) := by
  funext key
  cases key with
  | main => rfl
  | group other =>
    by_cases same : other = id
    · simp [setAnchor, anchor, Dict.get?_set, same]
    · have apart : Key.group other ≠ Key.group id := by simpa using same
      rw [Function.update_of_ne apart]
      simp [setAnchor, anchor, Dict.get?_set, same]

theorem fold_setAnchor (known : core.groups.get? id = some group) (site : ToolUseSite)
    (pending : List String) :
    ({ core.setAnchor id group site with pendingGroups := pending } : Core).fold = core.fold := by
  funext key
  cases key with
  | main => rfl
  | group other =>
    by_cases same : other = id
    · simp [setAnchor, Core.fold, Dict.get?_set, same, known]
    · simp [setAnchor, Core.fold, Dict.get?_set, same]

theorem has_setAnchor (known : core.groups.get? id = some group) (site : ToolUseSite)
    (pending : List String) :
    ({ core.setAnchor id group site with pendingGroups := pending } : Core).has = core.has := by
  funext key
  cases key with
  | main => rfl
  | group other =>
    by_cases same : other = id
    · simp [setAnchor, Core.has, Dict.get?_set, same, known]
    · simp [setAnchor, Core.has, Dict.get?_set, same]

theorem parent_setAnchor (core : Core) (id : String) (group : SubagentGroup) (site : ToolUseSite)
    (pending : List String) :
    ({ core.setAnchor id group site with pendingGroups := pending } : Core).parent =
      Function.update core.parent (.group id) (some site.fold) := by
  funext key
  unfold parent
  rw [anchor_setAnchor]
  by_cases same : key = .group id
  · rw [same, Function.update_self, Function.update_self]
    rfl
  · rw [Function.update_of_ne same, Function.update_of_ne same]

/-- A waiting group is anchored. -/
theorem step_anchor (sound : Sound core) (known : core.groups.get? id = some group)
    (waits : group.anchor = none) (held : core.Holds site id)
    (free : core.anchorCreatesCycle site.fold (.group id) = false) :
    Step true core (({ core.setAnchor id group site with
      pendingGroups := core.pendingGroups.filter (· ≠ id) }).touch site.fold site.turn) := by
  have fold := fold_setAnchor known site (core.pendingGroups.filter (· ≠ id))
  have has := has_setAnchor known site (core.pendingGroups.filter (· ≠ id))
  have anchor := anchor_setAnchor core id group site (core.pendingGroups.filter (· ≠ id))
  have parent := parent_setAnchor core id group site (core.pendingGroups.filter (· ≠ id))
  have holds : ∀ other name, core.Holds other name → ({ core.setAnchor id group site with
      pendingGroups := core.pendingGroups.filter (· ≠ id) } : Core).Holds other name := by
    intro other name old
    unfold Holds turn? at old ⊢
    rwa [fold]
  have root : core.anchor (.group id) = none := by
    rw [Core.anchor, known]
    exact waits
  have apart : ¬Relation.ReflTransGen (Up core.parent) site.fold (.group id) := by
    rw [← mem_chain sound.forest]
    exact of_decide_eq_false free
  have knownFold : core.has site.fold = true := by
    obtain ⟨_, _, found, _⟩ := held
    exact has_of_turn? found
  refine .touch ⟨rfl, ?_, ?_, ?_, holds, ?_, ?_, ?_⟩ ⟨?_, ⟨?_, ?_⟩, ?_, ?_, ?_, ?_⟩
  · exact le_of_eq (Dict.size_set_known known _).symm
  · rw [fold]
    exact fun _ => rfl
  · unfold turn?
    rw [fold]
    exact fun _ _ _ => rfl
  · intro other
    rw [anchor]
    by_cases same : other = .group id
    · right
      rw [same, Function.update_self]
      exact ⟨root, site.block, rfl⟩
    · left
      rw [Function.update_of_ne same]
  · rw [has]
    exact fun _ isKnown => isKnown
  · rw [has]
    exact knownFold
  · rw [parent]
    obtain ⟨depth, forest⟩ := sound.forest
    refine forest.link ?_ apart
    rw [Core.parent, root]
    rfl
  · unfold turn?
    rw [fold]
    exact sound.bounded.turn
  · rw [fold]
    exact sound.bounded.fold
  · intro other place found
    rw [anchor] at found
    by_cases same : Key.group other = .group id
    · rw [same, Function.update_self] at found
      rw [← Option.some.inj found, Key.group.inj same]
      exact holds site id held
    · rw [Function.update_of_ne same] at found
      exact holds place other (sound.anchored other place found)
  · exact fun other place found => holds place other (sound.sites other place found)
  · intro other
    rw [has, anchor, List.mem_filter, sound.pending, decide_eq_true_iff]
    by_cases same : other = id
    · rw [same, Function.update_self]
      simp
    · have apart : Key.group other ≠ .group id := by simpa using same
      rw [Function.update_of_ne apart]
      simp [same]
  · exact sound.distinct.filter _

theorem moves_registerSite (held : core.Holds site id) :
    Moves true core (core.registerSite id site) ∧
      ((core.registerSite id site).toolUseSites.get? id).isSome = true := by
  unfold registerSite
  split_ifs with known
  · exact ⟨.refl, known⟩
  · refine ⟨.single (.site ?_ held), ?_⟩
    · simpa using known
    · simp [Dict.get?_set]

theorem moves_anchorWaiting (sound : Sound core) (id : String) :
    Moves true core (core.anchorWaiting id) := by
  unfold anchorWaiting
  split
  next group site known registered =>
    split_ifs with free
    · rw [Bool.and_eq_true, Option.isNone_iff_eq_none, Bool.not_eq_true'] at free
      exact .single (step_anchor sound known free.1 (sound.sites id site registered) free.2)
    · exact .refl
  next => exact .refl

theorem moves_registerToolUse (sound : Sound core) {key : Key} {turn block : Nat} {id : Option String}
    (held : ∀ name, truthy id = some name → core.Holds ⟨key, turn, block⟩ name) :
    Moves true core (core.registerToolUse key turn block id) := by
  unfold registerToolUse
  cases isId : truthy id with
  | none => exact .refl
  | some name =>
    have registered := (moves_registerSite (held name isId)).1
    exact registered.trans (moves_anchorWaiting (registered.sound sound) name)

theorem moves_registerAll (blocks : List Block) {core : Core} (sound : Sound core) {key : Key}
    {turn first : Nat}
    (held : ∀ (index : Nat) block name, blocks[index]? = some block → toolUse? block = some name →
      core.Holds ⟨key, turn, first + index⟩ name) :
    Moves true core (core.registerAll key turn first blocks) := by
  induction blocks generalizing core first with
  | nil => exact .refl
  | cons block later ih =>
    unfold registerAll
    have registered : Moves true core (if block.type = "tool_use" then
        core.registerToolUse key turn first block.id else core) := by
      split_ifs with isUse
      · refine moves_registerToolUse sound ?_
        intro name isId
        refine held 0 block name rfl ?_
        rw [toolUse?, if_pos isUse]
        exact isId
      · exact .refl
    refine registered.trans (ih (registered.sound sound) ?_)
    intro index other name found isId
    have place := held (index + 1) other name found isId
    rw [show first + (index + 1) = first + 1 + index by omega] at place
    exact registered.holds place

theorem moves_groupFoldFor (sound : Sound core) (parentId : String) :
    Moves (core.groupFoldFor parentId).2 core (core.groupFoldFor parentId).1 ∧
      (core.groupFoldFor parentId).1.has (.group parentId) = true := by
  unfold groupFoldFor
  split_ifs with known
  · exact ⟨.refl, known⟩
  · have new : core.groups.get? parentId = none := by simpa using known
    have added : Step true core _ := .group new
    have isKnown : ({ core with
        groups := core.groups.set parentId ⟨newFold, none⟩
        pendingGroups := core.pendingGroups ++ [parentId] } : Core).has (.group parentId) = true := by
      rw [has_addGroup]
      simp
    cases registered : core.toolUseSites.get? parentId with
    | none => exact ⟨.single added, isKnown⟩
    | some site =>
      by_cases cycle : ({ core with groups := core.groups.set parentId ⟨newFold, none⟩ } : Core).anchorCreatesCycle
          site.fold (.group parentId) = true
      · simp only [if_pos cycle]
        exact ⟨.single added, isKnown⟩
      · simp only [if_neg cycle]
        have absent : parentId ∉ core.pendingGroups := by
          rw [sound.pending]
          simp [has, new]
        have same : (core.pendingGroups ++ [parentId]).filter (· ≠ parentId) = core.pendingGroups := by
          rw [List.filter_append, List.filter_eq_self.mpr]
          · simp
          · intro other member
            have apart : other ≠ parentId := fun equal => absent (equal ▸ member)
            simpa using apart
        have found : (core.groups.set parentId ⟨newFold, none⟩).get? parentId = some ⟨newFold, none⟩ := by
          rw [Dict.get?_set, if_pos rfl]
        have anchored := step_anchor (added.sound sound) found rfl
          (added.holds (sound.sites parentId site registered)) (Bool.eq_false_iff.mpr cycle)
        simp only [same] at anchored
        exact ⟨.tail (.single added) anchored, anchored.has isKnown⟩

end Anchoring

section Entries

theorem moves_attachSystemBlock (sound : Sound core) {key : Key} (known : core.has key = true)
    (entry : Entry) (block : Block) : Moves true core (core.attachSystemBlock key entry block) := by
  unfold attachSystemBlock
  split
  · exact .single (step_editTurn sound known _ (keeps_append _))
  · exact .single (step_startTurn sound known _ _ _)

theorem moves_applyTaskBlock (sound : Sound core) {key : Key} (known : core.has key = true)
    (entry : Entry) (taskBlock : Block) (updateOnly : Bool) :
    Moves true core (core.applyTaskBlock key entry taskBlock updateOnly) := by
  unfold applyTaskBlock
  simp only
  split
  · exact .single (step_editTurn sound known _ (keeps_modify _ fun _ => rfl))
  · exact moves_attachSystemBlock sound known entry taskBlock

theorem moves_appendAssistant (sound : Sound core) {key : Key} (known : core.has key = true)
    (entry : Entry) : Moves true core (core.appendAssistant key entry) := by
  unfold appendAssistant
  simp only
  split
  next turn cursor =>
    have edited := step_editTurn sound known turn (keeps_append (entryBlocks entry))
    refine .head edited (moves_registerAll _ (edited.sound sound) ?_)
    intro index block name found isId
    have isTurn : ∃ old, core.turn? key turn = some old := by
      unfold assistantCursor? cursor? at cursor
      rw [Option.map_eq_some_iff] at cursor
      obtain ⟨place, isCursor, isPlace⟩ := cursor
      rw [Option.filter_eq_some_iff, Option.map_eq_some_iff] at isCursor
      obtain ⟨⟨last, isLast, same⟩, _⟩ := isCursor
      refine ⟨last, ?_⟩
      rw [← isPlace, ← same, turn?, ← List.getLast?_eq_getElem?]
      exact isLast
    obtain ⟨old, isOld⟩ := isTurn
    rw [show (core.fold key).turns[turn]? = some old from isOld]
    exact holds_editTurn isOld found isId
  next =>
    have started := step_startTurn sound known .assistant (entryBlocks entry) entry
    refine .head started (moves_registerAll _ (started.sound sound) ?_)
    intro index block name found isId
    rw [Nat.zero_add]
    exact holds_startTurn known found isId

theorem has_siteOf {key : Key} {toolUseId : Option String} {site : ToolUseSite}
    (found : core.siteOf key toolUseId = some site) : site.fold = key := by
  unfold siteOf at found
  rw [Option.filter_eq_some_iff] at found
  exact of_decide_eq_true found.2

theorem moves_appendResult (sound : Sound core) {key : Key} (known : core.has key = true)
    (entry : Entry) : Moves true core (core.appendResult key entry) := by
  unfold appendResult
  split
  next site found =>
    rw [has_siteOf found]
    exact .single (step_editTurn sound known _ (keeps_modify _ fun _ => rfl))
  next => exact moves_attachSystemBlock sound known _ _

theorem moves_appendSystem (sound : Sound core) {key : Key} (known : core.has key = true)
    (entry : Entry) : Moves (core.appendSystem key entry).2 core (core.appendSystem key entry).1 := by
  unfold appendSystem
  split
  · exact .single (step_startTurn sound known _ _ _)
  · split
    · exact .refl
    · exact moves_attachSystemBlock sound known _ _
  · exact .single (step_startTurn sound known _ _ _)
  · split_ifs
    · exact moves_applyTaskBlock sound known _ _ _
    · exact .refl
  · exact .refl

theorem moves_appendAnswer (sound : Sound core) {key : Key} (known : core.has key = true)
    (entry : Entry) : Moves true core (core.appendAnswer key entry) := by
  unfold appendAnswer
  cases found : core.siteOf key entry.toolUseId with
  | none =>
    simp only
    split_ifs
    · exact moves_attachSystemBlock sound known _ _
    · exact .single (step_startTurn sound known _ _ _)
  | some site =>
    have answered : Step true core (core.editTurn site.fold site.turn
        (·.modify site.block (answerBlock entry))) := by
      rw [has_siteOf found]
      exact step_editTurn sound known _ (keeps_modify _ fun _ => rfl)
    simp only
    split_ifs
    · exact .single answered
    · exact .head answered (.single (step_startTurn (answered.sound sound) (answered.has known) _ _ _))

theorem moves_appendTo (sound : Sound core) {key : Key} (known : core.has key = true) (entry : Entry) :
    Moves (core.appendTo key entry).2 core (core.appendTo key entry).1 := by
  unfold appendTo
  split
  · exact moves_appendAssistant sound known entry
  · exact moves_appendResult sound known entry
  · exact moves_appendSystem sound known entry
  · split_ifs
    · exact moves_appendAnswer sound known entry
    · exact .single (step_startTurn sound known _ _ _)

theorem Moves.mono {first second : Bool} {later : Core} (moves : Moves first core later)
    (more : first = true → second = true) : Moves second core later := by
  induction moves with
  | refl => exact .refl
  | tail _ step ih =>
    refine .tail ih ?_
    cases step with
    | site new holds => exact .site new holds
    | group new =>
      rw [more rfl]
      exact .group new
    | touch changed sound =>
      rw [more rfl]
      exact .touch changed sound

theorem moves_appendOne (sound : Sound core) (entry : Entry) :
    Moves (core.appendOne entry).2 core (core.appendOne entry).1 := by
  unfold appendOne
  split
  next parentId _ =>
    obtain ⟨grouped, known⟩ := moves_groupFoldFor sound parentId
    have appended := moves_appendTo (grouped.sound sound) known entry
    refine (grouped.mono ?_).trans (appended.mono ?_)
    · intro created
      simp [created]
    · intro touched
      simp [touched]
  next => exact moves_appendTo sound rfl entry

theorem sound_start : Sound start := by
  have none : ∀ key, start.anchor key = none := fun key => by cases key <;> rfl
  refine ⟨⟨fun _ => 0, ?_, ?_⟩, ⟨?_, ?_⟩, ?_, nofun, ?_, .nil⟩
  · exact fun _ => rfl
  · intro node above up
    rw [parent, none] at up
    cases up
  · intro key index turn found
    cases key <;> simp [turn?, Core.fold, start, newFold] at found
  · intro key
    cases key <;> exact le_refl _
  · intro id site found
    rw [none] at found
    cases found
  · intro id
    simp [start, has]

end Entries

end Core

end ArcReel.Timeline
