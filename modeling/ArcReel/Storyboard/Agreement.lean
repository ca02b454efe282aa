import ArcReel.Storyboard.Plan

/-! A plan agrees with the previous image that a storyboard may read, and its dependencies are queued
before the storyboards that need them. -/

namespace ArcReel.Storyboard
open ArcReel.Lib ArcReel.Lib.PyText ArcReel.Queue

section Sequential

variable (codec : TextCodec) (projectName userId : String) (weather : CancelWeather) (atomic : Bool)

/-- What `_enqueue_sequentially` knows about a member that it has passed. -/
def Batch.Knows (batch : Batch) (name : String) : Prop :=
  name ∈ batch.failedResourceIds ∨ name ∈ batch.taskIds.keys

/-- A member ends the batch, or the batch goes on and knows the member. -/
theorem enqueueSequentially_cons (member : Member) (batch : Batch) :
    (∃ next : Batch, (∀ later, enqueueSequentially codec projectName userId weather atomic (member :: later) batch =
        enqueueSequentially codec projectName userId weather atomic later next) ∧
      (∀ name, Batch.Knows batch name → Batch.Knows next name) ∧
      Batch.Knows next member.spec.resourceId) ∨
    ∃ outcome table, (∀ later, enqueueSequentially codec projectName userId weather atomic (member :: later) batch =
        (outcome, table)) ∧ ∀ enqueued failures, outcome ≠ .done enqueued failures := by
  cases blocked : (truthy member.spec.dependencyResourceId).any batch.failedResourceIds.contains with
  | true =>
    refine .inl ⟨_, fun later => by rw [enqueueSequentially, if_pos blocked], ?_, ?_⟩
    · exact fun name known => known.imp_left (List.mem_append_left _)
    · exact .inl (List.mem_append_right _ (.head _))
  | false =>
    have unfolded := fun later => by
      have same := enqueueSequentially.eq_2 codec projectName userId weather atomic batch member later
      rw [if_neg (by rw [blocked]; exact Bool.false_ne_true)] at same
      exact same
    cases answer : enqueueTaskOnly codec projectName userId member
        ((truthy member.spec.dependencyResourceId).bind fun name => batch.taskIds.get? name) batch.table with
    | mk result table =>
      rw [answer] at unfolded
      cases result with
      | created taskId =>
        refine .inl ⟨_, unfolded, ?_, ?_⟩
        · exact fun name known => known.imp_right fun inside => (Dict.mem_keys_set _ _ _ _).mpr (.inl inside)
        · exact .inr ((Dict.mem_keys_set _ _ _ _).mpr (.inr rfl))
      | deduped taskId =>
        refine .inl ⟨_, unfolded, ?_, ?_⟩
        · exact fun name known => known.imp_right fun inside => (Dict.mem_keys_set _ _ _ _).mpr (.inl inside)
        · exact .inr ((Dict.mem_keys_set _ _ _ _).mpr (.inr rfl))
      | raised failure =>
        cases failure with
        | cancelled =>
          cases rolls : (atomic && batch.createdTaskIds.size != 0) with
          | true => exact .inr ⟨_, _, fun later => (unfolded later).trans (if_pos rolls), fun _ _ same => by cases same⟩
          | false =>
            exact .inr ⟨_, _, fun later => (unfolded later).trans (if_neg (by rw [rolls]; exact Bool.false_ne_true)), fun _ _ same => by cases same⟩
        | error message =>
          cases atomic with
          | true => exact .inr ⟨_, _, unfolded, fun _ _ same => by cases same⟩
          | false =>
            refine .inl ⟨_, unfolded, ?_, ?_⟩
            · exact fun name known => known.imp_left (List.mem_append_left _)
            · exact .inl (List.mem_append_right _ (.head _))

/-- The members in front either end the batch or are all known behind them. -/
theorem enqueueSequentially_append (before : List Member) (batch : Batch) :
    (∃ next : Batch, (∀ rest, enqueueSequentially codec projectName userId weather atomic (before ++ rest) batch =
        enqueueSequentially codec projectName userId weather atomic rest next) ∧
      (∀ name, Batch.Knows batch name → Batch.Knows next name) ∧
      ∀ member ∈ before, Batch.Knows next member.spec.resourceId) ∨
    ∃ outcome table, (∀ rest, enqueueSequentially codec projectName userId weather atomic (before ++ rest) batch =
        (outcome, table)) ∧ ∀ enqueued failures, outcome ≠ .done enqueued failures := by
  induction before generalizing batch with
  | nil =>
    exact .inl ⟨batch, fun rest => by rw [List.nil_append], fun _ known => known,
      fun member inside => absurd inside List.not_mem_nil⟩
  | cons member before ih =>
    cases enqueueSequentially_cons codec projectName userId weather atomic member batch with
    | inr ends =>
      obtain ⟨outcome, table, same, broken⟩ := ends
      exact .inr ⟨outcome, table, fun rest => same (before ++ rest), broken⟩
    | inl goes =>
      obtain ⟨next, same, kept, own⟩ := goes
      cases ih next with
      | inr ends =>
        obtain ⟨outcome, table, same', broken⟩ := ends
        exact .inr ⟨outcome, table, fun rest => (same (before ++ rest)).trans (same' rest), broken⟩
      | inl later =>
        obtain ⟨last, same', kept', known⟩ := later
        exact .inl ⟨last, fun rest => (same (before ++ rest)).trans (same' rest),
          fun name knows => kept' name (kept name knows), List.forall_mem_cons.mpr ⟨kept' _ own, known⟩⟩

end Sequential

section Lookup

variable {P : Type} (disk : Disk P)

/-- The image of the previous item, as the lookup finds it. -/
def previousImage (previous : Item) : Except ResolveError (Option P) :=
  match previous.storyboardImage with
  | .text rel =>
    match disk.resolveImageRef rel with
    | none => .error .invalidImageRef
    | some path => .ok (if disk.isFile path then some path else none)
  | .other => .error .invalidImageRef
  | .unset =>
    if disk.schemaIsCurrent then .ok none
    else if disk.present (disk.scenePath previous.resourceId) then
      .ok (some (disk.scenePath previous.resourceId))
    else .ok none

theorem findStoryboardItem_append {before after : List Item} {item : Item}
    (first : ∀ other ∈ before, other.idText ≠ item.idText) :
    findStoryboardItem (before ++ item :: after) item.idText = some (item, before.length) := by
  unfold findStoryboardItem
  rw [List.zipIdx_append, List.find?_append, List.find?_eq_none.mpr, Option.none_or, List.zipIdx_cons,
    List.find?_cons_of_pos]
  · rw [Nat.zero_add]
  · exact beq_self_eq_true _
  · intro entry member same
    exact first entry.1 (List.fst_mem_of_mem_zipIdx member) (beq_iff_eq.mp same)

/-- The lookup reads the image of the item before, and no other. -/
theorem resolvePrevious_append {before after : List Item} {item : Item}
    (first : ∀ other ∈ before, other.idText ≠ item.idText) :
    resolvePreviousStoryboardPath disk (before ++ item :: after) item.idText =
      if item.segmentBreak then .ok none
      else
        match before.getLast? with
        | none => .ok none
        | some previous => if previous.resourceId.isEmpty then .ok none else previousImage disk previous := by
  unfold resolvePreviousStoryboardPath
  rw [findStoryboardItem_append first]
  cases breaks : item.segmentBreak with
  | true => simp [breaks]
  | false =>
    cases before using List.reverseRecOn with
    | nil => simp [breaks]
    | append_singleton others previous =>
      have there : (others ++ [previous] ++ item :: after)[others.length]? = some previous := by
        rw [List.append_assoc, List.getElem?_append_right (le_refl _)]
        simp
      simp only [List.length_append, List.length_singleton, Nat.add_sub_cancel, there, breaks,
        List.getLast?_append, List.getLast?_singleton, Option.some_or, Bool.or_false, Nat.succ_ne_zero,
        beq_iff_eq, Bool.false_eq_true, if_false]
      rfl

/-- The items with other images. -/
def bindImages (images : List Char → ImageRef) (items : List Item) : List Item :=
  items.map fun item => { item with storyboardImage := images item.resourceId }

/-- The lookup may return an image that is gone when the binding of `p` is removed. -/
def MayRead (items : List Item) (resourceId p : List Char) : Prop :=
  ∃ (disk : Disk (List Char)) (images : List Char → ImageRef) (path : List Char),
    resolvePreviousStoryboardPath disk (bindImages images items) resourceId = .ok (some path) ∧
      resolvePreviousStoryboardPath disk (bindImages (Function.update images p .unset) items) resourceId =
        .ok none

theorem resolvePrevious_bindImages {before after : List Item} {item : Item}
    (first : ∀ other ∈ before, other.idText ≠ item.idText) (images : List Char → ImageRef) :
    resolvePreviousStoryboardPath disk (bindImages images (before ++ item :: after)) item.idText =
      if item.segmentBreak then .ok none
      else
        match before.getLast? with
        | none => .ok none
        | some previous =>
          if previous.resourceId.isEmpty then .ok none
          else previousImage disk { previous with storyboardImage := images previous.resourceId } := by
  rw [bindImages, List.map_append, List.map_cons]
  have first' : ∀ other ∈ before.map (fun item => { item with storyboardImage := images item.resourceId }),
      other.idText ≠ item.idText := by
    intro other member
    obtain ⟨original, inside, same⟩ := List.mem_map.mp member
    rw [← same]
    exact first original inside
  have looked := @resolvePrevious_append _ disk _
    (after.map fun item => { item with storyboardImage := images item.resourceId })
    { item with storyboardImage := images item.resourceId } first'
  refine looked.trans ?_
  rw [List.getLast?_map]
  cases before.getLast? with
  | none => rfl
  | some previous => rfl

/-- The only image that may be read is that of the item before, and only without a segment break. -/
theorem mayRead_iff {before after : List Item} {item : Item} {p : List Char}
    (first : ∀ other ∈ before, other.idText ≠ item.idText)
    (named : ∀ previous ∈ before, previous.resourceId ≠ []) :
    MayRead (before ++ item :: after) item.idText p ↔
      (∃ previous, before.getLast? = some previous ∧ previous.resourceId = p) ∧ item.segmentBreak = false := by
  constructor
  · rintro ⟨disk, images, path, found, gone⟩
    rw [resolvePrevious_bindImages disk first] at found gone
    cases breaks : item.segmentBreak with
    | true =>
      rw [breaks, if_pos rfl] at found
      cases found
    | false =>
      rw [breaks, if_neg nofun] at found gone
      refine ⟨?_, rfl⟩
      cases last : before.getLast? with
      | none =>
        rw [last] at found
        cases found
      | some previous =>
        refine ⟨previous, rfl, ?_⟩
        by_contra other
        rw [last] at found gone
        dsimp only at found gone
        rw [Function.update_of_ne other, found] at gone
        cases gone
  · rintro ⟨⟨previous, last, same⟩, breaks⟩
    have filled : p.isEmpty = false :=
      List.isEmpty_eq_false_iff.mpr (same ▸ named previous (List.mem_of_getLast? last))
    refine ⟨⟨true, some, id, fun _ => true, fun _ => true⟩, fun _ => .text [], [], ?_, ?_⟩
    · rw [resolvePrevious_bindImages _ first, breaks, if_neg nofun, last]
      simp only [same, filled]
      rfl
    · rw [resolvePrevious_bindImages _ first, breaks, if_neg nofun, last]
      simp only [same, filled, Function.update_self]
      rfl

end Lookup

section Agreement

/-- How a plan fits the items of a script and the ids that were selected. -/
structure Agrees (items : List Item) (selectedIds : List (List Char)) (plans : List StoryboardTaskPlan) :
    Prop where
  once : plans.map StoryboardTaskPlan.resourceId = (items.map Item.resourceId).filter selectedIds.contains
  distinct : (plans.map StoryboardTaskPlan.resourceId).Nodup
  dependency : ∀ (before : List Item) (item : Item) (after : List Item), items = before ++ item :: after →
    ∀ plan ∈ plans, plan.resourceId = item.resourceId → ∀ p, plan.dependencyResourceId = some p ↔
      (∃ previous, before.getLast? = some previous ∧ previous.resourceId = p) ∧ p ∈ selectedIds ∧
        item.segmentBreak = false
  image : ∀ item ∈ items, item.idText = item.resourceId → ∀ plan ∈ plans,
    plan.resourceId = item.resourceId → ∀ p, plan.dependencyResourceId = some p ↔
      MayRead items plan.resourceId p ∧ p ∈ selectedIds
  grouped : ∀ plan ∈ plans, ∃ group ∈ groupScenesBySegmentBreak items,
    (plans.filter fun other => other.dependencyGroup == plan.dependencyGroup).map
        StoryboardTaskPlan.resourceId <:+: group.map Item.resourceId ∧
      (plans.filter fun other => other.dependencyGroup == plan.dependencyGroup).map
          StoryboardTaskPlan.dependencyIndex =
        List.range (plans.filter fun other => other.dependencyGroup == plan.dependencyGroup).length
  linked : ∀ (before : List StoryboardTaskPlan) (plan : StoryboardTaskPlan) (after : List StoryboardTaskPlan),
    plans = before ++ plan :: after → LinkedTo before.getLast? plan

variable {items : List Item} {selectedIds : List (List Char)}

theorem unique_item (distinct : (items.map Item.resourceId).Nodup) {before after before' after' : List Item}
    {item item' : Item} (split : items = before ++ item :: after) (split' : items = before' ++ item' :: after')
    (same : item.resourceId = item'.resourceId) : before = before' ∧ item = item' := by
  have here : (items.map Item.resourceId)[before.length]? = some item.resourceId := by
    rw [split, List.getElem?_map, List.getElem?_append_right (le_refl _)]
    simp
  have there : (items.map Item.resourceId)[before'.length]? = some item'.resourceId := by
    rw [split', List.getElem?_map, List.getElem?_append_right (le_refl _)]
    simp
  have lengths : before.length = before'.length := by
    rw [← same, ← here] at there
    have within : before.length < (items.map Item.resourceId).length := by
      rw [List.length_map, split, List.length_append, List.length_cons]
      omega
    exact (List.getElem?_inj within distinct).mp there.symm
  rw [split] at split'
  obtain ⟨front, back⟩ := List.append_inj split' lengths
  exact ⟨front, (List.cons.inj back).1⟩

theorem selected_iff {item : Item} (named : item.resourceId ≠ []) :
    item.selected selectedIds = true ↔ item.resourceId ∈ selectedIds := by
  rw [Item.selected, List.isEmpty_eq_false_iff.mpr named, Bool.not_false, Bool.true_and, List.contains_iff_mem]

theorem plan_dependency (scriptFile : Option (List Char)) (distinct : (items.map Item.resourceId).Nodup)
    (named : ∀ item ∈ items, item.resourceId ≠ []) {before after : List Item} {item : Item}
    (split : items = before ++ item :: after) {plan : StoryboardTaskPlan}
    (member : plan ∈ buildStoryboardDependencyPlan selectedIds scriptFile items)
    (own : plan.resourceId = item.resourceId) (p : List Char) :
    plan.dependencyResourceId = some p ↔
      (∃ previous, before.getLast? = some previous ∧ previous.resourceId = p) ∧ p ∈ selectedIds ∧
        item.segmentBreak = false := by
  unfold buildStoryboardDependencyPlan at member
  split_ifs at member with empty
  · cases member
  · obtain ⟨before', item', after', split', -, id, dependency⟩ := mem_planFrom member
    obtain ⟨rfl, rfl⟩ := unique_item distinct split split' (own.symm.trans id)
    rw [dependency, dependencyAfter, Option.or_none]
    cases breaks : item.segmentBreak with
    | true => simp
    | false =>
      rw [if_neg Bool.false_ne_true]
      cases last : before.getLast? with
      | none => simp
      | some previous =>
        have inside : previous ∈ items := by
          rw [split]
          exact List.mem_append_left _ (List.mem_of_getLast? last)
        have chosen := @selected_iff selectedIds _ (named previous inside)
        constructor
        · intro found
          obtain ⟨kept, isKept, same⟩ := Option.map_eq_some_iff.mp found
          obtain ⟨isPrevious, selected⟩ := Option.filter_eq_some_iff.mp isKept
          cases isPrevious
          exact ⟨⟨previous, rfl, same⟩, same ▸ chosen.mp selected, rfl⟩
        · rintro ⟨⟨other, isOther, same⟩, inSelected, -⟩
          cases isOther
          rw [Option.filter_some_pos (chosen.mpr (same ▸ inSelected)), Option.map_some, same]

/-- An item is the first one with its id. -/
theorem first_with_id (distinct : (items.map Item.resourceId).Nodup) (named : ∀ item ∈ items, item.resourceId ≠ [])
    {before after : List Item} {item : Item} (split : items = before ++ item :: after) :
    ∀ other ∈ before, other.idText ≠ item.idText := by
  intro other earlier same
  have stripped : ∀ known ∈ items, known.resourceId = strip known.idText := by
    intro known member
    have filled := named known member
    unfold Item.resourceId at filled ⊢
    split_ifs at filled ⊢ with truthy
    · rfl
    · exact absurd rfl filled
  have ids : other.resourceId = item.resourceId := by
    rw [stripped other (split ▸ List.mem_append_left _ earlier), same,
      ← stripped item (split ▸ List.mem_append_right _ (.head _))]
  rw [split, List.map_append, List.map_cons] at distinct
  have apart := (List.nodup_append.mp distinct).2.2
  exact apart _ (List.mem_map_of_mem earlier) _ (.head _) ids

/-- For items with distinct names: the plan has the selected items in order, depends on the previous item
exactly where its image may be read and is made again, and numbers each run of a group from zero. -/
theorem plan_agrees (scriptFile : Option (List Char)) (distinct : (items.map Item.resourceId).Nodup)
    (named : ∀ item ∈ items, item.resourceId ≠ []) :
    Agrees items selectedIds (buildStoryboardDependencyPlan selectedIds scriptFile items) := by
  have once : (buildStoryboardDependencyPlan selectedIds scriptFile items).map StoryboardTaskPlan.resourceId =
      (items.map Item.resourceId).filter selectedIds.contains := by
    rw [map_resourceId_plan, List.filter_map]
    apply congrArg (List.map Item.resourceId)
    apply List.filter_congr
    intro item member
    rw [Item.selected, List.isEmpty_eq_false_iff.mpr (named item member), Bool.not_false, Bool.true_and]
    rfl
  refine ⟨once, once ▸ distinct.filter _, ?_, ?_, ?_, ?_⟩
  · intro before item after split plan member own p
    exact plan_dependency scriptFile distinct named split member own p
  · intro item inside clean plan member own p
    obtain ⟨before, after, split⟩ := List.append_of_mem inside
    have first := first_with_id distinct named split
    have namedBefore : ∀ previous ∈ before, previous.resourceId ≠ [] := by
      intro previous earlier
      exact named previous (split ▸ List.mem_append_left _ earlier)
    rw [plan_dependency scriptFile distinct named split member own p, own, ← clean]
    conv_rhs => rw [split, mayRead_iff first namedBefore]
    tauto
  · intro plan member
    obtain ⟨run, listed, chain⟩ := filter_label scriptFile 0 (runs selectedIds items) plan.dependencyGroup
    rw [← buildStoryboardDependencyPlan_eq] at chain
    have nonempty : run ≠ [] := by
      intro empty
      have here : plan ∈ (buildStoryboardDependencyPlan selectedIds scriptFile items).filter
          fun other => other.dependencyGroup == plan.dependencyGroup :=
        List.mem_filter.mpr ⟨member, beq_self_eq_true _⟩
      rw [chain, empty] at here
      cases here
    obtain ⟨group, isGroup, within⟩ := runs_infix (listed.resolve_left nonempty) nonempty
    obtain ⟨ids, indexes, -⟩ := chainPlans_spec scriptFile plan.dependencyGroup 0 none run
    refine ⟨group, isGroup, ?_, ?_⟩
    · rw [chain, ids]
      exact within.map _
    · rw [chain, indexes, ← List.range_eq_range', ← List.length_map StoryboardTaskPlan.resourceId, ids,
        List.length_map]
  · intro before plan after split
    unfold buildStoryboardDependencyPlan at split
    split_ifs at split
    · exact absurd split (by simp)
    · have linked := @linked_planFrom _ _ _ _ _ _ _ none (fun any => absurd any (by simp)) _ _ _ split
      rwa [Option.or_none] at linked

/-- What a member of the batch takes from its plan. -/
def FromPlans (members : List Member) (plans : List StoryboardTaskPlan) : Prop :=
  members.map (fun member => (member.spec.resourceId, member.spec.dependencyResourceId)) =
    plans.map fun plan => (String.ofList plan.resourceId, plan.dependencyResourceId.map String.ofList)

theorem dependency_before {plans : List StoryboardTaskPlan} (agrees : Agrees items selectedIds plans)
    {members before after : List Member} {member : Member} {name : String} (planned : FromPlans members plans)
    (split : members = before ++ member :: after) (depends : member.spec.dependencyResourceId = some name) :
    ∃ earlier ∈ before, earlier.spec.resourceId = name := by
  rw [FromPlans, split, List.map_append, List.map_cons] at planned
  obtain ⟨plansBefore, others, splitPlans, sameBefore, sameOthers⟩ := List.map_eq_append_iff.mp planned.symm
  obtain ⟨plan, plansAfter, isPlan, same, -⟩ := List.map_eq_cons_iff.mp sameOthers
  have linked := agrees.linked plansBefore plan plansAfter (by rw [splitPlans, isPlan])
  unfold LinkedTo at linked
  cases dependency : plan.dependencyResourceId with
  | none =>
    rw [dependency, depends] at same
    cases (Prod.mk.inj same).2
  | some p =>
    rw [dependency] at linked
    obtain ⟨earlier, isLast, id, -, -⟩ := linked
    have named : String.ofList p = name := by
      rw [dependency, depends] at same
      exact Option.some.inj (Prod.mk.inj same).2
    have inside := List.mem_map_of_mem (f := fun plan : StoryboardTaskPlan =>
      (String.ofList plan.resourceId, plan.dependencyResourceId.map String.ofList)) (List.mem_of_getLast? isLast)
    rw [sameBefore] at inside
    obtain ⟨found, member', same'⟩ := List.mem_map.mp inside
    exact ⟨found, member', by rw [(Prod.mk.inj same').1, id, named]⟩

/-- When a batch of plans is queued in order, the dependency of a member has a task or has failed by the time
the member is reached. -/
theorem storyboard_plan_executes (items : List Item) (selectedIds : List (List Char))
    (scriptFile : Option (List Char)) (distinct : (items.map Item.resourceId).Nodup)
    (named : ∀ item ∈ items, item.resourceId ≠ []) :
    Agrees items selectedIds (buildStoryboardDependencyPlan selectedIds scriptFile items) ∧
      ∀ (codec : TextCodec) (projectName userId : String) (weather : CancelWeather) (atomic : Bool)
        (table : List Task) (members before after : List Member) (member : Member) (name : String),
        FromPlans members (buildStoryboardDependencyPlan selectedIds scriptFile items) →
        members = before ++ member :: after → member.spec.dependencyResourceId = some name →
        let run := fun members batch => enqueueSequentially codec projectName userId weather atomic members batch
        (∃ batch, run members (.start table) = run (member :: after) batch ∧
            (name ∈ batch.failedResourceIds ∨ (batch.taskIds.get? name).isSome = true)) ∨
          (run members (.start table) = run before (.start table) ∧
            ∀ enqueued failures, (run members (.start table)).1 ≠ .done enqueued failures) := by
  have agrees := @plan_agrees _ selectedIds scriptFile distinct named
  refine ⟨agrees, ?_⟩
  intro codec projectName userId weather atomic table members before after member name planned split depends run
  obtain ⟨earlier, inside, isNamed⟩ := dependency_before agrees planned split depends
  cases enqueueSequentially_append codec projectName userId weather atomic before (.start table) with
  | inl goes =>
    obtain ⟨batch, same, -, known⟩ := goes
    refine .inl ⟨batch, by rw [split]; exact same _, ?_⟩
    apply (known earlier inside).imp
    · intro failed
      rwa [isNamed] at failed
    · intro queued
      rw [isNamed, Dict.mem_keys_iff] at queued
      exact Option.isSome_iff_exists.mpr queued
  | inr ends =>
    obtain ⟨outcome, left, same, broken⟩ := ends
    have here : run members (.start table) = (outcome, left) := by
      rw [split]
      exact same _
    have there : run before (.start table) = (outcome, left) := by
      have alone := same []
      rwa [List.append_nil] at alone
    exact .inr ⟨here.trans there.symm, by rw [here]; exact broken⟩

/-- Three scenes with a break before the last: the second goes on from the first. -/
theorem second_scene_depends :
    ∃ items : List Item, ∃ selectedIds : List (List Char),
      (buildStoryboardDependencyPlan selectedIds none items).map
          (fun plan => (plan.dependencyResourceId, plan.dependencyIndex)) =
        [(none, 0), (some ['1'], 1), (none, 0)] ∧
      Agrees items selectedIds (buildStoryboardDependencyPlan selectedIds none items) :=
  ⟨[⟨['1'], true, false, .unset⟩, ⟨['2'], true, false, .unset⟩, ⟨['3'], true, true, .unset⟩],
    [['1'], ['2'], ['3']], by decide,
    (storyboard_plan_executes _ _ none (by decide) (by decide)).1⟩

end Agreement

end ArcReel.Storyboard
