import Mathlib
import ArcReel.Queue.BatchEnqueue
import ArcReel.Storyboard.Runs

/-! The plan of a batch against the groups of the script, the lookup of the previous image and the
enqueueing in order. -/

namespace ArcReel.Storyboard
open ArcReel.Lib ArcReel.Lib.PyText ArcReel.Queue

section Chains

variable {selectedIds : List (List Char)} (scriptFile : Option (List Char))

theorem chainPlans_spec (label : List Char) (index : Nat) (dependency : Option (List Char)) (run : List Item) :
    (chainPlans scriptFile label index dependency run).map StoryboardTaskPlan.resourceId =
        run.map Item.resourceId ∧
      (chainPlans scriptFile label index dependency run).map StoryboardTaskPlan.dependencyIndex =
        List.range' index run.length ∧
      ∀ plan ∈ chainPlans scriptFile label index dependency run, plan.dependencyGroup = label := by
  induction run generalizing index dependency with
  | nil => exact ⟨rfl, rfl, nofun⟩
  | cons item rest ih =>
    obtain ⟨ids, indexes, labels⟩ := ih (index + 1) (some item.resourceId)
    refine ⟨?_, ?_, List.forall_mem_cons.mpr ⟨rfl, labels⟩⟩
    · rw [chainPlans, List.map_cons, List.map_cons, ids]
    · rw [chainPlans, List.map_cons, indexes, List.length_cons, List.range'_succ]

theorem map_resourceId_runPlans (counter : Nat) (listed : List (List Item)) :
    (runPlans scriptFile counter listed).map StoryboardTaskPlan.resourceId =
      listed.flatten.map Item.resourceId := by
  induction listed generalizing counter with
  | nil => rfl
  | cons run later ih =>
    rw [runPlans, List.map_append, List.flatten_cons, List.map_append, ih, (chainPlans_spec _ _ _ _ _).1]

/-- Each selected item gets one plan, in the order of the script. -/
theorem map_resourceId_plan (selectedIds : List (List Char)) (items : List Item) :
    (buildStoryboardDependencyPlan selectedIds scriptFile items).map StoryboardTaskPlan.resourceId =
      (items.filter (Item.selected selectedIds)).map Item.resourceId := by
  rw [buildStoryboardDependencyPlan_eq, map_resourceId_runPlans, flatten_runs]

theorem groupLabel_injective {m n : Nat} (same : groupLabel scriptFile m = groupLabel scriptFile n) : m = n :=
  Nat.repr_injective (String.toList_injective (List.append_cancel_left same))

theorem runPlans_label (counter : Nat) (listed : List (List Item)) :
    ∀ plan ∈ runPlans scriptFile counter listed,
      ∃ n, counter < n ∧ plan.dependencyGroup = groupLabel scriptFile n := by
  induction listed generalizing counter with
  | nil => nofun
  | cons run later ih =>
    intro plan member
    cases List.mem_append.mp member with
    | inl here =>
      exact ⟨counter + 1, Nat.lt_succ_self _, (chainPlans_spec scriptFile _ _ _ run).2.2 plan here⟩
    | inr there =>
      obtain ⟨n, above, label⟩ := ih (counter + 1) plan there
      exact ⟨n, by omega, label⟩

/-- The plans with one label are the chain of one run. -/
theorem filter_label (counter : Nat) (listed : List (List Item)) (label : List Char) :
    ∃ run, (run = [] ∨ run ∈ listed) ∧
      (runPlans scriptFile counter listed).filter (fun plan => plan.dependencyGroup == label) =
        chainPlans scriptFile label 0 none run := by
  induction listed generalizing counter with
  | nil => exact ⟨[], .inl rfl, rfl⟩
  | cons run later ih =>
    have labels := (chainPlans_spec scriptFile (groupLabel scriptFile (counter + 1)) 0 none run).2.2
    rw [runPlans, List.filter_append]
    by_cases own : groupLabel scriptFile (counter + 1) = label
    · refine ⟨run, .inr (.head _), ?_⟩
      rw [List.filter_eq_self.mpr, List.filter_eq_nil_iff.mpr, List.append_nil, own]
      · intro plan member same
        obtain ⟨n, above, label'⟩ := runPlans_label scriptFile (counter + 1) later plan member
        rw [beq_iff_eq, label', ← own] at same
        exact absurd (groupLabel_injective scriptFile same) (by omega)
      · intro plan member
        rw [beq_iff_eq, labels plan member, own]
    · obtain ⟨other, listed', same⟩ := ih (counter + 1)
      refine ⟨other, listed'.imp_right (.tail _), ?_⟩
      rw [List.filter_eq_nil_iff.mpr, List.nil_append, same]
      intro plan member same
      rw [beq_iff_eq, labels plan member] at same
      exact own same

end Chains

section Dependencies

variable {selectedIds : List (List Char)} {scriptFile : Option (List Char)}

/-- The id on which an item depends after the item before. -/
def dependencyAfter (selectedIds : List (List Char)) (previous : Option Item) (item : Item) :
    Option (List Char) :=
  if item.segmentBreak then none else (previous.filter (Item.selected selectedIds)).map Item.resourceId

theorem mem_planFrom {previous : Option Item} {groupCounter currentGroupIndex : Nat} {currentGroup : List Char}
    {items : List Item} {plan : StoryboardTaskPlan}
    (member : plan ∈ planFrom selectedIds scriptFile previous groupCounter currentGroup currentGroupIndex items) :
    ∃ before item after, items = before ++ item :: after ∧ item.selected selectedIds = true ∧
      plan.resourceId = item.resourceId ∧
      plan.dependencyResourceId = dependencyAfter selectedIds (before.getLast?.or previous) item := by
  induction items generalizing previous groupCounter currentGroup currentGroupIndex with
  | nil => cases member
  | cons item rest ih =>
    have later : ∀ {groupCounter currentGroupIndex currentGroup},
        plan ∈ planFrom selectedIds scriptFile (some item) groupCounter currentGroup currentGroupIndex rest →
        ∃ before found after, item :: rest = before ++ found :: after ∧ found.selected selectedIds = true ∧
          plan.resourceId = found.resourceId ∧
          plan.dependencyResourceId = dependencyAfter selectedIds (before.getLast?.or previous) found := by
      intro groupCounter currentGroupIndex currentGroup inside
      obtain ⟨before, found, after, split, selected, id, dependency⟩ := ih inside
      refine ⟨item :: before, found, after, by rw [split]; rfl, selected, id, ?_⟩
      rw [dependency]
      cases before with
      | nil => rfl
      | cons first before => simp [List.getLast?_cons]
    rw [planFrom] at member
    split_ifs at member with unselected starts
    · exact later member
    · cases List.mem_cons.mp member with
      | inl same =>
        rw [Bool.not_eq_true', Bool.not_eq_false] at unselected
        refine ⟨[], item, rest, rfl, unselected, by rw [same], ?_⟩
        rw [same, dependencyAfter]
        split_ifs with breaks
        · rfl
        · rw [Bool.not_eq_true] at breaks
          rw [breaks, Bool.false_or, Bool.not_eq_true'] at starts
          cases previous with
          | none => rfl
          | some previous =>
            have dropped : previous.selected selectedIds = false := starts
            simp [Option.filter, dropped]
      | inr inside => exact later inside
    · cases List.mem_cons.mp member with
      | inl same =>
        rw [Bool.not_eq_true', Bool.not_eq_false] at unselected
        rw [Bool.or_eq_true, not_or, Bool.not_eq_true, Bool.not_eq_true', Bool.not_eq_false] at starts
        refine ⟨[], item, rest, rfl, unselected, by rw [same], ?_⟩
        rw [same, dependencyAfter, starts.1]
        cases previous with
        | none => rfl
        | some previous =>
          have kept : previous.selected selectedIds = true := starts.2
          simp [Option.filter, kept]
      | inr inside => exact later inside

/-- A plan goes on from the plan before it in its group, or starts a group. -/
def LinkedTo (last : Option StoryboardTaskPlan) (plan : StoryboardTaskPlan) : Prop :=
  match plan.dependencyResourceId with
  | none => plan.dependencyIndex = 0
  | some p => ∃ earlier, last = some earlier ∧ earlier.resourceId = p ∧
      earlier.dependencyGroup = plan.dependencyGroup ∧ plan.dependencyIndex = earlier.dependencyIndex + 1

theorem linked_planFrom {previous : Option Item} {groupCounter currentGroupIndex : Nat}
    {currentGroup : List Char} {items : List Item} {last : Option StoryboardTaskPlan}
    (current : previous.any (Item.selected selectedIds) = true → ∃ earlier, last = some earlier ∧
      previous.map Item.resourceId = some earlier.resourceId ∧ earlier.dependencyGroup = currentGroup ∧
      earlier.dependencyIndex = currentGroupIndex)
    {before after : List StoryboardTaskPlan} {plan : StoryboardTaskPlan}
    (split : planFrom selectedIds scriptFile previous groupCounter currentGroup currentGroupIndex items =
      before ++ plan :: after) : LinkedTo (before.getLast?.or last) plan := by
  induction items generalizing previous groupCounter currentGroup currentGroupIndex last before with
  | nil => exact absurd split (by simp [planFrom])
  | cons item rest ih =>
    rw [planFrom] at split
    split_ifs at split with unselected starts
    · refine ih ?_ split
      intro any
      rw [Option.any_some] at any
      rw [any] at unselected
      cases unselected
    · cases before with
      | nil =>
        cases split
        rfl
      | cons first before =>
        obtain ⟨isFirst, split'⟩ := List.cons.inj split
        have inner := @ih _ _ _ _ (some first)
          (fun _ => ⟨first, rfl, isFirst ▸ rfl, isFirst ▸ rfl, isFirst ▸ rfl⟩) _ split'
        simpa [List.getLast?_cons] using inner
    · cases before with
      | nil =>
        rw [Bool.or_eq_true, not_or, Bool.not_eq_true, Bool.not_eq_true', Bool.not_eq_false] at starts
        obtain ⟨earlier, isLast, id, group, index⟩ := current starts.2
        cases split
        show match previous.map Item.resourceId with | none => _ | some p => _
        rw [id]
        exact ⟨earlier, isLast, rfl, group, by rw [index]⟩
      | cons first before =>
        obtain ⟨isFirst, split'⟩ := List.cons.inj split
        have inner := @ih _ _ _ _ (some first)
          (fun _ => ⟨first, rfl, isFirst ▸ rfl, isFirst ▸ rfl, isFirst ▸ rfl⟩) _ split'
        simpa [List.getLast?_cons] using inner

end Dependencies

end ArcReel.Storyboard
