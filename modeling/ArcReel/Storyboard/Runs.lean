import ArcReel.Storyboard.Sequence

/-! The runs of a batch: selected items one after another without a segment break between them. The
plan is one chain for each run, and each run lies in one group. -/

namespace ArcReel.Storyboard

section Runs

/-- A part in front of others, unless it is empty. -/
def startRun {α : Type} (more : List α) (later : List (List α)) : List (List α) :=
  if more.isEmpty then later else more :: later

/-- What goes on from the item before, and the runs after it. -/
def splitRuns (selectedIds : List (List Char)) : List Item → List Item × List (List Item)
  | [] => ([], [])
  | item :: rest =>
    let (more, later) := splitRuns selectedIds rest
    if !item.selected selectedIds then ([], startRun more later)
    else if item.segmentBreak then ([], (item :: more) :: later)
    else (item :: more, later)

def runs (selectedIds : List (List Char)) (items : List Item) : List (List Item) :=
  startRun (splitRuns selectedIds items).1 (splitRuns selectedIds items).2

/-- What stays in the group of the item before, and the groups after it. -/
def splitGroups : List Item → List Item × List (List Item)
  | [] => ([], [])
  | item :: rest =>
    let (more, later) := splitGroups rest
    if item.segmentBreak then ([], (item :: more) :: later) else (item :: more, later)

variable {selectedIds : List (List Char)}

theorem groupFrom_eq (groups : List (List Item)) (current items : List Item) :
    groupFrom groups current items =
      groups ++ startRun (current ++ (splitGroups items).1) (splitGroups items).2 := by
  induction items generalizing groups current with
  | nil =>
    rw [groupFrom, splitGroups, List.append_nil, startRun]
    split_ifs with empty
    · rw [List.append_nil]
    · rfl
  | cons item rest ih =>
    rw [groupFrom, splitGroups]
    cases breaks : item.segmentBreak with
    | true =>
      cases current with
      | nil =>
        simp only [List.isEmpty_nil, Bool.not_true, Bool.and_false, Bool.false_eq_true, if_false, if_true]
        rw [ih]
        rfl
      | cons first current =>
        simp only [List.isEmpty_cons, Bool.not_false, Bool.and_true, if_true]
        rw [ih, List.append_assoc]
        simp [startRun]
    | false =>
      simp only [Bool.false_and, Bool.false_eq_true, if_false]
      rw [ih, List.append_assoc]
      rfl

theorem groupScenes_eq (items : List Item) :
    groupScenesBySegmentBreak items = startRun (splitGroups items).1 (splitGroups items).2 :=
  groupFrom_eq [] [] items

/-- What goes on is the beginning of what stays in the group, and each later run lies in the same part
of a group. -/
theorem splitRuns_within (items : List Item) :
    (splitRuns selectedIds items).1 <+: (splitGroups items).1 ∧
      ∀ run ∈ (splitRuns selectedIds items).2,
        run <:+: (splitGroups items).1 ∨ ∃ group ∈ (splitGroups items).2, run <:+: group := by
  induction items with
  | nil => exact ⟨List.prefix_refl _, nofun⟩
  | cons item rest ih =>
    obtain ⟨start, others⟩ := ih
    have started : ∀ run ∈ startRun (splitRuns selectedIds rest).1 (splitRuns selectedIds rest).2,
        run <:+: (splitGroups rest).1 ∨ ∃ group ∈ (splitGroups rest).2, run <:+: group := by
      intro run member
      unfold startRun at member
      split_ifs at member
      · exact others run member
      · cases List.mem_cons.mp member with
        | inl same => exact .inl (same ▸ start.isInfix)
        | inr later => exact others run later
    rw [splitRuns, splitGroups]
    cases selected : item.selected selectedIds with
    | false =>
      cases breaks : item.segmentBreak with
      | true =>
        refine ⟨List.nil_prefix, fun run member => .inr ?_⟩
        cases started run member with
        | inl inFirst => exact ⟨_, .head _, inFirst.trans (List.suffix_cons item _).isInfix⟩
        | inr inLater =>
          obtain ⟨group, inside, within⟩ := inLater
          exact ⟨group, .tail _ inside, within⟩
      | false =>
        refine ⟨List.nil_prefix, fun run member => ?_⟩
        exact (started run member).imp_left fun inFirst => inFirst.trans (List.suffix_cons item _).isInfix
    | true =>
      have extended : item :: (splitRuns selectedIds rest).1 <+: item :: (splitGroups rest).1 :=
        (List.prefix_cons_inj item).mpr start
      cases breaks : item.segmentBreak with
      | true =>
        refine ⟨List.nil_prefix, fun run member => .inr ?_⟩
        cases List.mem_cons.mp member with
        | inl same => exact ⟨_, .head _, same ▸ extended.isInfix⟩
        | inr later =>
          cases others run later with
          | inl inFirst => exact ⟨_, .head _, inFirst.trans (List.suffix_cons item _).isInfix⟩
          | inr inLater =>
            obtain ⟨group, inside, within⟩ := inLater
            exact ⟨group, .tail _ inside, within⟩
      | false =>
        refine ⟨extended, fun run member => ?_⟩
        exact (others run member).imp_left fun inFirst => inFirst.trans (List.suffix_cons item _).isInfix

/-- Each run lies in one group. -/
theorem runs_infix {items run : List Item} (member : run ∈ runs selectedIds items) (nonempty : run ≠ []) :
    ∃ group ∈ groupScenesBySegmentBreak items, run <:+: group := by
  obtain ⟨start, others⟩ := @splitRuns_within selectedIds items
  have inside : run <:+: (splitGroups items).1 ∨ ∃ group ∈ (splitGroups items).2, run <:+: group := by
    unfold runs startRun at member
    split_ifs at member
    · exact others run member
    · cases List.mem_cons.mp member with
      | inl same => exact .inl (same ▸ start.isInfix)
      | inr later => exact others run later
  rw [groupScenes_eq, startRun]
  cases inside with
  | inl inFirst =>
    have filled : (splitGroups items).1.isEmpty = false := by
      rw [List.isEmpty_eq_false_iff]
      intro empty
      rw [empty] at inFirst
      exact nonempty (List.infix_nil.mp inFirst)
    rw [filled, if_neg nofun]
    exact ⟨_, .head _, inFirst⟩
  | inr inLater =>
    obtain ⟨group, listed, within⟩ := inLater
    refine ⟨group, ?_, within⟩
    split_ifs
    · exact listed
    · exact .tail _ listed

theorem flatten_startRun {α : Type} (more : List α) (later : List (List α)) :
    (startRun more later).flatten = more ++ later.flatten := by
  unfold startRun
  split_ifs with empty
  · rw [List.isEmpty_iff.mp empty, List.nil_append]
  · rfl

/-- The runs are the selected items in the order of the script. -/
theorem flatten_runs (items : List Item) :
    (runs selectedIds items).flatten = items.filter (Item.selected selectedIds) := by
  rw [runs, flatten_startRun]
  induction items with
  | nil => rfl
  | cons item rest ih =>
    rw [splitRuns]
    cases selected : item.selected selectedIds with
    | false =>
      rw [List.filter_cons_of_neg (by rw [selected]; nofun), ← ih]
      exact flatten_startRun _ _
    | true =>
      rw [List.filter_cons_of_pos selected, ← ih]
      cases item.segmentBreak <;> rfl

end Runs

section Chains

variable {selectedIds : List (List Char)} (scriptFile : Option (List Char))

/-- The plans of consecutive items of one run, from an index on. -/
def chainPlans (label : List Char) (index : Nat) (dependency : Option (List Char)) :
    List Item → List StoryboardTaskPlan
  | [] => []
  | item :: rest =>
    ⟨item.resourceId, scriptFile, dependency, label, index⟩ ::
      chainPlans label (index + 1) (some item.resourceId) rest

/-- The plans of runs, numbered after `counter`. -/
def runPlans (counter : Nat) : List (List Item) → List StoryboardTaskPlan
  | [] => []
  | run :: later => chainPlans scriptFile (groupLabel scriptFile (counter + 1)) 0 none run ++
      runPlans (counter + 1) later

theorem planFrom_eq (previous : Option Item) (groupCounter currentGroupIndex : Nat) (currentGroup : List Char)
    (items : List Item) :
    planFrom selectedIds scriptFile previous groupCounter currentGroup currentGroupIndex items =
      if previous.any (Item.selected selectedIds) then
        chainPlans scriptFile currentGroup (currentGroupIndex + 1) (previous.map Item.resourceId)
          (splitRuns selectedIds items).1 ++ runPlans scriptFile groupCounter (splitRuns selectedIds items).2
      else runPlans scriptFile groupCounter (runs selectedIds items) := by
  induction items generalizing previous groupCounter currentGroup currentGroupIndex with
  | nil => split_ifs <;> rfl
  | cons item rest ih =>
    rw [planFrom, runs, splitRuns]
    cases selected : item.selected selectedIds with
    | false =>
      have any : (some item).any (Item.selected selectedIds) = false := selected
      simp only [Bool.not_false, if_true]
      rw [ih, any, if_neg nofun]
      cases previous.any (Item.selected selectedIds) <;> rfl
    | true =>
      have any : (some item).any (Item.selected selectedIds) = true := selected
      simp only [Bool.not_true, Bool.false_eq_true, if_false]
      rw [ih, ih, any]
      cases previous.any (Item.selected selectedIds) <;> cases item.segmentBreak <;> rfl

theorem planFrom_nothing (previous : Option Item) (groupCounter currentGroupIndex : Nat)
    (currentGroup : List Char) (items : List Item) :
    planFrom [] scriptFile previous groupCounter currentGroup currentGroupIndex items = [] := by
  induction items generalizing previous with
  | nil => rfl
  | cons item rest ih =>
    have unselected : item.selected [] = false := Bool.and_false _
    rw [planFrom, unselected, Bool.not_false, if_pos rfl, ih]

/-- The plan of a batch is one chain for each run. -/
theorem buildStoryboardDependencyPlan_eq (selectedIds : List (List Char)) (items : List Item) :
    buildStoryboardDependencyPlan selectedIds scriptFile items =
      runPlans scriptFile 0 (runs selectedIds items) := by
  have whole : buildStoryboardDependencyPlan selectedIds scriptFile items =
      planFrom selectedIds scriptFile none 0 [] 0 items := by
    unfold buildStoryboardDependencyPlan
    split_ifs with empty
    · rw [List.isEmpty_iff.mp empty]
      exact (planFrom_nothing scriptFile none 0 0 [] items).symm
    · rfl
  rw [whole, planFrom_eq]
  rfl

end Chains

end ArcReel.Storyboard
