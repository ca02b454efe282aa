import ArcReel.Timeline.Replay

/-! No sub-timeline is lost or shown twice: every group is mounted at one place below the
main timeline or a synthetic card, whatever the ids of the entries refer to. -/

namespace ArcReel.Timeline
open ArcReel.Lib

section Nodes

mutual

/-- The blocks of a turn, at any depth, on which a sub-timeline is mounted. -/
def TurnView.nodes : TurnView → List (String × List TurnView)
  | .mk _ content _ _ => blockNodes content

def blockNodes : List BlockView → List (String × List TurnView)
  | [] => []
  | .mk block (some subTurns) _ :: later =>
      (block.id.getD "", subTurns) :: turnNodes subTurns ++ blockNodes later
  | .mk _ none _ :: later => blockNodes later

def turnNodes : List TurnView → List (String × List TurnView)
  | [] => []
  | turn :: later => turn.nodes ++ turnNodes later

end

/-- The nodes of one block. -/
def BlockView.nodes (view : BlockView) : List (String × List TurnView) := blockNodes [view]

theorem blockNodes_cons (view : BlockView) (later : List BlockView) :
    blockNodes (view :: later) = view.nodes ++ blockNodes later := by
  obtain ⟨block, subTurns, taskInfo⟩ := view
  cases subTurns with
  | none => simp [BlockView.nodes, blockNodes]
  | some subTurns => simp [BlockView.nodes, blockNodes]

theorem turnNodes_append (first second : List TurnView) :
    turnNodes (first ++ second) = turnNodes first ++ turnNodes second := by
  induction first with
  | nil => simp [turnNodes]
  | cons turn rest ih => simp [turnNodes, ih]

theorem nodes_withTask (view : BlockView) (task : Block) : (view.withTask task).nodes = view.nodes := by
  obtain ⟨block, subTurns, taskInfo⟩ := view
  cases subTurns <;> simp [BlockView.nodes, BlockView.withTask, blockNodes]

theorem blockNodes_modify {change : BlockView → BlockView}
    (same : ∀ view, (change view).nodes = view.nodes) (views : List BlockView) (index : Nat) :
    blockNodes (views.modify index change) = blockNodes views := by
  induction views generalizing index with
  | nil => cases index <;> rfl
  | cons view later ih =>
    cases index with
    | zero => rw [List.modify_zero_cons, blockNodes_cons, blockNodes_cons, same]
    | succ index => rw [List.modify_succ_cons, blockNodes_cons, blockNodes_cons, ih]

theorem blockNodes_map {change : BlockView → BlockView}
    (same : ∀ view, (change view).nodes = view.nodes) (views : List BlockView) :
    blockNodes (views.map change) = blockNodes views := by
  induction views with
  | nil => rfl
  | cons view later ih => rw [List.map_cons, blockNodes_cons, blockNodes_cons, same, ih]

theorem blockNodes_filter {keep : BlockView → Bool} {views : List BlockView}
    (empty : ∀ view ∈ views, keep view = false → view.nodes = []) :
    blockNodes (views.filter keep) = blockNodes views := by
  induction views with
  | nil => rfl
  | cons view later ih =>
    have rest := ih fun other member => empty other (.tail _ member)
    cases kept : keep view with
    | true => rw [List.filter_cons_of_pos kept, blockNodes_cons, blockNodes_cons, rest]
    | false =>
      rw [List.filter_cons_of_neg (by simp [kept]), blockNodes_cons, rest,
        empty view List.mem_cons_self kept, List.nil_append]

theorem nodes_of_none {view : BlockView} (none : view.subTurns = none) : view.nodes = [] := by
  obtain ⟨block, subTurns, taskInfo⟩ := view
  simp only [BlockView.subTurns] at none
  rw [none]
  rfl

theorem blockNodes_inferCompleted (views : List BlockView) :
    blockNodes (inferCompleted views) = blockNodes views := by
  refine blockNodes_map ?_ views
  intro view
  obtain ⟨block, subTurns, taskInfo⟩ := view
  split_ifs
  · cases subTurns <;> simp [BlockView.nodes, BlockView.withBlock, BlockView.block, blockNodes]
  · rfl

/-- Only tool_use blocks have sub-timelines. -/
def Mounts (views : List BlockView) : Prop :=
  ∀ view ∈ views, view.block.type = "task_progress" → view.subTurns = none

theorem mounts_inferCompleted {views : List BlockView} (mounts : Mounts views) :
    Mounts (inferCompleted views) := by
  intro view member isTask
  unfold inferCompleted at member
  obtain ⟨old, isOld, same⟩ := List.mem_map.mp member
  obtain ⟨block, subTurns, taskInfo⟩ := old
  split_ifs at same with completed
  · rw [← same]
    exact mounts (.mk block subTurns taskInfo) isOld completed.1
  · rw [← same] at isTask ⊢
    exact mounts _ isOld isTask

/-- The step of `foldTasks`. -/
def noteTask (views noted : List BlockView) (view : BlockView) : List BlockView :=
  match taskAnchor views view with
  | some index => noted.modify index (BlockView.withTask view.block)
  | none => noted

theorem blockNodes_foldTasks {views : List BlockView} (mounts : Mounts views) :
    blockNodes (foldTasks views) = blockNodes views := by
  -- Each fold of a task into its anchor keeps the nodes and the types.
  have noted : ∀ (tasks start : List BlockView), blockNodes start = blockNodes views → Mounts start →
      blockNodes (tasks.foldl (noteTask views) start) = blockNodes views ∧
        Mounts (tasks.foldl (noteTask views) start) := by
    intro tasks
    induction tasks with
    | nil => exact fun start same isMounts => ⟨same, isMounts⟩
    | cons task rest ih =>
      intro start same isMounts
      rw [List.foldl_cons, noteTask]
      cases taskAnchor views task with
      | none => exact ih start same isMounts
      | some index =>
        refine ih _ ?_ ?_
        · exact (blockNodes_modify (fun view => nodes_withTask view task.block) start index).trans same
        · intro view member isTask
          obtain ⟨n, found⟩ := List.mem_iff_getElem?.mp member
          rw [getElem?_modify_ite] at found
          split_ifs at found
          · obtain ⟨old, isOld, changed⟩ := Option.map_eq_some_iff.mp found
            rw [← changed] at isTask ⊢
            obtain ⟨block, subTurns, taskInfo⟩ := old
            exact isMounts (.mk block subTurns taskInfo) (List.mem_of_getElem? isOld) isTask
          · exact isMounts view (List.mem_of_getElem? found) isTask
  obtain ⟨same, isMounts⟩ := noted views views rfl mounts
  unfold foldTasks
  refine (blockNodes_filter ?_).trans same
  intro view member folded
  refine nodes_of_none (isMounts view member ?_)
  unfold taskAnchor at folded
  by_contra other
  rw [if_neg other] at folded
  cases folded

end Nodes

section Mounted

variable (core : Core) (key : Key)

/-- The groups that are mounted on blocks of a turn, from an index on. -/
def mountedBlocks (turn : Nat) : Nat → List Block → List String
  | _, [] => []
  | index, block :: later =>
      (mounted core ⟨key, turn, index⟩ block).toList ++ mountedBlocks turn (index + 1) later

def mountedTurns : Nat → List InternalTurn → List String
  | _, [] => []
  | index, turn :: later =>
      mountedBlocks core key index 0 turn.content ++ mountedTurns (index + 1) later

variable {core key}

theorem mem_mountedBlocks {turn index : Nat} {blocks : List Block} {id : String} :
    id ∈ mountedBlocks core key turn index blocks ↔ ∃ (n : Nat) (block : Block),
      blocks[n]? = some block ∧ mounted core ⟨key, turn, index + n⟩ block = some id := by
  induction blocks generalizing index with
  | nil => simp [mountedBlocks]
  | cons first later ih =>
    rw [mountedBlocks, List.mem_append, Option.mem_toList, ih]
    constructor
    · rintro (here | ⟨n, block, found, isMounted⟩)
      · exact ⟨0, first, rfl, here⟩
      · refine ⟨n + 1, block, found, ?_⟩
        rwa [show index + (n + 1) = index + 1 + n by omega]
    · rintro ⟨n, block, found, isMounted⟩
      cases n with
      | zero =>
        left
        rw [← Option.some.inj found] at isMounted
        exact isMounted
      | succ n =>
        right
        refine ⟨n, block, found, ?_⟩
        rwa [show index + 1 + n = index + (n + 1) by omega]

theorem mem_mountedTurns {index : Nat} {turns : List InternalTurn} {id : String} :
    id ∈ mountedTurns core key index turns ↔ ∃ (n : Nat) (turn : InternalTurn),
      turns[n]? = some turn ∧ id ∈ mountedBlocks core key (index + n) 0 turn.content := by
  induction turns generalizing index with
  | nil => simp [mountedTurns]
  | cons first later ih =>
    rw [mountedTurns, List.mem_append, ih]
    constructor
    · rintro (here | ⟨n, turn, found, isMounted⟩)
      · exact ⟨0, first, rfl, here⟩
      · refine ⟨n + 1, turn, found, ?_⟩
        rwa [show index + (n + 1) = index + 1 + n by omega]
    · rintro ⟨n, turn, found, isMounted⟩
      cases n with
      | zero =>
        left
        rw [← Option.some.inj found] at isMounted
        exact isMounted
      | succ n =>
        right
        refine ⟨n, turn, found, ?_⟩
        rwa [show index + 1 + n = index + (n + 1) by omega]

/-- A group has one anchor, so that it is mounted on one block only. -/
theorem nodup_mountedBlocks (turn index : Nat) (blocks : List Block) :
    (mountedBlocks core key turn index blocks).Nodup := by
  induction blocks generalizing index with
  | nil => exact .nil
  | cons first later ih =>
    refine List.nodup_append.mpr ⟨?_, ih (index + 1), ?_⟩
    · cases mounted core ⟨key, turn, index⟩ first with
      | none => exact .nil
      | some id => exact List.nodup_singleton id
    · intro id here other there same
      obtain ⟨n, block, _, isMounted⟩ := mem_mountedBlocks.mp there
      have anchor := (mounted_eq_some (Option.mem_toList.mp here)).2
      rw [same, (mounted_eq_some isMounted).2] at anchor
      have place := congrArg ToolUseSite.block (Option.some.inj anchor)
      simp only at place
      omega

theorem nodup_mountedTurns (index : Nat) (turns : List InternalTurn) :
    (mountedTurns core key index turns).Nodup := by
  induction turns generalizing index with
  | nil => exact .nil
  | cons first later ih =>
    refine List.nodup_append.mpr ⟨nodup_mountedBlocks index 0 first.content, ih (index + 1), ?_⟩
    intro id here other there same
    obtain ⟨n, turn, _, below⟩ := mem_mountedTurns.mp there
    obtain ⟨m, block, _, isMounted⟩ := mem_mountedBlocks.mp below
    obtain ⟨m', block', _, isMounted'⟩ := mem_mountedBlocks.mp here
    have anchor := (mounted_eq_some isMounted').2
    rw [same, (mounted_eq_some isMounted).2] at anchor
    have place := congrArg ToolUseSite.turn (Option.some.inj anchor)
    simp only at place
    omega

theorem mem_mounted_iff (sound : core.Sound) (id : String) :
    id ∈ mountedTurns core key 0 (core.fold key).turns ↔ core.parent (.group id) = some key := by
  rw [mem_mountedTurns]
  constructor
  · rintro ⟨n, turn, _, below⟩
    obtain ⟨m, block, _, isMounted⟩ := mem_mountedBlocks.mp below
    rw [Core.parent, (mounted_eq_some isMounted).2]
    rfl
  · intro up
    obtain ⟨site, anchored, isKey⟩ := Option.map_eq_some_iff.mp up
    obtain ⟨turn, block, found, atBlock, isId⟩ := sound.anchored id site anchored
    rw [isKey] at found
    refine ⟨site.turn, turn, found, mem_mountedBlocks.mpr ⟨site.block, block, atBlock, ?_⟩⟩
    rw [mounted, isId, Option.filter_some, if_pos]
    rw [decide_eq_true_iff, anchored, ← isKey, Nat.zero_add, Nat.zero_add]

/-- The nodes of a mounted group. -/
def groupNodes (child : String → List TurnView) (id : String) : List (String × List TurnView) :=
  (id, child id) :: turnNodes (child id)

theorem blockNodes_plainBlocks (child : String → List TurnView) (turn index : Nat) (blocks : List Block) :
    blockNodes (plainBlocks child core key turn index blocks) =
      (mountedBlocks core key turn index blocks).flatMap (groupNodes child) := by
  induction blocks generalizing index with
  | nil => rfl
  | cons block later ih =>
    rw [plainBlocks, mountedBlocks, blockNodes_cons, List.flatMap_append, ih]
    congr 1
    cases found : mounted core ⟨key, turn, index⟩ block with
    | none => rfl
    | some id =>
      have isUse := (mounted_eq_some found).1
      have isId : block.id = some id := by
        unfold toolUse? at isUse
        split_ifs at isUse
        exact (Option.filter_eq_some_iff.mp isUse).1
      simp [BlockView.nodes, blockNodes, groupNodes, isId]

theorem mounts_plainBlocks (child : String → List TurnView) (turn index : Nat) (blocks : List Block) :
    Mounts (plainBlocks child core key turn index blocks) := by
  induction blocks generalizing index with
  | nil => exact fun _ member => absurd member List.not_mem_nil
  | cons block later ih =>
    intro view member isTask
    cases member with
    | tail _ rest => exact ih (index + 1) view rest isTask
    | head =>
      have isBlock : block.type = "task_progress" := isTask
      have none : toolUse? block = none := by
        rw [toolUse?, isBlock]
        rfl
      simp [BlockView.subTurns, mounted, none]

theorem turnNodes_plainTurns (child : String → List TurnView) (index : Nat) (turns : List InternalTurn) :
    turnNodes (plainTurns child core key index turns) =
      (mountedTurns core key index turns).flatMap (groupNodes child) := by
  induction turns generalizing index with
  | nil => rfl
  | cons turn later ih =>
    rw [plainTurns, mountedTurns, turnNodes, List.flatMap_append, ih]
    congr 1
    rw [plainTurn, viewOf, TurnView.nodes,
      blockNodes_foldTasks (mounts_inferCompleted (mounts_plainBlocks child index 0 turn.content)),
      blockNodes_inferCompleted, blockNodes_plainBlocks]

end Mounted

section Once

variable {core : Core}

open Classical in
/-- A list with at most one element that qualifies. -/
theorem flatMap_ite_unique {α β : Type} {list : List α} {qualifies : α → Prop} (distinct : list.Nodup)
    (unique : ∀ first ∈ list, ∀ second ∈ list, qualifies first → qualifies second → first = second)
    (value : β) :
    list.flatMap (fun element => if qualifies element then [value] else []) =
      if ∃ element ∈ list, qualifies element then [value] else [] := by
  induction list with
  | nil => simp
  | cons element rest ih =>
    rw [List.nodup_cons] at distinct
    have later := ih distinct.2 fun first member second member' =>
      unique first (.tail _ member) second (.tail _ member')
    rw [List.flatMap_cons, later]
    by_cases here : qualifies element
    · have none : ¬∃ other ∈ rest, qualifies other := by
        rintro ⟨other, member, also⟩
        have same := unique element List.mem_cons_self other (.tail _ member) here also
        rw [same] at distinct
        exact distinct.1 member
      rw [if_pos here, if_neg none, if_pos ⟨element, List.mem_cons_self, here⟩, List.append_nil]
    · rw [if_neg here, List.nil_append]
      refine if_congr ?_ rfl rfl
      constructor
      · rintro ⟨other, member, also⟩
        exact ⟨other, .tail _ member, also⟩
      · rintro ⟨other, member, also⟩
        cases member with
        | head => exact absurd also here
        | tail _ member => exact ⟨other, member, also⟩

/-- The nodes of one group. -/
def nodesOf (id : String) (nodes : List (String × List TurnView)) : List (String × List TurnView) :=
  nodes.filter fun node => node.1 = id

theorem nodesOf_flatMap (id : String) (child : String → List TurnView) (ids : List String) :
    nodesOf id (ids.flatMap (groupNodes child)) =
      ids.flatMap fun other => nodesOf id (groupNodes child other) := List.filter_flatMap

open Classical in
/-- A mounted group counts for itself and for what is below it. -/
theorem nodesOf_groupNodes {depth : Key → Nat} (forest : Forest core.parent depth) {id other : String}
    (below : nodesOf id (turnNodes (shown core (.group other))) =
      if Relation.TransGen (Up core.parent) (.group id) (.group other) then
        [(id, shown core (.group id))] else []) :
    nodesOf id (groupNodes (fun id => shown core (.group id)) other) =
      if Relation.ReflTransGen (Up core.parent) (.group id) (.group other) then
        [(id, shown core (.group id))] else [] := by
  unfold groupNodes nodesOf at *
  by_cases same : other = id
  · rw [same] at below ⊢
    rw [if_neg (forest.acyclic _)] at below
    rw [List.filter_cons_of_pos (by simp), below, if_pos .refl]
  · rw [List.filter_cons_of_neg (by simpa using same), below]
    refine if_congr ?_ rfl rfl
    constructor
    · exact Relation.TransGen.to_reflTransGen
    · intro reaches
      rcases Relation.reflTransGen_iff_eq_or_transGen.mp reaches with equal | path
      · exact absurd (Key.group.inj equal) same
      · exact path

open Classical in
/-- Below a fold a group is shown once if the fold is above the group, and else not. -/
theorem nodesOf_shown (sound : core.Sound) {depth : Key → Nat} (forest : Forest core.parent depth)
    (id : String) (key : Key) :
    nodesOf id (turnNodes (shown core key)) =
      if Relation.TransGen (Up core.parent) (.group id) key then [(id, shown core (.group id))] else [] := by
  -- The induction goes down the forest, on what is left below the depth of the fold.
  induction left : core.groups.size - depth key using Nat.strong_induction_on generalizing key with
  | h left ih =>
    have here : ∀ other ∈ mountedTurns core key 0 (core.fold key).turns,
        nodesOf id (groupNodes (fun id => shown core (.group id)) other) =
          if Relation.ReflTransGen (Up core.parent) (.group id) (.group other) then
            [(id, shown core (.group id))] else [] := by
      intro other member
      have up := (mem_mounted_iff sound other).mp member
      have deeper := forest.child up
      have low := Core.depth_le_size forest (.group other)
      have below := ih (core.groups.size - depth (.group other)) (by omega) (.group other) rfl
      exact nodesOf_groupNodes forest below
    rw [shown_eq sound, turnNodes_plainTurns, nodesOf_flatMap, List.flatMap_congr here,
      flatMap_ite_unique (nodup_mountedTurns 0 _)]
    · refine if_congr ?_ rfl rfl
      constructor
      · rintro ⟨other, member, reaches⟩
        exact .tail' reaches ((mem_mounted_iff sound other).mp member)
      · intro reaches
        obtain ⟨between, reaches, step⟩ := Relation.TransGen.tail'_iff.mp reaches
        cases between with
        | main => cases step
        | group other => exact ⟨other, (mem_mounted_iff sound other).mpr step, reaches⟩
    · intro first member second member' toFirst toSecond
      have same := forest.eq_of_common ((mem_mounted_iff sound first).mp member)
        ((mem_mounted_iff sound second).mp member') toFirst toSecond
      exact Key.group.inj same

theorem has_of_above (sound : core.Sound) {id : String} (known : core.has (.group id) = true) {above : Key}
    (reaches : Relation.ReflTransGen (Up core.parent) (.group id) above) : core.has above = true := by
  cases Relation.ReflTransGen.cases_tail reaches with
  | inl same =>
    rw [same]
    exact known
  | inr path =>
    obtain ⟨between, _, step⟩ := path
    cases between with
    | main => cases step
    | group other =>
      obtain ⟨site, anchored, isKey⟩ := Option.map_eq_some_iff.mp step
      obtain ⟨turn, block, found, _⟩ := sound.anchored other site anchored
      rw [← isKey]
      exact Core.has_of_turn? found

open Classical in
theorem nodesOf_cards (sound : core.Sound) {depth : Key → Nat} (forest : Forest core.parent depth)
    (id : String) :
    nodesOf id (turnNodes (core.pendingGroups.map fun other => card other (shown core (.group other)))) =
      if ∃ other ∈ core.pendingGroups, Relation.ReflTransGen (Up core.parent) (.group id) (.group other)
        then [(id, shown core (.group id))] else [] := by
  have cards : ∀ ids : List String,
      turnNodes (ids.map fun other => card other (shown core (.group other))) =
        ids.flatMap (groupNodes fun id => shown core (.group id)) := by
    intro ids
    induction ids with
    | nil => rfl
    | cons other rest ih =>
      rw [List.map_cons, turnNodes, ih, List.flatMap_cons]
      congr 1
      simp [card, TurnView.nodes, blockNodes, groupNodes]
  have each : ∀ other ∈ core.pendingGroups,
      nodesOf id (groupNodes (fun id => shown core (.group id)) other) =
        if Relation.ReflTransGen (Up core.parent) (.group id) (.group other) then
          [(id, shown core (.group id))] else [] := by
    intro other _
    have below := nodesOf_shown sound forest id (.group other)
    exact nodesOf_groupNodes forest below
  rw [cards, nodesOf_flatMap, List.flatMap_congr each, flatMap_ite_unique sound.distinct]
  intro first member second member' toFirst toSecond
  have isRoot : ∀ other ∈ core.pendingGroups, core.parent (.group other) = none := by
    intro other isPending
    rw [Core.parent, ((sound.pending other).mp isPending).2]
    rfl
  exact Key.group.inj (root_unique toFirst (isRoot first member) toSecond (isRoot second member'))

theorem nodesOf_shownAll (sound : core.Sound) {id : String} (known : core.has (.group id) = true) :
    nodesOf id (turnNodes (shownAll core)) = [(id, shown core (.group id))] := by
  classical
  obtain ⟨depth, forest⟩ := sound.forest
  obtain ⟨root, reaches, isRoot⟩ := forest.exists_root (.group id)
  have parts : nodesOf id (turnNodes (shownAll core)) = nodesOf id (turnNodes (shown core .main)) ++
      nodesOf id (turnNodes (core.pendingGroups.map fun other => card other (shown core (.group other)))) := by
    rw [shownAll, turnNodes_append]
    exact List.filter_append ..
  rw [parts, nodesOf_shown sound forest, nodesOf_cards sound forest]
  cases root with
  | main =>
    have above : Relation.TransGen (Up core.parent) (.group id) .main := by
      rcases Relation.reflTransGen_iff_eq_or_transGen.mp reaches with equal | path
      · cases equal
      · exact path
    have none : ¬∃ other ∈ core.pendingGroups,
        Relation.ReflTransGen (Up core.parent) (.group id) (.group other) := by
      rintro ⟨other, isPending, reaches'⟩
      have isRoot' : core.parent (.group other) = Option.none := by
        rw [Core.parent, ((sound.pending other).mp isPending).2]
        rfl
      cases root_unique reaches isRoot reaches' isRoot'
    rw [if_pos above, if_neg none, List.append_nil]
  | group other =>
    have none : ¬Relation.TransGen (Up core.parent) (.group id) .main := by
      intro above
      cases root_unique reaches isRoot above.to_reflTransGen rfl
    have isPending : other ∈ core.pendingGroups :=
      (sound.pending other).mpr ⟨has_of_above sound known reaches, Option.map_eq_none_iff.mp isRoot⟩
    rw [if_neg none, if_pos ⟨other, isPending, reaches⟩, List.nil_append]

/-- A group is anchored on a block of another group. -/
def AnchoredIn (core : Core) (id above : String) : Prop :=
  ∃ site, core.anchor (.group id) = some site ∧ site.fold = .group above

theorem anchoredIn_acyclic (sound : core.Sound) (id : String) :
    ¬Relation.TransGen (AnchoredIn core) id id := by
  obtain ⟨depth, forest⟩ := sound.forest
  intro cycle
  refine forest.acyclic (.group id) (cycle.lift Key.group ?_)
  rintro first second ⟨site, anchored, isKey⟩
  show core.parent (.group first) = _
  rw [Core.parent, anchored, Option.map_some, isKey]

variable {ρ : Type}

/-- Every parent id that occurs has its group. -/
theorem has_replay (entryOf : ρ → Entry) (entries : List ρ) {entry : ρ} (member : entry ∈ entries)
    {id : String} (isParent : truthy (entryOf entry).parentToolUseId = some id) :
    (replay entryOf entries).has (.group id) = true := by
  have kept : ∀ (later : List ρ) {core : Core}, core.Sound → core.has (.group id) = true →
      (later.foldl (fun core entry => (core.appendOne (entryOf entry)).1) core).has (.group id) = true := by
    intro later
    induction later with
    | nil => exact fun _ known => known
    | cons next rest ih =>
      intro core sound known
      have moves := Core.moves_appendOne sound (entryOf next)
      exact ih (moves.sound sound) (moves.has known)
  have here : ∀ {core : Core}, core.Sound →
      (core.appendOne (entryOf entry)).1.has (.group id) = true := by
    intro core sound
    obtain ⟨grouped, known⟩ := Core.moves_groupFoldFor sound id
    unfold Core.appendOne
    rw [isParent]
    exact (Core.moves_appendTo (grouped.sound sound) known (entryOf entry)).has known
  obtain ⟨before, after, split⟩ := List.append_of_mem member
  rw [split, replay, List.foldl_append, List.foldl_cons]
  have sound := sound_replay entryOf before
  exact kept after ((Core.moves_appendOne sound (entryOf entry)).sound sound) (here sound)

theorem every_sub_timeline_shown_once [DecidableEq ρ] (entryOf : ρ → Entry) (entries : List ρ) :
    (∀ seen, seen <+: entries → ∀ id, ¬Relation.TransGen (AnchoredIn (replay entryOf seen)) id id) ∧
    ∃ turns, projectEntriesToTurns entryOf entries = some turns ∧
      ∀ id, (∃ entry ∈ entries, truthy (entryOf entry).parentToolUseId = some id) →
        (turnNodes turns).filter (fun node => node.1 = id) =
          [(id, shown (replay entryOf entries) (.group id))] := by
  refine ⟨fun seen _ => anchoredIn_acyclic (sound_replay entryOf seen), _,
    projectEntriesToTurns_eq entryOf entries, ?_⟩
  rintro id ⟨entry, member, isParent⟩
  exact nodesOf_shownAll (sound_replay entryOf entries) (has_replay entryOf entries member isParent)

end Once

end ArcReel.Timeline
