import ArcReel.Timeline.Display

/-! What `touch` does: it changes versions only, and every fold and every anchoring turn
above the touched turn gets a new one. The anchors form a forest in every state. -/

namespace ArcReel.Timeline
open ArcReel.Lib

theorem getElem?_modify_ite {α : Type} (list : List α) (change : α → α) (target index : Nat) :
    (list.modify target change)[index]? =
      if index = target then list[index]?.map change else list[index]? := by
  rw [List.getElem?_modify]
  by_cases same : target = index
  · simp [same]
  · have apart : index ≠ target := fun equal => same equal.symm
    simp [same, apart]

/-- A turn without its version. -/
def InternalTurn.bare (turn : InternalTurn) : InternalTurn := { turn with version := 0 }

namespace Core

def has (core : Core) : Key → Bool
  | .main => true
  | .group id => (core.groups.get? id).isSome

def turn? (core : Core) (key : Key) (index : Nat) : Option InternalTurn := (core.fold key).turns[index]?

section Access

variable (core : Core) (key other : Key) (fold : Fold)

theorem fold_setFold : (core.setFold key fold).fold other =
    if other = key ∧ core.has key = true then fold else core.fold other := by
  cases key with
  | main => cases other <;> simp [setFold, Core.fold, has]
  | group id =>
    cases found : core.groups.get? id with
    | none => simp [setFold, has, found]
    | some group =>
      cases other with
      | main => simp [setFold, Core.fold, found]
      | group other =>
        by_cases same : other = id
        · simp [setFold, Core.fold, has, found, same, Dict.get?_set]
        · simp [setFold, Core.fold, has, found, same, Dict.get?_set]

theorem anchor_setFold : (core.setFold key fold).anchor = core.anchor := by
  funext other
  cases key with
  | main => cases other <;> rfl
  | group id =>
    cases found : core.groups.get? id with
    | none => simp [setFold, found]
    | some group =>
      cases other with
      | main => rfl
      | group other =>
        by_cases same : other = id
        · simp [setFold, anchor, found, same, Dict.get?_set]
        · simp [setFold, anchor, found, same, Dict.get?_set]

theorem has_setFold : (core.setFold key fold).has other = core.has other := by
  cases key with
  | main => cases other <;> rfl
  | group id =>
    cases found : core.groups.get? id with
    | none => simp [setFold, found]
    | some group =>
      cases other with
      | main => rfl
      | group other =>
        by_cases same : other = id
        · simp [setFold, has, found, same, Dict.get?_set]
        · simp [setFold, has, found, same, Dict.get?_set]

theorem size_setFold : (core.setFold key fold).groups.size = core.groups.size := by
  cases key with
  | main => rfl
  | group id =>
    cases found : core.groups.get? id with
    | none => simp [setFold, found]
    | some group =>
      simp only [setFold, found]
      exact Dict.size_set_known found _

@[simp] theorem versionCounter_setFold :
    (core.setFold key fold).versionCounter = core.versionCounter := by
  unfold setFold
  split <;> [skip; split] <;> rfl

@[simp] theorem pendingGroups_setFold :
    (core.setFold key fold).pendingGroups = core.pendingGroups := by
  unfold setFold
  split <;> [skip; split] <;> rfl

@[simp] theorem toolUseSites_setFold :
    (core.setFold key fold).toolUseSites = core.toolUseSites := by
  unfold setFold
  split <;> [skip; split] <;> rfl

end Access

/-- Nothing but versions has changed, and a version that has is new. -/
structure Later (core later : Core) : Prop where
  counter : core.versionCounter ≤ later.versionCounter
  anchor : later.anchor = core.anchor
  has : later.has = core.has
  size : later.groups.size = core.groups.size
  pending : later.pendingGroups = core.pendingGroups
  sites : later.toolUseSites = core.toolUseSites
  bare : ∀ key index, (later.turn? key index).map InternalTurn.bare =
    (core.turn? key index).map InternalTurn.bare
  turn : ∀ key index old new, core.turn? key index = some old → later.turn? key index = some new →
    new.version = old.version ∨ core.versionCounter < new.version
  fold : ∀ key, (later.fold key).version = (core.fold key).version ∨
    core.versionCounter < (later.fold key).version

/-- No version is above the counter. -/
structure Bounded (core : Core) : Prop where
  turn : ∀ key index turn, core.turn? key index = some turn → turn.version ≤ core.versionCounter
  fold : ∀ key, (core.fold key).version ≤ core.versionCounter

namespace Later

variable {core middle later : Core}

theorem refl (core : Core) : Later core core :=
  ⟨le_refl _, rfl, rfl, rfl, rfl, rfl, fun _ _ => rfl,
    fun _ _ _ _ old new => .inl (congrArg _ (Option.some.inj (new.symm.trans old))), fun _ => .inl rfl⟩

theorem exists_turn (step : Later core later) {key : Key} {index : Nat} {new : InternalTurn}
    (found : later.turn? key index = some new) :
    ∃ old, core.turn? key index = some old ∧ old.bare = new.bare := by
  have same := step.bare key index
  rw [found, Option.map_some, eq_comm, Option.map_eq_some_iff] at same
  exact same

theorem trans (first : Later core middle) (second : Later middle later) : Later core later where
  counter := le_trans first.counter second.counter
  anchor := second.anchor.trans first.anchor
  has := second.has.trans first.has
  size := second.size.trans first.size
  pending := second.pending.trans first.pending
  sites := second.sites.trans first.sites
  bare key index := (second.bare key index).trans (first.bare key index)
  turn := by
    intro key index old new before after
    obtain ⟨between, found, _⟩ := second.exists_turn after
    have counter := first.counter
    rcases second.turn key index between new found after with same | new
    · rw [same]
      exact first.turn key index old between before found
    · right
      omega
  fold := by
    intro key
    have counter := first.counter
    rcases second.fold key with same | new
    · rw [same]
      exact first.fold key
    · right
      omega

/-- A turn with a new version keeps one. -/
theorem turn_gt (step : Later core later) {key : Key} {index bound : Nat} {new : InternalTurn}
    (low : bound ≤ core.versionCounter)
    (before : ∀ old, core.turn? key index = some old → bound < old.version)
    (after : later.turn? key index = some new) : bound < new.version := by
  obtain ⟨old, found, _⟩ := step.exists_turn after
  rcases step.turn key index old new found after with same | above
  · rw [same]
    exact before old found
  · omega

theorem fold_gt (step : Later core later) {key : Key} {bound : Nat} (low : bound ≤ core.versionCounter)
    (before : bound < (core.fold key).version) : bound < (later.fold key).version := by
  rcases step.fold key with same | above
  · rwa [same]
  · omega

end Later

section Touch

variable {core : Core}

theorem turn?_modifyTurns (core : Core) (key other : Key) (index : Nat)
    (change : List InternalTurn → List InternalTurn) : (core.modifyTurns key change).turn? other index =
      if other = key ∧ core.has key = true then (change (core.fold key).turns)[index]?
      else core.turn? other index := by
  unfold turn? modifyTurns
  rw [fold_setFold]
  split_ifs <;> rfl

theorem turn?_bumpTurn (core : Core) (key other : Key) (turn index : Nat) :
    (core.bumpTurn key turn).turn? other index =
      if other = key ∧ index = turn then
        (core.turn? other index).map fun old => { old with version := core.versionCounter + 1 }
      else core.turn? other index := by
  show (core.modifyTurns key _).turn? other index = _
  rw [turn?_modifyTurns]
  by_cases here : other = key ∧ core.has key = true
  · rw [if_pos here, getElem?_modify_ite, here.1]
    simp only [true_and]
    rfl
  · rw [if_neg here]
    by_cases same : other = key ∧ index = turn
    · have missing : core.has key ≠ true := fun known => here ⟨same.1, known⟩
      have empty : core.turn? other index = none := by
        rw [same.1]
        cases key with
        | main => exact absurd rfl missing
        | group id =>
          have absent : core.groups.get? id = none := by simpa [has] using missing
          simp [turn?, Core.fold, absent, newFold]
      rw [if_pos same, empty]
      rfl
    · rw [if_neg same]

theorem fold_version_bumpTurn (core : Core) (key other : Key) (turn : Nat) :
    ((core.bumpTurn key turn).fold other).version = (core.fold other).version := by
  show ((core.setFold key _).fold other).version = _
  rw [fold_setFold]
  split_ifs with here
  · rw [here.1]
  · rfl

theorem later_bumpTurn (core : Core) (key : Key) (turn : Nat) : Later core (core.bumpTurn key turn) where
  counter := Nat.le_succ _
  anchor := anchor_setFold core key _
  has := funext fun other => has_setFold core key other _
  size := size_setFold core key _
  pending := pendingGroups_setFold core key _
  sites := toolUseSites_setFold core key _
  bare := by
    intro other index
    rw [turn?_bumpTurn]
    split_ifs
    · rw [Option.map_map]
      rfl
    · rfl
  turn := by
    intro other index old new before after
    rw [turn?_bumpTurn, before] at after
    split_ifs at after
    · right
      rw [← Option.some.inj after]
      exact Nat.lt_succ_self _
    · left
      rw [Option.some.inj after]
  fold := by
    intro other
    left
    exact fold_version_bumpTurn core key other turn

theorem turn?_bumpFold (core : Core) (key other : Key) (index : Nat) :
    (core.bumpFold key).turn? other index = core.turn? other index := by
  show ((core.setFold key _).fold other).turns[index]? = _
  rw [fold_setFold]
  split_ifs with here
  · rw [here.1]
    rfl
  · rfl

theorem fold_version_bumpFold (core : Core) (key other : Key) :
    ((core.bumpFold key).fold other).version =
      if other = key ∧ core.has key = true then core.versionCounter + 1 else (core.fold other).version := by
  show ((core.setFold key _).fold other).version = _
  rw [fold_setFold]
  split_ifs <;> rfl

theorem later_bumpFold (core : Core) (key : Key) : Later core (core.bumpFold key) where
  counter := Nat.le_succ _
  anchor := anchor_setFold core key _
  has := funext fun other => has_setFold core key other _
  size := size_setFold core key _
  pending := pendingGroups_setFold core key _
  sites := toolUseSites_setFold core key _
  bare := by
    intro other index
    rw [turn?_bumpFold]
  turn := by
    intro other index old new before after
    rw [turn?_bumpFold, before] at after
    left
    rw [Option.some.inj after]
  fold := by
    intro other
    rw [fold_version_bumpFold]
    split_ifs
    · right
      exact Nat.lt_succ_self _
    · left
      rfl

theorem later_bump (core : Core) (key : Key) : Later core (core.bump key) := by
  unfold bump
  split
  · exact (later_bumpFold core key).trans (later_bumpTurn _ _ _)
  · exact later_bumpFold core key

theorem later_foldl_bump (keys : List Key) (core : Core) : Later core (keys.foldl bump core) := by
  induction keys generalizing core with
  | nil => exact .refl core
  | cons key later ih => exact (later_bump core key).trans (ih _)

theorem later_touch (core : Core) (key : Key) (turn : Nat) : Later core (core.touch key turn) :=
  (later_bumpTurn core key turn).trans (later_foldl_bump _ _)

theorem touch_turn_gt {key : Key} {turn : Nat} {new : InternalTurn}
    (found : (core.touch key turn).turn? key turn = some new) : core.versionCounter < new.version := by
  refine (later_foldl_bump (core.chain key) (core.bumpTurn key turn)).turn_gt (Nat.le_succ _) ?_ found
  intro old before
  rw [turn?_bumpTurn, if_pos ⟨rfl, rfl⟩, Option.map_eq_some_iff] at before
  obtain ⟨first, _, same⟩ := before
  rw [← same]
  exact Nat.lt_succ_self _

theorem foldl_bump_fold_gt {keys : List Key} {core : Core} {bound : Nat} {key : Key}
    (low : bound ≤ core.versionCounter) (member : key ∈ keys) (known : core.has key = true) :
    bound < ((keys.foldl bump core).fold key).version := by
  induction keys generalizing core with
  | nil => cases member
  | cons first rest ih =>
    have step := later_bump core first
    have low' : bound ≤ (core.bump first).versionCounter := le_trans low step.counter
    cases member with
    | tail _ below => exact ih low' below (by rwa [step.has])
    | head =>
      refine (later_foldl_bump rest _).fold_gt low' ?_
      have bumped : bound < ((core.bumpFold key).fold key).version := by
        rw [fold_version_bumpFold, if_pos ⟨rfl, known⟩]
        omega
      unfold bump
      split
      · rwa [fold_version_bumpTurn]
      · exact bumped

theorem foldl_bump_turn_gt {keys : List Key} {core : Core} {bound : Nat} {key : Key}
    {site : ToolUseSite} {new : InternalTurn} (low : bound ≤ core.versionCounter) (member : key ∈ keys)
    (anchored : core.anchor key = some site)
    (found : (keys.foldl bump core).turn? site.fold site.turn = some new) : bound < new.version := by
  induction keys generalizing core with
  | nil => cases member
  | cons first rest ih =>
    have step := later_bump core first
    have low' : bound ≤ (core.bump first).versionCounter := le_trans low step.counter
    cases member with
    | tail _ below => exact ih low' below (by rwa [step.anchor]) found
    | head =>
      refine (later_foldl_bump rest _).turn_gt low' ?_ found
      intro old before
      rw [bump, anchored] at before
      rw [turn?_bumpTurn, if_pos ⟨rfl, rfl⟩, Option.map_eq_some_iff] at before
      obtain ⟨middle, _, same⟩ := before
      have counter := (later_bumpFold core key).counter
      rw [← same]
      show bound < (core.bumpFold key).versionCounter + 1
      omega

/-- Every fold that the loop visits gets a new version. -/
theorem touch_fold_gt {key above : Key} {turn : Nat} (visited : above ∈ core.chain key)
    (known : core.has above = true) : core.versionCounter < ((core.touch key turn).fold above).version := by
  refine foldl_bump_fold_gt (Nat.le_succ _) visited ?_
  rw [(later_bumpTurn core key turn).has]
  exact known

/-- So does every turn on which such a fold is mounted. -/
theorem touch_anchor_gt {key above : Key} {turn : Nat} {site : ToolUseSite} {new : InternalTurn}
    (visited : above ∈ core.chain key) (anchored : core.anchor above = some site)
    (found : (core.touch key turn).turn? site.fold site.turn = some new) :
    core.versionCounter < new.version := by
  refine foldl_bump_turn_gt (Nat.le_succ _) visited ?_ found
  rw [(later_bumpTurn core key turn).anchor]
  exact anchored

theorem bounded_bumpTurn (bounded : Bounded core) (key : Key) (turn : Nat) :
    Bounded (core.bumpTurn key turn) where
  turn := by
    intro other index new found
    rw [turn?_bumpTurn] at found
    split_ifs at found
    · obtain ⟨old, _, same⟩ := Option.map_eq_some_iff.mp found
      rw [← same]
      exact le_refl _
    · exact Nat.le_succ_of_le (bounded.turn other index new found)
  fold := by
    intro other
    rw [fold_version_bumpTurn]
    exact Nat.le_succ_of_le (bounded.fold other)

theorem bounded_bumpFold (bounded : Bounded core) (key : Key) : Bounded (core.bumpFold key) where
  turn := by
    intro other index new found
    rw [turn?_bumpFold] at found
    exact Nat.le_succ_of_le (bounded.turn other index new found)
  fold := by
    intro other
    rw [fold_version_bumpFold]
    split_ifs
    · exact le_refl _
    · exact Nat.le_succ_of_le (bounded.fold other)

theorem bounded_bump (bounded : Bounded core) (key : Key) : Bounded (core.bump key) := by
  unfold bump
  split
  · exact bounded_bumpTurn (bounded_bumpFold bounded key) _ _
  · exact bounded_bumpFold bounded key

theorem bounded_touch (bounded : Bounded core) (key : Key) (turn : Nat) :
    Bounded (core.touch key turn) := by
  have all : ∀ (keys : List Key) {core : Core}, Bounded core → Bounded (keys.foldl bump core) := by
    intro keys
    induction keys with
    | nil => exact fun bounded => bounded
    | cons first rest ih => exact fun bounded => ih (bounded_bump bounded first)
  exact all _ (bounded_bumpTurn bounded key turn)

end Touch

/-- The block at a site is a tool_use block with the id. -/
def Holds (core : Core) (site : ToolUseSite) (id : String) : Prop :=
  ∃ turn block, core.turn? site.fold site.turn = some turn ∧ turn.content[site.block]? = some block ∧
    toolUse? block = some id

/-- What holds in every state of a projector. -/
structure Sound (core : Core) : Prop where
  forest : ∃ depth, Forest core.parent depth
  bounded : Bounded core
  anchored : ∀ id site, core.anchor (.group id) = some site → core.Holds site id
  sites : ∀ id site, core.toolUseSites.get? id = some site → core.Holds site id
  pending : ∀ id, id ∈ core.pendingGroups ↔
    core.has (.group id) = true ∧ core.anchor (.group id) = none
  distinct : core.pendingGroups.Nodup

/-- Nothing has changed but one turn and the groups that are mounted on it. -/
structure Changed (core middle : Core) (key : Key) (turn : Nat) : Prop where
  counter : middle.versionCounter = core.versionCounter
  size : core.groups.size ≤ middle.groups.size
  fold : ∀ other, (middle.fold other).version = (core.fold other).version
  turns : ∀ other index, ¬(other = key ∧ index = turn) → middle.turn? other index = core.turn? other index
  holds : ∀ site id, core.Holds site id → middle.Holds site id
  anchor : ∀ other, middle.anchor other = core.anchor other ∨
    core.anchor other = none ∧ ∃ block, middle.anchor other = some ⟨key, turn, block⟩
  has : ∀ other, core.has other = true → middle.has other = true
  known : middle.has key = true

/-- The changes of which `appendOne` is made; all but the first set `composedDirty`. -/
inductive Step : Bool → Core → Core → Prop
  | site {dirty : Bool} {core : Core} {id : String} {site : ToolUseSite}
      (new : core.toolUseSites.get? id = none) (holds : core.Holds site id) :
      Step dirty core { core with toolUseSites := core.toolUseSites.set id site }
  | group {core : Core} {id : String} (new : core.groups.get? id = none) :
      Step true core { core with
        groups := core.groups.set id ⟨newFold, none⟩
        pendingGroups := core.pendingGroups ++ [id] }
  | touch {core middle : Core} {key : Key} {turn : Nat} (changed : Changed core middle key turn)
      (sound : Sound middle) : Step true core (middle.touch key turn)

section Preservation

variable {core later : Core}

theorem has_of_turn? {key : Key} {index : Nat} {turn : InternalTurn}
    (found : core.turn? key index = some turn) : core.has key = true := by
  cases key with
  | main => rfl
  | group id =>
    cases known : core.groups.get? id with
    | some group => simp [has, known]
    | none => simp [turn?, Core.fold, known, newFold] at found

theorem Later.holds (step : Later core later) {site : ToolUseSite} {id : String}
    (holds : core.Holds site id) : later.Holds site id := by
  obtain ⟨turn, block, found, atBlock, isId⟩ := holds
  have same := step.bare site.fold site.turn
  rw [found, Option.map_some, Option.map_eq_some_iff] at same
  obtain ⟨new, isNew, alike⟩ := same
  refine ⟨new, block, isNew, ?_, isId⟩
  have content : new.bare.content = turn.bare.content := by rw [alike]
  rw [show new.content = turn.content from content]
  exact atBlock

theorem parent_eq (same : later.anchor = core.anchor) : later.parent = core.parent := by
  funext key
  unfold parent
  rw [same]

theorem Sound.of_same (sound : Sound core) (bounded : Bounded later)
    (anchor : later.anchor = core.anchor) (has : later.has = core.has)
    (pending : later.pendingGroups = core.pendingGroups)
    (sites : later.toolUseSites = core.toolUseSites)
    (holds : ∀ site id, core.Holds site id → later.Holds site id) : Sound later where
  forest := by
    rw [parent_eq anchor]
    exact sound.forest
  bounded := bounded
  anchored := by
    intro id site found
    rw [anchor] at found
    exact holds site id (sound.anchored id site found)
  sites := by
    intro id site found
    rw [sites] at found
    exact holds site id (sound.sites id site found)
  pending := by
    rw [pending, has, anchor]
    exact sound.pending
  distinct := by
    rw [pending]
    exact sound.distinct

theorem sound_touch (sound : Sound core) (key : Key) (turn : Nat) : Sound (core.touch key turn) :=
  have step := later_touch core key turn
  sound.of_same (bounded_touch sound.bounded key turn) step.anchor step.has step.pending step.sites
    fun _ _ => step.holds

/-- A group that is added has no turns and no anchor. -/
theorem fold_addGroup {id : String} (new : core.groups.get? id = none) (pending : List String) :
    ({ core with groups := core.groups.set id ⟨newFold, none⟩, pendingGroups := pending } : Core).fold =
      core.fold := by
  funext key
  cases key with
  | main => rfl
  | group other =>
    by_cases same : other = id
    · simp [Core.fold, Dict.get?_set, same, new]
    · simp [Core.fold, Dict.get?_set, same]

theorem anchor_addGroup {id : String} (new : core.groups.get? id = none) (pending : List String) :
    ({ core with groups := core.groups.set id ⟨newFold, none⟩, pendingGroups := pending } : Core).anchor =
      core.anchor := by
  funext key
  cases key with
  | main => rfl
  | group other =>
    by_cases same : other = id
    · simp [Core.anchor, Dict.get?_set, same, new]
    · simp [Core.anchor, Dict.get?_set, same]

theorem has_addGroup {id : String} (pending : List String) (other : Key) :
    ({ core with groups := core.groups.set id ⟨newFold, none⟩, pendingGroups := pending } : Core).has other =
      (core.has other || decide (other = .group id)) := by
  cases other with
  | main => rfl
  | group other =>
    by_cases same : other = id
    · simp [Core.has, Dict.get?_set, same]
    · simp [Core.has, Dict.get?_set, same]

theorem sound_addGroup (sound : Sound core) {id : String} (new : core.groups.get? id = none) :
    Sound { core with
      groups := core.groups.set id ⟨newFold, none⟩
      pendingGroups := core.pendingGroups ++ [id] } := by
  have fold := fold_addGroup new (core.pendingGroups ++ [id])
  have anchor := anchor_addGroup new (core.pendingGroups ++ [id])
  have absent : core.has (.group id) = false := by simp [has, new]
  have holds : ∀ site other, core.Holds site other → ({ core with
      groups := core.groups.set id ⟨newFold, none⟩
      pendingGroups := core.pendingGroups ++ [id] } : Core).Holds site other := by
    intro site other held
    unfold Holds turn? at held ⊢
    rwa [fold]
  refine ⟨?_, ⟨?_, ?_⟩, ?_, ?_, ?_, ?_⟩
  · rw [parent_eq anchor]
    exact sound.forest
  · unfold turn?
    rw [fold]
    exact sound.bounded.turn
  · rw [fold]
    exact sound.bounded.fold
  · rw [anchor]
    exact fun other site found => holds site other (sound.anchored other site found)
  · exact fun other site found => holds site other (sound.sites other site found)
  · intro other
    rw [List.mem_append, List.mem_singleton, sound.pending, has_addGroup, anchor, Bool.or_eq_true,
      decide_eq_true_iff, Key.group.injEq]
    have unanchored : core.anchor (.group id) = none := by simp [Core.anchor, new]
    constructor
    · rintro (⟨known, root⟩ | rfl)
      · exact ⟨.inl known, root⟩
      · exact ⟨.inr rfl, unanchored⟩
    · rintro ⟨known | rfl, root⟩
      · exact .inl ⟨known, root⟩
      · exact .inr rfl
  · refine List.nodup_append.mpr ⟨sound.distinct, List.nodup_singleton id, ?_⟩
    intro first member second only same
    rw [same, List.mem_singleton.mp only, sound.pending, absent] at member
    cases member.1

theorem Step.sound {dirty : Bool} (step : Step dirty core later) (sound : Sound core) : Sound later := by
  cases step with
  | site new holds =>
    refine ⟨sound.forest, ⟨sound.bounded.turn, sound.bounded.fold⟩, sound.anchored, ?_, sound.pending,
      sound.distinct⟩
    intro id other found
    rw [Dict.get?_set] at found
    split_ifs at found with same
    · rw [same, ← Option.some.inj found]
      exact holds
    · exact sound.sites id other found
  | group new => exact sound_addGroup sound new
  | touch _ sound => exact sound_touch sound _ _

theorem Step.holds {dirty : Bool} (step : Step dirty core later) {site : ToolUseSite} {id : String}
    (held : core.Holds site id) : later.Holds site id := by
  cases step with
  | site new _ => exact held
  | group new =>
    unfold Holds turn? at held ⊢
    rwa [fold_addGroup new]
  | touch changed _ => exact (later_touch _ _ _).holds (changed.holds site id held)

theorem Step.has {dirty : Bool} (step : Step dirty core later) {key : Key}
    (known : core.has key = true) : later.has key = true := by
  cases step with
  | site _ _ => exact known
  | group new =>
    rw [has_addGroup, known]
    rfl
  | touch changed _ =>
    rw [(later_touch _ _ _).has]
    exact changed.has key known

end Preservation

end Core

end ArcReel.Timeline
