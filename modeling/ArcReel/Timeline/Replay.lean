import ArcReel.Timeline.Appending

/-! Every call of a projector returns what a full replay returns: a cached turn or
timeline whose version is still current shows what would be built anew. -/

namespace ArcReel.Timeline
open ArcReel.Lib

section Plain

variable (child : String → List TurnView) (core : Core) (key : Key)

def plainBlocks (turn : Nat) : Nat → List Block → List BlockView
  | _, [] => []
  | index, block :: later =>
      .mk block ((mounted core ⟨key, turn, index⟩ block).map child) none :: plainBlocks turn (index + 1) later

/-- A turn as it is built without caches. -/
def plainTurn (index : Nat) (turn : InternalTurn) : TurnView :=
  viewOf turn (plainBlocks child core key index 0 turn.content)

def plainTurns : Nat → List InternalTurn → List TurnView
  | _, [] => []
  | index, turn :: later => plainTurn child core key index turn :: plainTurns (index + 1) later

def plainDisplay (core : Core) : Nat → Key → List TurnView
  | 0, _ => []
  | fuel + 1, key =>
      plainTurns (fun id => plainDisplay core fuel (.group id)) core key 0 (core.fold key).turns

/-- The timeline of a fold without caches. -/
def shown (core : Core) (key : Key) : List TurnView := plainDisplay core (core.groups.size + 1) key

def shownTurn (core : Core) (key : Key) (index : Nat) (turn : InternalTurn) : TurnView :=
  plainTurn (fun id => shown core (.group id)) core key index turn

/-- What `compose` returns without caches. -/
def shownAll (core : Core) : List TurnView :=
  shown core .main ++ core.pendingGroups.map fun id => card id (shown core (.group id))

end Plain

section Congruence

variable {child child' : String → List TurnView} {core later : Core} {key : Key}

theorem mounted_eq_some {site : ToolUseSite} {block : Block} {id : String}
    (isMounted : mounted core site block = some id) :
    toolUse? block = some id ∧ core.anchor (.group id) = some site := by
  unfold mounted at isMounted
  rw [Option.filter_eq_some_iff, decide_eq_true_iff] at isMounted
  exact isMounted

theorem mounted_congr {site : ToolUseSite}
    (anchors : ∀ id, later.anchor (.group id) = some site ↔ core.anchor (.group id) = some site)
    (block : Block) : mounted later site block = mounted core site block := by
  unfold mounted
  congr 1
  funext id
  exact decide_eq_decide.mpr (anchors id)

theorem plainBlocks_congr {turn : Nat}
    (anchors : ∀ block id, later.anchor (.group id) = some ⟨key, turn, block⟩ ↔
      core.anchor (.group id) = some ⟨key, turn, block⟩)
    (children : ∀ block id, core.anchor (.group id) = some ⟨key, turn, block⟩ → child' id = child id)
    (blocks : List Block) (index : Nat) :
    plainBlocks child' later key turn index blocks = plainBlocks child core key turn index blocks := by
  induction blocks generalizing index with
  | nil => rfl
  | cons block rest ih =>
    rw [plainBlocks, plainBlocks, ih, mounted_congr (anchors index)]
    cases found : mounted core ⟨key, turn, index⟩ block with
    | none => rfl
    | some id => rw [Option.map_some, Option.map_some, children index id (mounted_eq_some found).2]

theorem plainTurn_congr {turn : Nat} {old new : InternalTurn} (same : new.bare = old.bare)
    (anchors : ∀ block id, later.anchor (.group id) = some ⟨key, turn, block⟩ ↔
      core.anchor (.group id) = some ⟨key, turn, block⟩)
    (children : ∀ block id, core.anchor (.group id) = some ⟨key, turn, block⟩ → child' id = child id) :
    plainTurn child' later key turn new = plainTurn child core key turn old := by
  have content : new.bare.content = old.bare.content := by rw [same]
  have views : ∀ blocks, viewOf new.bare blocks = viewOf old.bare blocks := by
    intro blocks
    rw [same]
  unfold plainTurn
  rw [show new.content = old.content from content, plainBlocks_congr anchors children]
  exact views _

theorem plainTurns_congr {olds news : List InternalTurn}
    (same : news.map InternalTurn.bare = olds.map InternalTurn.bare)
    (anchors : ∀ turn block id, later.anchor (.group id) = some ⟨key, turn, block⟩ ↔
      core.anchor (.group id) = some ⟨key, turn, block⟩)
    (children : ∀ turn block id, core.anchor (.group id) = some ⟨key, turn, block⟩ →
      child' id = child id) (index : Nat) :
    plainTurns child' later key index news = plainTurns child core key index olds := by
  induction news generalizing olds index with
  | nil =>
    cases olds with
    | nil => rfl
    | cons _ _ => cases same
  | cons new rest ih =>
    cases olds with
    | nil => cases same
    | cons old olds =>
      rw [List.map_cons, List.map_cons, List.cons.injEq] at same
      rw [plainTurns, plainTurns, plainTurn_congr same.1 (anchors index) (children index), ih same.2]

/-- A fold is shown as before if no fold that is mounted below it has changed. -/
theorem plainDisplay_congr (untouched : Key → Prop)
    (bare : ∀ key, untouched key → ∀ index, (later.turn? key index).map InternalTurn.bare =
      (core.turn? key index).map InternalTurn.bare)
    (anchors : ∀ key, untouched key → ∀ turn block id,
      later.anchor (.group id) = some ⟨key, turn, block⟩ ↔ core.anchor (.group id) = some ⟨key, turn, block⟩)
    (closed : ∀ key, untouched key → ∀ turn block id,
      core.anchor (.group id) = some ⟨key, turn, block⟩ → untouched (.group id))
    (fuel : Nat) {key : Key} (isUntouched : untouched key) :
    plainDisplay later fuel key = plainDisplay core fuel key := by
  induction fuel generalizing key with
  | zero => rfl
  | succ fuel ih =>
    refine plainTurns_congr ?_ (anchors key isUntouched) ?_ 0
    · apply List.ext_getElem?
      intro index
      rw [List.getElem?_map, List.getElem?_map]
      exact bare key isUntouched index
    · intro turn block id anchored
      exact ih (closed key isUntouched turn block id anchored)

end Congruence

section Fuel

variable {core : Core}

theorem depth_mounted {depth : Key → Nat} (forest : Forest core.parent depth) {id : String}
    {site : ToolUseSite} (anchored : core.anchor (.group id) = some site) :
    depth (.group id) = depth site.fold + 1 := by
  apply forest.child
  rw [Core.parent, anchored]
  rfl

theorem plainDisplay_enough {depth : Key → Nat} (forest : Forest core.parent depth)
    {first second : Nat} {key : Key} (enough : core.groups.size < first + depth key)
    (enough' : core.groups.size < second + depth key) :
    plainDisplay core first key = plainDisplay core second key := by
  induction first generalizing second key with
  | zero =>
    have low := Core.depth_le_size forest key
    omega
  | succ first ih =>
    cases second with
    | zero =>
      have low := Core.depth_le_size forest key
      omega
    | succ second =>
      refine plainTurns_congr rfl (fun _ _ _ => Iff.rfl) ?_ 0
      intro turn block id anchored
      have deeper : depth (.group id) = depth key + 1 := depth_mounted forest anchored
      exact ih (by omega) (by omega)

theorem shown_of_size (sound : core.Sound) {size : Nat} (large : core.groups.size ≤ size) (key : Key) :
    plainDisplay core (size + 1) key = shown core key := by
  obtain ⟨depth, forest⟩ := sound.forest
  exact plainDisplay_enough forest (by omega) (by omega)

theorem shown_eq (sound : core.Sound) (key : Key) :
    shown core key = plainTurns (fun id => shown core (.group id)) core key 0 (core.fold key).turns := by
  obtain ⟨depth, forest⟩ := sound.forest
  refine plainTurns_congr rfl (fun _ _ _ => Iff.rfl) ?_ 0
  intro turn block id anchored
  have deeper := depth_mounted forest anchored
  exact plainDisplay_enough forest (by omega) (by omega)

end Fuel

/-- What the caches have for a current version is what is shown. -/
structure Valid (core : Core) (cache : Cache) : Prop where
  viewBound : ∀ key index version view, cache.views key index = some (version, view) →
    version ≤ core.versionCounter
  displayBound : ∀ key version display, cache.displays key = some (version, display) →
    version ≤ core.versionCounter
  view : ∀ key index turn view, core.turn? key index = some turn →
    cache.views key index = some (turn.version, view) → view = shownTurn core key index turn
  display : ∀ key display, cache.displays key = some ((core.fold key).version, display) →
    display = shown core key
  absent : ∀ key, core.has key = false → cache.displays key = none

section Caching

variable {core : Core} {cache : Cache}

theorem hit_eq_some {α : Type} {cached : Option (Nat × α)} {version : Nat} {value : α}
    (found : hit cached version = some value) : cached = some (version, value) := by
  unfold hit at found
  rw [Option.map_eq_some_iff] at found
  obtain ⟨entry, isEntry, isValue⟩ := found
  rw [Option.filter_eq_some_iff, decide_eq_true_iff] at isEntry
  rw [isEntry.1, ← isEntry.2, ← isValue]

theorem valid_setView (valid : Valid core cache) (bounded : core.Bounded) {key : Key} {index : Nat}
    {turn : InternalTurn} (found : core.turn? key index = some turn) :
    Valid core (cache.setView key index turn.version (shownTurn core key index turn)) := by
  have lookup : ∀ other place, (cache.setView key index turn.version
      (shownTurn core key index turn)).views other place = if other = key ∧ place = index then
        some (turn.version, shownTurn core key index turn) else cache.views other place := by
    intro other place
    by_cases isKey : other = key
    · by_cases isIndex : place = index <;> simp [Cache.setView, isKey, isIndex]
    · simp [Cache.setView, isKey]
  refine ⟨?_, valid.displayBound, ?_, valid.display, valid.absent⟩
  · intro other place version view cached
    rw [lookup] at cached
    split_ifs at cached
    · rw [← (Prod.mk.inj (Option.some.inj cached)).1]
      exact bounded.turn key index turn found
    · exact valid.viewBound other place version view cached
  · intro other place current view isCurrent cached
    rw [lookup] at cached
    split_ifs at cached with here
    · rw [here.1, here.2] at isCurrent ⊢
      rw [← (Prod.mk.inj (Option.some.inj cached)).2, Option.some.inj (isCurrent.symm.trans found)]
    · exact valid.view other place current view isCurrent cached

theorem valid_setDisplay (valid : Valid core cache) (bounded : core.Bounded) {key : Key}
    (known : core.has key = true) :
    Valid core (cache.setDisplay key (core.fold key).version (shown core key)) := by
  have lookup : ∀ other, (cache.setDisplay key (core.fold key).version (shown core key)).displays other =
      if other = key then some ((core.fold key).version, shown core key) else cache.displays other := by
    intro other
    by_cases isKey : other = key <;> simp [Cache.setDisplay, isKey]
  refine ⟨valid.viewBound, ?_, valid.view, ?_, ?_⟩
  · intro other version display cached
    rw [lookup] at cached
    split_ifs at cached
    · rw [← (Prod.mk.inj (Option.some.inj cached)).1]
      exact bounded.fold key
    · exact valid.displayBound other version display cached
  · intro other display cached
    rw [lookup] at cached
    split_ifs at cached with here
    · rw [here, (Prod.mk.inj (Option.some.inj cached)).2]
    · exact valid.display other display cached
  · intro other missing
    rw [lookup]
    split_ifs with here
    · rw [here, known] at missing
      cases missing
    · exact valid.absent other missing

/-- A recursion on the groups that are mounted in a fold shows them. -/
def Shows (core : Core) (key : Key) (child : Cache → String → Option (Cache × List TurnView)) : Prop :=
  ∀ cache id, core.parent (.group id) = some key → Valid core cache →
    ∃ next, child cache id = some (next, shown core (.group id)) ∧ Valid core next

variable {child : Cache → String → Option (Cache × List TurnView)} {key : Key}

theorem blockViews_spec (shows : Shows core key child) {turn : Nat} (blocks : List Block) (index : Nat)
    {cache : Cache} (valid : Valid core cache) :
    ∃ next, blockViews core child key turn index blocks cache =
        some (next, plainBlocks (fun id => shown core (.group id)) core key turn index blocks) ∧
      Valid core next := by
  induction blocks generalizing index cache with
  | nil => exact ⟨cache, rfl, valid⟩
  | cons block rest ih =>
    have mounts : ∃ next, subTurnsOf core child ⟨key, turn, index⟩ block cache = some (next,
        (mounted core ⟨key, turn, index⟩ block).map fun id => shown core (.group id)) ∧
          Valid core next := by
      unfold subTurnsOf
      cases found : mounted core ⟨key, turn, index⟩ block with
      | none => exact ⟨cache, rfl, valid⟩
      | some id =>
        have anchored : core.parent (.group id) = some key := by
          rw [Core.parent, (mounted_eq_some found).2]
          rfl
        obtain ⟨next, result, isValid⟩ := shows cache id anchored valid
        exact ⟨next, by simp only [result, Option.map_some], isValid⟩
    obtain ⟨middle, first, isValid⟩ := mounts
    obtain ⟨last, later, stillValid⟩ := ih (index + 1) isValid
    refine ⟨last, ?_, stillValid⟩
    rw [blockViews, first, Option.bind_some]
    simp only [later, Option.map_some]
    rfl

theorem turnView_spec (sound : core.Sound) (shows : Shows core key child) {index : Nat}
    {turn : InternalTurn} (found : core.turn? key index = some turn) (valid : Valid core cache) :
    ∃ next, turnView core child key index turn cache = some (next, shownTurn core key index turn) ∧
      Valid core next := by
  unfold turnView
  split
  next view cached =>
    rw [valid.view key index turn view found (hit_eq_some cached)]
    exact ⟨cache, rfl, valid⟩
  next =>
    obtain ⟨next, built, isValid⟩ := blockViews_spec shows turn.content 0 valid
    refine ⟨_, ?_, valid_setView isValid sound.bounded found⟩
    rw [built]
    rfl

theorem turnViews_spec (sound : core.Sound) (shows : Shows core key child) (turns : List InternalTurn)
    (index : Nat) (found : ∀ n : Nat, turns[n]? = core.turn? key (index + n)) {cache : Cache}
    (valid : Valid core cache) :
    ∃ next, turnViews core child key index turns cache =
        some (next, plainTurns (fun id => shown core (.group id)) core key index turns) ∧
      Valid core next := by
  induction turns generalizing index cache with
  | nil => exact ⟨cache, rfl, valid⟩
  | cons turn rest ih =>
    obtain ⟨middle, first, isValid⟩ := turnView_spec sound shows (found 0).symm valid
    obtain ⟨last, later, stillValid⟩ := ih (index + 1) (by
      intro n
      rw [show index + 1 + n = index + (n + 1) by omega]
      exact found (n + 1)) isValid
    refine ⟨last, ?_, stillValid⟩
    rw [Nat.add_zero] at first
    rw [turnViews, first, Option.bind_some]
    simp only [later, Option.map_some]
    rfl

/-- With enough fuel a fold is shown. -/
theorem foldDisplay_spec (sound : core.Sound) {depth : Key → Nat} (forest : Forest core.parent depth)
    (fuel : Nat) {cache : Cache} {key : Key} (enough : core.groups.size < fuel + depth key)
    (known : core.has key = true) (valid : Valid core cache) :
    ∃ next, foldDisplay core fuel cache key = some (next, shown core key) ∧ Valid core next := by
  induction fuel generalizing cache key with
  | zero =>
    have low := Core.depth_le_size forest key
    omega
  | succ fuel ih =>
    unfold foldDisplay
    split
    next display cached =>
      rw [valid.display key display (hit_eq_some cached)]
      exact ⟨cache, rfl, valid⟩
    next =>
      have shows : Shows core key fun cache id => foldDisplay core fuel cache (.group id) := by
        intro cache id anchored isValid
        have deeper := forest.child anchored
        refine ih (by omega) ?_ isValid
        cases missing : core.groups.get? id with
        | none => simp [Core.parent, Core.anchor, missing] at anchored
        | some group => simp [Core.has, missing]
      obtain ⟨next, built, isValid⟩ := turnViews_spec sound shows (core.fold key).turns 0
        (fun n => by rw [Nat.zero_add]; rfl) valid
      rw [← shown_eq sound] at built
      refine ⟨_, ?_, valid_setDisplay isValid sound.bounded known⟩
      rw [built]
      rfl

theorem cards_spec (sound : core.Sound) {depth : Key → Nat} (forest : Forest core.parent depth)
    (ids : List String) (known : ∀ id ∈ ids, core.has (.group id) = true) {cache : Cache}
    (valid : Valid core cache) :
    ∃ next, cards core (core.groups.size + 1) ids cache =
        some (next, ids.map fun id => card id (shown core (.group id))) ∧ Valid core next := by
  induction ids generalizing cache with
  | nil => exact ⟨cache, rfl, valid⟩
  | cons id rest ih =>
    obtain ⟨middle, first, isValid⟩ := foldDisplay_spec sound forest (core.groups.size + 1)
      (by omega) (known id List.mem_cons_self) valid
    obtain ⟨last, later, stillValid⟩ := ih (fun other member => known other (.tail _ member)) isValid
    refine ⟨last, ?_, stillValid⟩
    rw [cards, first, Option.bind_some]
    simp only [later, Option.map_some]
    rfl

theorem compose_spec (sound : core.Sound) {dirty : Bool} (valid : Valid core cache)
    (clean : dirty = false → cache.composed = shownAll core) :
    ∃ next, compose core dirty cache = some (next, shownAll core) ∧ Valid core next ∧
      next.composed = shownAll core := by
  cases dirty with
  | false =>
    refine ⟨cache, ?_, valid, clean rfl⟩
    rw [← clean rfl]
    rfl
  | true =>
    obtain ⟨depth, forest⟩ := sound.forest
    obtain ⟨middle, first, isValid⟩ := foldDisplay_spec sound forest (core.groups.size + 1)
      (by omega) (show core.has .main = true from rfl) valid
    obtain ⟨last, later, stillValid⟩ := cards_spec sound forest core.pendingGroups
      (fun id member => ((sound.pending id).mp member).1) isValid
    refine ⟨{ last with composed := shownAll core }, ?_,
      ⟨stillValid.viewBound, stillValid.displayBound, stillValid.view, stillValid.display,
        stillValid.absent⟩, rfl⟩
    rw [compose, if_pos rfl, first, Option.bind_some]
    simp only [later, Option.map_some]
    rfl

end Caching

section Steps

variable {core middle later : Core} {cache : Cache} {key : Key} {turn : Nat}

/-- Nothing that is shown changes if turns and anchors stay. -/
theorem valid_of_same (valid : Valid core cache) (sound : core.Sound)
    (counter : core.versionCounter = later.versionCounter) (fold : later.fold = core.fold)
    (anchor : later.anchor = core.anchor) (has : ∀ key, core.has key = true → later.has key = true)
    (size : core.groups.size ≤ later.groups.size) : Valid later cache := by
  have turns : ∀ key index, later.turn? key index = core.turn? key index := by
    intro key index
    unfold Core.turn?
    rw [fold]
  have same : ∀ fuel key, plainDisplay later fuel key = plainDisplay core fuel key := by
    intro fuel key
    refine plainDisplay_congr (fun _ => True) ?_ ?_ (fun _ _ _ _ _ _ => trivial) fuel trivial
    · intro key _ index
      rw [turns]
    · intro key _ turn block id
      rw [anchor]
  have sameShown : ∀ key, shown later key = shown core key :=
    fun key => (same _ key).trans (shown_of_size sound size key)
  refine ⟨?_, ?_, ?_, ?_, ?_⟩
  · rw [← counter]
    exact valid.viewBound
  · rw [← counter]
    exact valid.displayBound
  · intro key index current view found cached
    rw [turns] at found
    rw [valid.view key index current view found cached]
    symm
    refine plainTurn_congr rfl ?_ fun block id _ => sameShown (.group id)
    intro block id
    rw [anchor]
  · intro key display cached
    rw [fold] at cached
    rw [sameShown]
    exact valid.display key display cached
  · intro key missing
    refine valid.absent key (Bool.eq_false_iff.mpr fun known => ?_)
    rw [has key known] at missing
    cases missing

/-- The anchors at another turn than the changed one are as before. -/
theorem anchors_of_changed (changed : Core.Changed core middle key turn) {other : Key} {index : Nat}
    (apart : ¬(other = key ∧ index = turn)) (block : Nat) (id : String) :
    middle.anchor (.group id) = some ⟨other, index, block⟩ ↔
      core.anchor (.group id) = some ⟨other, index, block⟩ := by
  rcases changed.anchor (.group id) with same | ⟨none, place, new⟩
  · rw [same]
  · rw [none, new]
    constructor
    · intro equal
      have sites := Option.some.inj equal
      exact absurd ⟨(congrArg ToolUseSite.fold sites).symm, (congrArg ToolUseSite.turn sites).symm⟩ apart
    · intro equal
      cases equal

/-- A fold that is not above the changed turn is shown as before. -/
theorem shown_of_untouched (coreSound : core.Sound) (changed : Core.Changed core middle key turn)
    {other : Key} (below : ¬Relation.ReflTransGen (Up middle.parent) key other) :
    shown (middle.touch key turn) other = shown core other := by
  have step := Core.later_touch middle key turn
  have apartKey : ∀ {other}, ¬Relation.ReflTransGen (Up middle.parent) key other → other ≠ key :=
    fun below same => below (same ▸ .refl)
  have anchors : ∀ other, ¬Relation.ReflTransGen (Up middle.parent) key other → ∀ index block id,
      (middle.touch key turn).anchor (.group id) = some ⟨other, index, block⟩ ↔
        core.anchor (.group id) = some ⟨other, index, block⟩ := by
    intro other below index block id
    rw [step.anchor]
    exact anchors_of_changed changed (fun both => apartKey below both.1) block id
  have size : core.groups.size ≤ (middle.touch key turn).groups.size := by
    rw [step.size]
    exact changed.size
  rw [← shown_of_size coreSound size other]
  refine plainDisplay_congr (fun other => ¬Relation.ReflTransGen (Up middle.parent) key other)
    ?_ anchors ?_ _ below
  · intro other below index
    rw [step.bare, changed.turns other index fun both => apartKey below both.1]
  · intro other below index block id anchored reaches
    have mounted := (anchors other below index block id).mpr anchored
    rw [step.anchor] at mounted
    refine below (reaches.tail ?_)
    show middle.parent (.group id) = some other
    rw [Core.parent, mounted]
    rfl

theorem valid_touch (coreSound : core.Sound) (changed : Core.Changed core middle key turn)
    (sound : middle.Sound) (valid : Valid core cache) : Valid (middle.touch key turn) cache := by
  have step := Core.later_touch middle key turn
  have counter : core.versionCounter ≤ (middle.touch key turn).versionCounter := by
    rw [← changed.counter]
    exact step.counter
  refine ⟨?_, ?_, ?_, ?_, ?_⟩
  · intro other index version view cached
    exact le_trans (valid.viewBound other index version view cached) counter
  · intro other version display cached
    exact le_trans (valid.displayBound other version display cached) counter
  · intro other index new view found cached
    have low := valid.viewBound other index new.version view cached
    rw [← changed.counter] at low
    have apart : ¬(other = key ∧ index = turn) := by
      intro both
      rw [both.1, both.2] at found
      exact absurd (Core.touch_turn_gt found) (Nat.not_lt.mpr low)
    obtain ⟨old, isOld, bare⟩ := step.exists_turn found
    have version : new.version = old.version :=
      (step.turn other index old new isOld found).resolve_right (Nat.not_lt.mpr low)
    rw [changed.turns other index apart] at isOld
    rw [version] at cached
    rw [valid.view other index old view isOld cached]
    symm
    refine plainTurn_congr bare.symm ?_ ?_
    · intro block id
      rw [step.anchor]
      exact anchors_of_changed changed apart block id
    · intro block id anchored
      refine shown_of_untouched coreSound changed ?_
      intro reaches
      have mounted := (anchors_of_changed changed apart block id).mpr anchored
      have visited := (Core.mem_chain sound.forest key (.group id)).mpr reaches
      exact absurd (Core.touch_anchor_gt visited mounted found) (Nat.not_lt.mpr low)
  · intro other display cached
    have low := valid.displayBound other _ display cached
    rw [← changed.counter] at low
    have known : core.has other = true := by
      by_contra missing
      rw [valid.absent other (Bool.eq_false_iff.mpr missing)] at cached
      cases cached
    have below : ¬Relation.ReflTransGen (Up middle.parent) key other := by
      intro reaches
      have visited := (Core.mem_chain sound.forest key other).mpr reaches
      exact absurd (Core.touch_fold_gt visited (changed.has other known)) (Nat.not_lt.mpr low)
    have version := (step.fold other).resolve_right (Nat.not_lt.mpr low)
    rw [version, changed.fold] at cached
    rw [shown_of_untouched coreSound changed below]
    exact valid.display other display cached
  · intro other missing
    refine valid.absent other (Bool.eq_false_iff.mpr fun known => ?_)
    rw [step.has, changed.has other known] at missing
    cases missing

theorem valid_step {dirty : Bool} (step : Core.Step dirty core later) (sound : core.Sound)
    (valid : Valid core cache) : Valid later cache := by
  cases step with
  | site new holds => exact valid_of_same valid sound rfl rfl rfl (fun _ known => known) (le_refl _)
  | group new =>
    refine valid_of_same valid sound rfl (Core.fold_addGroup new _) (Core.anchor_addGroup new _) ?_ ?_
    · intro key known
      rw [Core.has_addGroup, known]
      rfl
    · rw [Dict.size_set]
      split_ifs <;> omega
  | touch changed isSound => exact valid_touch sound changed isSound valid

theorem valid_moves {dirty : Bool} (moves : Core.Moves dirty core later) (sound : core.Sound)
    (valid : Valid core cache) : Valid later cache := by
  induction moves with
  | refl => exact valid
  | tail moves step ih => exact valid_step step (Core.Moves.sound moves sound) ih

/-- Without `composedDirty`, what is composed stays. -/
theorem shownAll_moves (moves : Core.Moves false core later) :
    shownAll later = shownAll core := by
  induction moves with
  | refl => rfl
  | tail moves step ih =>
    rw [← ih]
    cases step with
    | site new holds =>
      rename_i middle id site
      have same : ∀ key, shown { middle with toolUseSites := middle.toolUseSites.set id site } key =
          shown middle key := by
        intro key
        refine plainDisplay_congr (fun _ => True) ?_ ?_ (fun _ _ _ _ _ _ => trivial) _ trivial
        · exact fun _ _ _ => rfl
        · exact fun _ _ _ _ _ => Iff.rfl
      unfold shownAll
      rw [same]
      congr 1
      apply List.map_congr_left
      intro id member
      rw [same]

end Steps

section Projecting

variable {ρ : Type} {entryOf : ρ → Entry}

/-- The core after some entries. -/
def replay (entryOf : ρ → Entry) (entries : List ρ) : Core :=
  entries.foldl (fun core entry => (core.appendOne (entryOf entry)).1) .start

theorem sound_replay (entryOf : ρ → Entry) (entries : List ρ) : (replay entryOf entries).Sound := by
  have all : ∀ (entries : List ρ) {core : Core}, core.Sound →
      (entries.foldl (fun core entry => (core.appendOne (entryOf entry)).1) core).Sound := by
    intro entries
    induction entries with
    | nil => exact fun sound => sound
    | cons entry later ih => exact fun sound => ih ((Core.moves_appendOne sound (entryOf entry)).sound sound)
  exact all entries Core.sound_start

/-- A projector has folded some entries. -/
structure Folded (entryOf : ρ → Entry) (projector : Projector ρ) (entries : List ρ) : Prop where
  core : projector.core = replay entryOf entries
  valid : Valid projector.core projector.cache
  clean : projector.composedDirty = false → projector.cache.composed = shownAll projector.core

theorem folded_create (entryOf : ρ → Entry) (source : List ρ) :
    Folded entryOf { (Projector.create : Projector ρ) with source := source } [] :=
  ⟨rfl, ⟨nofun, nofun, fun _ _ _ _ _ cached => (nomatch cached), fun _ _ cached => (nomatch cached),
    fun _ _ => rfl⟩, nofun⟩

theorem folded_append {projector : Projector ρ} {entries : List ρ} (folded : Folded entryOf projector entries)
    (entry : ρ) : Folded entryOf (projector.append entryOf entry) (entries ++ [entry]) := by
  have sound : projector.core.Sound := by
    rw [folded.core]
    exact sound_replay entryOf entries
  have moves := Core.moves_appendOne sound (entryOf entry)
  refine ⟨?_, valid_moves moves sound folded.valid, ?_⟩
  · rw [replay, List.foldl_append, ← replay, ← folded.core]
    rfl
  · intro clean
    have both : projector.composedDirty = false ∧ (projector.core.appendOne (entryOf entry)).2 = false :=
      Bool.or_eq_false_iff.mp clean
    rw [both.2] at moves
    exact (folded.clean both.1).trans (shownAll_moves moves).symm

theorem folded_foldl (later : List ρ) {projector : Projector ρ} {entries : List ρ}
    (folded : Folded entryOf projector entries) :
    Folded entryOf (later.foldl (Projector.append entryOf) projector) (entries ++ later) := by
  induction later generalizing projector entries with
  | nil => rwa [List.append_nil]
  | cons entry rest ih =>
    rw [List.append_cons]
    exact ih (folded_append folded entry)

/-- Entries in the order of the log. -/
def Ascending (entryOf : ρ → Entry) (entries : List ρ) : Prop :=
  entries.Pairwise fun first second => (entryOf first).seq < (entryOf second).seq

/-- If the last of the old entries is at the same place, the old entries are a beginning. -/
theorem take_eq_of_last {old new : List ρ} (oldAscends : Ascending entryOf old)
    (newAscends : Ascending entryOf new) (contained : old ⊆ new)
    (last : new[old.length - 1]? = old[old.length - 1]?) : new.take old.length = old := by
  have irrefl : ∀ {entries : List ρ}, Ascending entryOf entries → entries.Nodup := by
    intro entries ascends
    refine List.Pairwise.imp ?_ ascends
    intro first second before same
    rw [same] at before
    exact lt_irrefl _ before
  have inside : old ⊆ new.take old.length := by
    intro entry member
    by_contra outside
    have place : 0 < old.length := List.length_pos_of_mem member
    obtain ⟨n, bound, isEntry⟩ := List.getElem_of_mem (contained member)
    have far : old.length ≤ n := by
      by_contra near
      apply outside
      rw [List.mem_take_iff_getElem]
      exact ⟨n, by omega, isEntry⟩
    have lastOld : old.length - 1 < old.length := by omega
    rw [List.getElem?_eq_getElem lastOld, List.getElem?_eq_some_iff] at last
    obtain ⟨lastBound, isLast⟩ := last
    have after := List.pairwise_iff_getElem.mp newAscends (old.length - 1) n lastBound bound (by omega)
    rw [isEntry, isLast] at after
    obtain ⟨m, inOld, isEntry'⟩ := List.getElem_of_mem member
    by_cases isEnd : m = old.length - 1
    · subst isEnd
      rw [isEntry'] at after
      exact lt_irrefl _ after
    · have before := List.pairwise_iff_getElem.mp oldAscends m (old.length - 1) inOld lastOld (by omega)
      rw [isEntry'] at before
      exact lt_asymm before after
  have perm : old.Perm (new.take old.length) := by
    refine ((irrefl oldAscends).subperm inside).perm_of_length_le ?_
    rw [List.length_take]
    exact min_le_left _ _
  refine List.Perm.eq_of_pairwise ?_ (newAscends.sublist (List.take_sublist _ _)) oldAscends perm.symm
  intro first second _ _ before after
  exact absurd before (lt_asymm after)

variable [DecidableEq ρ]

/-- The test of the end points finds out whether the old entries are a beginning. -/
theorem take_eq_of_extendsPrefix {projector : Projector ρ} (new : List ρ)
    (count : projector.count = projector.source.length)
    (oldAscends : Ascending entryOf projector.source) (newAscends : Ascending entryOf new)
    (contained : projector.source ⊆ new) (continues : projector.extendsPrefix new = true) :
    new.take projector.count = projector.source := by
  unfold Projector.extendsPrefix at continues
  rw [Bool.and_eq_true, Bool.or_eq_true, Bool.and_eq_true, decide_eq_true_iff, decide_eq_true_iff,
    decide_eq_true_iff, decide_eq_true_iff] at continues
  rw [count] at continues ⊢
  rcases continues.2 with empty | ⟨_, last⟩
  · rw [empty, List.take_zero, List.length_eq_zero_iff.mp empty]
  · exact take_eq_of_last oldAscends newAscends contained last

theorem project_spec {projector : Projector ρ} {new : List ρ}
    (folded : Folded entryOf projector projector.source)
    (continued : projector.extendsPrefix new = true → new.take projector.count = projector.source) :
    ∃ next, projector.project entryOf new = some (next, shownAll (replay entryOf new)) ∧
      Folded entryOf next new ∧ next.source = new ∧ next.count = new.length := by
  have result : Folded entryOf
      ((new.drop (if projector.extendsPrefix new then projector else projector.reset).count).foldl
        (Projector.append entryOf) (if projector.extendsPrefix new then projector else projector.reset))
      new := by
    split_ifs with continues
    · have all := folded_foldl (new.drop projector.count) folded
      rwa [← continued continues, List.take_append_drop] at all
    · exact folded_foldl new (folded_create entryOf projector.source)
  unfold Projector.project
  simp only
  generalize List.foldl (Projector.append entryOf) _ _ = last at result
  have sound : last.core.Sound := by
    rw [result.core]
    exact sound_replay entryOf new
  obtain ⟨cache, composed, valid, isShown⟩ := compose_spec sound result.valid result.clean
  rw [composed, Option.map_some, ← result.core]
  exact ⟨_, rfl, ⟨result.core, valid, fun _ => isShown⟩, rfl, rfl⟩

theorem projectEntriesToTurns_eq (entryOf : ρ → Entry) (entries : List ρ) :
    projectEntriesToTurns entryOf entries = some (shownAll (replay entryOf entries)) := by
  obtain ⟨next, result, _⟩ := project_spec (folded_create entryOf [])
    (fun _ => (List.take_zero : entries.take 0 = []))
  unfold projectEntriesToTurns
  rw [show Projector.create.project entryOf entries = _ from result]
  rfl

/-- Calls of one projector from a state on. -/
theorem projectAll_spec (calls : List (List ρ)) {projector : Projector ρ}
    (folded : Folded entryOf projector projector.source)
    (count : projector.count = projector.source.length)
    (ascending : ∀ call ∈ projector.source :: calls, Ascending entryOf call)
    (growing : List.IsChain (· ⊆ ·) (projector.source :: calls)) :
    projector.projectAll entryOf calls =
      some (calls.map fun call => shownAll (replay entryOf call)) := by
  induction calls generalizing projector with
  | nil => rfl
  | cons call later ih =>
    rw [List.isChain_cons_cons] at growing
    have continued := take_eq_of_extendsPrefix call count (ascending _ List.mem_cons_self)
      (ascending call (.tail _ List.mem_cons_self)) growing.1
    obtain ⟨next, result, nextFolded, nextSource, nextCount⟩ := project_spec folded continued
    rw [← nextSource] at nextFolded nextCount growing
    have nextAscends : ∀ other ∈ next.source :: later, Ascending entryOf other := by
      rw [nextSource]
      exact fun other member => ascending other (.tail _ member)
    have rest := ih nextFolded nextCount nextAscends growing.2
    rw [Projector.projectAll, result, Option.bind_some]
    simp only [rest, Option.map_some]
    rfl

theorem incremental_projection_is_replay (entryOf : ρ → Entry) (calls : List (List ρ))
    (ascending : ∀ call ∈ calls, Ascending entryOf call) (growing : List.IsChain (· ⊆ ·) calls) :
    ∃ results, Projector.create.projectAll entryOf calls = some results ∧
      calls.map (projectEntriesToTurns entryOf) = results.map some := by
  have first : List.IsChain (· ⊆ ·) ([] :: calls) := by
    cases calls with
    | nil => exact .singleton _
    | cons call later => exact List.isChain_cons_cons.mpr ⟨List.nil_subset call, growing⟩
  have ascends : ∀ call ∈ [] :: calls, Ascending entryOf call := by
    intro call member
    cases member with
    | head => exact .nil
    | tail _ later => exact ascending call later
  refine ⟨_, projectAll_spec calls (folded_create entryOf []) rfl ascends first, ?_⟩
  rw [List.map_map]
  apply List.map_congr_left
  intro call member
  exact projectEntriesToTurns_eq entryOf call

/-- A call of an agent, two entries of the agent and the result. -/
private def agentLog (index : Nat) : Entry :=
  match index with
  | 0 =>
      { seq := 0, type := .assistant,
        content := .blocks [{ type := "tool_use", id := some "toolu_1", name := some "Agent" }] }
  | 1 => { seq := 1, type := .assistant, parentToolUseId := some "toolu_1", content := .text "look" }
  | 2 => { seq := 2, type := .system, parentToolUseId := some "toolu_1", subtype := some "interrupt" }
  | _ => { seq := index, type := .toolResult, toolUseId := some "toolu_1", content := .text "done" }

/-- The second call inserts an entry, the third one continues. -/
theorem incremental_projection_is_replay_inserted :
    ∃ results, Projector.create.projectAll agentLog [[0, 2], [0, 1, 2], [0, 1, 2, 3]] = some results ∧
      [[0, 2], [0, 1, 2], [0, 1, 2, 3]].map (projectEntriesToTurns agentLog) = results.map some := by
  refine incremental_projection_is_replay agentLog [[0, 2], [0, 1, 2], [0, 1, 2, 3]] ?_ (by decide)
  unfold Ascending
  decide

end Projecting

end ArcReel.Timeline
