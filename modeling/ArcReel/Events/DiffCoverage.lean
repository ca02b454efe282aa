import ArcReel.Events.Snapshot
import ArcReel.Lib.JsonText

/-! What two snapshots differ in is what the changes between them name. -/

namespace ArcReel.Events
open ArcReel.Lib

section Keys

variable {κ ν : Type} [LinearOrder κ]

theorem mem_sorted (keys : List κ) (key : κ) : key ∈ sorted keys ↔ key ∈ keys :=
  (keys.perm_insertionSort _).mem_iff

theorem mem_onlyIn (current previous : Dict κ ν) (key : κ) :
    key ∈ onlyIn current previous ↔ (current.get? key).isSome ∧ previous.get? key = none := by
  unfold onlyIn
  rw [mem_sorted, List.mem_filter, Dict.get?_eq_none_iff, Dict.mem_keys_iff, Option.isSome_iff_exists,
    decide_eq_true_iff]

theorem mem_inBoth (previous current : Dict κ ν) (key : κ) (old new : ν) :
    (key, old, new) ∈ inBoth previous current ↔
      previous.get? key = some old ∧ current.get? key = some new := by
  unfold inBoth
  simp only [List.mem_filterMap, mem_sorted, List.mem_filter, Option.bind_eq_some_iff,
    Option.map_eq_some_iff, Prod.mk.injEq, decide_eq_true_iff, Dict.mem_keys_iff]
  constructor
  · intro found
    obtain ⟨other, -, before, there, after, here, rfl, rfl, rfl⟩ := found
    exact ⟨there, here⟩
  · intro both
    exact ⟨key, ⟨⟨old, both.1⟩, new, both.2⟩, old, both.1, new, both.2, rfl, rfl, rfl⟩

end Keys

/-! What must be said of one key. -/

def Told (changes : List Change) (names : Change → Prop) (action : String) : Prop :=
  ∃ change ∈ changes, names change ∧ change.action = action

/-- A key that appears, disappears or has other content is told of, and one that stays the same is
not named at all. -/
structure KeyReported {ν γ : Type} (changes : List Change) (names : Change → Prop) (content : ν → γ)
    (old new : Option ν) : Prop where
  created : old = none → new.isSome → Told changes names "created"
  deleted : old.isSome → new = none → Told changes names "deleted"
  updated : ∀ before after, old = some before → new = some after → content before ≠ content after →
    Told changes names "updated"
  quiet : old = new → ∀ change ∈ changes, ¬names change

def NamesEntity (entityType name : String) (change : Change) : Prop :=
  change.entityType = entityType ∧ change.entityId = name

def NamesEpisode (key : Int) (change : Change) : Prop := NamesEntity "episode" (toString key) change

def NamesItem (scriptFile itemId : String) (change : Change) : Prop :=
  (∃ kind : SkeletonKind, change.entityType = kind.entityType) ∧ change.entityId = itemId ∧
    change.scriptFile = filled scriptFile

section Coverage

variable {ν β : Type}

def itemAt (snapshot : Snapshot β) (scriptFile itemId : String) : Option (Item β) :=
  (snapshot.scripts.get? scriptFile).bind fun script => script.items.get? itemId

/-- The same entries under the same keys, in whatever order. -/
structure SameSnapshot (previous current : Snapshot β) : Prop where
  projectMeta : previous.projectMeta = current.projectMeta
  overview : previous.overview = current.overview
  characters : ∀ name, previous.characters.get? name = current.characters.get? name
  scenes : ∀ name, previous.scenes.get? name = current.scenes.get? name
  props : ∀ name, previous.props.get? name = current.props.get? name
  episodes : ∀ key, previous.episodes.get? key = current.episodes.get? key
  items : ∀ scriptFile itemId, itemAt previous scriptFile itemId = itemAt current scriptFile itemId

/-- Nothing that appears, disappears, is edited or becomes ready between the two goes untold, and
what is the same in both is not named. -/
structure DiffComplete [DecidableEq β] (previous current : Snapshot β) : Prop where
  characters : ∀ name, KeyReported (diffSnapshots previous current) (NamesEntity "character" name) id
    (previous.characters.get? name) (current.characters.get? name)
  scenes : ∀ name, KeyReported (diffSnapshots previous current) (NamesEntity "scene" name) id
    (previous.scenes.get? name) (current.scenes.get? name)
  props : ∀ name, KeyReported (diffSnapshots previous current) (NamesEntity "prop" name) id
    (previous.props.get? name) (current.props.get? name)
  episodes : ∀ key, KeyReported (diffSnapshots previous current) (NamesEpisode key) id
    (previous.episodes.get? key) (current.episodes.get? key)
  items : ∀ scriptFile itemId, KeyReported (diffSnapshots previous current)
    (NamesItem scriptFile itemId) Item.body (itemAt previous scriptFile itemId)
    (itemAt current scriptFile itemId)
  storyboards : ∀ scriptFile itemId before after, itemAt previous scriptFile itemId = some before →
    itemAt current scriptFile itemId = some after → before.storyboardImage = "" →
    after.storyboardImage ≠ "" →
    Told (diffSnapshots previous current) (NamesItem scriptFile itemId) "storyboard_ready"
  videos : ∀ scriptFile itemId before after, itemAt previous scriptFile itemId = some before →
    itemAt current scriptFile itemId = some after → before.videoClip = "" → after.videoClip ≠ "" →
    Told (diffSnapshots previous current) (NamesItem scriptFile itemId) "video_ready"
  still : SameSnapshot previous current → diffSnapshots previous current = []

/-- No episode is gone, and a script file that only one of the two has holds no items. -/
structure LevelsStay (previous current : Snapshot β) : Prop where
  episodes : ∀ key, (previous.episodes.get? key).isSome → (current.episodes.get? key).isSome
  added : ∀ scriptFile script, current.scripts.get? scriptFile = some script →
    previous.scripts.get? scriptFile = none → script.items.keys = []
  removed : ∀ scriptFile script, previous.scripts.get? scriptFile = some script →
    current.scripts.get? scriptFile = none → script.items.keys = []

/-! One part of the changes is enough for the names it alone holds. -/

theorem told_part {part changes : List Change} {names : Change → Prop}
    (inside : ∀ change ∈ part, change ∈ changes)
    (alone : ∀ change ∈ changes, names change → change ∈ part) (action : String) :
    Told changes names action ↔ Told part names action := by
  constructor
  · intro told
    obtain ⟨change, member, named, does⟩ := told
    exact ⟨change, alone change member named, named, does⟩
  · intro told
    obtain ⟨change, member, named, does⟩ := told
    exact ⟨change, inside change member, named, does⟩

theorem keyReported_part {γ : Type} {part changes : List Change} {names : Change → Prop}
    (inside : ∀ change ∈ part, change ∈ changes)
    (alone : ∀ change ∈ changes, names change → change ∈ part) (content : ν → γ) (old new : Option ν) :
    KeyReported changes names content old new ↔ KeyReported part names content old new := by
  have told := told_part inside alone
  constructor
  · intro reported
    exact ⟨fun gone come => (told _).mp (reported.created gone come),
      fun come gone => (told _).mp (reported.deleted come gone),
      fun before after there here differ => (told _).mp (reported.updated before after there here differ),
      fun same change member => reported.quiet same change (inside change member)⟩
  · intro reported
    exact ⟨fun gone come => (told _).mpr (reported.created gone come),
      fun come gone => (told _).mpr (reported.deleted come gone),
      fun before after there here differ => (told _).mpr (reported.updated before after there here differ),
      fun same change member named => reported.quiet same change (alone change member named) named⟩

/-! Characters, scenes and props. -/

theorem mem_diffNamedEntities [DecidableEq ν] (entityType pane : String) (previous current : Dict String ν)
    (change : Change) :
    change ∈ diffNamedEntities entityType pane previous current ↔ ∃ name,
      (((current.get? name).isSome ∧ previous.get? name = none) ∧
        change = namedChange entityType pane "created" true true name) ∨
      (((previous.get? name).isSome ∧ current.get? name = none) ∧
        change = namedChange entityType pane "deleted" false false name) ∨
      ((∃ old new, previous.get? name = some old ∧ current.get? name = some new ∧ old ≠ new) ∧
        change = namedChange entityType pane "updated" true true name) := by
  unfold diffNamedEntities
  simp only [List.mem_append, List.mem_map, List.mem_filterMap, mem_onlyIn, Prod.exists, mem_inBoth,
    Option.ite_none_left_eq_some, Option.some.injEq]
  constructor
  · intro found
    rcases found with (⟨name, only, rfl⟩ | ⟨name, only, rfl⟩) | ⟨name, old, new, ⟨there, here⟩, differ, rfl⟩
    · exact ⟨name, .inl ⟨only, rfl⟩⟩
    · exact ⟨name, .inr (.inl ⟨only, rfl⟩)⟩
    · exact ⟨name, .inr (.inr ⟨⟨old, new, there, here, differ⟩, rfl⟩)⟩
  · intro found
    rcases found with ⟨name, ⟨only, rfl⟩ | ⟨only, rfl⟩ | ⟨⟨old, new, there, here, differ⟩, rfl⟩⟩
    · exact .inl (.inl ⟨name, only, rfl⟩)
    · exact .inl (.inr ⟨name, only, rfl⟩)
    · exact .inr ⟨name, old, new, ⟨there, here⟩, differ, rfl⟩

theorem namedEntities_reported [DecidableEq ν] (entityType pane : String)
    (previous current : Dict String ν) (name : String) :
    KeyReported (diffNamedEntities entityType pane previous current) (NamesEntity entityType name) id
      (previous.get? name) (current.get? name) := by
  have part := mem_diffNamedEntities entityType pane previous current
  constructor
  case created =>
    intro gone come
    exact ⟨_, (part _).mpr ⟨name, .inl ⟨⟨come, gone⟩, rfl⟩⟩, ⟨rfl, rfl⟩, rfl⟩
  case deleted =>
    intro come gone
    exact ⟨_, (part _).mpr ⟨name, .inr (.inl ⟨⟨come, gone⟩, rfl⟩)⟩, ⟨rfl, rfl⟩, rfl⟩
  case updated =>
    intro before after there here differ
    exact ⟨_, (part _).mpr ⟨name, .inr (.inr ⟨⟨before, after, there, here, differ⟩, rfl⟩)⟩, ⟨rfl, rfl⟩, rfl⟩
  case quiet =>
    intro same change member named
    obtain ⟨other, found⟩ := (part change).mp member
    have calls : ∀ action shown important,
        change = namedChange entityType pane action shown important other → other = name := by
      intro action shown important made
      rw [← named.2, made]
      rfl
    rcases found with ⟨⟨come, gone⟩, made⟩ | ⟨⟨come, gone⟩, made⟩ | ⟨⟨old, new, there, here, differ⟩, made⟩
    · rw [calls _ _ _ made] at come gone
      rw [← same, gone] at come
      cases come
    · rw [calls _ _ _ made] at come gone
      rw [same, gone] at come
      cases come
    · rw [calls _ _ _ made] at there here
      rw [same, here] at there
      exact differ (Option.some.inj there).symm

/-! Episodes: one that is gone is not told of. -/

theorem int_toString_injective : Function.Injective (toString : Int → String) := by
  intro a b same
  rw [← Json.readInt_toString a, same, Json.readInt_toString]

theorem mem_diffEpisodes (previous current : Dict Int EpisodeEntry) (change : Change) :
    change ∈ diffEpisodes previous current ↔ ∃ key entry, current.get? key = some entry ∧
      ((previous.get? key = none ∧ change = episodeChange "created" key entry) ∨
        ∃ old, previous.get? key = some old ∧ old ≠ entry ∧
          change = episodeChange "updated" key entry) := by
  unfold diffEpisodes
  simp only [List.mem_append, List.mem_filterMap, mem_onlyIn, Prod.exists, mem_inBoth,
    Option.ite_none_left_eq_some, Option.some.injEq, Option.map_eq_some_iff]
  constructor
  · intro found
    rcases found with ⟨key, only, entry, here, rfl⟩ | ⟨key, old, entry, ⟨there, here⟩, differ, rfl⟩
    · exact ⟨key, entry, here, .inl ⟨only.2, rfl⟩⟩
    · exact ⟨key, entry, here, .inr ⟨old, there, differ, rfl⟩⟩
  · intro found
    rcases found with ⟨key, entry, here, ⟨gone, rfl⟩ | ⟨old, there, differ, rfl⟩⟩
    · exact .inl ⟨key, ⟨by rw [here]; rfl, gone⟩, entry, here, rfl⟩
    · exact .inr ⟨key, old, entry, ⟨there, here⟩, differ, rfl⟩

theorem named_diffEpisodes {previous current : Dict Int EpisodeEntry} {key : Int} {change : Change}
    (member : change ∈ diffEpisodes previous current) (named : NamesEpisode key change) :
    ∃ entry, current.get? key = some entry ∧
      ((previous.get? key = none ∧ change = episodeChange "created" key entry) ∨
        ∃ old, previous.get? key = some old ∧ old ≠ entry ∧
          change = episodeChange "updated" key entry) := by
  obtain ⟨other, entry, here, cases⟩ := (mem_diffEpisodes previous current change).mp member
  have calls : change.entityId = toString other := by
    rcases cases with ⟨-, rfl⟩ | ⟨-, -, -, rfl⟩
    · rfl
    · rfl
  have same : other = key := int_toString_injective (calls.symm.trans named.2)
  subst same
  exact ⟨entry, here, cases⟩

theorem episode_reported_iff (previous current : Dict Int EpisodeEntry) (key : Int) :
    KeyReported (diffEpisodes previous current) (NamesEpisode key) id (previous.get? key)
      (current.get? key) ↔ ((previous.get? key).isSome → (current.get? key).isSome) := by
  have part := mem_diffEpisodes previous current
  constructor
  · intro reported come
    by_contra gone
    obtain ⟨change, member, named, -⟩ := reported.deleted come (Option.not_isSome_iff_eq_none.mp gone)
    obtain ⟨entry, here, -⟩ := named_diffEpisodes member named
    rw [here] at gone
    exact gone rfl
  · intro stays
    constructor
    case created =>
      intro gone come
      obtain ⟨entry, here⟩ := Option.isSome_iff_exists.mp come
      exact ⟨_, (part _).mpr ⟨key, entry, here, .inl ⟨gone, rfl⟩⟩, ⟨rfl, rfl⟩, rfl⟩
    case deleted =>
      intro come gone
      have left := stays come
      rw [gone] at left
      cases left
    case updated =>
      intro before after there here differ
      exact ⟨_, (part _).mpr ⟨key, after, here, .inr ⟨before, there, differ, rfl⟩⟩, ⟨rfl, rfl⟩, rfl⟩
    case quiet =>
      intro same change member named
      obtain ⟨entry, here, ⟨gone, -⟩ | ⟨old, there, differ, -⟩⟩ := named_diffEpisodes member named
      · rw [same, here] at gone
        cases gone
      · rw [same, here] at there
        exact differ (Option.some.inj there).symm

/-! Script items: only those of a script file that both have are compared. -/

section Items

theorem no_items_iff (script : Script β) :
    script.items.keys = [] ↔ ∀ itemId, script.items.get? itemId = none := by
  rw [List.eq_nil_iff_forall_not_mem]
  apply forall_congr'
  intro itemId
  rw [Dict.get?_eq_none_iff]

theorem itemAt_eq_some_iff (snapshot : Snapshot β) (scriptFile itemId : String) (item : Item β) :
    itemAt snapshot scriptFile itemId = some item ↔
      ∃ script, snapshot.scripts.get? scriptFile = some script ∧ script.items.get? itemId = some item :=
  Option.bind_eq_some_iff

theorem itemChange_named (action scriptFile : String) (script : Script β) (shown important : Bool)
    (itemId : String) :
    NamesItem scriptFile itemId (itemChange action scriptFile script shown important itemId) :=
  ⟨⟨script.kind, rfl⟩, rfl, rfl⟩

variable [DecidableEq β]

/-- What the two versions of one script say of one item. -/
def itemChanges (scriptFile : String) (previous current : Script β) (itemId : String) : List Change :=
  match previous.items.get? itemId, current.items.get? itemId with
  | none, none => []
  | none, some _ => [itemChange "created" scriptFile current true true itemId]
  | some _, none => [itemChange "deleted" scriptFile previous false false itemId]
  | some old, some new => diffItem scriptFile current itemId old new

theorem mem_diffScript (scriptFile : String) (previous current : Script β) (change : Change) :
    change ∈ diffScript scriptFile previous current ↔
      ∃ itemId, change ∈ itemChanges scriptFile previous current itemId := by
  unfold diffScript
  simp only [List.mem_append, List.mem_map, List.mem_flatMap, mem_onlyIn, Prod.exists, mem_inBoth]
  constructor
  · intro found
    rcases found with (⟨itemId, ⟨come, gone⟩, rfl⟩ | ⟨itemId, ⟨come, gone⟩, rfl⟩) |
      ⟨itemId, old, new, ⟨there, here⟩, member⟩
    · obtain ⟨new, here⟩ := Option.isSome_iff_exists.mp come
      exact ⟨itemId, by simp [itemChanges, gone, here]⟩
    · obtain ⟨old, there⟩ := Option.isSome_iff_exists.mp come
      exact ⟨itemId, by simp [itemChanges, gone, there]⟩
    · exact ⟨itemId, by simpa [itemChanges, there, here] using member⟩
  · intro found
    obtain ⟨itemId, member⟩ := found
    unfold itemChanges at member
    split at member
    next => cases member
    next new gone here =>
      have made := List.mem_singleton.mp member
      exact .inl (.inl ⟨itemId, ⟨by rw [here]; rfl, gone⟩, made.symm⟩)
    next old there gone =>
      have made := List.mem_singleton.mp member
      exact .inl (.inr ⟨itemId, ⟨by rw [there]; rfl, gone⟩, made.symm⟩)
    next old new there here => exact .inr ⟨itemId, old, new, ⟨there, here⟩, member⟩

theorem mem_diffItem (scriptFile : String) (script : Script β) (itemId : String) (old new : Item β)
    (change : Change) :
    change ∈ diffItem scriptFile script itemId old new ↔ ∃ action,
      change = itemChange action scriptFile script true true itemId ∧
      ((action = "storyboard_ready" ∧ old.storyboardImage = "" ∧ new.storyboardImage ≠ "") ∨
        (action = "video_ready" ∧ old.videoClip = "" ∧ new.videoClip ≠ "") ∨
        (action = "updated" ∧ old.body ≠ new.body)) := by
  unfold diffItem becameTruthy
  simp only [List.mem_append, List.mem_ite_nil_right, List.mem_singleton, Bool.and_eq_true,
    decide_eq_true_iff]
  constructor
  · intro found
    rcases found with (⟨⟨filled, was⟩, rfl⟩ | ⟨⟨filled, was⟩, rfl⟩) | ⟨differ, rfl⟩
    · exact ⟨_, rfl, .inl ⟨rfl, was, filled⟩⟩
    · exact ⟨_, rfl, .inr (.inl ⟨rfl, was, filled⟩)⟩
    · exact ⟨_, rfl, .inr (.inr ⟨rfl, differ⟩)⟩
  · intro found
    rcases found with ⟨action, made, ⟨rfl, was, filled⟩ | ⟨rfl, was, filled⟩ | ⟨rfl, differ⟩⟩
    · exact .inl (.inl ⟨⟨filled, was⟩, made⟩)
    · exact .inl (.inr ⟨⟨filled, was⟩, made⟩)
    · exact .inr ⟨differ, made⟩

theorem itemChanges_named {scriptFile itemId : String} {previous current : Script β} {change : Change}
    (member : change ∈ itemChanges scriptFile previous current itemId) :
    NamesItem scriptFile itemId change := by
  unfold itemChanges at member
  split at member
  next => cases member
  next =>
    rw [List.mem_singleton.mp member]
    apply itemChange_named
  next =>
    rw [List.mem_singleton.mp member]
    apply itemChange_named
  next old new there here =>
    obtain ⟨action, made, -⟩ := (mem_diffItem ..).mp member
    rw [made]
    apply itemChange_named

theorem filled_injective : Function.Injective filled := by
  intro a b same
  unfold filled at same
  split at same <;> split at same <;> simp_all

theorem mem_diffScriptItems (previous current : Dict String (Script β)) (change : Change) :
    change ∈ diffScriptItems previous current ↔ ∃ scriptFile old new itemId,
      previous.get? scriptFile = some old ∧ current.get? scriptFile = some new ∧
      change ∈ itemChanges scriptFile old new itemId := by
  unfold diffScriptItems
  simp only [List.mem_flatMap, Prod.exists, mem_inBoth, mem_diffScript]
  constructor
  · intro found
    obtain ⟨scriptFile, old, new, ⟨there, here⟩, itemId, member⟩ := found
    exact ⟨scriptFile, old, new, itemId, there, here, member⟩
  · intro found
    obtain ⟨scriptFile, old, new, itemId, there, here, member⟩ := found
    exact ⟨scriptFile, old, new, ⟨there, here⟩, itemId, member⟩

theorem named_diffScriptItems {previous current : Dict String (Script β)} {scriptFile itemId : String}
    {change : Change} (member : change ∈ diffScriptItems previous current)
    (named : NamesItem scriptFile itemId change) :
    ∃ old new, previous.get? scriptFile = some old ∧ current.get? scriptFile = some new ∧
      change ∈ itemChanges scriptFile old new itemId := by
  obtain ⟨file, old, new, item, there, here, inside⟩ := (mem_diffScriptItems ..).mp member
  have other := itemChanges_named inside
  have sameFile : file = scriptFile := filled_injective (other.2.2.symm.trans named.2.2)
  have sameItem : item = itemId := other.2.1.symm.trans named.2.1
  subst sameFile sameItem
  exact ⟨old, new, there, here, inside⟩

/-- In a script file that both have, the changes that name an item are those of its two versions. -/
theorem named_item {previous current : Snapshot β} {scriptFile itemId : String} {change : Change}
    (member : change ∈ diffScriptItems previous.scripts current.scripts)
    (named : NamesItem scriptFile itemId change) :
    ∃ old new, itemAt previous scriptFile itemId = old.items.get? itemId ∧
      itemAt current scriptFile itemId = new.items.get? itemId ∧
      previous.scripts.get? scriptFile = some old ∧ current.scripts.get? scriptFile = some new ∧
      change ∈ itemChanges scriptFile old new itemId := by
  obtain ⟨old, new, there, here, inside⟩ := named_diffScriptItems member named
  exact ⟨old, new, by simp [itemAt, there], by simp [itemAt, here], there, here, inside⟩

theorem told_item {previous current : Snapshot β} {scriptFile itemId : String} {old new : Script β}
    (there : previous.scripts.get? scriptFile = some old)
    (here : current.scripts.get? scriptFile = some new) {change : Change} {action : String}
    (member : change ∈ itemChanges scriptFile old new itemId) (does : change.action = action) :
    Told (diffScriptItems previous.scripts current.scripts) (NamesItem scriptFile itemId) action :=
  ⟨change, (mem_diffScriptItems ..).mpr ⟨scriptFile, old, new, itemId, there, here, member⟩,
    itemChanges_named member, does⟩

theorem told_edit {previous current : Snapshot β} {scriptFile itemId : String} {before after : Item β}
    (there : itemAt previous scriptFile itemId = some before)
    (here : itemAt current scriptFile itemId = some after) {action : String}
    (edit : (action = "storyboard_ready" ∧ before.storyboardImage = "" ∧ after.storyboardImage ≠ "") ∨
      (action = "video_ready" ∧ before.videoClip = "" ∧ after.videoClip ≠ "") ∨
      (action = "updated" ∧ before.body ≠ after.body)) :
    Told (diffScriptItems previous.scripts current.scripts) (NamesItem scriptFile itemId) action := by
  obtain ⟨old, oldScript, oldItem⟩ := (itemAt_eq_some_iff ..).mp there
  obtain ⟨new, newScript, newItem⟩ := (itemAt_eq_some_iff ..).mp here
  have member : itemChange action scriptFile new true true itemId ∈
      itemChanges scriptFile old new itemId := by
    unfold itemChanges
    rw [oldItem, newItem]
    exact (mem_diffItem ..).mpr ⟨action, rfl, edit⟩
  exact told_item oldScript newScript member rfl

/-- A change names an item only where its two versions differ. -/
theorem quiet_item {previous current : Snapshot β} {scriptFile itemId : String}
    (same : itemAt previous scriptFile itemId = itemAt current scriptFile itemId) {change : Change}
    (member : change ∈ diffScriptItems previous.scripts current.scripts) :
    ¬NamesItem scriptFile itemId change := by
  intro named
  obtain ⟨old, new, before, after, -, -, inside⟩ := named_item member named
  unfold itemChanges at inside
  rw [← before, ← after, same] at inside
  cases found : itemAt current scriptFile itemId with
  | none => simp [found] at inside
  | some item =>
    simp only [found] at inside
    obtain ⟨-, -, ⟨-, was, filled⟩ | ⟨-, was, filled⟩ | ⟨-, differ⟩⟩ := (mem_diffItem ..).mp inside
    · exact filled was
    · exact filled was
    · exact differ rfl

theorem item_reported_iff (previous current : Snapshot β) (scriptFile itemId : String) :
    KeyReported (diffScriptItems previous.scripts current.scripts) (NamesItem scriptFile itemId)
        Item.body (itemAt previous scriptFile itemId) (itemAt current scriptFile itemId) ↔
      (previous.scripts.get? scriptFile = none → itemAt current scriptFile itemId = none) ∧
      (current.scripts.get? scriptFile = none → itemAt previous scriptFile itemId = none) := by
  constructor
  · intro reported
    constructor
    · intro unknown
      have before : itemAt previous scriptFile itemId = none := by simp [itemAt, unknown]
      by_contra there
      obtain ⟨change, member, named, -⟩ := reported.created before (Option.isSome_iff_ne_none.mpr there)
      obtain ⟨old, new, found, -⟩ := named_diffScriptItems member named
      rw [unknown] at found
      cases found
    · intro unknown
      have after : itemAt current scriptFile itemId = none := by simp [itemAt, unknown]
      by_contra there
      obtain ⟨change, member, named, -⟩ := reported.deleted (Option.isSome_iff_ne_none.mpr there) after
      obtain ⟨old, new, -, found, -⟩ := named_diffScriptItems member named
      rw [unknown] at found
      cases found
  · intro stays
    obtain ⟨added, removed⟩ := stays
    constructor
    case created =>
      intro gone come
      obtain ⟨item, here⟩ := Option.isSome_iff_exists.mp come
      obtain ⟨new, newScript, newItem⟩ := (itemAt_eq_some_iff ..).mp here
      cases oldScript : previous.scripts.get? scriptFile with
      | none =>
        rw [added oldScript] at here
        cases here
      | some old =>
        have absent : old.items.get? itemId = none := by simpa [itemAt, oldScript] using gone
        have member : itemChange "created" scriptFile new true true itemId ∈
            itemChanges scriptFile old new itemId := by simp [itemChanges, absent, newItem]
        exact told_item oldScript newScript member rfl
    case deleted =>
      intro come gone
      obtain ⟨item, there⟩ := Option.isSome_iff_exists.mp come
      obtain ⟨old, oldScript, oldItem⟩ := (itemAt_eq_some_iff ..).mp there
      cases newScript : current.scripts.get? scriptFile with
      | none =>
        rw [removed newScript] at there
        cases there
      | some new =>
        have absent : new.items.get? itemId = none := by simpa [itemAt, newScript] using gone
        have member : itemChange "deleted" scriptFile old false false itemId ∈
            itemChanges scriptFile old new itemId := by simp [itemChanges, absent, oldItem]
        exact told_item oldScript newScript member rfl
    case updated =>
      intro before after there here differ
      exact told_edit there here (.inr (.inr ⟨rfl, differ⟩))
    case quiet =>
      intro same change member
      exact quiet_item same member

end Items

/-! The parts of the whole comparison. -/

section Whole

variable [DecidableEq β]

theorem diffNamedEntities_named {ν : Type} [DecidableEq ν] {entityType pane : String}
    {previous current : Dict String ν} {change : Change}
    (member : change ∈ diffNamedEntities entityType pane previous current) :
    ∃ name, NamesEntity entityType name change := by
  obtain ⟨name, ⟨-, made⟩ | ⟨-, made⟩ | ⟨-, made⟩⟩ := (mem_diffNamedEntities ..).mp member
  · exact ⟨name, by rw [made]; exact ⟨rfl, rfl⟩⟩
  · exact ⟨name, by rw [made]; exact ⟨rfl, rfl⟩⟩
  · exact ⟨name, by rw [made]; exact ⟨rfl, rfl⟩⟩

theorem diffEpisodes_named {previous current : Dict Int EpisodeEntry} {change : Change}
    (member : change ∈ diffEpisodes previous current) : ∃ key, NamesEpisode key change := by
  obtain ⟨key, entry, -, ⟨-, made⟩ | ⟨-, -, -, made⟩⟩ := (mem_diffEpisodes ..).mp member
  · exact ⟨key, by rw [made]; exact ⟨rfl, rfl⟩⟩
  · exact ⟨key, by rw [made]; exact ⟨rfl, rfl⟩⟩

theorem diffScriptItems_named {previous current : Dict String (Script β)} {change : Change}
    (member : change ∈ diffScriptItems previous current) :
    ∃ scriptFile itemId, NamesItem scriptFile itemId change := by
  obtain ⟨scriptFile, old, new, itemId, -, -, inside⟩ := (mem_diffScriptItems ..).mp member
  exact ⟨scriptFile, itemId, itemChanges_named inside⟩

/-- The entities a part of the comparison speaks of. -/
inductive Part (previous current : Snapshot β) (change : Change) : Prop where
  | character (name : String) (named : NamesEntity "character" name change)
      (member : change ∈ diffNamedEntities "character" "characters" previous.characters current.characters)
  | scene (name : String) (named : NamesEntity "scene" name change)
      (member : change ∈ diffNamedEntities "scene" "scenes" previous.scenes current.scenes)
  | prop (name : String) (named : NamesEntity "prop" name change)
      (member : change ∈ diffNamedEntities "prop" "props" previous.props current.props)
  | project (named : change.entityType = "project") (differ : previous.projectMeta ≠ current.projectMeta)
  | overview (named : change.entityType = "overview") (differ : previous.overview ≠ current.overview)
  | episode (key : Int) (named : NamesEpisode key change)
      (member : change ∈ diffEpisodes previous.episodes current.episodes)
  | item (scriptFile itemId : String) (named : NamesItem scriptFile itemId change)
      (member : change ∈ diffScriptItems previous.scripts current.scripts)

theorem part_of_mem {previous current : Snapshot β} {change : Change}
    (member : change ∈ diffSnapshots previous current) : Part previous current change := by
  unfold diffSnapshots at member
  simp only [List.mem_append, List.mem_ite_nil_right, List.mem_singleton] at member
  rcases member with (((((inside | inside) | inside) | inside) | inside) | inside) | inside
  · obtain ⟨name, named⟩ := diffNamedEntities_named inside
    exact .character name named inside
  · obtain ⟨name, named⟩ := diffNamedEntities_named inside
    exact .scene name named inside
  · obtain ⟨name, named⟩ := diffNamedEntities_named inside
    exact .prop name named inside
  · exact .project (by rw [inside.2]; rfl) inside.1
  · exact .overview (by rw [inside.2]; rfl) inside.1
  · obtain ⟨key, named⟩ := diffEpisodes_named inside
    exact .episode key named inside
  · obtain ⟨scriptFile, itemId, named⟩ := diffScriptItems_named inside
    exact .item scriptFile itemId named inside

/-- Each entity type has one part that speaks of it. -/
structure Alone (previous current : Snapshot β) (change : Change) : Prop where
  character : change.entityType = "character" →
    change ∈ diffNamedEntities "character" "characters" previous.characters current.characters
  scene : change.entityType = "scene" →
    change ∈ diffNamedEntities "scene" "scenes" previous.scenes current.scenes
  prop : change.entityType = "prop" →
    change ∈ diffNamedEntities "prop" "props" previous.props current.props
  episode : change.entityType = "episode" → change ∈ diffEpisodes previous.episodes current.episodes
  item : (∃ kind : SkeletonKind, change.entityType = kind.entityType) →
    change ∈ diffScriptItems previous.scripts current.scripts

theorem alone_of_mem {previous current : Snapshot β} {change : Change}
    (member : change ∈ diffSnapshots previous current) : Alone previous current change := by
  have notKind : ∀ text ∈ ["character", "scene", "prop", "project", "overview", "episode"],
      ∀ kind : SkeletonKind, text ≠ kind.entityType := by
    intro text listed kind
    cases kind <;> revert text <;> decide
  have apart : ∀ text ∈ ["character", "scene", "prop", "project", "overview", "episode"],
      change.entityType = text →
      (change ∈ diffNamedEntities "character" "characters" previous.characters current.characters ∨
        text ≠ "character") →
      (change ∈ diffNamedEntities "scene" "scenes" previous.scenes current.scenes ∨ text ≠ "scene") →
      (change ∈ diffNamedEntities "prop" "props" previous.props current.props ∨ text ≠ "prop") →
      (change ∈ diffEpisodes previous.episodes current.episodes ∨ text ≠ "episode") →
      Alone previous current change := by
    intro text listed typed characters scenes props episodes
    constructor
    case character => exact fun other => characters.resolve_right fun differ => differ (typed ▸ other)
    case scene => exact fun other => scenes.resolve_right fun differ => differ (typed ▸ other)
    case prop => exact fun other => props.resolve_right fun differ => differ (typed ▸ other)
    case episode => exact fun other => episodes.resolve_right fun differ => differ (typed ▸ other)
    case item =>
      intro other
      obtain ⟨kind, spelled⟩ := other
      exact absurd (typed.symm.trans spelled) (notKind text listed kind)
  cases part_of_mem member with
  | character _ named inside =>
    apply apart "character" (by decide) named.1 (.inl inside) <;> exact .inr (by decide)
  | scene _ named inside =>
    exact apart "scene" (by decide) named.1 (.inr (by decide)) (.inl inside) (.inr (by decide))
      (.inr (by decide))
  | prop _ named inside =>
    exact apart "prop" (by decide) named.1 (.inr (by decide)) (.inr (by decide)) (.inl inside)
      (.inr (by decide))
  | project named =>
    apply apart "project" (by decide) named <;> exact .inr (by decide)
  | overview named =>
    apply apart "overview" (by decide) named <;> exact .inr (by decide)
  | episode _ named inside =>
    exact apart "episode" (by decide) named.1 (.inr (by decide)) (.inr (by decide)) (.inr (by decide))
      (.inl inside)
  | item _ _ named inside =>
    obtain ⟨kind, typed⟩ := named.1
    have other : ∀ text ∈ ["character", "scene", "prop", "project", "overview", "episode"],
        change.entityType ≠ text := by
      intro text listed same
      exact notKind text listed kind (same.symm.trans typed)
    exact ⟨fun same => absurd same (other _ (by decide)), fun same => absurd same (other _ (by decide)),
      fun same => absurd same (other _ (by decide)), fun same => absurd same (other _ (by decide)),
      fun _ => inside⟩

theorem named_inside (entityType pane : String) {old new : Dict String β}
    {previous current : Snapshot β}
    (inside : ∀ change ∈ diffNamedEntities entityType pane old new, change ∈ diffSnapshots previous current)
    (alone : ∀ change ∈ diffSnapshots previous current, change.entityType = entityType →
      change ∈ diffNamedEntities entityType pane old new) (name : String) :
    KeyReported (diffSnapshots previous current) (NamesEntity entityType name) id (old.get? name)
      (new.get? name) :=
  (keyReported_part inside (fun change member named => alone change member named.1) ..).mpr
    (namedEntities_reported entityType pane old new name)

theorem episodes_inside (previous current : Snapshot β) (change : Change)
    (member : change ∈ diffEpisodes previous.episodes current.episodes) :
    change ∈ diffSnapshots previous current := by
  unfold diffSnapshots
  simp [member]

theorem items_inside (previous current : Snapshot β) (change : Change)
    (member : change ∈ diffScriptItems previous.scripts current.scripts) :
    change ∈ diffSnapshots previous current := by
  unfold diffSnapshots
  simp [member]

theorem episode_complete_iff (previous current : Snapshot β) (key : Int) :
    KeyReported (diffSnapshots previous current) (NamesEpisode key) id (previous.episodes.get? key)
      (current.episodes.get? key) ↔
    ((previous.episodes.get? key).isSome → (current.episodes.get? key).isSome) := by
  rw [← episode_reported_iff]
  apply keyReported_part (episodes_inside previous current)
  intro change member named
  exact (alone_of_mem member).episode named.1

theorem told_items (previous current : Snapshot β) (scriptFile itemId action : String) :
    Told (diffSnapshots previous current) (NamesItem scriptFile itemId) action ↔
      Told (diffScriptItems previous.scripts current.scripts) (NamesItem scriptFile itemId) action := by
  apply told_part (items_inside previous current)
  intro change member named
  exact (alone_of_mem member).item named.1

theorem item_complete_iff (previous current : Snapshot β) (scriptFile itemId : String) :
    KeyReported (diffSnapshots previous current) (NamesItem scriptFile itemId) Item.body
      (itemAt previous scriptFile itemId) (itemAt current scriptFile itemId) ↔
    (previous.scripts.get? scriptFile = none → itemAt current scriptFile itemId = none) ∧
      (current.scripts.get? scriptFile = none → itemAt previous scriptFile itemId = none) := by
  rw [← item_reported_iff]
  apply keyReported_part (items_inside previous current)
  intro change member named
  exact (alone_of_mem member).item named.1

theorem still_of_same {previous current : Snapshot β} (same : SameSnapshot previous current) :
    diffSnapshots previous current = [] := by
  rw [List.eq_nil_iff_forall_not_mem]
  intro change member
  cases part_of_mem member with
  | character name named inside =>
    exact (namedEntities_reported _ _ _ _ name).quiet (same.characters name) change inside named
  | scene name named inside =>
    exact (namedEntities_reported _ _ _ _ name).quiet (same.scenes name) change inside named
  | prop name named inside =>
    exact (namedEntities_reported _ _ _ _ name).quiet (same.props name) change inside named
  | project _ differ => exact differ same.projectMeta
  | overview _ differ => exact differ same.overview
  | episode key named inside =>
    have stays : (previous.episodes.get? key).isSome → (current.episodes.get? key).isSome := by
      rw [same.episodes key]
      exact id
    exact ((episode_reported_iff _ _ key).mpr stays).quiet (same.episodes key) change inside named
  | item scriptFile itemId named inside => exact quiet_item (same.items scriptFile itemId) inside named

def emptySnapshot : Snapshot String where
  projectMeta := ""
  characters := .empty
  scenes := .empty
  props := .empty
  overview := ""
  episodes := .empty
  scripts := .empty

/-- A first episode without a script yet. -/
def oneEpisode : Snapshot String :=
  { emptySnapshot with episodes := Dict.empty.set 1 ⟨1, "一", ""⟩ }

/-- A script file with one segment. -/
def oneScript : Snapshot String :=
  { emptySnapshot with
    scripts := Dict.empty.set "episode_1.json"
      ⟨some 1, .segments, Dict.empty.set "E1S1" ⟨"", "", "text"⟩⟩ }

end Whole

end Coverage

end ArcReel.Events
