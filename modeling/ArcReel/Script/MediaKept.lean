import Mathlib.Data.List.InsertIdx
import ArcReel.Script.BatchEdit

/-! The media and the order of the items of a script, over every batch of operations. -/

namespace ArcReel.Script
open ArcReel.Lib

/-! What an operation does to the list semantics of the ids. -/

/-- The id after the anchor, or in front of all ids. -/
def placeAfter (afterId : Option String) (id : String) (ids : List String) : List String :=
  match afterId with
  | none => id :: ids
  | some anchor => ids.insertIdx (ids.idxOf anchor + 1) id

def idsAfter (idField : String) (ids : List String) : Operation → List String
  | .update _ _ => ids
  | .insertAfter afterId item =>
      placeAfter afterId (((Json.obj item).get idField).str?.getD "") ids
  | .moveAfter id afterId => placeAfter afterId id (ids.erase id)
  | .remove id => ids.erase id

/-! The script. -/

section Items

variable {script : Json} {items : List Json} {kind : Kind}

theorem has_put_known {json value : Json} {key : String} (known : json.has key = true) (other : String) :
    (json.put key value).has other = json.has other := by
  by_cases same : other = key
  · cases json with
    | obj fields =>
      rw [same, known]
      simp only [Json.put, Json.has, Dict.keys_setEntries]
      rw [if_pos (of_decide_eq_true known)]
      exact known
    | _ => cases known
  · exact Json.has_put_of_ne same

theorem resolveScriptKind_put {key : String} (value : Json) (known : script.has key = true)
    (apart : "content_mode" ≠ key) :
    resolveScriptKind (script.put key value) = resolveScriptKind script := by
  unfold resolveScriptKind
  simp only [has_put_known known, Json.get_put_of_ne apart]

theorem kind_of_resolved (resolved : resolveItems script = .ok (items, kind)) :
    kind = resolveScriptKind script := by
  unfold resolveItems at resolved
  simp only at resolved
  split_ifs at resolved
  · exact (Prod.mk.inj (Except.ok.inj resolved)).2.symm
  · split at resolved
    · exact (Prod.mk.inj (Except.ok.inj resolved)).2.symm
    · cases resolved

/-- A stored list is the list that is found the next time. -/
theorem resolveItems_store (resolved : resolveItems script = .ok (items, kind))
    (attached : script.has kind.key = true) (items' : List Json) :
    resolveItems (storeItems script kind items') = .ok (items', kind) ∧
      (storeItems script kind items').has kind.key = true := by
  have named := kind_of_resolved resolved
  have apart : "content_mode" ≠ kind.key := by cases kind <;> decide
  unfold storeItems
  rw [if_pos attached]
  have still : (script.put kind.key (.arr items')).has kind.key = true := by
    rw [has_put_known attached]
    exact attached
  refine ⟨?_, still⟩
  unfold resolveItems
  simp only [resolveScriptKind_put _ attached apart, ← named, still,
    Json.get_put_self (Json.isObj_of_has attached)]
  rfl

theorem resolveItems_detached (detached : script.has (resolveScriptKind script).key = false) :
    resolveItems script = .ok ([], resolveScriptKind script) := by
  unfold resolveItems
  simp only [detached]
  rfl

end Items

/-! Fields that no update changes. -/

section Preserves

/-- The ids and the media of an item. -/
def keptKeys : List String :=
  ["generated_assets", "end_frame_image", "segment_id", "scene_id", "unit_id", "shot_id"]

theorem keptKeys_protected : ∀ key ∈ keptKeys, protectedRoots.contains key = true := by decide

structure Preserves (before after : Json) : Prop where
  object : after.isObj = before.isObj
  get : ∀ key ∈ keptKeys, after.get key = before.get key
  has : ∀ key ∈ keptKeys, after.has key = before.has key

variable {before middle after value : Json} {key : String}

theorem Preserves.refl (item : Json) : Preserves item item := ⟨rfl, fun _ _ => rfl, fun _ _ => rfl⟩

theorem Preserves.trans (first : Preserves before middle) (second : Preserves middle after) :
    Preserves before after where
  object := second.object.trans first.object
  get key listed := (second.get key listed).trans (first.get key listed)
  has key listed := (second.has key listed).trans (first.has key listed)

theorem preserves_put (item value : Json) (other : key ∉ keptKeys) :
    Preserves item (item.put key value) where
  object := Json.isObj_put item value key
  get _ listed := Json.get_put_of_ne fun same => other (same ▸ listed)
  has _ listed := Json.has_put_of_ne fun same => other (same ▸ listed)

theorem preserves_del (item : Json) (other : key ∉ keptKeys) : Preserves item (item.del key) where
  object := Json.isObj_del item key
  get _ listed := Json.get_del_of_ne fun same => other (same ▸ listed)
  has _ listed := Json.has_del_of_ne fun same => other (same ▸ listed)

theorem setAlong_preserves {path root : String} {later : List String} {item patched : Json}
    (free : root ∉ keptKeys) (done : setAlong path value (root :: later) item = .ok patched) :
    Preserves item patched := by
  cases later with
  | nil =>
    unfold setAlong at done
    split_ifs at done
    rw [← Except.ok.inj done]
    exact preserves_put item value free
  | cons next later =>
    unfold setAlong at done
    split_ifs at done
    obtain ⟨inner, -, done⟩ := bind_eq_ok.mp done
    rw [← Except.ok.inj done]
    exact preserves_put item inner free

theorem setNested_preserves {path : String} {item patched : Json}
    (done : setNested item path value = .ok patched) : Preserves item patched := by
  unfold setNested at done
  cases parts : pathParts path with
  | nil => rw [parts] at done; cases done
  | cons root later =>
    simp only [parts] at done
    split_ifs at done with illegal refused
    exact setAlong_preserves (fun listed => refused (keptKeys_protected root listed)) done

variable {π : Type} {rt : Runtime π} {project item patched : Json}

theorem rederive_preserves (done : rederiveReferences rt project item = .ok patched) :
    Preserves item patched := by
  unfold rederiveReferences at done
  split at done
  · obtain ⟨references, -, done⟩ := bind_eq_ok.mp done
    rw [← Except.ok.inj done]
    exact preserves_put item references (by decide)
  · rw [← Except.ok.inj done]
    exact Preserves.refl item

theorem rederiveWhen_preserves {stale : Bool}
    (done : rederiveWhen rt project stale item = .ok patched) : Preserves item patched := by
  unfold rederiveWhen at done
  split_ifs at done
  · exact rederive_preserves done
  · rw [← Except.ok.inj done]
    exact Preserves.refl item

theorem refresh_preserves {allowClear contentChanged : Bool}
    (done : refreshReplanState rt item allowClear contentChanged = .ok patched) :
    Preserves item patched := by
  unfold refreshReplanState at done
  simp only at done
  have consumed : Preserves item (if contentChanged then
      item.del "migration_requires_content_replan" else item) := by
    split_ifs
    · exact preserves_del item (by decide)
    · exact Preserves.refl item
  generalize (if contentChanged then item.del "migration_requires_content_replan" else item) = unit
    at consumed done
  apply consumed.trans
  split at done
  · rw [← Except.ok.inj done]
    exact preserves_put unit _ (by decide)
  · split at done
    · rw [← Except.ok.inj done]
      exact preserves_put unit _ (by decide)
    · obtain ⟨admission, -, done⟩ := bind_eq_ok.mp done
      split_ifs at done
      · rw [← Except.ok.inj done]
        exact preserves_put unit _ (by decide)
      · rw [← Except.ok.inj done]
        exact preserves_del unit (by decide)
      · rw [← Except.ok.inj done]
        exact Preserves.refl unit

theorem settleUpdate_preserves [DecidableEq π] {kind : Kind} {roots : List String}
    {content : SpeechAdmission π} {settled : Json}
    (done : settleUpdate rt project kind roots content item patched = .ok settled) :
    Preserves patched settled := by
  unfold settleUpdate at done
  split at done
  · simp only at done
    obtain ⟨derived, rederived, done⟩ := bind_eq_ok.mp done
    apply (rederiveWhen_preserves rederived).trans
    split_ifs at done
    · exact refresh_preserves done
    · rw [← Except.ok.inj done]
      exact Preserves.refl derived
  · obtain ⟨admission, -, done⟩ := bind_eq_ok.mp done
    split_ifs at done
    · rw [← Except.ok.inj done]
      exact preserves_del patched (by decide)
    · rw [← Except.ok.inj done]
      exact Preserves.refl patched

theorem settleInsert_preserves {kind : Kind} {settled : Json}
    (done : settleInsert rt project kind item = .ok settled) : Preserves item settled := by
  unfold settleInsert at done
  split at done
  · obtain ⟨derived, rederived, done⟩ := bind_eq_ok.mp done
    exact (rederiveWhen_preserves rederived).trans (refresh_preserves done)
  · rw [← Except.ok.inj done]
    exact Preserves.refl item

end Preserves

/-! Ids. -/

section Ids

variable {π : Type} {rt : Runtime π} {kind : Kind} {items : List Json} {item : Json} {id : String}

def itemId (kind : Kind) (item : Json) : String := (item.get kind.idField).str?.getD ""

/-- An object whose id is a string. -/
def Identified (kind : Kind) (item : Json) : Prop :=
  item.isObj = true ∧ ∃ id, item.get kind.idField = .str id

theorem Identified.get (identified : Identified kind item) :
    item.get kind.idField = .str (itemId kind item) := by
  obtain ⟨-, id, known⟩ := identified
  unfold itemId
  rw [known]
  rfl

theorem idField_kept (kind : Kind) : kind.idField ∈ keptKeys := by cases kind <;> decide

theorem Preserves.itemId {before after : Json} (same : Preserves before after) :
    itemId kind after = itemId kind before := by
  unfold Script.itemId
  rw [same.get _ (idField_kept kind)]

theorem Preserves.identified {before after : Json} (same : Preserves before after)
    (identified : Identified kind before) : Identified kind after := by
  unfold Identified
  rw [same.object, same.get _ (idField_kept kind)]
  exact identified

theorem isItem_iff (identified : Identified kind item) :
    isItem rt kind.idField id item = (itemId kind item == id) := by
  unfold isItem
  rw [identified.1, identified.get, Bool.true_and]
  rfl

theorem findIdx_eq_idxOf (identified : ∀ item ∈ items, Identified kind item) (id : String) :
    items.findIdx (isItem rt kind.idField id) = (items.map (itemId kind)).idxOf id := by
  unfold List.idxOf
  rw [List.findIdx_map]
  induction items with
  | nil => rfl
  | cons item items ih =>
    rw [List.findIdx_cons, List.findIdx_cons, isItem_iff (identified item (.head _)),
      ih fun other member => identified other (.tail _ member)]
    rfl

/-- A found index is that of the id among the ids. -/
theorem findIndex_spec {index : Nat} (identified : ∀ item ∈ items, Identified kind item)
    (found : findIndex rt items kind.idField id = .ok index) :
    index = (items.map (itemId kind)).idxOf id ∧
      ∃ within : index < items.length, itemId kind items[index] = id := by
  unfold findIndex at found
  split at found
  next place located =>
    obtain ⟨within, here, -⟩ := List.findIdx?_eq_some_iff_getElem.mp located
    have first := (List.findIdx?_eq_some_iff_findIdx_eq.mp located).2
    rw [findIdx_eq_idxOf identified] at first
    rw [isItem_iff (identified _ (List.getElem_mem within)), beq_iff_eq] at here
    rw [← Except.ok.inj found]
    exact ⟨first.symm, within, here⟩
  next => cases found

theorem insertPlace_spec {afterId : Option String} {place : Nat}
    (identified : ∀ item ∈ items, Identified kind item)
    (found : insertPlace rt items kind.idField afterId = .ok place) :
    place ≤ items.length ∧ (items.insertIdx place item).map (itemId kind) =
      placeAfter afterId (itemId kind item) (items.map (itemId kind)) := by
  unfold insertPlace at found
  cases afterId with
  | none =>
    rw [← Except.ok.inj found]
    exact ⟨Nat.zero_le _, rfl⟩
  | some anchor =>
    obtain ⟨index, located, done⟩ := bind_eq_ok.mp found
    obtain ⟨first, within, -⟩ := findIndex_spec identified located
    rw [← Except.ok.inj done]
    refine ⟨within, ?_⟩
    rw [List.map_insertIdx, first]
    rfl

theorem map_eraseIdx_idxOf (id : String) : (items.eraseIdx ((items.map (itemId kind)).idxOf id)).map
    (itemId kind) = (items.map (itemId kind)).erase id := by
  rw [← List.eraseIdx_map]
  exact (List.erase_eq_eraseIdx_of_idxOf rfl).symm

end Ids

/-! The invariant of a batch. -/

section Batch

variable {π : Type} {rt : Runtime π} {project : Json} {kind : Kind} {original items : List Json}
  {candidate next : Candidate} {id : String} {item : Json}

/-- The media that the item with an id has to carry: its original ones, or none. -/
def Carries (kind : Kind) (original : List Json) (id : String) (item : Json) : Prop :=
  (∀ old ∈ original, itemId kind old = id →
    item.get "generated_assets" = old.get "generated_assets" ∧
      item.get "end_frame_image" = old.get "end_frame_image") ∧
  ((∀ old ∈ original, itemId kind old ≠ id) →
    item.get "generated_assets" = .obj [] ∧ item.has "end_frame_image" = false)

/-- The items of the candidate and the removed items carry their media, and no original id is
lost. -/
structure Kept (kind : Kind) (original : List Json) (candidate : Candidate) (items : List Json) :
    Prop where
  resolved : resolveItems candidate.script = .ok (items, kind)
  attached : candidate.script.has kind.key = true
  identified : ∀ item ∈ items, Identified kind item
  unique : (items.map (itemId kind)).Nodup
  live : ∀ item ∈ items, Carries kind original (itemId kind item) item
  gone : ∀ id old, candidate.removed.get? id = some old → Carries kind original id old
  known : ∀ old ∈ original, itemId kind old ∈ items.map (itemId kind) ∨
    itemId kind old ∈ candidate.removed.keys

theorem Preserves.carries {before after : Json} (same : Preserves before after)
    (carries : Carries kind original id before) : Carries kind original id after := by
  unfold Carries
  rw [same.get "generated_assets" (by decide), same.get "end_frame_image" (by decide),
    same.has "end_frame_image" (by decide)]
  exact carries

theorem ids_set {index : Nat} (same : Preserves (items[index]?.getD .null) item) :
    (items.set index item).map (itemId kind) = items.map (itemId kind) := by
  by_cases within : index < items.length
  · rw [List.getElem?_eq_getElem within, Option.getD_some] at same
    rw [List.map_set, same.itemId, ← List.getElem_map (itemId kind) (h := by simpa using within)]
    exact List.set_getElem_self _
  · rw [List.set_eq_of_length_le (by omega)]

/-- A changed item that keeps its id and its media. -/
theorem kept_set {index : Nat} (kept : Kept kind original candidate items)
    (same : Preserves (items[index]?.getD .null) item) :
    Kept kind original { candidate with script := storeItems candidate.script kind (items.set index item) }
      (items.set index item) := by
  have stored := resolveItems_store kept.resolved kept.attached (items.set index item)
  have ids : (items.set index item).map (itemId kind) = items.map (itemId kind) := ids_set same
  have each : ∀ other ∈ items.set index item, ∃ before ∈ items, Preserves before other := by
    intro other member
    by_cases within : index < items.length
    · rw [List.getElem?_eq_getElem within, Option.getD_some] at same
      cases List.mem_or_eq_of_mem_set member with
      | inl old => exact ⟨other, old, Preserves.refl other⟩
      | inr new => exact ⟨items[index], List.getElem_mem within, new ▸ same⟩
    · rw [List.set_eq_of_length_le (by omega)] at member
      exact ⟨other, member, Preserves.refl other⟩
  refine ⟨stored.1, stored.2, ?_, ?_, ?_, kept.gone, ?_⟩
  · intro other member
    obtain ⟨before, listed, keeps⟩ := each other member
    exact keeps.identified (kept.identified before listed)
  · rw [ids]
    exact kept.unique
  · intro other member
    obtain ⟨before, listed, keeps⟩ := each other member
    rw [keeps.itemId]
    exact keeps.carries (kept.live before listed)
  · rw [ids]
    exact kept.known

theorem kept_patch {script' : Json} {path : String} {value : Json}
    (kept : Kept kind original candidate items)
    (done : patchField rt candidate.script id path value = .ok script') :
    ∃ items', Kept kind original { candidate with script := script' } items' ∧
      items'.map (itemId kind) = items.map (itemId kind) := by
  unfold patchField at done
  rw [kept.resolved] at done
  obtain ⟨found, resolved, done⟩ := bind_eq_ok.mp done
  rw [← Except.ok.inj resolved] at done
  obtain ⟨index, -, done⟩ := bind_eq_ok.mp done
  obtain ⟨item, changed, done⟩ := bind_eq_ok.mp done
  have preserved := setNested_preserves changed
  rw [← Except.ok.inj done]
  exact ⟨_, kept_set kept preserved, ids_set preserved⟩

/-- Fields that are set one after the other. -/
theorem kept_patches (fields : List (String × Json)) {script' : Json} :
    ∀ {candidate : Candidate} {items : List Json}, Kept kind original candidate items →
      fields.foldlM (fun script field => patchField rt script id field.1 field.2) candidate.script =
        .ok script' →
      ∃ items', Kept kind original { candidate with script := script' } items' ∧
        items'.map (itemId kind) = items.map (itemId kind) := by
  induction fields with
  | nil =>
    intro candidate items kept done
    rw [← Except.ok.inj done]
    exact ⟨items, kept, rfl⟩
  | cons field fields ih =>
    intro candidate items kept done
    rw [List.foldlM_cons] at done
    obtain ⟨middle, first, later⟩ := bind_eq_ok.mp done
    obtain ⟨items', kept', ids⟩ := kept_patch kept first
    obtain ⟨items'', kept'', ids'⟩ := ih kept' later
    exact ⟨items'', kept'', ids'.trans ids⟩

/-! One operation. -/

/-- A computation that starts with the items of a script. -/
theorem bind_resolved {α : Type} {script : Json} {f : List Json × Kind → Except EditError α} {a : α}
    (resolved : resolveItems script = .ok (items, kind))
    (done : resolveItems script >>= f = .ok a) : f (items, kind) = .ok a := by
  rw [resolved] at done
  exact done

theorem kept_update [DecidableEq π] {fields : List (String × Json)} {touched : Touched π}
    (kept : Kept kind original candidate items)
    (done : applyUpdate rt project candidate id fields = .ok (touched, next)) :
    ∃ items', Kept kind original next items' ∧
      items'.map (itemId kind) = items.map (itemId kind) := by
  unfold applyUpdate at done
  obtain ⟨before, -, done⟩ := bind_eq_ok.mp done
  have done := bind_resolved kept.resolved done
  obtain ⟨index, -, done⟩ := bind_eq_ok.mp done
  obtain ⟨content, -, done⟩ := bind_eq_ok.mp done
  obtain ⟨script, patched, done⟩ := bind_eq_ok.mp done
  obtain ⟨items', kept', ids⟩ := kept_patches fields kept patched
  have done := bind_resolved kept'.resolved done
  obtain ⟨settled, settles, done⟩ := bind_eq_ok.mp done
  obtain ⟨after, -, done⟩ := bind_eq_ok.mp done
  have preserved := settleUpdate_preserves settles
  rw [← (Prod.mk.inj (Except.ok.inj done)).2]
  exact ⟨_, kept_set kept' preserved, (ids_set preserved).trans ids⟩

theorem kept_remove {touched : Touched π} (kept : Kept kind original candidate items)
    (done : applyRemove rt candidate id = .ok (touched, next)) :
    ∃ items', Kept kind original next items' ∧
      items'.map (itemId kind) = (items.map (itemId kind)).erase id := by
  unfold applyRemove at done
  have done := bind_resolved kept.resolved done
  obtain ⟨index, located, done⟩ := bind_eq_ok.mp done
  obtain ⟨before, -, done⟩ := bind_eq_ok.mp done
  obtain ⟨first, within, here⟩ := findIndex_spec kept.identified located
  have stored := resolveItems_store kept.resolved kept.attached (items.eraseIdx index)
  have ids : (items.eraseIdx index).map (itemId kind) = (items.map (itemId kind)).erase id := by
    rw [first]
    exact map_eraseIdx_idxOf id
  simp only [List.getElem?_eq_getElem within, Option.getD_some] at done
  rw [← (Prod.mk.inj (Except.ok.inj done)).2]
  refine ⟨items.eraseIdx index, ⟨stored.1, stored.2, ?_, ?_, ?_, ?_, ?_⟩, ids⟩
  · intro item member
    exact kept.identified item (List.mem_of_mem_eraseIdx member)
  · rw [ids]
    exact kept.unique.erase id
  · intro item member
    exact kept.live item (List.mem_of_mem_eraseIdx member)
  · intro other old stored
    rw [Dict.get?_set] at stored
    split_ifs at stored with same
    · rw [same, ← Option.some.inj stored, ← here]
      exact kept.live _ (List.getElem_mem within)
    · exact kept.gone other old stored
  · intro old member
    rw [ids, Dict.mem_keys_set, kept.unique.mem_erase_iff]
    by_cases same : itemId kind old = id
    · exact .inr (.inr same)
    · cases kept.known old member with
      | inl listed => exact .inl ⟨same, listed⟩
      | inr gone => exact .inr (.inl gone)

theorem kept_move {touched : Touched π} {afterId : Option String}
    (kept : Kept kind original candidate items)
    (done : applyMove rt candidate id afterId = .ok (touched, next)) :
    ∃ items', Kept kind original next items' ∧
      items'.map (itemId kind) = placeAfter afterId id ((items.map (itemId kind)).erase id) := by
  unfold applyMove at done
  obtain ⟨-, done⟩ := throwIf_eq_ok.mp done
  have done := bind_resolved kept.resolved done
  obtain ⟨source, located, done⟩ := bind_eq_ok.mp done
  obtain ⟨before, -, done⟩ := bind_eq_ok.mp done
  obtain ⟨place, placed, done⟩ := bind_eq_ok.mp done
  obtain ⟨after, -, done⟩ := bind_eq_ok.mp done
  obtain ⟨first, within, here⟩ := findIndex_spec kept.identified located
  simp only [List.getElem?_eq_getElem within, Option.getD_some] at done placed
  have rest : ∀ item ∈ items.eraseIdx source, Identified kind item := fun item member =>
    kept.identified item (List.mem_of_mem_eraseIdx member)
  have position : place ≤ _ ∧ ((items.eraseIdx source).insertIdx place items[source]).map (itemId kind) = _ :=
    insertPlace_spec rest placed
  obtain ⟨bounded, order⟩ := position
  have ids : ((items.eraseIdx source).insertIdx place items[source]).map (itemId kind) =
      placeAfter afterId id ((items.map (itemId kind)).erase id) := by
    rw [order, here, first, map_eraseIdx_idxOf]
  have same : ((items.eraseIdx source).insertIdx place items[source]).Perm items :=
    (List.perm_insertIdx _ _ bounded).trans (List.getElem_cons_eraseIdx_perm within)
  have stored := resolveItems_store kept.resolved kept.attached
    ((items.eraseIdx source).insertIdx place items[source])
  rw [← (Prod.mk.inj (Except.ok.inj done)).2]
  refine ⟨_, ⟨stored.1, stored.2, ?_, ?_, ?_, kept.gone, ?_⟩, ids⟩
  · intro item member
    exact kept.identified item (same.mem_iff.mp member)
  · exact (same.map (itemId kind)).nodup_iff.mpr kept.unique
  · intro item member
    exact kept.live item (same.mem_iff.mp member)
  · intro old member
    rw [(same.map (itemId kind)).mem_iff]
    exact kept.known old member

theorem restoreMedia_get (removed : Option Json) {key : String} (first : key ≠ "generated_assets")
    (second : key ≠ "end_frame_image") : (restoreMedia removed item).get key = item.get key := by
  unfold restoreMedia
  split
  · rw [Json.get_del_of_ne second, Json.get_put_of_ne first]
  · simp only
    generalize (if (Json.get _ "generated_assets").isObj then _ else Json.obj []) = assets
    split_ifs
    · rw [Json.get_del_of_ne second, Json.get_put_of_ne first]
    · rw [Json.get_put_of_ne second, Json.get_put_of_ne first]

theorem restoreMedia_isObj (removed : Option Json) (item : Json) :
    (restoreMedia removed item).isObj = item.isObj := by
  unfold restoreMedia
  split
  · rw [Json.isObj_del, Json.isObj_put]
  · simp only
    split_ifs <;> simp

/-- An item that was never there gets no media. -/
theorem restoreMedia_new (object : item.isObj = true)
    (new : ∀ old ∈ original, itemId kind old ≠ id) :
    Carries kind original id (restoreMedia none item) := by
  refine ⟨fun old member same => absurd same (new old member), fun _ => ⟨?_, Json.has_del_self _ _⟩⟩
  show ((item.put "generated_assets" (.obj [])).del "end_frame_image").get "generated_assets" = .obj []
  rw [Json.get_del_of_ne (by decide), Json.get_put_self object]

/-- An item that comes back gets the media of the removed one. -/
theorem restoreMedia_again {removed : Json} (object : item.isObj = true)
    (assets : ∀ old ∈ original, (old.get "generated_assets").isObj = true)
    (carries : Carries kind original id removed) :
    Carries kind original id (restoreMedia (some removed) item) := by
  have isObj : (removed.get "generated_assets").isObj = true := by
    by_cases known : ∃ old ∈ original, itemId kind old = id
    · obtain ⟨old, member, same⟩ := known
      rw [(carries.1 old member same).1]
      exact assets old member
    · push Not at known
      rw [(carries.2 known).1]
      rfl
  have restored : (restoreMedia (some removed) item).get "generated_assets" =
      removed.get "generated_assets" := by
    unfold restoreMedia
    simp only [isObj, if_true]
    split_ifs
    · rw [Json.get_del_of_ne (by decide), Json.get_put_self object]
    · rw [Json.get_put_of_ne (by decide), Json.get_put_self object]
  have frame : (restoreMedia (some removed) item).get "end_frame_image" =
      removed.get "end_frame_image" := by
    unfold restoreMedia
    simp only
    split_ifs with empty
    · rw [Json.get_del_self]
      cases image : removed.get "end_frame_image" with
      | null => rfl
      | _ => rw [image] at empty; cases empty
    · exact Json.get_put_self (by rw [Json.isObj_put]; exact object)
  refine ⟨?_, ?_⟩
  · intro old member same
    rw [restored, frame]
    exact carries.1 old member same
  · intro new
    obtain ⟨none_, missing⟩ := carries.2 new
    rw [restored]
    refine ⟨none_, ?_⟩
    have empty := Json.get_of_not_has missing
    unfold restoreMedia
    simp only [empty, Json.isNull, if_true]
    exact Json.has_del_self _ _

theorem kept_insert {touched : Touched π} {afterId : Option String} {fields : List (String × Json)}
    (assets : ∀ old ∈ original, (old.get "generated_assets").isObj = true)
    (kept : Kept kind original candidate items)
    (done : applyInsert rt project candidate afterId fields = .ok (touched, next)) :
    ∃ items', Kept kind original next items' ∧
      items'.map (itemId kind) = placeAfter afterId (((Json.obj fields).get kind.idField).str?.getD "")
        (items.map (itemId kind)) := by
  unfold applyInsert at done
  have done := bind_resolved kept.resolved done
  obtain ⟨id, named, done⟩ := bind_eq_ok.mp done
  obtain ⟨free, done⟩ := throwIf_eq_ok.mp done
  obtain ⟨place, placed, done⟩ := bind_eq_ok.mp done
  obtain ⟨item, settles, done⟩ := bind_eq_ok.mp done
  obtain ⟨after, -, done⟩ := bind_eq_ok.mp done
  have given : (Json.obj fields).get kind.idField = .str id := by
    unfold insertedId at named
    split at named
    next other same =>
      split_ifs at named
      rw [same, Except.ok.inj named]
    next => cases named
  have new : id ∉ items.map (itemId kind) := by
    intro member
    obtain ⟨other, listed, same⟩ := List.mem_map.mp member
    apply free
    rw [List.any_eq_true]
    exact ⟨other, listed, by rw [isItem_iff (kept.identified other listed), same, beq_self_eq_true]⟩
  have apart : kind.idField ≠ "generated_assets" ∧ kind.idField ≠ "end_frame_image" := by
    cases kind <;> decide
  have keeps := settleInsert_preserves settles
  have restored : Identified kind (restoreMedia (candidate.removed.get? id) (.obj fields)) := by
    refine ⟨restoreMedia_isObj _ _, id, ?_⟩
    rw [restoreMedia_get _ apart.1 apart.2]
    exact given
  have identified := keeps.identified restored
  have owner : itemId kind item = id := by
    rw [keeps.itemId, itemId, restoreMedia_get _ apart.1 apart.2, given]
    rfl
  have carries : Carries kind original id item := by
    apply keeps.carries
    cases gone : candidate.removed.get? id with
    | none =>
      apply restoreMedia_new rfl
      intro old member same
      cases kept.known old member with
      | inl listed => exact new (same ▸ listed)
      | inr removed =>
        rw [same] at removed
        exact (Dict.get?_eq_none_iff _ _).mp gone removed
    | some removed => exact restoreMedia_again rfl assets (kept.gone id removed gone)
  have position : place ≤ _ ∧ (items.insertIdx place item).map (itemId kind) = _ :=
    insertPlace_spec kept.identified placed
  obtain ⟨bounded, order⟩ := position
  have same : (items.insertIdx place item).Perm (item :: items) := List.perm_insertIdx _ _ bounded
  have stored := resolveItems_store kept.resolved kept.attached (items.insertIdx place item)
  rw [given]
  rw [owner] at order
  rw [← (Prod.mk.inj (Except.ok.inj done)).2]
  refine ⟨_, ⟨stored.1, stored.2, ?_, ?_, ?_, ?_, ?_⟩, order⟩
  · intro other member
    cases List.mem_cons.mp (same.mem_iff.mp member) with
    | inl here => rwa [here]
    | inr old => exact kept.identified other old
  · rw [(same.map (itemId kind)).nodup_iff, List.map_cons, List.nodup_cons, owner]
    exact ⟨new, kept.unique⟩
  · intro other member
    cases List.mem_cons.mp (same.mem_iff.mp member) with
    | inl here => rwa [here, owner]
    | inr old => exact kept.live other old
  · intro other old stored
    rw [Dict.get?_erase] at stored
    split_ifs at stored
    exact kept.gone other old stored
  · intro old member
    rw [(same.map (itemId kind)).mem_iff, List.map_cons, List.mem_cons, owner]
    by_cases here : itemId kind old = id
    · exact .inl (.inl here)
    · cases kept.known old member with
      | inl listed => exact .inl (.inr listed)
      | inr removed =>
        refine .inr ?_
        rw [Dict.keys_erase, List.mem_filter]
        exact ⟨removed, by simpa using here⟩

theorem kept_operation [DecidableEq π] {touched : Touched π} {operation : Operation}
    (assets : ∀ old ∈ original, (old.get "generated_assets").isObj = true)
    (kept : Kept kind original candidate items)
    (done : applyOperation rt project candidate operation = .ok (touched, next)) :
    ∃ items', Kept kind original next items' ∧
      items'.map (itemId kind) = idsAfter kind.idField (items.map (itemId kind)) operation := by
  cases operation with
  | update id fields => exact kept_update kept done
  | insertAfter afterId fields => exact kept_insert assets kept done
  | moveAfter id afterId => exact kept_move kept done
  | remove id => exact kept_remove kept done

/-- The operations of a batch keep the media, and the ids are where the operations put them. -/
theorem kept_operations [DecidableEq π] (operations : List Operation)
    (assets : ∀ old ∈ original, (old.get "generated_assets").isObj = true) :
    ∀ {candidate : Candidate} {items : List Json}, Kept kind original candidate items →
      operations.foldlM (fun candidate operation => do
        let (_, next) ← applyOperation rt project candidate operation
        .ok next) candidate = .ok next →
      ∃ items', Kept kind original next items' ∧ items'.map (itemId kind) =
        operations.foldl (idsAfter kind.idField) (items.map (itemId kind)) := by
  induction operations with
  | nil =>
    intro candidate items kept done
    rw [← Except.ok.inj done]
    exact ⟨items, kept, rfl⟩
  | cons operation operations ih =>
    intro candidate items kept done
    rw [List.foldlM_cons] at done
    obtain ⟨middle, first, later⟩ := bind_eq_ok.mp done
    obtain ⟨result, applied, first⟩ := bind_eq_ok.mp first
    rw [← Except.ok.inj first] at later
    obtain ⟨items', kept', ids⟩ := kept_operation assets kept applied
    obtain ⟨items'', kept'', order⟩ := ih kept' later
    exact ⟨items'', kept'', by rw [order, ids, List.foldl_cons]⟩

/-- Without a list in the script an operation that is accepted inserts an item in front, and the
script stays as it is. -/
theorem detached_operation [DecidableEq π] {touched : Touched π} {operation : Operation}
    (detached : candidate.script.has (resolveScriptKind candidate.script).key = false)
    (done : applyOperation rt project candidate operation = .ok (touched, next)) :
    next.script = candidate.script ∧ ∃ fields, operation = .insertAfter none fields := by
  have resolved := resolveItems_detached detached
  have lost : ∀ (idField id : String) (index : Nat), findIndex rt [] idField id ≠ .ok index :=
    fun _ _ _ found => nomatch found
  cases operation with
  | update id fields =>
    unfold applyOperation applyUpdate at done
    obtain ⟨before, -, done⟩ := bind_eq_ok.mp done
    have done := bind_resolved resolved done
    obtain ⟨index, located, -⟩ := bind_eq_ok.mp done
    exact absurd located (lost _ _ _)
  | insertAfter afterId fields =>
    unfold applyOperation applyInsert at done
    have done := bind_resolved resolved done
    obtain ⟨id, -, done⟩ := bind_eq_ok.mp done
    obtain ⟨-, done⟩ := throwIf_eq_ok.mp done
    obtain ⟨place, placed, done⟩ := bind_eq_ok.mp done
    obtain ⟨item, -, done⟩ := bind_eq_ok.mp done
    obtain ⟨after, -, done⟩ := bind_eq_ok.mp done
    refine ⟨?_, ?_⟩
    · rw [← (Prod.mk.inj (Except.ok.inj done)).2]
      unfold storeItems
      rw [detached]
      rfl
    · cases afterId with
      | none => exact ⟨fields, rfl⟩
      | some anchor =>
        obtain ⟨index, located, -⟩ := bind_eq_ok.mp placed
        exact absurd located (lost _ _ _)
  | moveAfter id afterId =>
    unfold applyOperation applyMove at done
    obtain ⟨-, done⟩ := throwIf_eq_ok.mp done
    have done := bind_resolved resolved done
    obtain ⟨index, located, -⟩ := bind_eq_ok.mp done
    exact absurd located (lost _ _ _)
  | remove id =>
    unfold applyOperation applyRemove at done
    have done := bind_resolved resolved done
    obtain ⟨index, located, -⟩ := bind_eq_ok.mp done
    exact absurd located (lost _ _ _)

theorem detached_operations [DecidableEq π] (idField : String) (operations : List Operation) :
    ∀ {candidate : Candidate} (ids : List String),
      candidate.script.has (resolveScriptKind candidate.script).key = false →
      operations.foldlM (fun candidate operation => do
        let (_, next) ← applyOperation rt project candidate operation
        .ok next) candidate = .ok next →
      next.script = candidate.script ∧
        (operations.foldl (idsAfter idField) ids).length = operations.length + ids.length := by
  induction operations with
  | nil =>
    intro candidate ids detached done
    rw [← Except.ok.inj done]
    exact ⟨rfl, by simp⟩
  | cons operation operations ih =>
    intro candidate ids detached done
    rw [List.foldlM_cons] at done
    obtain ⟨middle, first, later⟩ := bind_eq_ok.mp done
    obtain ⟨result, applied, first⟩ := bind_eq_ok.mp first
    rw [← Except.ok.inj first] at later
    obtain ⟨same, fields, inserts⟩ := detached_operation detached applied
    obtain ⟨rest, counted⟩ := ih (idsAfter idField ids operation) (by rwa [same]) later
    refine ⟨rest.trans same, ?_⟩
    rw [List.foldl_cons, counted, inserts]
    simp only [idsAfter, placeAfter, List.length_cons]
    omega

end Batch

/-- The items of a script whose ids are strings of their own and whose media are objects. -/
structure WellFormed (script : Json) (kind : Kind) (items : List Json) : Prop where
  resolved : resolveItems script = .ok (items, kind)
  identified : ∀ item ∈ items, Identified kind item
  unique : (items.map (itemId kind)).Nodup
  assets : ∀ item ∈ items, (item.get "generated_assets").isObj = true

/-- The items carry their own media, or none if they are new, in the order that the operations
give to the ids. -/
structure MediaKept (kind : Kind) (items : List Json) (operations : List Operation)
    (items' : List Json) : Prop where
  unique : (items'.map (itemId kind)).Nodup
  old : ∀ item ∈ items', ∀ before ∈ items, itemId kind item = itemId kind before →
    item.get "generated_assets" = before.get "generated_assets" ∧
      item.get "end_frame_image" = before.get "end_frame_image"
  new : ∀ item ∈ items', itemId kind item ∉ items.map (itemId kind) →
    item.get "generated_assets" = .obj [] ∧ item.has "end_frame_image" = false
  order : items'.map (itemId kind) = operations.foldl (idsAfter kind.idField) (items.map (itemId kind))

/-- A batch that is accepted keeps the media and the order of the items exactly if the script has
the list of its items, or if the batch is empty. -/
theorem batch_keeps_media_iff {π : Type} [DecidableEq π] (rt : Runtime π) (project script : Json)
    (operations : List Operation) (candidate : Candidate) (kind : Kind) (items : List Json)
    (formed : WellFormed script kind items)
    (accepted : applyOperations rt project script operations = .ok candidate) :
    (∃ items', resolveItems candidate.script = .ok (items', kind) ∧
      MediaKept kind items operations items') ↔ script.has kind.key = true ∨ operations = [] := by
  have named := kind_of_resolved formed.resolved
  constructor
  · rintro ⟨items', resolved, keeps⟩
    by_contra neither
    push Not at neither
    have detached : script.has (resolveScriptKind script).key = false := by
      rw [← named]
      simpa using neither.1
    obtain ⟨same, counted⟩ := detached_operations kind.idField operations
      (items.map (itemId kind)) detached accepted
    have none_ : items' = items := by
      rw [same, formed.resolved] at resolved
      exact (Prod.mk.inj (Except.ok.inj resolved)).1.symm
    have length := congrArg List.length keeps.order
    rw [counted, none_, List.length_map] at length
    exact neither.2 (List.length_eq_zero_iff.mp (by omega))
  · intro holds
    by_cases attached : script.has kind.key = true
    · have start : Kept kind items ⟨script, .empty⟩ items := by
        refine ⟨formed.resolved, attached, formed.identified, formed.unique, ?_, ?_, ?_⟩
        · intro item member
          refine ⟨?_, fun new => absurd rfl (new item member)⟩
          intro old listed same
          rw [List.inj_on_of_nodup_map formed.unique listed member same]
          exact ⟨rfl, rfl⟩
        · intro id old gone
          rw [Dict.get?_empty] at gone
          cases gone
        · intro old member
          exact .inl (List.mem_map_of_mem member)
      obtain ⟨items', kept, order⟩ := kept_operations operations formed.assets start accepted
      refine ⟨items', kept.resolved, kept.unique, ?_, ?_, order⟩
      · intro item member before listed same
        exact (kept.live item member).1 before listed same.symm
      · intro item member new
        exact (kept.live item member).2 fun old listed same =>
          new (List.mem_map.mpr ⟨old, listed, same⟩)
    · have empty := holds.resolve_left attached
      subst empty
      have same : candidate = ⟨script, .empty⟩ := (Except.ok.inj accepted).symm
      rw [same]
      refine ⟨items, formed.resolved, formed.unique, ?_, ?_, rfl⟩
      · intro item member before listed equal
        rw [List.inj_on_of_nodup_map formed.unique member listed equal]
        exact ⟨rfl, rfl⟩
      · intro item member new
        exact absurd (List.mem_map_of_mem member) new

private def quietRuntime : Runtime Unit where
  strOf := fun _ => ""
  equal := fun _ _ => true
  prepare := fun _ _ => some ⟨(), []⟩
  referencesOf := fun _ _ => some (.arr [])

private def filmedItem : Json := .obj [("segment_id", .str "E1S01"),
  ("generated_assets", .obj [("video_clip", .str "videos/E1S01.mp4")]),
  ("end_frame_image", .str "end_frames/E1S01.png")]

private def plainItem : Json := .obj [("segment_id", .str "E1S02"), ("generated_assets", .obj [])]

private def filmedScript : Json := .obj [("content_mode", .str "narration"),
  ("segments", .arr [filmedItem, plainItem])]

/-- The filmed item is removed and comes back behind the other one. -/
private def takeBack : List Operation :=
  [.remove "E1S01", .insertAfter (some "E1S02") [("segment_id", .str "E1S01")]]

private theorem filmedScript_formed : WellFormed filmedScript .segments [filmedItem, plainItem] where
  resolved := rfl
  identified := by
    intro item member
    cases List.mem_cons.mp member with
    | inl first => exact first ▸ ⟨rfl, _, rfl⟩
    | inr rest => exact List.mem_singleton.mp rest ▸ ⟨rfl, _, rfl⟩
  unique := by decide
  assets := by
    intro item member
    cases List.mem_cons.mp member with
    | inl first => rw [first]; rfl
    | inr rest => rw [List.mem_singleton.mp rest]; rfl

theorem taken_back_keeps_media : ∃ candidate,
    applyOperations quietRuntime .null filmedScript takeBack = .ok candidate ∧
      ((∃ items', resolveItems candidate.script = .ok (items', .segments) ∧
        MediaKept .segments [filmedItem, plainItem] takeBack items') ↔
          filmedScript.has Kind.segments.key = true ∨ takeBack = []) := by
  have accepted : (applyOperations quietRuntime .null filmedScript takeBack).isOk = true := by
    decide
  cases ran : applyOperations quietRuntime .null filmedScript takeBack with
  | error error => rw [ran] at accepted; cases accepted
  | ok candidate =>
    exact ⟨candidate, rfl, batch_keeps_media_iff quietRuntime .null filmedScript takeBack candidate
      .segments [filmedItem, plainItem] filmedScript_formed ran⟩

/-- A script without its list: the inserted item is accepted, and is nowhere. -/
theorem inserted_item_is_lost : ∃ script operations candidate,
    WellFormed script .segments [] ∧
      applyOperations quietRuntime .null script operations = .ok candidate ∧
      ¬∃ items', resolveItems candidate.script = .ok (items', .segments) ∧
        MediaKept .segments [] operations items' := by
  refine ⟨.obj [("content_mode", .str "narration")],
    [.insertAfter none [("segment_id", .str "E1S01")]], ⟨_, Dict.empty.erase "E1S01"⟩,
    ⟨rfl, fun _ member => (nomatch member), List.nodup_nil, fun _ member => nomatch member⟩, rfl, ?_⟩
  rintro ⟨items', resolved, keeps⟩
  have none_ : items' = [] := (Prod.mk.inj (Except.ok.inj resolved)).1.symm
  have order := keeps.order
  rw [none_] at order
  cases order

end ArcReel.Script
