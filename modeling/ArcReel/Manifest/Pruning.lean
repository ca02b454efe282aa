import ArcReel.Manifest.ScriptCommit
import ArcReel.Manifest.StoreRuns

/-! What the commit of a script replacement leaves of the claims of its episode, and when it raises. -/

namespace ArcReel.Manifest
open Lib Project

variable {p : Primitives} {codec : DocumentCodec}

section Statement

/-- The claim that the manifest has under a key. -/
def Entries.claim (entries : Entries) (key : ArtifactKey p) : Option ManifestEntry :=
  entries.get? key.wire

/-- Building a key of this kind from the id of the item gives the key. -/
def ArtifactKey.NamesItem (key : ArtifactKey p) (episode : Int) (resourceId : Str) : Prop :=
  key.kind.isEpisodeResource = true ∧
    ∃ variant, postInit p key.kind (.int episode :: .str resourceId :: variant) = .ok key.components

/-- An artifact of an item of the episode that is not among the final ones. -/
def Orphaned (r : ScriptReplacement) (key : ArtifactKey p) : Prop :=
  key.kind.isEpisodeResource = true ∧ key.episodeNumber = some r.episode ∧
    ∀ resourceId ∈ r.resourceIds, ¬key.NamesItem r.episode resourceId

/-- An orphan that is claimed at the preflight, or whose item is named as removed. -/
def SeenOrphan (r : ScriptReplacement) (prior : Entries) (key : ArtifactKey p) : Prop :=
  Orphaned r key ∧ (prior.claim key ≠ none ∨
    ∃ resourceId ∈ r.removedResourceIds, key.NamesItem r.episode resourceId)

/-- The claims that must not change between the preflight and the commit. -/
def Guarded (r : ScriptReplacement) (prior : Entries) (key : ArtifactKey p) : Prop :=
  (key.kind = .episodeScript ∧ key.episodeNumber = some r.episode) ∨ SeenOrphan r prior key ∨
    (key.kind = .episodeGrid ∧ key.episodeNumber = some r.episode ∧ prior.claim key ≠ none)

/-- What a completed commit makes of the claims, given what it registers for the script. -/
structure Pruned (r : ScriptReplacement) (prior : Entries) (script : Option ManifestEntry)
    (base left : ArtifactKey p → Option ManifestEntry) : Prop where
  orphans : ∀ key, key.Encodable → SeenOrphan r prior key → left key = none
  items : ∀ key, key.Encodable → (∃ resourceId ∈ r.resourceIds, key.NamesItem r.episode resourceId) →
    left key = base key
  others : ∀ key, key.Encodable → key.episodeNumber ≠ some r.episode → left key = base key
  grids : ∀ key, key.Encodable → key.kind = .episodeGrid → left key = base key ∨ left key = none
  script : ∀ key, key.Encodable → key.kind = .episodeScript → key.episodeNumber = some r.episode →
    left key = script

/-- What is registered for the script: the frozen entry, which names it, or what its target is. -/
def Registers (r : ScriptReplacement) (view : CommitView p) (script : Option ManifestEntry) : Prop :=
  match r.basis with
  | some basis => script = some ⟨r.artifactPath, basis.digest⟩
  | none => view.resolveScript = .ok script

end Statement

section Keys

variable {key : ArtifactKey p} {episode : Int} {resourceId : Str}

theorem postInit_item {kind : ArtifactKind} (item : kind.isEpisodeResource = true)
    {variant : List Value} {parts : List KeyPart}
    (built : postInit p kind (.int episode :: .str resourceId :: variant) = .ok parts) :
    (kind, variant) ∈ ArtifactKey.itemArtifacts ∧
      ∃ rest, parts = .number episode :: .text resourceId :: rest := by
  have resource (shape : kind.shape = .resource) :
      variant = [] ∧ parts = [.number episode, .text resourceId] := by
    unfold postInit at built
    rw [shape] at built
    cases variant with
    | nil =>
      dsimp only at built
      split at built
      · exact ⟨rfl, (Except.ok.inj built).symm⟩
      · cases built
    | cons _ _ => cases built
  have rendition (shape : kind.shape = .rendition) :
      ∃ name, (name = text "post_production" ∨ name = text "use_tts") ∧ variant = [.str name] ∧
        parts = [.number episode, .text resourceId, .text name] := by
    unfold postInit at built
    rw [shape] at built
    match variant with
    | [] => cases built
    | [named] =>
      dsimp only at built
      split at built
      · split at built
        · next known =>
          cases built
          rw [isVariant, Except.ok.injEq, Bool.or_eq_true, decide_eq_true_eq, decide_eq_true_eq] at known
          exact ⟨_, known, rfl, rfl⟩
        · cases built
        · cases built
      · cases built
    | _ :: _ :: _ => cases built
  cases kind with
  | episodeStoryboard =>
    obtain ⟨rfl, rfl⟩ := resource rfl
    exact ⟨by simp [ArtifactKey.itemArtifacts], [], rfl⟩
  | episodeVideo =>
    obtain ⟨rfl, rfl⟩ := resource rfl
    exact ⟨by simp [ArtifactKey.itemArtifacts], [], rfl⟩
  | episodeAudio =>
    obtain ⟨rfl, rfl⟩ := resource rfl
    exact ⟨by simp [ArtifactKey.itemArtifacts], [], rfl⟩
  | episodeSubtitle =>
    obtain ⟨name, known, rfl, rfl⟩ := rendition rfl
    exact ⟨by rcases known with rfl | rfl <;> simp [ArtifactKey.itemArtifacts], _, rfl⟩
  | episodePresentation =>
    obtain ⟨name, known, rfl, rfl⟩ := rendition rfl
    exact ⟨by rcases known with rfl | rfl <;> simp [ArtifactKey.itemArtifacts], _, rfl⟩
  | assetSheet => cases item
  | episodeStep1 => cases item
  | episodeScript => cases item
  | episodeGrid => cases item

theorem shape_item {kind : ArtifactKind} (item : kind.isEpisodeResource = true) :
    kind.shape = .resource ∨ kind.shape = .rendition := by
  cases kind <;> simp_all [ArtifactKind.isEpisodeResource, ArtifactKind.shape]

/-- A key of one item has its episode and its id. -/
theorem item_components (item : key.kind.isEpisodeResource = true) :
    ∃ episode resourceId rest, key.components = .number episode :: .text resourceId :: rest := by
  have built := key.canonical
  have shapes := shape_item item
  unfold postInit at built
  split at built
  · next shape _ =>
    rw [shape] at shapes
    simp at shapes
  · next shape _ =>
    rw [shape] at shapes
    simp at shapes
  · split at built
    · exact ⟨_, _, _, (Except.ok.inj built).symm⟩
    · cases built
  · split at built
    · split at built
      · exact ⟨_, _, _, (Except.ok.inj built).symm⟩
      · cases built
      · cases built
    · cases built
  · cases built

theorem episodeNumber_of (sheet : key.kind ≠ .assetSheet) {rest : List KeyPart}
    (parts : key.components = .number episode :: rest) : key.episodeNumber = some episode := by
  rw [ArtifactKey.episodeNumber, if_neg sheet, parts]

theorem episodeNumber_item (item : key.kind.isEpisodeResource = true) {rest : List KeyPart}
    (parts : key.components = .number episode :: .text resourceId :: rest) :
    key.episodeNumber = some episode ∧ key.resourceId = some resourceId := by
  have sheet : key.kind ≠ .assetSheet := by
    intro sheet
    rw [sheet] at item
    cases item
  refine ⟨episodeNumber_of sheet parts, ?_⟩
  rw [ArtifactKey.resourceId, parts]

/-- An episode has one script. -/
theorem eq_of_scripts {other : ArtifactKey p} (script : key.kind = .episodeScript)
    (script' : other.kind = .episodeScript) (same : key.episodeNumber = other.episodeNumber) :
    key = other := by
  have numbered (key : ArtifactKey p) (script : key.kind = .episodeScript) :
      ∃ episode, key.components = [.number episode] ∧ key.episodeNumber = some episode := by
    have built := key.canonical
    have sheet : key.kind ≠ .assetSheet := by simp [script]
    unfold postInit at built
    rw [script] at built
    split at built
    · next shape _ => cases shape
    · split at built
      · have parts := (Except.ok.inj built).symm
        exact ⟨_, parts, episodeNumber_of sheet parts⟩
      · cases built
    · next shape _ => cases shape
    · next shape _ => cases shape
    · cases built
  obtain ⟨episode, parts, number⟩ := numbered key script
  obtain ⟨episode', parts', number'⟩ := numbered other script'
  rw [number, number', Option.some.injEq] at same
  exact ArtifactKey.eq_of_parts (script.trans script'.symm) (by rw [parts, parts', same])

/-- The ids of the keys of items are not changed by building the key. -/
theorem namesItem_iff (item : key.kind.isEpisodeResource = true) :
    key.NamesItem episode resourceId ↔
      key.episodeNumber = some episode ∧ key.resourceId = some resourceId := by
  constructor
  · rintro ⟨-, variant, built⟩
    obtain ⟨-, rest, parts⟩ := postInit_item item built
    exact episodeNumber_item item parts
  · rintro ⟨number, named⟩
    obtain ⟨episode', resourceId', rest, parts⟩ := item_components item
    obtain ⟨number', named'⟩ := episodeNumber_item item parts
    rw [number', Option.some.injEq] at number
    rw [named', Option.some.injEq] at named
    subst number
    subst named
    refine ⟨item, rest.map KeyPart.value, ?_⟩
    have built := key.canonical
    rw [parts] at built ⊢
    exact built

/-- The keys of an item are exactly the artifacts that are enumerated for it. -/
theorem mem_episodeResourceArtifacts {keys : List (ArtifactKey p)}
    (made : ArtifactKey.episodeResourceArtifacts episode resourceId = .ok keys) :
    key ∈ keys ↔ key.NamesItem episode resourceId := by
  unfold ArtifactKey.episodeResourceArtifacts at made
  rw [mem_of_mapM_eq_ok made]
  constructor
  · rintro ⟨artifact, listed, built⟩
    obtain ⟨parts, kind⟩ := ArtifactKey.make_eq_ok_iff.mp built
    have item : artifact.1.isEpisodeResource = true :=
      (by decide : ∀ artifact ∈ ArtifactKey.itemArtifacts, artifact.1.isEpisodeResource = true)
        artifact listed
    rw [← kind] at item parts
    exact ⟨item, artifact.2, parts⟩
  · rintro ⟨item, variant, parts⟩
    exact ⟨(key.kind, variant), (postInit_item item parts).1,
      ArtifactKey.make_eq_ok_iff.mpr ⟨parts, rfl⟩⟩

theorem isOrphan_iff (r : ScriptReplacement) : r.isOrphan key = true ↔ Orphaned r key := by
  rw [ScriptReplacement.isOrphan, Bool.and_eq_true, Bool.and_eq_true, decide_eq_true_eq, and_assoc,
    and_left_comm, Orphaned]
  refine and_congr_right fun item => and_congr_right fun number => ?_
  simp only [namesItem_iff item, number, true_and]
  cases key.resourceId with
  | none => simp
  | some resourceId =>
    simp only [Option.all_some, decide_eq_true_eq, Option.some.injEq]
    exact ⟨fun absent other member same => absent (same ▸ member), fun all member => all _ member rfl⟩

end Keys

section Preflights

variable {r : ScriptReplacement} {prior : Entries} {preflight : ScriptPreflight p}

/-- What a preflight freezes. -/
structure Frozen (r : ScriptReplacement) (prior : Entries) (preflight : ScriptPreflight p) : Prop where
  script : preflight.scriptKey.kind = .episodeScript ∧
    preflight.scriptKey.episodeNumber = some r.episode
  orphaned : ∀ key ∈ preflight.orphanedKeys, Orphaned r key
  seen : ∀ key, key.Encodable → SeenOrphan r prior key → key ∈ preflight.orphanedKeys
  grids : ∀ key ∈ preflight.gridClaims.keys, r.isGrid key = true
  gridsSeen : ∀ key, key.Encodable → r.isGrid key = true → prior.claim key ≠ none →
    key ∈ preflight.gridClaims.keys
  expected : ∀ key, key.Encodable → key = preflight.scriptKey ∨ key ∈ preflight.orphanedKeys ∨
    key ∈ preflight.gridClaims.keys → preflight.expected.get? key = some (prior.claim key)
  frozenEntry : preflight.frozenEntry = r.basis.map fun basis => ⟨r.artifactPath, basis.digest⟩

/-- A snapshot has the claims of the manifest. -/
theorem snapshot_spec {file : File codec} (represents : Represents p file prior) {loaded : Entries}
    (load : load p file = .ok loaded) {snapshot : Claims p}
    (decoded : decodeEntries p loaded = .ok snapshot) (key : ArtifactKey p) (entry : ManifestEntry) :
    snapshot.get? key = some entry ↔ key.Encodable ∧ prior.claim key = some entry := by
  obtain ⟨again, reload, same⟩ := represents.load
  rw [load] at reload
  cases reload
  have valid := represents.1.congr fun key => (same key).symm
  obtain ⟨claims, decodes, spec⟩ := decodeEntries_valid valid
  rw [decoded] at decodes
  cases decodes
  rw [spec, same]
  rfl

theorem mem_removedIds {resourceId : Str} : resourceId ∈ r.removedIds ↔
    resourceId ∈ r.removedResourceIds ∧ resourceId ∉ r.resourceIds := by
  rw [ScriptReplacement.removedIds, (List.perm_insertionSort _ _).mem_iff, List.mem_dedup,
    List.mem_filter, decide_eq_true_eq]

theorem prepared_frozen {blocked : Str → Bool} {file : File codec} (represents : Represents p file prior)
    (prepared : prepareEpisodeScriptManifestCommit blocked file r = .ok preflight) :
    Frozen r prior preflight := by
  unfold prepareEpisodeScriptManifestCommit at prepared
  obtain ⟨positive, prepared⟩ := throwIf_eq_ok.mp prepared
  obtain ⟨filled, prepared⟩ := throwIf_eq_ok.mp prepared
  obtain ⟨loaded, load, prepared⟩ := bind_eq_ok.mp prepared
  obtain ⟨snapshot, decoded, prepared⟩ := bind_eq_ok.mp prepared
  obtain ⟨free, prepared⟩ := throwIf_eq_ok.mp prepared
  obtain ⟨scriptKey, script, prepared⟩ := bind_eq_ok.mp prepared
  obtain ⟨removed, removes, prepared⟩ := bind_eq_ok.mp prepared
  cases Except.ok.inj prepared
  have snapshots := snapshot_spec represents load decoded
  have claimed (key : ArtifactKey p) (encodable : key.Encodable) :
      snapshot.get? key = prior.claim key := by
    ext entry
    rw [snapshots]
    exact and_iff_right encodable
  have known (key : ArtifactKey p) (encodable : key.Encodable) :
      key ∈ snapshot.keys ↔ prior.claim key ≠ none := by
    rw [← claimed key encodable, Ne, Dict.get?_eq_none_iff, not_not]
  have removedKeys (key : ArtifactKey p) : key ∈ removed.flatten ↔
      ∃ resourceId ∈ r.removedIds, key.NamesItem r.episode resourceId := by
    rw [List.mem_flatten]
    constructor
    · rintro ⟨keys, listed, member⟩
      obtain ⟨resourceId, from_, made⟩ := (mem_of_mapM_eq_ok removes keys).mp listed
      exact ⟨resourceId, from_, (mem_episodeResourceArtifacts made).mp member⟩
    · rintro ⟨resourceId, from_, named⟩
      obtain ⟨keys, made⟩ := ok_of_mapM_eq_ok removes resourceId from_
      exact ⟨keys, (mem_of_mapM_eq_ok removes keys).mpr ⟨resourceId, from_, made⟩,
        (mem_episodeResourceArtifacts made).mpr named⟩
  constructor
  case script =>
    obtain ⟨parts, kind⟩ := ArtifactKey.make_eq_ok_iff.mp script
    have positive : 0 < r.episode := by omega
    change (if 0 < r.episode then Except.ok [KeyPart.number r.episode] else .error PyError.valueError) =
      _ at parts
    rw [if_pos positive] at parts
    exact ⟨kind, episodeNumber_of (by simp [kind]) (Except.ok.inj parts).symm⟩
  case orphaned =>
    intro key member
    rw [List.mem_eraseDups, List.mem_append, List.mem_filter, removedKeys] at member
    rcases member with ⟨-, orphan⟩ | ⟨resourceId, removed, named⟩
    · exact (isOrphan_iff r).mp orphan
    · obtain ⟨number, id⟩ := (namesItem_iff named.1).mp named
      refine ⟨named.1, number, fun other final same => ?_⟩
      rw [namesItem_iff named.1, id, Option.some.injEq] at same
      exact (mem_removedIds.mp removed).2 (same.2 ▸ final)
  case seen =>
    rintro key encodable ⟨orphan, claim | ⟨resourceId, removed, named⟩⟩
    · rw [List.mem_eraseDups, List.mem_append, List.mem_filter]
      exact .inl ⟨(known key encodable).mpr claim, (isOrphan_iff r).mpr orphan⟩
    · rw [List.mem_eraseDups, List.mem_append, removedKeys]
      refine .inr ⟨resourceId, mem_removedIds.mpr ⟨removed, fun final => ?_⟩, named⟩
      exact orphan.2.2 resourceId final named
  case grids =>
    intro key member
    obtain ⟨entry, found⟩ := (Dict.mem_keys_iff _ _).mp member
    rw [Dict.get?_filter, Option.filter_eq_some_iff] at found
    exact found.2
  case gridsSeen =>
    intro key encodable grid claim
    obtain ⟨entry, found⟩ := Option.ne_none_iff_exists'.mp claim
    refine (Dict.mem_keys_iff _ _).mpr ⟨entry, ?_⟩
    rw [Dict.get?_filter, Option.filter_eq_some_iff, claimed key encodable]
    exact ⟨found, grid⟩
  case expected =>
    intro key encodable member
    rw [Dict.get?_setAll]
    split
    · next grid =>
      obtain ⟨entry, found⟩ := (Dict.mem_keys_iff _ _).mp grid
      have stored := found
      rw [Dict.get?_filter, Option.filter_eq_some_iff, claimed key encodable] at stored
      rw [found, stored.1]
    · next other =>
      rw [Dict.get?_setAll, if_pos, claimed key encodable]
      rcases member with same | orphan | grid
      · exact same ▸ List.mem_cons_self
      · exact List.mem_cons_of_mem _ orphan
      · exact absurd grid other
  case frozenEntry => rfl

end Preflights

section Commits

variable {r : ScriptReplacement} {prior entries : Entries} {preflight : ScriptPreflight p}
variable {view : CommitView p} {file : File codec} {reads : ArtifactKey p → File codec}
variable {held : ArtifactKey p → Entries} {replacements changes : Changes p}

theorem claim_applyChanges (valid : ValidChanges changes) {key : ArtifactKey p}
    (encodable : key.Encodable) : (applyChanges entries (wireChanges changes)).claim key =
      (changes.get? key).getD (entries.claim key) := by
  cases found : changes.get? key with
  | some value =>
    have member := (Dict.get?_eq_some_iff _ _ _).mp found
    have wired : (key.wire, value) ∈ wireChanges changes :=
      List.mem_map.mpr ⟨(key, value), member, rfl⟩
    exact get?_applyChanges_of_mem (nodup_wireChanges valid) wired entries
  | none =>
    refine get?_applyChanges_of_not_mem (fun listed => ?_) entries
    obtain ⟨change, member, same⟩ := List.mem_map.mp listed
    obtain ⟨source, present, rfl⟩ := List.mem_map.mp member
    have named := ArtifactKey.wire_injective (valid source present).1 encodable same
    refine (Dict.get?_eq_none_iff _ _).mp found ?_
    exact named ▸ List.mem_map_of_mem present

theorem claim_of_matches (matched : matchesExpected entries (wireChanges changes) = true)
    {key : ArtifactKey p} {value : Option ManifestEntry} (found : changes.get? key = some value) :
    entries.claim key = value := by
  have member := (Dict.get?_eq_some_iff _ _ _).mp found
  exact matchesExpected_iff.mp matched (key.wire, value) (List.mem_map.mpr ⟨(key, value), member, rfl⟩)

theorem observe_spec (seen : ∀ key, Represents p (reads key) (held key))
    {keys : List (ArtifactKey p)} {observed : Changes p} (read : observe reads keys = .ok observed) :
    (∀ key ∈ keys, key.Encodable) ∧
      ∀ key, observed.get? key = if key ∈ keys then some ((held key).claim key) else none := by
  induction keys generalizing observed with
  | nil =>
    cases Except.ok.inj read
    exact ⟨fun _ never => absurd never List.not_mem_nil, fun _ => rfl⟩
  | cons first keys ih =>
    obtain ⟨found, got, rest⟩ := bind_eq_ok.mp read
    obtain ⟨later, reads', whole⟩ := bind_eq_ok.mp rest
    cases Except.ok.inj whole
    obtain ⟨encodable, same⟩ := getEntry_eq_ok (seen first) got
    obtain ⟨encodables, spec⟩ := ih reads'
    refine ⟨List.forall_mem_cons.mpr ⟨encodable, encodables⟩, fun key => ?_⟩
    rw [Dict.get?_set]
    by_cases here : key = first
    · rw [if_pos here, if_pos (here ▸ List.mem_cons_self), here, same]
      rfl
    · rw [if_neg here, spec]
      simp [here]

/-- The claims to drop are among the claims of the plan. -/
theorem planned_mem {resolve : ArtifactKey p → Except PyError (Option ManifestEntry)}
    {claims : List (ArtifactKey p × ManifestEntry)} {dropped : List (ArtifactKey p)}
    (planned : planArtifactClaimReconciliation resolve claims = .ok dropped) :
    ∀ key ∈ dropped, key ∈ claims.map Prod.fst := by
  induction claims generalizing dropped with
  | nil =>
    cases Except.ok.inj planned
    exact fun _ never => nomatch never
  | cons claim claims ih =>
    obtain ⟨target, -, rest⟩ := bind_eq_ok.mp planned
    obtain ⟨later, plans, whole⟩ := bind_eq_ok.mp rest
    intro key member
    rw [List.map_cons, List.mem_cons]
    split at whole
    · cases Except.ok.inj whole
      exact .inr (ih plans key member)
    · cases Except.ok.inj whole
      cases List.mem_cons.mp member with
      | inl same => exact .inl same
      | inr old => exact .inr (ih plans key old)

theorem scriptReplacements_spec (frozen : Frozen r prior preflight)
    (planned : scriptReplacements view preflight = .ok replacements) :
    ∃ (dropped : List (ArtifactKey p)) (script : Option ManifestEntry),
      (∀ key ∈ dropped, key ∈ preflight.gridClaims.keys) ∧ Registers r view script ∧ ∀ key,
        replacements.get? key = if key = preflight.scriptKey then some script
        else if key ∈ dropped ∨ key ∈ preflight.orphanedKeys then some none else none := by
  obtain ⟨dropped, grids, rest⟩ := bind_eq_ok.mp planned
  obtain ⟨script, registered, whole⟩ := bind_eq_ok.mp rest
  cases Except.ok.inj whole
  refine ⟨dropped, script, ?_, ?_, fun key => ?_⟩
  · unfold gridReplacements at grids
    split at grids
    · cases Except.ok.inj grids
      exact fun _ never => nomatch never
    · obtain ⟨planned, plans, checked⟩ := bind_eq_ok.mp grids
      obtain ⟨-, -, same⟩ := bind_eq_ok.mp checked
      cases Except.ok.inj same
      exact planned_mem plans
  · unfold Registers
    rw [frozen.frozenEntry] at registered
    cases basis : r.basis with
    | none =>
      rw [basis] at registered
      exact registered
    | some basis' =>
      rw [basis] at registered
      exact (Except.ok.inj registered).symm
  · rw [Dict.get?_set, Dict.get?_setAll, Dict.get?_setAll]
    by_cases first : key ∈ dropped <;> by_cases second : key ∈ preflight.orphanedKeys <;>
      simp [first, second]

/-- Replacing the claims of a preflight prunes exactly the orphans. -/
theorem pruned_of_replaced (frozen : Frozen r prior preflight) {dropped : List (ArtifactKey p)}
    {script : Option ManifestEntry}
    (grids : ∀ key : ArtifactKey p, key ∈ dropped → key ∈ preflight.gridClaims.keys)
    {replaced : ArtifactKey p → Option (Option ManifestEntry)}
    (replaces : ∀ key, replaced key = if key = preflight.scriptKey then some script
      else if key ∈ dropped ∨ key ∈ preflight.orphanedKeys then some none else none)
    {base left : ArtifactKey p → Option ManifestEntry}
    (leaves : ∀ key, key.Encodable → left key = (replaced key).getD (base key)) :
    Pruned r prior script base left := by
  have grid (key : ArtifactKey p) (member : key ∈ dropped) :
      key.kind = .episodeGrid ∧ key.episodeNumber = some r.episode := by
    have holds := frozen.grids key (grids key member)
    rwa [ScriptReplacement.isGrid, Bool.and_eq_true, decide_eq_true_eq, decide_eq_true_eq] at holds
  have item (key : ArtifactKey p) (item : key.kind.isEpisodeResource = true) :
      key ≠ preflight.scriptKey ∧ key ∉ dropped := by
    constructor
    · intro same
      rw [same, frozen.script.1] at item
      cases item
    · intro member
      rw [(grid key member).1] at item
      cases item
  constructor
  case orphans =>
    intro key encodable seen
    rw [leaves key encodable, replaces, if_neg (item key seen.1.1).1,
      if_pos (.inr (frozen.seen key encodable seen))]
    rfl
  case items =>
    rintro key encodable ⟨resourceId, final, named⟩
    have kept : ¬(key ∈ dropped ∨ key ∈ preflight.orphanedKeys) := by
      rintro (member | member)
      · exact (item key named.1).2 member
      · exact (frozen.orphaned key member).2.2 resourceId final named
    rw [leaves key encodable, replaces, if_neg (item key named.1).1, if_neg kept]
    rfl
  case others =>
    intro key encodable other
    have kept : ¬(key ∈ dropped ∨ key ∈ preflight.orphanedKeys) := by
      rintro (member | member)
      · exact other (grid key member).2
      · exact other (frozen.orphaned key member).2.1
    have apart : key ≠ preflight.scriptKey := fun same => other (same ▸ frozen.script.2)
    rw [leaves key encodable, replaces, if_neg apart, if_neg kept]
    rfl
  case grids =>
    intro key encodable kind
    have apart : key ≠ preflight.scriptKey := by
      intro same
      rw [same, frozen.script.1] at kind
      cases kind
    rw [leaves key encodable, replaces, if_neg apart]
    split
    · exact .inr rfl
    · exact .inl rfl
  case script =>
    intro key encodable kind number
    have same := eq_of_scripts kind frozen.script.1 (number.trans frozen.script.2.symm)
    rw [leaves key encodable, replaces, if_pos same]
    rfl

/-- The guarded claims are among those that the closure compares. -/
theorem expected_of_guarded (frozen : Frozen r prior preflight) {key : ArtifactKey p}
    (encodable : key.Encodable) (guarded : Guarded r prior key) :
    preflight.expected.get? key = some (prior.claim key) := by
  apply frozen.expected key encodable
  rcases guarded with ⟨script, number⟩ | seen | ⟨grid, number, claimed⟩
  · exact .inl (eq_of_scripts script frozen.script.1 (number.trans frozen.script.2.symm))
  · exact .inr (.inl (frozen.seen key encodable seen))
  · refine .inr (.inr (frozen.gridsSeen key encodable ?_ claimed))
    rw [ScriptReplacement.isGrid, decide_eq_true grid, decide_eq_true number, Bool.and_self]

/-- What the closure can do: it raises before its write, it finds nothing to replace, or its write
meets claims as it has read them. -/
inductive Ending (frozen : ArtifactKey p → Option (Option ManifestEntry)) (view : CommitView p)
    (held : ArtifactKey p → Entries) (fault rollback : Fault) (file : File codec)
    (replacements : Changes p) (result : Except Raised Bool × File codec) : Prop where
  | raised (e : Raised) (same : result = (.error e, file))
  | inactive (inactive : view.active = false) (same : result = (.ok false, file))
  | nothing (guard : ∀ key value, frozen key = some value → (held key).claim key = value)
      (replaced : ∀ key value, replacements.get? key = some value → (held key).claim key = value)
      (same : result = (.ok false, file))
  | wrote (observed : Changes p)
      (guard : ∀ key value, frozen key = some value → (held key).claim key = value)
      (covers : ∀ key, (frozen key).isSome = true ∨ (replacements.get? key).isSome = true →
        observed.get? key = some ((held key).claim key))
      (same : result = commit fault rollback file (replacingPlan observed replacements))

theorem register_ending (seen : ∀ key, Represents p (reads key) (held key))
    {script : ArtifactKey p} (named : (replacements.get? script).isSome = true)
    (expected : Changes p) (fault rollback : Fault) (file : File codec) :
    Ending expected.get? view held fault rollback file replacements
      (registerArtifactEntriesAtomically view reads fault rollback file replacements expected) := by
  unfold registerArtifactEntriesAtomically
  split
  · next idle =>
    refine .inactive (idle.resolve_left fun empty => ?_) rfl
    rw [Dict.get?, List.length_eq_zero_iff.mp empty] at named
    cases named
  · split
    · exact .raised _ rfl
    · next observed read =>
      obtain ⟨-, spec⟩ := observe_spec seen read
      have covers : ∀ key, (expected.get? key).isSome = true ∨ (replacements.get? key).isSome = true →
          observed.get? key = some ((held key).claim key) := by
        intro key either
        rw [spec, if_pos]
        rw [List.mem_append, Dict.mem_keys_iff, Dict.mem_keys_iff, ← Option.isSome_iff_exists,
          ← Option.isSome_iff_exists]
        exact either
      split
      · exact .raised _ rfl
      · split
        · exact .raised _ rfl
        · next passed =>
          have guard : ∀ key value, expected.get? key = some value → (held key).claim key = value := by
            intro key value found
            have same := fun change member => of_not_not fun differs => passed (List.any_eq_true.mpr
              ⟨change, member, decide_eq_true differs⟩)
            have observes := same (key, value) ((Dict.get?_eq_some_iff _ _ _).mp found)
            rw [covers key (.inl (by rw [found]; rfl)), Option.some.injEq] at observes
            exact observes
          split
          · next all =>
            refine .nothing guard (fun key value found => ?_) rfl
            have member := (Dict.get?_eq_some_iff _ _ _).mp found
            have observes := of_decide_eq_true (List.all_eq_true.mp all _ member)
            rw [covers key (.inr (by rw [found]; rfl)), Option.some.injEq] at observes
            exact observes
          · exact .wrote observed guard covers rfl

theorem commit_mismatch {plan : RekeyPlan p} (represents : Represents p file entries)
    (changed : plan.changed = true)
    (mismatch : matchesExpected entries (wireChanges plan.before) = false) (fault rollback : Fault) :
    ∃ e, commit fault rollback file plan = (.error e, file) := by
  by_cases valid : ValidChanges plan.before ∧ ValidChanges plan.after
  · rw [commit, if_pos changed]
    rcases replaceEntriesIfMatches_outcome fault represents valid.1 valid.2 with ⟨-, same⟩ | ⟨matched, -⟩
    · exact ⟨_, by rw [same]⟩
    · rw [mismatch] at matched
      cases matched
  · exact ⟨_, commit_invalid changed valid⟩

theorem commit_eq_true {plan : RekeyPlan p} (changed : plan.changed = true) {fault rollback : Fault}
    {value : Bool} (returned : (commit fault rollback file plan).1 = .ok value) : value = true := by
  rw [commit, if_pos changed] at returned
  split at returned
  · exact (Except.ok.inj returned).symm
  · cases returned
  · exact absurd returned (rollBack_raises _ value)

/-- What a plan of the closure leaves of each claim. -/
theorem claim_replaced {observed : Changes p} (valid : ValidChanges (replacingPlan observed replacements).after)
    (matched : matchesExpected entries (wireChanges observed) = true)
    (covers : ∀ key, (replacements.get? key).isSome = true → (observed.get? key).isSome = true)
    {key : ArtifactKey p} (encodable : key.Encodable) :
    (applyChanges entries (wireChanges (replacingPlan observed replacements).after)).claim key =
      (replacements.get? key).getD (entries.claim key) := by
  have planned : (replacingPlan observed replacements).after.get? key =
      (observed.get? key).map fun entry => (replacements.get? key).getD entry :=
    Dict.get?_mapValues _ observed key
  rw [claim_applyChanges valid encodable, planned]
  cases found : observed.get? key with
  | some entry => rw [claim_of_matches matched found, Option.map_some, Option.getD_some]
  | none =>
    have unnamed : replacements.get? key = none := by
      by_contra named
      have covered := covers key (Option.isSome_iff_ne_none.mpr named)
      rw [found] at covered
      cases covered
    rw [unnamed]
    rfl

/-- A completed closure prunes the claims that it has met. -/
theorem commitScript_pruned (frozen : Frozen r prior preflight)
    (seen : ∀ key, Represents p (reads key) (held key)) (met : Represents p file entries)
    {fault rollback : Fault} {value : Bool} {left : File codec}
    (ran : commitScript view reads fault rollback file preflight = (.ok value, left)) :
    (view.active = false ∧ left = file) ∨ ∃ script, Registers r view script ∧
      if value = true then
        ∃ after, Represents p left after ∧ Pruned (p := p) r prior script entries.claim after.claim
      else left = file ∧
        Pruned r prior script (fun key => (held key).claim key) fun key => (held key).claim key := by
  unfold commitScript at ran
  split at ran
  · cases ran
  · next replacements planned =>
    obtain ⟨dropped, script, grids, registers, spec⟩ := scriptReplacements_spec frozen planned
    have named : (replacements.get? preflight.scriptKey).isSome = true := by
      rw [spec, if_pos rfl]
      rfl
    have ending := @register_ending _ _ view reads held replacements seen _ named preflight.expected
      fault rollback file
    rw [ran] at ending
    cases ending with
    | raised e same => cases same
    | inactive inactive same =>
      cases same
      exact .inl ⟨inactive, rfl⟩
    | nothing guard replaced same =>
      cases same
      refine .inr ⟨script, registers, rfl, pruned_of_replaced frozen grids spec fun key _ => ?_⟩
      cases found : replacements.get? key with
      | none => rfl
      | some value => exact replaced key value found
    | wrote observed guard covers same =>
      have returned : (commit fault rollback file (replacingPlan observed replacements)).1 = .ok value := by
        rw [← same]
      refine .inr ⟨script, registers, ?_⟩
      rw [commit_eq_true rfl returned, if_pos rfl]
      obtain ⟨valid, matched, holds⟩ := commit_returned met rfl returned
      rw [← same] at holds
      refine ⟨_, holds, pruned_of_replaced frozen grids spec fun key encodable => ?_⟩
      refine claim_replaced valid.2 matched (fun key some_ => ?_) encodable
      rw [covers key (.inr some_)]
      rfl

/-- A guarded claim that has changed by the time it is read stops the closure before its write. -/
theorem commitScript_guarded (frozen : Frozen r prior preflight)
    (seen : ∀ key, Represents p (reads key) (held key)) {fault rollback : Fault}
    {key : ArtifactKey p} (encodable : key.Encodable) (guarded : Guarded r prior key)
    (changed : (held key).claim key ≠ prior.claim key) :
    view.active = false ∨ ∃ e, commitScript view reads fault rollback file preflight = (.error e, file) := by
  have expected := expected_of_guarded frozen encodable guarded
  unfold commitScript
  split
  · exact .inr ⟨_, rfl⟩
  · next replacements planned =>
    obtain ⟨dropped, script, grids, registers, spec⟩ := scriptReplacements_spec frozen planned
    have named : (replacements.get? preflight.scriptKey).isSome = true := by
      rw [spec, if_pos rfl]
      rfl
    have ending := @register_ending _ _ view reads held replacements seen _ named preflight.expected
      fault rollback file
    cases ending with
    | raised e same => exact .inr ⟨e, same⟩
    | inactive inactive same => exact .inl inactive
    | nothing guard replaced same => exact absurd (guard key _ expected) changed
    | wrote observed guard covers same => exact absurd (guard key _ expected) changed

/-- A guarded claim that has changed by the time of the write is met by no write. -/
theorem commitScript_unwritten (frozen : Frozen r prior preflight)
    (seen : ∀ key, Represents p (reads key) (held key)) (met : Represents p file entries)
    {fault rollback : Fault} {key : ArtifactKey p} (encodable : key.Encodable)
    (guarded : Guarded r prior key) (changed : entries.claim key ≠ prior.claim key) :
    (commitScript view reads fault rollback file preflight).2 = file ∧
      (commitScript view reads fault rollback file preflight).1 ≠ .ok true := by
  have expected := expected_of_guarded frozen encodable guarded
  unfold commitScript
  split
  · exact ⟨rfl, fun never => nomatch never⟩
  · next replacements planned =>
    obtain ⟨dropped, script, grids, registers, spec⟩ := scriptReplacements_spec frozen planned
    have named : (replacements.get? preflight.scriptKey).isSome = true := by
      rw [spec, if_pos rfl]
      rfl
    have ending := @register_ending _ _ view reads held replacements seen _ named preflight.expected
      fault rollback file
    cases ending with
    | raised e same => exact same ▸ ⟨rfl, fun never => nomatch never⟩
    | inactive inactive same => exact same ▸ ⟨rfl, fun never => nomatch never⟩
    | nothing guard replaced same => exact same ▸ ⟨rfl, fun never => nomatch never⟩
    | wrote observed guard covers same =>
      have read : observed.get? key = some (prior.claim key) := by
        rw [covers key (.inl (by rw [expected]; rfl)), guard key _ expected]
      have mismatch : matchesExpected entries (wireChanges observed) = false :=
        Bool.eq_false_iff.mpr fun matched => changed (claim_of_matches matched read)
      have refused : ∃ e, commit fault rollback _ (replacingPlan observed replacements) = (.error e, _) :=
        commit_mismatch met rfl mismatch fault rollback
      obtain ⟨e, raised⟩ := refused
      rw [same, raised]
      exact ⟨rfl, fun never => nomatch never⟩

end Commits

section Examples

/-- The script of episode 1 is replaced by one with the item `A`; its target is not provable. -/
private def oneItem : ScriptReplacement := ⟨1, text "scripts/episode_1.json", [[65]], [], none⟩

private def unprovable (active : Bool) : CommitView sample :=
  ⟨active, fun _ => true, fun _ => .ok none, .ok (), .ok none⟩

private noncomputable def noScript : Changes sample := Dict.empty.set scriptKey none

private theorem oneItem_prepared : ∃ preflight : ScriptPreflight sample,
    prepareEpisodeScriptManifestCommit (fun _ => false) (none : File sampleDocuments) oneItem =
      .ok preflight ∧ preflight.gridClaims = .empty ∧ preflight.orphanedKeys = [] ∧
        preflight.frozenEntry = none ∧ preflight.scriptKey = scriptKey ∧
          preflight.expected = noScript :=
  ⟨_, rfl, rfl, rfl, rfl, rfl, rfl⟩

private noncomputable def lateKey : ArtifactKey sample where
  kind := .episodeVideo
  components := [.number 1, .text [66]]
  canonical := rfl

private def lateEntry : ManifestEntry :=
  ⟨text "videos/B.mp4", text "sha256-v1:" ++ List.replicate 64 0x61⟩

private noncomputable def lateEntries : Entries := Dict.empty.set lateKey.wire lateEntry

private noncomputable def lateFile : File sampleDocuments :=
  some (sampleDocuments.document (manifestDocument lateEntries))

private theorem lateKey_encodable : lateKey.Encodable := by
  intro part member
  revert part
  decide +kernel

private theorem lateFile_represents : Represents sample lateFile lateEntries := by
  have fine : SoundChange sample (lateKey.wire, some lateEntry) := by
    refine ⟨⟨lateKey, lateKey_encodable, rfl⟩, fun other found => ?_⟩
    rw [← Option.some.inj found]
    decide
  have unique : uniquePaths sample lateEntries.values = true := by decide
  exact ⟨⟨sound_empty.applyChange fine, unique⟩, .inr rfl⟩

end Examples

end ArcReel.Manifest
