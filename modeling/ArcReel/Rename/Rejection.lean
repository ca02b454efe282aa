import Mathlib.Data.List.ReduceOption
import ArcReel.Rename.Asset
import ArcReel.Lib.Except
import ArcReel.Mention.Lines

/-! When a rename that raises has left the project as it was, and when a dry run tells what the
rename will do. -/

namespace ArcReel.Rename
open Lib PyText Mention Prompt

section Steps

variable {α : Type} {before middle after : Store → Prop} {good other : Prop}

/-- From a store with `before`, the step raises unless `good`, and otherwise leaves one with `after`. -/
structure Checked (before : Store → Prop) (step : Step) (good : Prop) (after : Store → Prop) : Prop where
  passes : ∀ store, before store → ((step store).2 = none ↔ good)
  keeps : ∀ store, before store → (step store).2 = none → after (step store).1

theorem runSteps_append (first rest : List Step) (store : Store) :
    runSteps (first ++ rest) store = match runSteps first store with
      | (done, none) => runSteps rest done
      | (done, some raised) => (done, some raised) := by
  induction first generalizing store with
  | nil => rfl
  | cons step first ih =>
    rw [List.cons_append, runSteps, runSteps]
    match step store with
    | (done, none) => exact ih done
    | (done, some raised) => rfl

theorem Checked.append {first rest : List Step} (front : Checked before (runSteps first) good middle)
    (back : Checked middle (runSteps rest) other after) :
    Checked before (runSteps (first ++ rest)) (good ∧ other) after := by
  constructor
  · intro store start
    rw [runSteps_append]
    have passes := front.passes store start
    have keeps := front.keeps store start
    match ran : runSteps first store with
    | (done, none) =>
      rw [ran] at passes keeps
      have holds : good := passes.mp rfl
      exact (back.passes done (keeps rfl)).trans ⟨fun rest => ⟨holds, rest⟩, And.right⟩
    | (done, some raised) =>
      rw [ran] at passes
      have fails : ¬good := fun holds => nomatch passes.mpr holds
      exact ⟨fun impossible => (nomatch impossible), fun both => absurd both.1 fails⟩
  · intro store start
    rw [runSteps_append]
    have keeps := front.keeps store start
    match ran : runSteps first store with
    | (done, none) =>
      rw [ran] at keeps
      exact back.keeps done (keeps rfl)
    | (done, some raised) => exact fun impossible => nomatch impossible

theorem Checked.nil : Checked before (runSteps []) True before :=
  ⟨fun _ _ => ⟨fun _ => trivial, fun _ => rfl⟩, fun _ start _ => start⟩

theorem runSteps_singleton (step : Step) (store : Store) : runSteps [step] store = step store := by
  rw [runSteps]
  match step store with
  | (done, none) => rfl
  | (done, some raised) => rfl

theorem Checked.singleton {step : Step} (checked : Checked before step good after) :
    Checked before (runSteps [step]) good after := by
  constructor
  · intro store start
    rw [runSteps_singleton]
    exact checked.passes store start
  · intro store start
    rw [runSteps_singleton]
    exact checked.keeps store start

theorem Checked.of_iff (checked : Checked before (runSteps []) good after) (same : good ↔ other) :
    Checked before (runSteps []) other after :=
  ⟨fun store start => (checked.passes store start).trans same, checked.keeps⟩

theorem Checked.map {body : α → Step} {fits : α → Prop} (items : List α)
    (each : ∀ item, Checked before (body item) (fits item) before) :
    Checked before (runSteps (items.map body)) (∀ item ∈ items, fits item) before := by
  induction items with
  | nil => exact Checked.nil.of_iff (by simp)
  | cons item items ih =>
    have both := (each item).singleton.append ih
    constructor
    · intro store start
      rw [List.forall_mem_cons]
      exact both.passes store start
    · intro store start
      exact both.keeps store start

/-- A step for a value that may be missing. -/
theorem Checked.optional {body : α → Step} {fits : α → Prop} (item : Option α)
    (weaker : ∀ store, before store → after store)
    (each : ∀ item, Checked before (body item) (fits item) after) :
    Checked before (runSteps (item.toList.map body)) (∀ one ∈ item, fits one) after := by
  cases item with
  | none =>
    exact ⟨fun _ _ => ⟨fun _ _ impossible => (nomatch impossible), fun _ => rfl⟩,
      fun store start _ => weaker store start⟩
  | some one =>
    have alone := (each one).singleton
    constructor
    · intro store start
      have passes := alone.passes store start
      simpa using passes
    · exact alone.keeps

end Steps

section Writes

variable (env : Env) (clock : String → String) (file : ManifestFile)

/-- The step never raises and leaves the manifest as it is. -/
theorem checked_of_ok {step : Step} (quiet : ∀ store, (step store).2 = none)
    (apart : ∀ store, (step store).1.manifest = store.manifest) :
    Checked (fun store => store.manifest = file) step True fun store => store.manifest = file :=
  ⟨fun store _ => ⟨fun _ => trivial, fun _ => quiet store⟩,
    fun store start _ => (apart store).trans start⟩

theorem checked_writeScript (script : ChangedScript) :
    Checked (fun store => store.manifest = file) (writeScript env clock script)
      (checkScript env script = .ok ()) fun store => store.manifest = file := by
  constructor
  · intro store _
    unfold writeScript
    cases checked : checkScript env script with
    | error raised => simp
    | ok done => simp
  · intro store start
    unfold writeScript
    cases checkScript env script with
    | error raised => exact fun impossible => nomatch impossible
    | ok done => exact fun _ => start

theorem checked_moveFile (source destination : PosixPath) :
    Checked (fun store => store.manifest = file) (moveFile source destination) True
      fun store => store.manifest = file := by
  apply checked_of_ok
  · intro store
    unfold moveFile
    cases store.files.get? source with
    | none => rfl
    | some bytes => rfl
  · intro store
    unfold moveFile
    cases store.files.get? source with
    | none => rfl
    | some bytes => rfl

theorem checked_writeProject (project : Json) :
    Checked (fun store => store.manifest = file) (writeProject clock project)
      ((touchMetadata (clock "project.json") project).isSome = true) fun store => store.manifest = file := by
  constructor
  · intro store _
    unfold writeProject
    cases touchMetadata (clock "project.json") project with
    | none => simp
    | some touched => simp
  · intro store start
    unfold writeProject
    cases touchMetadata (clock "project.json") project with
    | none => exact fun impossible => nomatch impossible
    | some touched => exact fun _ => start

theorem checked_commitManifest (old : Option Json) (rekey : RekeyPlan) :
    Checked (fun store => store.manifest = file) (commitManifest env old rekey)
      (∃ renamed, rekey.commit env.u env.casefold file = .ok renamed) fun _ => True := by
  constructor
  · intro store start
    unfold commitManifest
    rw [start]
    cases rekey.commit env.u env.casefold file with
    | error raised => simp
    | ok renamed => simp
  · intro store _ _
    trivial

/-- The writes of the plan do not raise. -/
structure Plan.Writable (plan : Plan) (file : ManifestFile) : Prop where
  scripts : ∀ script ∈ plan.scripts, checkScript env script = .ok ()
  project : ∀ project ∈ plan.project, (touchMetadata (clock "project.json") project).isSome = true
  rekey : ∀ rekey ∈ plan.rekey, ∃ renamed, rekey.commit env.u env.casefold file = .ok renamed

theorem runSteps_ok_iff (plan : Plan) (old : Option Json) (store : Store) :
    (runSteps (plan.steps env clock old) store).2 = none ↔
      plan.Writable env clock store.manifest := by
  have scripts := Checked.map plan.scripts (checked_writeScript env clock store.manifest)
  have drafts := Checked.map plan.drafts fun draft =>
    checked_of_ok store.manifest (fun _ => rfl : ∀ s, (writeDraft draft s).2 = none) fun _ => rfl
  have moves : Checked (fun now => now.manifest = store.manifest)
      (runSteps (plan.moves.map (moveAssetFile plan.type))) (∀ move ∈ plan.moves, True)
      (fun now => now.manifest = store.manifest) :=
    Checked.map plan.moves fun move => checked_moveFile store.manifest _ _
  have snapshots := Checked.map plan.history.moves fun move =>
    checked_moveFile store.manifest move.1 move.2
  have versions := Checked.map plan.history.versions.toList fun json =>
    checked_of_ok store.manifest (fun _ => rfl : ∀ s, (writeVersions json s).2 = none) fun _ => rfl
  have project := Checked.optional plan.project (fun _ start => start)
    (checked_writeProject clock store.manifest)
  have rekey := Checked.optional plan.rekey (fun _ _ => trivial)
    (checked_commitManifest env store.manifest old)
  have whole := (((((scripts.append drafts).append moves).append snapshots).append versions).append
    project).append rekey
  rw [Plan.steps, whole.passes store rfl]
  constructor
  · intro checks
    exact ⟨checks.1.1.1.1.1.1, checks.1.2, checks.2⟩
  · intro writable
    exact ⟨⟨⟨⟨⟨⟨writable.scripts, fun _ _ => trivial⟩, fun _ _ => trivial⟩, fun _ _ => trivial⟩,
      fun _ _ => trivial⟩, writable.project⟩, writable.rekey⟩

end Writes

section Claims

variable (u : Unicode) (casefold : String → String)

/-- What the file system takes a path for. -/
def pathIdentity (path : String) : String := casefold (normalizeAssetName u path)

theorem uniqueArtifactPaths_iff (manifest : Manifest) :
    uniqueArtifactPaths u casefold manifest = true ↔ ∀ key claim other taken,
      manifest.get? key = some claim → manifest.get? other = some taken →
      pathIdentity u casefold claim.artifactPath = pathIdentity u casefold taken.artifactPath →
      key = other := by
  rw [uniqueArtifactPaths, decide_eq_true_iff, Dict.nodup_map_values]
  rfl

/-- Rekeying one claim keeps the paths apart if no other claim has the path that this one gets. -/
theorem unique_rekeyed {manifest rekeyed : Manifest} {source target : ArtifactKey} {moved : Claim}
    (unique : uniqueArtifactPaths u casefold manifest = true)
    (fresh : target = source ∨ manifest.get? target = none)
    (found : ∀ key, rekeyed.get? key =
      if key = target then some moved else if key = source then none else manifest.get? key) :
    uniqueArtifactPaths u casefold rekeyed = true ↔ ∀ other taken, manifest.get? other = some taken →
      other ≠ source →
      pathIdentity u casefold taken.artifactPath ≠ pathIdentity u casefold moved.artifactPath := by
  rw [uniqueArtifactPaths_iff] at unique ⊢
  have untargeted : ∀ other taken, manifest.get? other = some taken → other ≠ source → other ≠ target := by
    intro other taken present apart same
    cases fresh with
    | inl itself => exact apart (same.trans itself)
    | inr absent => rw [same, absent] at present; cases present
  have kept : ∀ other taken, manifest.get? other = some taken → other ≠ source →
      rekeyed.get? other = some taken := by
    intro other taken present apart
    rw [found, if_neg (untargeted other taken present apart), if_neg apart, present]
  constructor
  · intro separated other taken present apart same
    have put : rekeyed.get? target = some moved := by rw [found, if_pos rfl]
    exact untargeted other taken present apart
      (separated other taken target moved (kept other taken present apart) put same)
  · intro apart key first other second present present' same
    rw [found] at present present'
    by_cases isTarget : key = target
    · rw [if_pos isTarget] at present
      by_cases isTarget' : other = target
      · rw [isTarget, isTarget']
      · rw [if_neg isTarget'] at present'
        by_cases isSource : other = source
        · rw [if_pos isSource] at present'
          cases present'
        · rw [if_neg isSource] at present'
          cases present
          exact absurd same.symm (apart other second present' isSource)
    · rw [if_neg isTarget] at present
      by_cases isSource : key = source
      · rw [if_pos isSource] at present
        cases present
      · rw [if_neg isSource] at present
        by_cases isTarget' : other = target
        · rw [if_pos isTarget'] at present'
          cases present'
          exact absurd same (apart key first present isSource)
        · rw [if_neg isTarget'] at present'
          by_cases isSource' : other = source
          · rw [if_pos isSource'] at present'
            cases present'
          · rw [if_neg isSource'] at present'
            exact unique key first other second present present' same

theorem normalizeArtifactPath_eq {value path : String}
    (canonical : normalizeArtifactPath casefold value = .ok path) : path = value := by
  simp only [normalizeArtifactPath] at canonical
  split at canonical
  · cases canonical
  · exact (Except.ok.inj canonical).symm

theorem canonicalRewrite_eq {rewrite canonical : Option (String × String)}
    (normalized : canonicalRewrite casefold rewrite = .ok canonical) : canonical = rewrite := by
  cases rewrite with
  | none => exact (Except.ok.inj normalized).symm
  | some pair =>
    obtain ⟨sheet, first, later⟩ := bind_eq_ok.mp normalized
    obtain ⟨renamed, second, both⟩ := bind_eq_ok.mp later
    rw [normalizeArtifactPath_eq casefold first, normalizeArtifactPath_eq casefold second] at both
    exact (Except.ok.inj both).symm

/-- What `plan_entry_rekey` plans. -/
inductive Planned (manifest : Manifest) (source target : ArtifactKey) (rewrite : Option (String × String)) :
    RekeyPlan → Prop where
  | unknown (absent : manifest.get? source = none) : Planned manifest source target rewrite .nothing
  | same (claim : Claim) (known : manifest.get? source = some claim) (itself : source = target)
      (stays : movedClaim rewrite claim = claim) : Planned manifest source target rewrite .nothing
  | moved (claim : Claim) (known : manifest.get? source = some claim) (itself : source = target)
      (moves : movedClaim rewrite claim ≠ claim) : Planned manifest source target rewrite
        ⟨[(source, some claim)], [(source, some (movedClaim rewrite claim))], true⟩
  | rekeyed (claim : Claim) (known : manifest.get? source = some claim) (apart : source ≠ target)
      (fresh : manifest.get? target = none) : Planned manifest source target rewrite
        ⟨[(source, some claim), (target, none)],
          [(source, none), (target, some (movedClaim rewrite claim))], true⟩

theorem planned_of_rekeyClaim {manifest : Manifest} {source target : ArtifactKey}
    {rewrite : Option (String × String)} {plan : RekeyPlan}
    (planned : rekeyClaim manifest source target rewrite = .ok plan) :
    Planned manifest source target rewrite plan := by
  unfold rekeyClaim at planned
  by_cases itself : source = target
  · rw [if_pos itself] at planned
    cases known : manifest.get? source with
    | none =>
      simp only [known] at planned
      cases planned
      exact .unknown known
    | some claim =>
      simp only [known] at planned
      by_cases stays : movedClaim rewrite claim = claim
      · rw [if_pos stays] at planned
        cases planned
        exact .same claim known itself stays
      · rw [if_neg stays] at planned
        cases planned
        exact .moved claim known itself stays
  · rw [if_neg itself] at planned
    cases fresh : manifest.get? target with
    | some taken =>
      simp only [fresh] at planned
      cases planned
    | none =>
      cases known : manifest.get? source with
      | none =>
        simp only [fresh, known] at planned
        cases planned
        exact .unknown known
      | some claim =>
        simp only [fresh, known] at planned
        cases planned
        exact .rekeyed claim known itself fresh

theorem planEntryRekey_eq_ok {file : ManifestFile} {source target : ArtifactKey}
    {rewrite : Option (String × String)} {plan : RekeyPlan}
    (planned : planEntryRekey u casefold file source target rewrite = .ok plan) :
    ∃ manifest, loadManifest u casefold file = .ok manifest ∧
      Planned manifest source target rewrite plan := by
  obtain ⟨canonical, normalized, rest⟩ := bind_eq_ok.mp planned
  obtain ⟨manifest, loaded, claims⟩ := bind_eq_ok.mp rest
  rw [canonicalRewrite_eq casefold normalized] at claims
  exact ⟨manifest, loaded, planned_of_rekeyClaim claims⟩

theorem unique_of_load {file : ManifestFile} {manifest : Manifest}
    (loaded : loadManifest u casefold file = .ok manifest) :
    uniqueArtifactPaths u casefold manifest = true := by
  cases file with
  | absent =>
    cases loaded
    rfl
  | unreadable => cases loaded
  | claims known =>
    simp only [loadManifest] at loaded
    by_cases unique : uniqueArtifactPaths u casefold known = true
    · rw [if_pos unique] at loaded
      cases loaded
      exact unique
    · rw [if_neg unique] at loaded
      cases loaded

theorem commit_ok_iff_unique {file : ManifestFile} {manifest : Manifest} {plan : RekeyPlan}
    (loaded : loadManifest u casefold file = .ok manifest) (changed : plan.changed = true)
    (matching : ∀ entry ∈ plan.before, manifest.get? entry.1 = entry.2)
    (differs : ∃ entry ∈ plan.after, manifest.get? entry.1 ≠ entry.2)
    (filled : (plan.rekey manifest).size ≠ 0) :
    (∃ renamed, plan.commit u casefold file = .ok renamed) ↔
      uniqueArtifactPaths u casefold (plan.rekey manifest) = true := by
  have matched : ¬(plan.before.any fun entry => decide (manifest.get? entry.1 ≠ entry.2)) = true := by
    rw [List.any_eq_true]
    intro mismatch
    obtain ⟨entry, member, apart⟩ := mismatch
    exact of_decide_eq_true apart (matching entry member)
  have moves : ¬(plan.after.all fun entry => decide (manifest.get? entry.1 = entry.2)) = true := by
    obtain ⟨entry, member, apart⟩ := differs
    rw [List.all_eq_true]
    exact fun same => apart (of_decide_eq_true (same entry member))
  have committed : plan.commit u casefold file =
      if !uniqueArtifactPaths u casefold (plan.rekey manifest) then .error .pathClaimedTwice
      else .ok (.claims (plan.rekey manifest)) := by
    rw [RekeyPlan.commit, if_pos changed, loaded]
    change (if _ then _ else _) = _
    rw [if_neg matched, if_neg filled, if_neg moves]
    rfl
  rw [committed]
  cases uniqueArtifactPaths u casefold (plan.rekey manifest) with
  | false => simp
  | true => simp

/-- A commit whose claim moves raises only if another claim has the path that it gets. -/
theorem moved_commit_ok_iff {file : ManifestFile} {manifest : Manifest} {source target : ArtifactKey}
    {moved : Claim} {plan : RekeyPlan} (loaded : loadManifest u casefold file = .ok manifest)
    (changed : plan.changed = true)
    (fresh : target = source ∨ manifest.get? target = none)
    (matching : ∀ entry ∈ plan.before, manifest.get? entry.1 = entry.2)
    (differs : ∃ entry ∈ plan.after, manifest.get? entry.1 ≠ entry.2)
    (found : ∀ key, (plan.rekey manifest).get? key =
      if key = target then some moved else if key = source then none else manifest.get? key) :
    (∃ renamed, plan.commit u casefold file = .ok renamed) ↔
      ∀ other taken, manifest.get? other = some taken → other ≠ source →
        pathIdentity u casefold taken.artifactPath ≠ pathIdentity u casefold moved.artifactPath := by
  have filled : (plan.rekey manifest).size ≠ 0 := by
    intro empty
    have put : (plan.rekey manifest).get? target = some moved := by rw [found, if_pos rfl]
    rw [Dict.get?, List.eq_nil_of_length_eq_zero empty] at put
    cases put
  rw [commit_ok_iff_unique u casefold loaded changed matching differs filled]
  exact unique_rekeyed u casefold (unique_of_load u casefold loaded) fresh found

/-- A planned commit raises only if another claim has the path that the claim of the asset gets. -/
theorem commit_ok_iff {file : ManifestFile} {manifest : Manifest} {source target : ArtifactKey}
    {rewrite : Option (String × String)} {plan : RekeyPlan}
    (loaded : loadManifest u casefold file = .ok manifest)
    (planned : Planned manifest source target rewrite plan) :
    (∃ renamed, plan.commit u casefold file = .ok renamed) ↔
      ∀ claim other taken, manifest.get? source = some claim → manifest.get? other = some taken →
        other ≠ source → pathIdentity u casefold taken.artifactPath ≠
          pathIdentity u casefold (movedPath rewrite claim.artifactPath) := by
  have alone {claim : Claim} (known : manifest.get? source = some claim) :
      (∀ other taken, manifest.get? other = some taken → other ≠ source →
        pathIdentity u casefold taken.artifactPath ≠
          pathIdentity u casefold (movedClaim rewrite claim).artifactPath) ↔
      ∀ claim other taken, manifest.get? source = some claim → manifest.get? other = some taken →
        other ≠ source → pathIdentity u casefold taken.artifactPath ≠
          pathIdentity u casefold (movedPath rewrite claim.artifactPath) := by
    constructor
    · intro apart claim' other taken known' present different
      rw [known] at known'
      cases known'
      exact apart other taken present different
    · intro apart other taken present different
      exact apart claim other taken known present different
  have nothing : ∃ renamed, RekeyPlan.commit u casefold .nothing file = .ok renamed := ⟨file, rfl⟩
  cases planned with
  | unknown absent =>
    refine ⟨fun _ claim other taken known => ?_, fun _ => nothing⟩
    rw [absent] at known
    cases known
  | same claim known itself stays =>
    refine ⟨fun _ claim' other taken known' present different same => ?_, fun _ => nothing⟩
    rw [known] at known'
    cases known'
    have path : movedPath rewrite claim.artifactPath = claim.artifactPath := congrArg Claim.artifactPath stays
    rw [path] at same
    have unique := (uniqueArtifactPaths_iff u casefold manifest).mp (unique_of_load u casefold loaded)
    exact different (unique _ _ _ _ present known same)
  | moved claim known itself moves =>
    rw [← alone known]
    apply moved_commit_ok_iff u casefold loaded rfl (.inl itself.symm)
    · intro entry member
      rw [List.mem_singleton.mp member, known]
    · refine ⟨_, List.mem_singleton.mpr rfl, ?_⟩
      rw [known]
      exact fun same => moves (Option.some.inj same).symm
    · intro key
      rw [RekeyPlan.rekey, List.foldl_cons, List.foldl_nil, putClaim, Dict.get?_set, ← itself]
      split <;> rfl
  | rekeyed claim known apart fresh =>
    rw [← alone known]
    apply moved_commit_ok_iff u casefold loaded rfl (.inr fresh)
    · intro entry member
      cases List.mem_pair.mp member with
      | inl first => rw [first, known]
      | inr second => rw [second, fresh]
    · refine ⟨_, List.mem_cons_self, ?_⟩
      rw [known]
      exact Option.some_ne_none claim
    · intro key
      rw [RekeyPlan.rekey, List.foldl_cons, List.foldl_cons, List.foldl_nil, putClaim, putClaim,
        Dict.get?_set, Dict.get?_erase]

end Claims

section Scan

variable (env : Env) (type : AssetType) (oldKey newName : String)

/-- A script refers to the asset: what the scan reads and what it writes there. -/
structure Refers (scripts : Dict String (Option Json)) (script : ChangedScript) : Prop where
  read : ∃ raw, scripts.get? script.filename = some (some raw) ∧
    migrateScriptUnitDurations raw = script.before
  rewrites : rewritten env type oldKey newName script.before = some (script.after, script.changes)
  changes : script.changes ≠ 0

theorem scanScript_eq_some {filename : String} {json : Option Json} {script : ChangedScript} :
    scanScript env type oldKey newName filename json = .ok (some script) ↔
      ∃ raw, json = some raw ∧ script.filename = filename ∧ migrateScriptUnitDurations raw = script.before ∧
        rewritten env type oldKey newName script.before = some (script.after, script.changes) ∧
        script.changes ≠ 0 := by
  cases json with
  | none => simp [scanScript]
  | some raw =>
    cases found : rewritten env type oldKey newName (migrateScriptUnitDurations raw) with
    | none =>
      simp only [scanScript, found]
      constructor
      · intro impossible
        cases impossible
      · intro refers
        obtain ⟨raw', same, _, migrated, rewrites, _⟩ := refers
        cases same
        rw [← migrated, found] at rewrites
        cases rewrites
    | some pair =>
      simp only [scanScript, found]
      by_cases zero : pair.2 = 0
      · rw [if_pos zero]
        constructor
        · intro impossible
          cases impossible
        · intro refers
          obtain ⟨raw', same, _, migrated, rewrites, changes⟩ := refers
          cases same
          rw [← migrated, found] at rewrites
          exact absurd (by rw [Option.some.inj rewrites] at zero; exact zero) changes
      · rw [if_neg zero]
        constructor
        · intro same
          cases same
          exact ⟨raw, rfl, rfl, rfl, found, zero⟩
        · intro refers
          obtain ⟨raw', same, named, migrated, rewrites, _⟩ := refers
          cases same
          rw [← migrated, found] at rewrites
          cases script
          cases named
          cases migrated
          cases rewrites
          rfl

theorem forall₂_mem {α β : Type} {related : α → β → Prop} {first : List α} {second : List β}
    (pairs : List.Forall₂ related first second) :
    (∀ a ∈ first, ∃ b ∈ second, related a b) ∧ ∀ b ∈ second, ∃ a ∈ first, related a b := by
  induction pairs with
  | nil => simp
  | cons here rest ih =>
    simp only [List.mem_cons, forall_eq_or_imp, exists_eq_or_imp]
    exact ⟨⟨.inl here, fun a member => .inr (ih.1 a member)⟩, ⟨.inl here, fun b member => .inr (ih.2 b member)⟩⟩

theorem mem_scanScripts {scripts : Dict String (Option Json)} {found : List ChangedScript}
    (scanned : scanScripts env type oldKey newName scripts = .ok found) (script : ChangedScript) :
    script ∈ found ↔ Refers env type oldKey newName scripts script := by
  obtain ⟨results, each, reduced⟩ := bind_eq_ok.mp scanned
  have pairs := mapM_eq_ok.mp each
  cases reduced
  rw [List.reduceOption_mem_iff]
  constructor
  · intro member
    obtain ⟨filename, listed, read⟩ := (forall₂_mem pairs).2 _ member
    rw [scanScript_eq_some] at read
    obtain ⟨raw, present, named, migrated, rewrites, changes⟩ := read
    refine ⟨⟨raw, ?_, migrated⟩, rewrites, changes⟩
    rw [named]
    cases known : scripts.get? filename with
    | none => rw [known] at present; cases present
    | some json => rw [known] at present; exact congrArg some present
  · intro refers
    obtain ⟨raw, present, migrated⟩ := refers.read
    have listed : script.filename ∈ sortedNames scripts.keys := by
      rw [sortedNames, List.mem_insertionSort, Dict.mem_keys_iff]
      exact ⟨_, present⟩
    obtain ⟨result, member, read⟩ := (forall₂_mem pairs).1 _ listed
    rw [present] at read
    have expected := (scanScript_eq_some env type oldKey newName).mpr
      ⟨raw, rfl, rfl, migrated, refers.rewrites, refers.changes⟩
    rw [Option.getD_some, expected] at read
    rwa [← Except.ok.inj read] at member

end Scan

section Conditions

variable (env : Env) (call : Call) (store : Store)

/-- The writer of a script takes it: it has not become invalid, it is an object, and its number is
that of its file name. -/
def WriterAccepts (script : ChangedScript) : Prop :=
  (env.validStructure script.after = true ∨ env.validStructure script.before = false) ∧
    script.after.isObj = true ∧
    filenameEpisodeConsistent env.digitValue script.after script.filename = true

theorem checkScript_ok_iff (script : ChangedScript) :
    checkScript env script = .ok () ↔ WriterAccepts env script := by
  unfold checkScript WriterAccepts
  cases env.validStructure script.after <;> cases env.validStructure script.before <;>
    cases script.after.isObj <;>
    cases filenameEpisodeConsistent env.digitValue script.after script.filename <;> simp

def MetadataWritable (fields : List (String × Json)) : Prop :=
  ∀ value, fields.lookup "metadata" = some value → value.isObj = true

theorem touchMetadata_isSome_iff (now : String) (fields : List (String × Json)) :
    (touchMetadata now (.obj fields)).isSome = true ↔ MetadataWritable fields := by
  unfold touchMetadata MetadataWritable
  cases found : fields.lookup "metadata" with
  | none => simp [found]
  | some value => cases value <;> simp [found, Json.isObj]

theorem touchMetadata_mutated (now : String) (type : AssetType) (oldKey newName : String)
    (fields bucket : List (String × Json)) :
    (touchMetadata now (mutatedProject env type oldKey newName fields bucket)).isSome = true ↔
      MetadataWritable fields := by
  have apart : "metadata" ≠ type.bucketKey := by cases type <;> decide
  rw [mutatedProject, touchMetadata_isSome_iff, MetadataWritable, Dict.lookup_setEntries_of_ne _ apart]
  rfl

/-- No other claim of the manifest has the path that the claim of `source` gets. -/
def SheetUnclaimed (type : AssetType) (source : String) (renamed : String → String) : Prop :=
  ∀ manifest key claim other taken, loadManifest env.u env.casefold store.manifest = .ok manifest →
    assetSheetKey env.u type source = .ok key → manifest.get? key = some claim →
    manifest.get? other = some taken → other ≠ key →
    pathIdentity env.u env.casefold taken.artifactPath ≠
      pathIdentity env.u env.casefold (renamed claim.artifactPath)

theorem planned_commit_ok_iff {type : AssetType} {source target : String} {sheet renamed : Json}
    {plan : RekeyPlan}
    (planned : planManifestRekey env store.manifest type source target sheet renamed = .ok plan) :
    (∃ done, plan.commit env.u env.casefold store.manifest = .ok done) ↔
      SheetUnclaimed env store type source (movedPath (sheetRewrite sheet renamed)) := by
  obtain ⟨key, keyed, later⟩ := bind_eq_ok.mp planned
  obtain ⟨key', keyed', entry⟩ := bind_eq_ok.mp later
  obtain ⟨manifest, loaded, shape⟩ := planEntryRekey_eq_ok env.u env.casefold entry
  rw [commit_ok_iff env.u env.casefold loaded shape]
  constructor
  · intro apart manifest' other claim key'' taken loaded' named known present different
    rw [loaded] at loaded'
    rw [keyed] at named
    cases loaded'
    cases named
    exact apart claim key'' taken known present different
  · intro apart claim other taken known present different
    exact apart manifest key claim other taken loaded keyed known present different

/-- The scan refuses the call. -/
def Refused : Prop := ∃ raised, preflight env call store = .error raised

/-- Every write behind the scan of an asset that is there can be done. -/
structure RenameWritable (type : AssetType) (oldKey newName : String) (fields : List (String × Json))
    (keeps : Bool) : Prop where
  scripts : ∀ script, Refers env type oldKey newName store.scripts script → WriterAccepts env script
  metadata : MetadataWritable fields
  claims : keeps = true → ∀ bucket, (Json.obj fields).get type.bucketKey = .obj bucket →
    SheetUnclaimed env store type oldKey (movedPath
      (sheetRewrite (((Json.obj bucket).get oldKey).get type.sheetField)
        ((renamedEntry env type oldKey newName bucket).get type.sheetField)))

/-- The commit behind a rename that has already reached the project can be done. -/
def RecoveryWritable (type : AssetType) (completed : String) (fields : List (String × Json)) : Prop :=
  ∀ sheet, (((Json.obj fields).get type.bucketKey).get completed).get type.sheetField = .str sheet →
    SheetUnclaimed env store type (normalizeAssetName env.u call.oldName) fun path =>
      movedPath (sheetRewrite (.str path) (.str sheet)) path

/-- Every write of the call can be done. -/
def Writable : Prop :=
  ∀ type newName fields version, resolveAssetType call.table = some type →
    validateAssetName env.u call.newName = some newName → store.project = some (.obj fields) →
    parseProjectSchemaVersion (.obj fields) = some version →
    match resolveAssetKey env.u ((Json.obj fields).get type.bucketKey) call.oldName with
    | some oldKey => RenameWritable env store type oldKey newName fields (keepsManifest store version)
    | none => ∀ completed, resolveAssetKey env.u ((Json.obj fields).get type.bucketKey) newName = some completed →
        RecoveryWritable env call store type completed fields

theorem scan_writable {type : AssetType} {newName oldKey : String} {fields bucket : List (String × Json)}
    {version : Int} {keeps : Bool} {report : Report} {plan : Plan}
    (table : (Json.obj fields).get type.bucketKey = .obj bucket)
    (scanned : scan env call store type newName oldKey fields bucket version keeps = .ok (report, plan)) :
    plan.Writable env call.clock store.manifest ↔
      RenameWritable env store type oldKey newName fields keeps := by
  unfold scan at scanned
  cases taken : findProjectAssetName env.u (.obj fields) newName (type, oldKey) with
  | some other =>
    rw [taken] at scanned
    cases scanned
  | none =>
    rw [taken] at scanned
    obtain ⟨scripts, found, scanned⟩ := bind_eq_ok.mp scanned
    obtain ⟨moves, _, scanned⟩ := bind_eq_ok.mp scanned
    obtain ⟨history, _, scanned⟩ := bind_eq_ok.mp scanned
    simp only at scanned
    by_cases crowded : 6 ≤ version ∧ (!assetNamespaceUnique env.u
        (mutatedProject env type oldKey newName fields bucket)) = true
    · rw [if_pos crowded] at scanned
      cases scanned
    rw [if_neg crowded] at scanned
    split at scanned
    · cases scanned
    obtain ⟨rekey, planned, scanned⟩ := bind_eq_ok.mp scanned
    cases scanned
    have claims : (∀ one ∈ rekey, ∃ done, one.commit env.u env.casefold store.manifest = .ok done) ↔
        (keeps = true → SheetUnclaimed env store type oldKey (movedPath
          (sheetRewrite (((Json.obj bucket).get oldKey).get type.sheetField)
            ((renamedEntry env type oldKey newName bucket).get type.sheetField)))) := by
      cases keeps with
      | false =>
        cases planned
        simp
      | true =>
        rw [planSheetRekey, if_pos rfl] at planned
        cases shape : planManifestRekey env store.manifest type oldKey newName
            (((Json.obj bucket).get oldKey).get type.sheetField)
            ((renamedEntry env type oldKey newName bucket).get type.sheetField) with
        | error raised =>
          rw [shape] at planned
          cases planned
        | ok one =>
          rw [shape] at planned
          cases planned
          simpa using planned_commit_ok_iff env store shape
    constructor
    · intro writable
      constructor
      · intro script refers
        rw [← checkScript_ok_iff]
        exact writable.scripts script ((mem_scanScripts env type oldKey newName found script).mpr refers)
      · exact (touchMetadata_mutated env _ type oldKey newName fields bucket).mp (writable.project _ rfl)
      · intro kept bucket' table'
        rw [table] at table'
        cases table'
        exact claims.mp writable.rekey kept
    · intro writable
      constructor
      · intro script member
        rw [checkScript_ok_iff]
        exact writable.scripts script ((mem_scanScripts env type oldKey newName found script).mp member)
      · intro project only
        cases only
        exact (touchMetadata_mutated env _ type oldKey newName fields bucket).mpr writable.metadata
      · exact claims.mpr fun kept => writable.claims kept bucket table

theorem recovery_writable {type : AssetType} {completed : String} {fields : List (String × Json)}
    {keeps : Bool} {report : Report} {plan : Plan}
    (recovered : recovery env call store type ((Json.obj fields).get type.bucketKey) completed keeps =
      .ok (report, plan)) :
    plan.Writable env call.clock store.manifest ↔ RecoveryWritable env call store type completed fields := by
  unfold recovery at recovered
  cases keeps with
  | false => cases recovered
  | true =>
    obtain ⟨source, keyed, recovered⟩ := bind_eq_ok.mp recovered
    obtain ⟨manifest, loaded, recovered⟩ := bind_eq_ok.mp recovered
    split at recovered
    · rename_i claim sheet known named
      by_cases empty : sheet = ""
      · rw [if_pos empty] at recovered
        cases recovered
      rw [if_neg empty] at recovered
      obtain ⟨rekey, planned, recovered⟩ := bind_eq_ok.mp recovered
      cases recovered
      have commits := planned_commit_ok_iff env store planned
      constructor
      · intro writable sheet' named' manifest' key claim' other taken loaded' keyed' known' present different
        rw [named] at named'
        rw [loaded] at loaded'
        rw [keyed] at keyed'
        cases named'
        cases loaded'
        cases keyed'
        rw [known] at known'
        cases known'
        exact commits.mp (writable.rekey rekey rfl) manifest source claim other taken loaded keyed known
          present different
      · intro writable
        refine ⟨fun _ impossible => (nomatch impossible), fun _ impossible => (nomatch impossible), ?_⟩
        intro one only
        cases only
        apply commits.mpr
        intro manifest' key claim' other taken loaded' keyed' known' present different
        have apart := writable sheet named manifest' key claim' other taken loaded' keyed' known' present different
        rw [loaded] at loaded'
        rw [keyed] at keyed'
        cases loaded'
        cases keyed'
        rw [known] at known'
        cases known'
        exact apart
    · cases recovered

theorem preflight_writable {report : Report} {plan : Plan}
    (admitted : preflight env call store = .ok (report, plan)) :
    plan.Writable env call.clock store.manifest ↔ Writable env call store := by
  unfold preflight at admitted
  split at admitted
  · cases admitted
  · cases admitted
  · cases admitted
  · rename_i type newName fields table named project
    have only : Writable env call store ↔ ∀ version, parseProjectSchemaVersion (.obj fields) = some version →
        match resolveAssetKey env.u ((Json.obj fields).get type.bucketKey) call.oldName with
        | some oldKey =>
          RenameWritable env store type oldKey newName fields (keepsManifest store version)
        | none => ∀ completed,
          resolveAssetKey env.u ((Json.obj fields).get type.bucketKey) newName = some completed →
            RecoveryWritable env call store type completed fields := by
      constructor
      · intro writable version parsed
        exact writable type newName fields version table named project parsed
      · intro writable type' newName' fields' version table' named' project' parsed
        rw [table] at table'
        rw [named] at named'
        rw [project] at project'
        cases table'
        cases named'
        cases project'
        exact writable version parsed
    rw [only]
    cases parsed : parseProjectSchemaVersion (.obj fields) with
    | none =>
      rw [parsed] at admitted
      cases admitted
    | some version =>
      simp only [parsed] at admitted
      by_cases newer : currentProjectSchemaVersion < version
      · rw [if_pos newer] at admitted
        cases admitted
      rw [if_neg newer] at admitted
      have fixed {goal : Int → Prop} : (∀ other, some version = some other → goal other) ↔ goal version :=
        ⟨fun all => all version rfl, fun holds other same => Option.some.inj same ▸ holds⟩
      rw [fixed]
      split at admitted
      · cases admitted
      · rename_i completed gone there
        rw [recovery_writable env call store admitted, gone]
        constructor
        · intro writable other same
          rw [there] at same
          cases same
          exact writable
        · intro writable
          exact writable completed there
      · rename_i oldKey bucket known table'
        rw [known]
        split at admitted
        · cases admitted
        · exact scan_writable env call store table' admitted
      · cases admitted
  · cases admitted

/-- A run that raises leaves the project as it was. -/
def RejectionChangesNothing : Prop :=
  ∀ raised, (renameAsset env call false store).2 = .error raised → (renameAsset env call false store).1 = store

/-- A dry run, at whatever time, that reports is followed by a run that does what it says. -/
def DryRunForetells : Prop :=
  ∀ clock report, (renameAsset env { call with clock := clock } true store).2 = .ok report →
    ∃ done, (renameAsset env call false (renameAsset env { call with clock := clock } true store).1).2 = .ok done ∧
      done.episodes = report.episodes ∧ done.references = report.references ∧ done.files = report.files

theorem renameAsset_of_refused {raised : RenameError} (refused : preflight env call store = .error raised)
    (dryRun : Bool) : renameAsset env call dryRun store = (store, .error raised) := by
  rw [renameAsset, refused]

theorem renameAsset_dry {report : Report} {plan : Plan}
    (admitted : preflight env call store = .ok (report, plan)) :
    renameAsset env call true store = (store, .ok report) := by
  rw [renameAsset, admitted]
  rfl

/-- The writes of an admitted run go through exactly when each of them can be done. -/
theorem renameAsset_ok_iff {report : Report} {plan : Plan}
    (admitted : preflight env call store = .ok (report, plan)) :
    (renameAsset env call false store).2 = .ok { report with dryRun := false } ↔ Writable env call store := by
  rw [← preflight_writable env call store admitted, ← runSteps_ok_iff env call.clock plan store.project store,
    renameAsset, admitted]
  match ran : runSteps (plan.steps env call.clock store.project) store with
  | (after, none) => simp [ran]
  | (after, some raised) => simp [ran]

end Conditions

section Misnumbered

/-- The second script has the number 3 in a file that is named after number 2. -/
private def misnumbered : Store where
  project := some (.obj [("schema_version", .int 8), ("props", .obj [("剑", .obj [])])])
  scripts := ⟨[("episode_1.json", some (.obj [("episode", .int 1),
      ("segments", .arr [.obj [("props", .arr [.str "剑"])]])])),
    ("episode_2.json", some (.obj [("episode", .int 3),
      ("segments", .arr [.obj [("props", .arr [.str "剑"])]])]))], by decide⟩
  drafts := .empty
  files := .empty
  versions := none
  manifest := .absent

/-- Both scripts lack required fields, so the structure check finds them invalid before and after. -/
private def laxEnv : Env where
  u := plainUnicode
  digit := Char.isDigit
  digitValue := fun c => if c.isDigit then some (c.toNat - '0'.toNat) else none
  casefold := id
  validateProject := fun _ => []
  validStructure := fun _ => false
  scriptTotals := fun _ => none

private def swordCall : Call := ⟨"props", "剑", "刀", fun _ => "now"⟩

private def firstProp (store : Store) : Option String :=
  match (store.scripts.get? "episode_1.json").getD none with
  | some script =>
    match script.get "segments" with
    | .arr (segment :: _) =>
      match segment.get "props" with
      | .arr (name :: _) => name.str?
      | _ => none
    | _ => none
  | none => none

end Misnumbered

end ArcReel.Rename
