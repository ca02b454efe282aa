import ArcReel.Migration.Sorting

/-! When a migration that was stopped anywhere ends the same once it is run again. -/

namespace ArcReel.Migration
open Lib Crash Prog

section Scripts

variable (dict : Dict String Kind)

abbrev Scripts := Finmap fun _ : String => Option Script

/-- What becomes of a script. -/
def scriptGoal (scripts : Scripts) (name : String) : Option (Option Script) :=
  (scripts.lookup name).map fun content => content.map fun script =>
    if fnmatch "*.json" name = true ∧ script.schemaVersion < 1 then migrateScript dict script else script

/-- Every script that is read is migrated. -/
def ScriptsDone (scripts : Scripts) : Prop :=
  ∀ name script, scripts.lookup name = some (some script) → fnmatch "*.json" name = true →
    1 ≤ script.schemaVersion

variable {dict}

theorem scriptGoal_of_done {scripts : Scripts} (done : ScriptsDone scripts) (name : String) :
    scriptGoal dict scripts name = scripts.lookup name := by
  rw [scriptGoal]
  cases content : scripts.lookup name with
  | none => rfl
  | some script =>
    cases script with
    | none => rfl
    | some script =>
      rw [Option.map_some, Option.map_some, if_neg]
      rintro ⟨json, old⟩
      have new := done name script content json
      omega

theorem scriptFile_cases (name : String) (t : Tree) :
    (migrateScriptFile dict name t = [] ∧ ∀ script, t.scripts.lookup name = some (some script) →
      1 ≤ script.schemaVersion) ∨
      ∃ script, t.scripts.lookup name = some (some script) ∧ script.schemaVersion < 1 ∧
        migrateScriptFile dict name t =
          [{ t with scripts := t.scripts.insert name (some (migrateScript dict script)) }] := by
  unfold migrateScriptFile reading
  cases content : t.scripts.lookup name with
  | none => exact .inl ⟨by simp only [content]; rfl, by simp⟩
  | some script =>
    cases script with
    | none => exact .inl ⟨by simp only [content]; rfl, by simp⟩
    | some script =>
      simp only [content]
      by_cases new : 1 ≤ script.schemaVersion
      · refine .inl ⟨by rw [if_pos new]; rfl, ?_⟩
        intro other same
        rw [Option.some.injEq, Option.some.injEq] at same
        rwa [← same]
      · exact .inr ⟨script, rfl, by omega, by rw [if_neg new]; rfl⟩

theorem scriptGoal_insert {scripts : Scripts} {name : String} {script : Script}
    (content : scripts.lookup name = some (some script)) (old : script.schemaVersion < 1)
    (json : fnmatch "*.json" name = true) :
    scriptGoal dict (scripts.insert name (some (migrateScript dict script))) =
      scriptGoal dict scripts := by
  funext other
  rw [scriptGoal, scriptGoal]
  by_cases same : other = name
  · have migrated : ¬(fnmatch "*.json" name = true ∧ (migrateScript dict script).schemaVersion < 1) :=
      fun both => lt_irrefl (1 : Int) both.2
    rw [same, Finmap.lookup_insert, content, Option.map_some, Option.map_some, Option.map_some,
      Option.map_some, if_neg migrated, if_pos ⟨json, old⟩]
  · rw [Finmap.lookup_insert_of_ne _ same]

theorem scripts_spec (names : List String) (json : ∀ name ∈ names, fnmatch "*.json" name = true)
    (t : Tree) :
    (∀ s ∈ each names (migrateScriptFile dict) t, ∃ scripts, s = { t with scripts := scripts } ∧
      scriptGoal dict scripts = scriptGoal dict t.scripts ∧ scripts.keys = t.scripts.keys) ∧
      ∃ scripts, (each names (migrateScriptFile dict)).final t = { t with scripts := scripts } ∧
        scriptGoal dict scripts = scriptGoal dict t.scripts ∧ scripts.keys = t.scripts.keys ∧
        (∀ name script, scripts.lookup name = some (some script) → script.schemaVersion < 1 →
          t.scripts.lookup name = some (some script)) ∧
        ∀ name ∈ names, ∀ script, scripts.lookup name = some (some script) →
          1 ≤ script.schemaVersion := by
  induction names generalizing t with
  | nil =>
    refine ⟨?_, t.scripts, rfl, rfl, rfl, fun _ _ same _ => same, by simp⟩
    intro s none
    cases none
  | cons first names ih =>
    have later : ∀ name ∈ names, fnmatch "*.json" name = true := fun name member =>
      json name (List.mem_cons_of_mem _ member)
    rw [final_each_cons]
    rcases @scriptFile_cases dict first t with ⟨none, new⟩ | ⟨script, content, old, made⟩
    · obtain ⟨during, scripts, result, goal, keys, kept, done⟩ := ih later t
      rw [final_of_nil none]
      refine ⟨?_, scripts, result, goal, keys, kept, ?_⟩
      · intro s member
        rcases mem_seq.mp member with early | late
        · rw [none] at early
          cases early
        · rw [final_of_nil none] at late
          exact during s late
      · intro name member other found
        rcases List.mem_cons.mp member with same | inside
        · by_contra low
          have before := kept name other found (by omega)
          rw [same] at before
          exact low (new other before)
        · exact done name inside other found
    · have result : (migrateScriptFile dict first).final t =
          { t with scripts := t.scripts.insert first (some (migrateScript dict script)) } := by
        rw [final, made]
        rfl
      have goalHere := @scriptGoal_insert dict _ _ _ content old (json first List.mem_cons_self)
      have keysHere : (t.scripts.insert first (some (migrateScript dict script))).keys =
          t.scripts.keys := by
        ext name
        rw [Finmap.mem_keys, Finmap.mem_keys, Finmap.mem_insert]
        constructor
        · rintro (same | inside)
          · rw [same]
            exact Finmap.mem_of_lookup_eq_some content
          · exact inside
        · exact .inr
      have next := ih later { t with scripts := t.scripts.insert first (some (migrateScript dict script)) }
      obtain ⟨during, scripts, final, goal, keys, kept, done⟩ := next
      rw [result]
      refine ⟨?_, scripts, final, goal.trans goalHere, keys.trans keysHere, ?_, ?_⟩
      · intro s member
        rcases mem_seq.mp member with early | late
        · rw [made, List.mem_singleton] at early
          exact ⟨_, early, goalHere, keysHere⟩
        · rw [result] at late
          obtain ⟨part, same, partGoal, partKeys⟩ := during s late
          exact ⟨part, same, partGoal.trans goalHere, partKeys.trans keysHere⟩
      · intro name other found low
        have before := kept name other found low
        by_cases same : name = first
        · rw [same, Finmap.lookup_insert, Option.some.injEq, Option.some.injEq] at before
          rw [← before] at low
          exact absurd low (lt_irrefl (1 : Int))
        · rwa [Finmap.lookup_insert_of_ne _ same] at before
      · intro name member other found
        rcases List.mem_cons.mp member with same | inside
        · by_contra low
          have before := kept name other found (by omega)
          rw [same, Finmap.lookup_insert, Option.some.injEq, Option.some.injEq] at before
          rw [← before] at low
          exact low (le_refl (1 : Int))
        · exact done name inside other found

/-- The scripts are migrated one by one; nothing else changes. -/
theorem migrateScripts_spec (listing : Listing) (t : Tree) :
    (∀ s ∈ (migrateScripts listing dict).stops t, ∃ scripts, s = { t with scripts := scripts } ∧
      scriptGoal dict scripts = scriptGoal dict t.scripts) ∧
      ∃ scripts, (migrateScripts listing dict).final t = { t with scripts := scripts } ∧
        scriptGoal dict scripts = scriptGoal dict t.scripts ∧ ScriptsDone scripts := by
  obtain ⟨during, scripts, result, goal, keys, kept, done⟩ := @scripts_spec dict
    ((listing.scripts t.scripts).filter (fnmatch "*.json"))
    (fun name member => (List.mem_filter.mp member).2) t
  refine ⟨?_, scripts, result, goal, ?_⟩
  · intro s member
    rcases List.mem_cons.mp member with same | later
    · exact ⟨t.scripts, same, rfl⟩
    · obtain ⟨part, same, partGoal, _⟩ := during s later
      exact ⟨part, same, partGoal⟩
  · intro name script found json
    apply done name _ script found
    rw [List.mem_filter, listing.mem_scripts, ← Finmap.mem_keys, ← keys, Finmap.mem_keys]
    exact ⟨Finmap.mem_of_lookup_eq_some found, json⟩

/-- Two ways to migrate the scripts of trees that lead to the same end the same. -/
theorem migrateScripts_again {listing other : Listing} {s t : Tree} {scripts : Scripts}
    (same : s = { t with scripts := scripts })
    (goal : scriptGoal dict scripts = scriptGoal dict t.scripts) :
    (migrateScripts other dict).final s = (migrateScripts listing dict).final t := by
  obtain ⟨_, first, firstEnd, firstGoal, firstDone⟩ := @migrateScripts_spec dict listing t
  obtain ⟨_, second, secondEnd, secondGoal, secondDone⟩ := @migrateScripts_spec dict other s
  have equal : second = first := by
    apply Finmap.ext_lookup
    intro name
    rw [← @scriptGoal_of_done dict _ secondDone, ← @scriptGoal_of_done dict _ firstDone,
      secondGoal, firstGoal, same, goal]
  rw [firstEnd, secondEnd, equal, same]

theorem migrateScripts_idle {listing : Listing} {t : Tree} (done : ScriptsDone t.scripts) :
    (migrateScripts listing dict).final t = t := by
  obtain ⟨_, scripts, result, goal, scriptsDone⟩ := @migrateScripts_spec dict listing t
  have equal : scripts = t.scripts := by
    apply Finmap.ext_lookup
    intro name
    rw [← @scriptGoal_of_done dict _ scriptsDone, goal, scriptGoal_of_done done]
  rw [result, equal]

end Scripts

section Relocation

variable {listing other : Listing} {dict : Dict String Kind} {t : Tree}

theorem relocate_gone (gone : t.images.source = none) : relocateClueFiles listing dict t = [] := by
  change (if t.images.source.isSome = true then _ else (skip : Prog Tree)) t = []
  rw [if_neg (by simp [gone])]
  rfl

theorem relocate_there (there : t.images.source.isSome = true) : relocateClueFiles listing dict t =
    ((Prog.within Tree.images (fun t part => { t with images := part }) (relocateImages dict)).seq
      (.within Tree.versions (fun t part => { t with versions := part })
        (relocateVersions listing dict))) t := by
  change (if t.images.source.isSome = true then _ else (skip : Prog Tree)) t = _
  rw [if_pos there]

theorem final_relocate (there : t.images.source.isSome = true) :
    (relocateClueFiles listing dict).final t =
      { t with images := (relocateImages dict).final t.images
               versions := (relocateVersions listing dict).final t.versions } := by
  rw [final, relocate_there there]
  change Prog.final (Prog.seq _ _) t = _
  rw [final_seq, final_within _ _ rfl, final_within _ _ rfl]

theorem stops_relocate {s : Tree} (there : t.images.source.isSome = true)
    (stop : s ∈ (relocateClueFiles listing dict).stops t) :
    (∃ images ∈ (relocateImages dict).stops t.images, s = { t with images := images }) ∨
      ∃ versions ∈ (relocateVersions listing dict).stops t.versions,
        s = { t with images := (relocateImages dict).final t.images, versions := versions } := by
  rw [stops, relocate_there there] at stop
  rcases stops_seq.mp stop with early | late
  · exact .inl ((stops_within rfl).mp early)
  · rw [final_within _ _ rfl] at late
    exact .inr ((stops_within rfl).mp late)

/-- Whatever is sorted already stays as it is. -/
theorem relocateImages_idle {s : Sorting} (there : s.source.isSome = true)
    (done : s.Done (takes dict.entries acceptsImage) everyKind) : (relocateImages dict).final s = s := by
  have again := relocateImages_spec dict s there
  exact eq_of_done again.2.2 done again.2.1

theorem relocate_relocated (there : t.images.source.isSome = true) :
    (relocateClueFiles other dict).final ((relocateClueFiles listing dict).final t) =
      (relocateClueFiles listing dict).final t := by
  have first := @final_relocate listing dict t there
  have images := (relocateImages_spec dict t.images there).2.2
  by_cases still : ((relocateImages dict).final t.images).source.isSome = true
  · rw [first, final_relocate still, relocateImages_idle still images,
      relocateVersions_again (final_mem_stops _ _)]
  · rw [first]
    exact final_of_nil (relocate_gone (by simpa using still))

end Relocation

section Condition

/-- The files of the directory all belong to clues, so that sorting them empties it. -/
def Emptied (t : Tree) : Prop :=
  ∃ dir, t.images.source = some dir ∧
    ∀ name ∈ dir, ∃ clue ∈ (oldClues t.project).keys, name ∈ imageNames clue

/-- The clues have nothing to sort in a directory of versions, and its targets exist. -/
def Unclaimed (clues : Dict String Kind) (s : Sorting) (dir : Dir) : Prop :=
  (∀ name ∈ dir, ∀ clue ∈ clues.keys, fnmatch (clue ++ "*") name = false) ∧
    ∀ clue ∈ clues.entries, (s.target clue.2).isSome = true

/-- Either the directory of the images survives or there is nothing to do for the versions; and if
the project has no clues but the directory has files, none of its files and versions belongs to a
scene or prop of the project. -/
structure Resumable (t : Tree) : Prop where
  emptied : Emptied t → ∀ dir, t.versions.source = some dir →
    dir ≠ ∅ ∧ Unclaimed (oldClues t.project) t.versions dir
  clueless : t.project.clues.entries = [] → ∀ dir, t.images.source = some dir → dir ≠ ∅ →
    (∀ name ∈ dir, ∀ clue ∈ (reconstructOldCluesFromV1 t.project).keys, name ∉ imageNames clue) ∧
      ∀ versions, t.versions.source = some versions → versions ≠ ∅ →
        Unclaimed (reconstructOldCluesFromV1 t.project) t.versions versions

theorem found_isSome {s : Sorting} {dir : Dir} (source : s.source = some dir) (name : String) :
    (s.found name).isSome = true ↔ name ∈ dir := by
  rw [Sorting.found, source, Option.bind_some, Finmap.lookup_isSome]

theorem takes_none_iff {clues : Dict String Kind} {accepts : String → String → Bool} {name : String} :
    takes clues.entries accepts name = none ↔ ∀ clue ∈ clues.keys, accepts clue name = false := by
  rw [takes_eq_none]
  simp [Dict.keys]

theorem done_iff_unclaimed {clues : Dict String Kind} {s : Sorting} {dir : Dir}
    (source : s.source = some dir) :
    s.Done (takes clues.entries acceptsVersion) (kindIn clues.entries) ↔
      dir ≠ ∅ ∧ Unclaimed clues s dir := by
  constructor
  · intro done
    refine ⟨fun same => done.filled (by rw [source, same]), ?_, ?_⟩
    · intro name member
      exact takes_none_iff.mp (done.unrouted name ((found_isSome source name).mpr member))
    · intro clue member
      exact done.folders clue.2 ⟨clue, member, rfl⟩
  · rintro ⟨filled, unclaimed, folders⟩
    refine ⟨?_, ?_, ?_⟩
    · intro name found
      exact takes_none_iff.mpr (unclaimed name ((found_isSome source name).mp found))
    · rw [source, Ne, Option.some.injEq]
      exact filled
    · rintro kind ⟨clue, member, same⟩
      rw [← same]
      exact folders clue member

/-- The directory of the images is gone at the end exactly when sorting empties it. -/
theorem gone_iff_emptied {t : Tree} (there : t.images.source.isSome = true) :
    ((relocateImages (oldClues t.project)).final t.images).source = none ↔ Emptied t := by
  have spec := relocateImages_spec (oldClues t.project) t.images there
  obtain ⟨dir, source⟩ := Option.isSome_iff_exists.mp there
  have found : ∀ name, ((relocateImages (oldClues t.project)).final t.images).found name =
      if takes (oldClues t.project).entries acceptsImage name = none then t.images.found name
      else none := by
    intro name
    rw [← left_of_done spec.2.2, spec.2.1]
    rfl
  constructor
  · intro gone
    refine ⟨dir, source, ?_⟩
    intro name member
    by_contra nobody
    have unrouted : takes (oldClues t.project).entries acceptsImage name = none := by
      rw [takes_none_iff]
      intro clue inside
      by_contra accepted
      exact nobody ⟨clue, inside, by simpa [acceptsImage] using accepted⟩
    have left := found name
    have present := (found_isSome source name).mpr member
    rw [if_pos unrouted, Sorting.found, gone] at left
    rw [← left] at present
    cases present
  · rintro ⟨_, same, every⟩
    rw [source, Option.some.injEq] at same
    by_contra still
    obtain ⟨name, left⟩ := exists_found spec.2.2.filled (by simpa [Option.isSome_iff_ne_none] using still)
    rw [found] at left
    split at left
    · next unrouted =>
      obtain ⟨clue, inside, image⟩ := every name (same ▸ (found_isSome source name).mp left)
      have refused := takes_none_iff.mp unrouted clue inside
      rw [acceptsImage, decide_eq_false_iff_not] at refused
      exact refused image
    · cases left

end Condition

section Reconstruction

theorem mem_foldl_set {names : List String} {kind : Kind} {start : Dict String Kind}
    {entry : String × Kind} (member : entry ∈ (names.foldl (fun old name => old.set name kind) start).entries) :
    entry ∈ start.entries ∨ (entry.1 ∈ names ∧ entry.2 = kind) := by
  induction names generalizing start with
  | nil => exact .inl member
  | cons first names ih =>
    rw [List.foldl_cons] at member
    rcases ih member with old | ⟨inside, same⟩
    · rcases (Dict.mem_entries_set start first kind entry).mp old with new | ⟨kept, _⟩
      · rw [new]
        exact .inr ⟨List.mem_cons_self, rfl⟩
      · exact .inl kept
    · exact .inr ⟨List.mem_cons_of_mem _ inside, same⟩

theorem mem_splitClues {clues : Dict String Clue} {name : String} {kind : Kind}
    {itemOf : String → Clue → Item}
    (member : name ∈ ((clues.filter fun _ clue => clue.kind = kind).mapValues itemOf).keys) :
    (name, kind) ∈ (clues.mapValues fun _ clue => clue.kind).entries := by
  simp only [Dict.keys, Dict.mapValues, Dict.filter, List.map_map, List.mem_map, List.mem_filter,
    Function.comp_apply, decide_eq_true_eq] at member ⊢
  obtain ⟨entry, ⟨inside, same⟩, named⟩ := member
  exact ⟨entry, inside, by rw [← named, ← same]⟩

/-- The clues read back from the migrated project are clues of the project before. -/
theorem reconstruct_migrated {project : Project} (some : project.clues.entries ≠ [])
    {entry : String × Kind}
    (member : entry ∈ (reconstructOldCluesFromV1 (migrateProject project)).entries) :
    entry ∈ (oldClues project).entries := by
  have migrated : migrateProject project =
      { schemaVersion := 1, clues := .empty
        scenes := .some (.some (splitClues project.clues).1)
        props := .some (.some (splitClues project.clues).2) } := by
    rw [migrateProject, if_neg some]
  rw [reconstructOldCluesFromV1, migrated] at member
  rcases mem_foldl_set member with early | ⟨inside, same⟩
  · rcases mem_foldl_set early with none | ⟨inside, same⟩
    · cases none
    · have found := @mem_splitClues project.clues entry.1 .scene
        (fun _ clue => ⟨clue.description, movedSheet "scenes/" clue⟩) inside
      rw [← same] at found
      exact found
  · have found := @mem_splitClues project.clues entry.1 .prop
      (fun _ clue => ⟨clue.description, movedSheet "props/" clue⟩) inside
    rw [← same] at found
    exact found

theorem reconstruct_clueless {project : Project} (none : project.clues.entries = []) :
    reconstructOldCluesFromV1 (migrateProject project) = reconstructOldCluesFromV1 project := by
  have names : ∀ field : Option (Option (Dict String Item)),
      namesOf (some (field.getD (some .empty))) = namesOf field := by
    intro field
    cases field <;> rfl
  rw [reconstructOldCluesFromV1, reconstructOldCluesFromV1, migrateProject, if_pos none, names, names]

/-- What is sorted for some clues is sorted for fewer. -/
theorem done_of_fewer {clues fewer : Dict String Kind} {accepts : String → String → Bool}
    {needed narrow : Kind → Prop} (less : ∀ entry ∈ fewer.entries, entry ∈ clues.entries)
    (narrower : ∀ kind, narrow kind → needed kind) {s : Sorting}
    (done : s.Done (takes clues.entries accepts) needed) :
    s.Done (takes fewer.entries accepts) narrow :=
  ⟨fun name found => takes_eq_none.mpr fun clue member =>
      takes_eq_none.mp (done.unrouted name found) clue (less clue member),
    done.filled, fun kind need => done.folders kind (narrower kind need)⟩

end Reconstruction

section Migration

variable {listing other : Listing}

def commit (t : Tree) : Tree := { t with project := migrateProject t.project }

/-- The migration of a project that is not migrated yet. -/
def firstRun (listing : Listing) (dict : Dict String Kind) : Prog Tree :=
  (relocateClueFiles listing dict).seq ((migrateScripts listing dict).seq (.write commit))

theorem migrate_v0 {t : Tree} (v0 : t.project.schemaVersion < 1) :
    migrateV0ToV1 listing t = firstRun listing (oldClues t.project) t := by
  change (if 1 ≤ t.project.schemaVersion then _ else _ : Prog Tree) t = _
  rw [if_neg (by omega)]
  rfl

theorem final_v0 {t : Tree} (v0 : t.project.schemaVersion < 1) : (migrateV0ToV1 listing).final t =
    commit ((migrateScripts listing (oldClues t.project)).final
      ((relocateClueFiles listing (oldClues t.project)).final t)) := by
  rw [final, migrate_v0 v0]
  change (firstRun listing (oldClues t.project)).final t = _
  rw [firstRun, final_seq, final_seq, final_write]

/-- Where a first run may stop: among the files, among the scripts, or at the end. -/
theorem stops_v0 {s t : Tree} (v0 : t.project.schemaVersion < 1) :
    s ∈ (migrateV0ToV1 listing).stops t ↔
      s ∈ (relocateClueFiles listing (oldClues t.project)).stops t ∨
      s ∈ (migrateScripts listing (oldClues t.project)).stops
        ((relocateClueFiles listing (oldClues t.project)).final t) ∨
      s = (migrateV0ToV1 listing).final t := by
  rw [final_v0 v0, stops, migrate_v0 v0]
  change s ∈ (firstRun listing (oldClues t.project)).stops t ↔ _
  rw [firstRun, stops_seq, stops_seq]
  simp only [stops, write, List.mem_cons, List.not_mem_nil, or_false]
  constructor
  · rintro (files | scripts | ready | last)
    · exact .inl files
    · exact .inr (.inl scripts)
    · rw [ready]
      exact .inr (.inl (List.mem_cons.mp (final_mem_stops _ _)))
    · exact .inr (.inr last)
  · rintro (files | scripts | last)
    · exact .inl files
    · exact .inr (.inl scripts)
    · exact .inr (.inr (.inr last))

/-- Scripts do not matter for the files. -/
theorem relocate_scripts (dict : Dict String Kind) (t : Tree) (scripts : Scripts) :
    (relocateClueFiles listing dict).final { t with scripts := scripts } =
      { (relocateClueFiles listing dict).final t with scripts := scripts } := by
  cases source : t.images.source with
  | none =>
    rw [final_of_nil (@relocate_gone listing dict t source),
      final_of_nil (@relocate_gone listing dict { t with scripts := scripts } source)]
  | some dir =>
    have there : t.images.source.isSome = true := by rw [source]; rfl
    rw [@final_relocate listing dict t there,
      @final_relocate listing dict { t with scripts := scripts } there]

theorem project_relocate (dict : Dict String Kind) (t : Tree) :
    ((relocateClueFiles listing dict).final t).project = t.project := by
  cases source : t.images.source with
  | none => rw [final_of_nil (relocate_gone source)]
  | some dir => rw [final_relocate (by rw [source]; rfl)]

/-- Run again after a stop among the files: the files end as they would have. -/
def FilesEndTheSame (listing other : Listing) (t : Tree) : Prop :=
  ∀ s ∈ (relocateClueFiles listing (oldClues t.project)).stops t,
    s.project = t.project ∧ (relocateClueFiles other (oldClues t.project)).final s =
      (relocateClueFiles listing (oldClues t.project)).final t

theorem files_end_the_same {t : Tree}
    (settled : Emptied t → ∀ dir, t.versions.source = some dir →
      dir ≠ ∅ ∧ Unclaimed (oldClues t.project) t.versions dir) :
    FilesEndTheSame listing other t := by
  intro s stop
  cases source : t.images.source with
  | none =>
    have nothing := @relocate_gone listing (oldClues t.project) t source
    rw [Prog.stops, nothing, List.mem_singleton] at stop
    rw [stop, final_of_nil nothing, final_of_nil (relocate_gone source)]
    exact ⟨rfl, rfl⟩
  | some dir =>
    have there : t.images.source.isSome = true := by rw [source]; rfl
    -- once the directory of the images is gone the versions are not looked at again
    have idle : ((relocateImages (oldClues t.project)).final t.images).source = none →
        relocateVersions listing (oldClues t.project) t.versions = [] := by
      intro gone
      have condition := settled ((gone_iff_emptied there).mp gone)
      cases versions : t.versions.source with
      | none => exact relocateVersions_gone versions
      | some dir =>
        exact relocateVersions_idle ((done_iff_unclaimed versions).mpr (condition dir versions))
    rcases stops_relocate there stop with ⟨images, stopped, same⟩ | ⟨versions, stopped, same⟩
    · have again := relocateImages_again there stopped
      rw [same, @final_relocate listing _ t there]
      refine ⟨rfl, ?_⟩
      by_cases still : images.source.isSome = true
      · rw [@final_relocate other _ { t with images := images } still, again.1 still,
          @relocateVersions_again listing other _ t.versions t.versions List.mem_cons_self]
      · have gone : images.source = none := by simpa using still
        have last := again.2 gone
        rw [final_of_nil (@relocate_gone other _ { t with images := images } gone),
          final_of_nil (idle (by rw [← last]; exact gone)), last]
    · rw [same, @final_relocate listing _ t there]
      refine ⟨rfl, ?_⟩
      by_cases still : ((relocateImages (oldClues t.project)).final t.images).source.isSome = true
      · rw [@final_relocate other _ { t with
            images := (relocateImages (oldClues t.project)).final t.images, versions := versions } still,
          relocateImages_idle still (relocateImages_spec _ _ there).2.2,
          relocateVersions_again stopped]
      · have gone : ((relocateImages (oldClues t.project)).final t.images).source = none := by
          simpa using still
        have none := idle gone
        rw [Prog.stops, none, List.mem_singleton] at stopped
        rw [final_of_nil (@relocate_gone other _ { t with
            images := (relocateImages (oldClues t.project)).final t.images, versions := versions } gone),
          final_of_nil none, stopped]

/-- The tree at the end of a first run, and what it is at the files. -/
theorem final_parts {t : Tree} (v0 : t.project.schemaVersion < 1) :
    ((migrateV0ToV1 listing).final t).images =
        ((relocateClueFiles listing (oldClues t.project)).final t).images ∧
      ((migrateV0ToV1 listing).final t).versions =
        ((relocateClueFiles listing (oldClues t.project)).final t).versions ∧
      ScriptsDone ((migrateV0ToV1 listing).final t).scripts ∧
      ((migrateV0ToV1 listing).final t).project = migrateProject t.project := by
  obtain ⟨_, scripts, result, _, done⟩ := @migrateScripts_spec (oldClues t.project) listing
    ((relocateClueFiles listing (oldClues t.project)).final t)
  rw [final_v0 v0, result]
  refine ⟨rfl, rfl, done, ?_⟩
  change migrateProject ((relocateClueFiles listing (oldClues t.project)).final t).project = _
  rw [project_relocate]

/-- A stop before the end is made up for if the files are. -/
theorem first_run_again {t : Tree} (v0 : t.project.schemaVersion < 1)
    (files : FilesEndTheSame listing other t) {s : Tree}
    (stop : s ∈ (relocateClueFiles listing (oldClues t.project)).stops t ∨
      s ∈ (migrateScripts listing (oldClues t.project)).stops
        ((relocateClueFiles listing (oldClues t.project)).final t)) :
    (migrateV0ToV1 other).final s = (migrateV0ToV1 listing).final t := by
  rcases stop with among | among
  · obtain ⟨project, same⟩ := files s among
    rw [final_v0 v0, final_v0 (by rw [project]; exact v0), project, same,
      @migrateScripts_again _ listing other _ _ _ rfl rfl]
  · obtain ⟨scripts, same, goal⟩ := (@migrateScripts_spec (oldClues t.project) listing _).1 s among
    have project : s.project = t.project := by
      rw [same]
      exact project_relocate _ t
    have idle : (relocateClueFiles other (oldClues t.project)).final
        ((relocateClueFiles listing (oldClues t.project)).final t) =
          (relocateClueFiles listing (oldClues t.project)).final t := by
      cases source : t.images.source with
      | none =>
        rw [final_of_nil (@relocate_gone listing (oldClues t.project) t source)]
        exact final_of_nil (relocate_gone source)
      | some dir => exact relocate_relocated (by rw [source]; rfl)
    rw [final_v0 v0, final_v0 (by rw [project]; exact v0), project, same, relocate_scripts, idle,
      @migrateScripts_again _ listing other _ _ _ rfl goal]

/-- A migrated project whose image directory still has files is looked through again. -/
theorem migrate_v1 {t : Tree} (v1 : 1 ≤ t.project.schemaVersion) :
    migrateV0ToV1 listing t = (match t.images.source with
      | some source => if source.keys = ∅ then skip
        else (relocateClueFiles listing (reconstructOldCluesFromV1 t.project)).seq
          (migrateScripts listing (reconstructOldCluesFromV1 t.project))
      | none => skip : Prog Tree) t := by
  change (if 1 ≤ t.project.schemaVersion then _ else _ : Prog Tree) t = _
  exact congrFun (if_pos v1) t

theorem keys_eq_empty {dir : Dir} : dir.keys = ∅ ↔ dir = ∅ := by
  constructor
  · intro none
    apply Finmap.ext_lookup
    intro name
    rw [Finmap.lookup_empty, Finmap.lookup_eq_none, ← Finmap.mem_keys, none]
    simp
  · intro same
    rw [same]
    rfl

/-- Running a complete migration again. -/
theorem again_iff {t : Tree} (v1 : 1 ≤ t.project.schemaVersion) (scripts : ScriptsDone t.scripts) :
    (migrateV0ToV1 other).final t = t ↔ ∀ dir, t.images.source = some dir → dir ≠ ∅ →
      t.images.Done (takes (reconstructOldCluesFromV1 t.project).entries acceptsImage) everyKind ∧
      ∀ versions, t.versions.source = some versions →
        t.versions.Done (takes (reconstructOldCluesFromV1 t.project).entries acceptsVersion)
          (kindIn (reconstructOldCluesFromV1 t.project).entries) := by
  rw [final, migrate_v1 v1]
  cases source : t.images.source with
  | none =>
    refine iff_of_true rfl ?_
    intro dir same
    cases same
  | some dir =>
    by_cases empty : dir.keys = ∅
    · dsimp only
      rw [if_pos empty]
      refine iff_of_true rfl ?_
      intro same equal filled
      rw [Option.some.injEq] at equal
      exact absurd (keys_eq_empty.mp empty) (equal ▸ filled)
    · dsimp only
      rw [if_neg empty]
      have there : t.images.source.isSome = true := by rw [source]; rfl
      change Prog.final (Prog.seq _ _) t = t ↔ _
      rw [final_seq, final_relocate there]
      have images := relocateImages_spec (reconstructOldCluesFromV1 t.project) t.images there
      have scriptsSame := @migrateScripts_idle (reconstructOldCluesFromV1 t.project) other
        { t with images := (relocateImages (reconstructOldCluesFromV1 t.project)).final t.images
                 versions := (relocateVersions other (reconstructOldCluesFromV1 t.project)).final
                   t.versions } scripts
      rw [scriptsSame]
      constructor
      · intro same _ _ _
        have sameImages := congrArg Tree.images same
        have sameVersions := congrArg Tree.versions same
        dsimp only at sameImages sameVersions
        refine ⟨sameImages ▸ images.2.2, ?_⟩
        intro versions inside
        have spec := relocateVersions_spec other (reconstructOldCluesFromV1 t.project) t.versions
          (by rw [inside]; rfl)
        exact sameVersions ▸ spec.2.2
      · intro condition
        obtain ⟨imagesDone, versionsDone⟩ := condition dir rfl fun same => empty (keys_eq_empty.mpr same)
        have sameVersions : (relocateVersions other (reconstructOldCluesFromV1 t.project)).final
            t.versions = t.versions := by
          cases versions : t.versions.source with
          | none => exact final_of_nil (relocateVersions_gone versions)
          | some inside => exact final_of_nil (relocateVersions_idle (versionsDone inside versions))
        rw [relocateImages_idle there imagesDone, sameVersions]

theorem oldClues_clueless {project : Project} (none : project.clues.entries = []) :
    (oldClues project).entries = [] := by
  change project.clues.entries.map (fun entry => (entry.1, entry.2.kind)) = []
  rw [none]
  rfl

/-- Without clues the images stay where they are. -/
theorem found_clueless {t : Tree} (none : t.project.clues.entries = [])
    (there : t.images.source.isSome = true) (name : String) :
    ((relocateImages (oldClues t.project)).final t.images).found name = t.images.found name := by
  have spec := relocateImages_spec (oldClues t.project) t.images there
  have unrouted : takes (oldClues t.project).entries acceptsImage name = .none := by
    rw [oldClues_clueless none]
    rfl
  have left := left_of_done spec.2.2 name
  rw [spec.2.1] at left
  rw [← left]
  change (if takes (oldClues t.project).entries acceptsImage name = .none then _ else _) = _
  rw [if_pos unrouted]

theorem versions_clueless {t : Tree} (none : t.project.clues.entries = []) {dir : Dir}
    (source : t.versions.source = some dir) (filled : dir ≠ ∅) :
    (relocateVersions listing (oldClues t.project)).final t.versions = t.versions := by
  apply final_of_nil
  apply relocateVersions_idle
  rw [done_iff_unclaimed source, Unclaimed, Dict.keys, oldClues_clueless none]
  exact ⟨filled, by simp, by simp⟩

/-- The end of a first run is left alone by the next one, if the project has clues or none of its
files belongs to its scenes and props. -/
theorem complete_again_iff {t : Tree} (v0 : t.project.schemaVersion < 1) :
    (migrateV0ToV1 other).final ((migrateV0ToV1 listing).final t) = (migrateV0ToV1 listing).final t ↔
      (t.project.clues.entries = [] → ∀ dir, t.images.source = some dir → dir ≠ ∅ →
        (∀ name ∈ dir, ∀ clue ∈ (reconstructOldCluesFromV1 t.project).keys, name ∉ imageNames clue) ∧
          ∀ versions, t.versions.source = some versions → versions ≠ ∅ →
            Unclaimed (reconstructOldCluesFromV1 t.project) t.versions versions) := by
  obtain ⟨images, versions, scripts, project⟩ := @final_parts listing t v0
  rw [again_iff (by rw [project, migrateProject]; split <;> exact le_refl (1 : Int)) scripts, project,
    images, versions]
  cases source : t.images.source with
  | none =>
    rw [final_of_nil (relocate_gone source), source]
    refine iff_of_true ?_ ?_
    · intro dir same
      cases same
    · intro _ dir same
      cases same
  | some dir =>
    have there : t.images.source.isSome = true := by rw [source]; rfl
    have spec := relocateImages_spec (oldClues t.project) t.images there
    rw [final_relocate there]
    dsimp only
    by_cases none : t.project.clues.entries = []
    · rw [reconstruct_clueless none]
      constructor
      · intro condition _ other same filled
        rw [Option.some.injEq] at same
        rw [same] at source
        have found := found_clueless none there
        have still : ((relocateImages (oldClues t.project)).final t.images).source ≠ .none := by
          intro gone
          obtain ⟨_, equal, every⟩ := (gone_iff_emptied there).mp gone
          obtain ⟨name, inside⟩ := exists_found (s := t.images)
            (by rw [source, Ne, Option.some.injEq]; exact filled) there
          rw [source, Option.some.injEq] at equal
          obtain ⟨clue, member, _⟩ := every name (equal ▸ (found_isSome source name).mp inside)
          rw [Dict.keys, oldClues_clueless none] at member
          cases member
        obtain ⟨rest, restSource⟩ := Option.ne_none_iff_exists'.mp still
        have done := condition rest restSource fun empty => spec.2.2.filled (by rw [restSource, empty])
        refine ⟨?_, ?_⟩
        · intro name member clue inside image
          have present : (((relocateImages (oldClues t.project)).final t.images).found name).isSome =
              true := by
            rw [found]
            exact (found_isSome source name).mpr member
          have refused := takes_none_iff.mp (done.1.unrouted name present) clue inside
          rw [acceptsImage, decide_eq_false_iff_not] at refused
          exact refused image
        · intro inside versionsSource versionsFilled
          have same := @versions_clueless listing t none _ versionsSource versionsFilled
          have versionsDone := done.2 inside (by rw [same]; exact versionsSource)
          rw [same] at versionsDone
          exact ((done_iff_unclaimed versionsSource).mp versionsDone).2
      · intro condition rest restSource _
        have found := found_clueless none there
        have filled : dir ≠ ∅ := by
          intro empty
          have done := spec.2.2
          obtain ⟨name, inside⟩ := exists_found done.filled (by rw [restSource]; rfl)
          rw [found, found_isSome source, empty] at inside
          exact Finmap.notMem_empty inside
        obtain ⟨unclaimed, versionsUnclaimed⟩ := condition none dir rfl filled
        refine ⟨⟨?_, spec.2.2.filled, spec.2.2.folders⟩, ?_⟩
        · intro name inside
          rw [found, found_isSome source] at inside
          rw [takes_none_iff]
          intro clue member
          rw [acceptsImage, decide_eq_false_iff_not]
          exact unclaimed name inside clue member
        · intro inside insideSource
          cases versionsSource : t.versions.source with
          | none =>
            rw [final_of_nil (relocateVersions_gone versionsSource), versionsSource] at insideSource
            cases insideSource
          | some before =>
            have versionsThere : t.versions.source.isSome = true := by rw [versionsSource]; rfl
            have versionsSpec := relocateVersions_spec listing (oldClues t.project) t.versions versionsThere
            have versionsFilled : before ≠ ∅ := by
              intro empty
              obtain ⟨name, present⟩ := exists_found versionsSpec.2.2.filled (by rw [insideSource]; rfl)
              have left := left_of_done versionsSpec.2.2 name
              rw [versionsSpec.2.1] at left
              rw [← left] at present
              change (if _ then t.versions.found name else .none : Option File).isSome = true at present
              split at present
              · rw [found_isSome versionsSource, empty] at present
                exact Finmap.notMem_empty present
              · cases present
            have same := @versions_clueless listing t none _ versionsSource versionsFilled
            rw [same] at insideSource ⊢
            rw [done_iff_unclaimed insideSource]
            rw [versionsSource, Option.some.injEq] at insideSource
            rw [← insideSource]
            exact ⟨versionsFilled, versionsUnclaimed before versionsSource versionsFilled⟩
    · refine iff_of_true ?_ fun empty => absurd empty none
      intro _ _ _
      refine ⟨done_of_fewer (fun entry => reconstruct_migrated none) (fun _ _ => trivial) spec.2.2, ?_⟩
      intro inside insideSource
      have versionsThere : t.versions.source.isSome = true := by
        by_contra gone
        rw [final_of_nil (relocateVersions_gone (by simpa using gone))] at insideSource
        rw [insideSource] at gone
        exact gone rfl
      apply done_of_fewer (fun entry => reconstruct_migrated none) _
        (relocateVersions_spec listing (oldClues t.project) t.versions versionsThere).2.2
      rintro kind ⟨clue, member, same⟩
      exact ⟨clue, reconstruct_migrated none member, same⟩

theorem resumable_of_again {t : Tree} (v0 : t.project.schemaVersion < 1)
    (again : ∀ s ∈ (migrateV0ToV1 listing).stops t,
      (migrateV0ToV1 other).final s = (migrateV0ToV1 listing).final t) : Resumable t := by
  refine ⟨?_, (complete_again_iff v0).mp (again _ (final_mem_stops _ _))⟩
  intro emptied dir source
  have there : t.images.source.isSome = true := by
    obtain ⟨images, imagesSource, _⟩ := emptied
    rw [imagesSource]
    rfl
  have gone := (gone_iff_emptied there).mpr emptied
  -- the stop right after the directory of the images is removed
  have stop : { t with images := (relocateImages (oldClues t.project)).final t.images } ∈
      (migrateV0ToV1 listing).stops t := by
    rw [stops_v0 v0]
    left
    rw [Prog.stops, relocate_there there]
    change _ ∈ Prog.stops (Prog.seq _ _) t
    rw [stops_seq]
    left
    rw [stops_within rfl]
    exact ⟨_, final_mem_stops _ _, rfl⟩
  have same := congrArg Tree.versions (again _ stop)
  rw [(@final_parts listing t v0).2.1, final_relocate there,
    (@final_parts other { t with images := (relocateImages (oldClues t.project)).final t.images } v0).2.1,
    final_of_nil (relocate_gone gone)] at same
  have spec := relocateVersions_spec listing (oldClues t.project) t.versions (by rw [source]; rfl)
  dsimp only at same
  rw [← done_iff_unclaimed source]
  exact same ▸ spec.2.2

theorem again_of_resumable {t : Tree} (v0 : t.project.schemaVersion < 1) (resumable : Resumable t) :
    ∀ s ∈ (migrateV0ToV1 listing).stops t,
      (migrateV0ToV1 other).final s = (migrateV0ToV1 listing).final t := by
  intro s stop
  rcases (stops_v0 v0).mp stop with files | scripts | last
  · exact first_run_again v0 (files_end_the_same resumable.emptied) (.inl files)
  · exact first_run_again v0 (files_end_the_same resumable.emptied) (.inr scripts)
  · rw [last]
    exact (complete_again_iff v0).mpr resumable.clueless

/-- A project of version 0 can be migrated again after a stop at any point, in whatever order the
files are listed, if and only if it is resumable. -/
theorem survives_every_stop_iff (listing other : Listing) (t : Tree)
    (v0 : t.project.schemaVersion < 1) :
    (∀ s ∈ (migrateV0ToV1 listing).stops t,
      (migrateV0ToV1 other).final s = (migrateV0ToV1 listing).final t) ↔ Resumable t :=
  ⟨resumable_of_again v0, again_of_resumable v0⟩

end Migration

section Inputs

private noncomputable def anyListing : Listing where
  files dir := dir.keys.toList
  mem_files dir name := by rw [Finset.mem_toList, Finmap.mem_keys]
  scripts dir := dir.keys.toList
  mem_scripts dir name := by rw [Finset.mem_toList, Finmap.mem_keys]

private def oneProp : Dict String Clue := ⟨[("ring", ⟨none, "", none⟩)], by decide⟩

/-- A project with one clue and its image; `versions` is its directory of versions. -/
private def oneClue (versions : Option Dir) : Tree where
  images := ⟨some (Finmap.singleton "ring.png" [1]), fun _ => none⟩
  versions := ⟨versions, fun _ => none⟩
  scripts := ∅
  project := ⟨0, oneProp, none, none⟩

private theorem resumable_oneClue : Resumable (oneClue none) := by
  refine ⟨?_, ?_⟩
  · intro _ dir source
    cases source
  · intro none
    cases none

theorem survives_every_stop_without_versions : (oneClue none).project.schemaVersion < 1 ∧
    ∀ s ∈ (migrateV0ToV1 anyListing).stops (oneClue none),
      (migrateV0ToV1 anyListing).final s = (migrateV0ToV1 anyListing).final (oneClue none) :=
  ⟨by decide, (survives_every_stop_iff anyListing anyListing (oneClue none) (by decide)).mpr
    resumable_oneClue⟩

/-- Stopped after the image directory is gone, the migration leaves the versions behind. -/
theorem versions_left_behind : ∃ (listing : Listing) (t : Tree), t.project.schemaVersion < 1 ∧
    ¬∀ s ∈ (migrateV0ToV1 listing).stops t,
      (migrateV0ToV1 listing).final s = (migrateV0ToV1 listing).final t := by
  refine ⟨anyListing, oneClue (some (Finmap.singleton "ring_v1.png" [2])), by decide, ?_⟩
  intro again
  have resumable := resumable_of_again (by decide) again
  have emptied : Emptied (oneClue (some (Finmap.singleton "ring_v1.png" [2]))) := by
    refine ⟨_, rfl, ?_⟩
    intro name member
    rw [Finmap.mem_singleton] at member
    exact ⟨"ring", by decide, by rw [member]; decide⟩
  have unclaimed := (resumable.emptied emptied _ rfl).2.1 "ring_v1.png"
    ((Finmap.mem_singleton _ _ _).mpr rfl) "ring" (by decide)
  revert unclaimed
  decide

end Inputs

end ArcReel.Migration
