import ArcReel.Episode.DerivedFiles

/-! `lib.workflow_state`: when the status of a project counts its planning as complete, and when
the planner has nothing left to plan. -/

namespace ArcReel.Episode
open ArcReel.Lib

def canonicalRel (rt : Runtime) (rel : String) : String := String.ofList (rt.nfc rel.toList)

/-- The files of `compute_source_revision` for all of `source/`. It is blocked if a candidate is
not a readable file of its own, or if two of them have one normal form. -/
def sourceRevisionFiles (rt : Runtime) (blocked : Bool) (sources : Sources) : List String :=
  let files := sources.docs.map fun doc => canonicalRel rt doc.relPath
  if blocked || !decide files.Nodup then [] else files

/-- `dict(recorded_fingerprints) == current_fingerprints`, where something is recorded. -/
def fingerprintsCurrent (rt : Runtime) (sources : Sources) (recorded : Option Json) : Bool :=
  match recorded with
  | some (.obj fields) =>
      let current := computeSourceFingerprints rt sources
      !fields.isEmpty && fields.length == current.length && current.all fun field =>
        (fields.lookup field.1).any fun value => value.str? == some field.2
  | _ => false

/-- The cursor stands in the last file of the revision, at the end of its text or after it. -/
def cursorAtEnd (rt : Runtime) (sources : Sources) (last : String) (cursor : Json) : Bool :=
  match (cursor.get "source_file").str?, (cursor.get "offset").int? with
  | some rel, some offset =>
      canonicalRel rt rel == last &&
        match sources.docs.filter fun doc => canonicalRel rt doc.relPath == last with
        | [doc] => decide ((doc.text.length : Int) ≤ offset)
        | _ => false
  | _, _ => false

/-- `WorkflowStateService._planning_complete`. -/
def planningComplete (rt : Runtime) (blocked : Bool) (sources : Sources) (project : Project) : Bool :=
  match (sourceRevisionFiles rt blocked sources).getLast? with
  | none => false
  | some last =>
      fingerprintsCurrent rt sources project.sourceFingerprints &&
        match project.planningCursor with
        | some cursor => cursor.isObj && cursorAtEnd rt sources last cursor
        | none => false

inductive WorkflowState where
  | episodePlan
  | exportReady
  deriving DecidableEq, Repr

inductive NextAction where
  | resetEpisodePlanning (fromEpisode : Int) (reason : String)
  | planEpisodes (reason : String)
  | export_ (reason : String)
  deriving DecidableEq, Repr

def planningAction (rt : Runtime) (project : Project) (reason : String) : NextAction :=
  if !(episodesWithoutSourceRange rt project).isEmpty then
    .resetEpisodePlanning 1 "episode ledger lacks source range records"
  else .planEpisodes reason

/-- The last branches of `_get_status`: every artifact of the episodes is usable. -/
def completionStatus (rt : Runtime) (blocked : Bool) (sources : Sources) (project : Project) :
    WorkflowState × NextAction :=
  if !planningComplete rt blocked sources project then
    (.episodePlan, planningAction rt project "source text remains unplanned")
  else (.exportReady, .export_ "all required artifacts are usable")

/-- The planner succeeds although no model answers: it reports exhausted sources. -/
def exhausts (rt : Runtime) (sources : Sources) (products : Products) (s : ProjectState) : Bool :=
  (plan rt sources products s [] s).isOk

/-- The text after the planning position: the rest of its file, and the files after it. -/
def unplannedTexts (sources : Sources) (cursor : Option Json) : List (List Char) :=
  match cursorPosition cursor with
  | none => sources.docs.map SourceDoc.text
  | some (rel, offset) =>
      match sourcesFrom rel sources.docs with
      | [] => []
      | doc :: later => PyText.sliceFrom doc.text offset :: later.map SourceDoc.text

/-! The planner's side. -/

section Planner

variable {rt : Runtime} {sources : Sources} {products : Products} {spans : List Span}
  {items : List Json}

theorem ranges_numbered {project : Project} (listed : project.episodes = some (.arr items))
    (numbered : Numbered rt 1 items spans) : episodesWithoutSourceRange rt project = [] := by
  unfold episodesWithoutSourceRange
  have none_ : (items.filterMap fun entry =>
      (entryNum rt entry).filter fun _ => (parseSourceRange entry).isNone) = [] := by
    rw [List.filterMap_eq_nil_iff]
    intro entry member
    obtain ⟨num, range, -, -, known, anchored⟩ := numbered_mem numbered member
    rw [known, anchored]
    rfl
  simp only [listed, none_]
  rfl

theorem numbered_knows {n num : Int} (numbered : Numbered rt n items spans) (low : n ≤ num)
    (high : num < n + spans.length) : num ∈ items.filterMap (entryNum rt) := by
  induction spans generalizing n items with
  | nil =>
    rw [List.length_nil] at high
    omega
  | cons span spans ih =>
    cases items with
    | nil => exact numbered.elim
    | cons entry items =>
      rw [List.length_cons] at high
      push_cast at high
      rw [List.filterMap_cons, (readEntry_eq_some.mp numbered.1).1, List.mem_cons]
      by_cases same : num = n
      · exact .inl same
      · exact .inr (ih numbered.2 (by omega) (by omega))

/-- A settled ledger with episodes has no orphans. -/
theorem register_settled {s : ProjectState} (settled : Settled rt sources spans s)
    (some_ : spans ≠ []) (listed : s.project.episodes.getD (.arr []) = .arr items)
    (numbered : Numbered rt 1 items spans) :
    registerOrphanEpisodeEntries rt products s =
      { s.project with episodes := some (.arr items) } := by
  apply register_of_orphans listed numbered
  rw [List.filter_eq_nil_iff]
  intro num member
  obtain ⟨name, owner, number⟩ := mem_discoverEpisodeFiles.mp ((List.mem_insertionSort _).mp member)
  have bounds := settled.files some_ name owner num number
  have known : (num : Int) ∈ items.filterMap (entryNum rt) :=
    numbered_knows numbered (by omega) (by omega)
  simpa using known

theorem firstWithText_eq_none {rel : String} {text : List Char} {start : Int}
    {later : List SourceDoc} : firstWithText rel text start later = none ↔
      PyText.isBlank (PyText.sliceFrom text start) = true ∧
        ∀ other ∈ later, PyText.isBlank other.text = true := by
  induction later generalizing rel text start with
  | nil =>
    simp only [firstWithText]
    split_ifs with blank <;> simp [blank]
  | cons next later ih =>
    have whole : PyText.sliceFrom next.text 0 = next.text := PyText.sliceFrom_of_nat next.text 0
    simp only [firstWithText]
    split_ifs with blank
    · rw [ih, whole, List.forall_mem_cons]
      simp [blank]
    · simp [blank]

/-- The position of a ledger with episodes: a file, the files after it, and an offset in it. -/
theorem recorded_position {project : Project} (recorded : Recorded rt sources spans project)
    (some_ : spans ≠ []) :
    ∃ span doc later, spans.getLast? = some span ∧
      project.planningCursor =
        some (.obj [("source_file", .str span.rel), ("offset", .int span.stop)]) ∧
      sourcesFrom span.rel sources.docs = doc :: later ∧ span.stop ≤ doc.text.length := by
  have last : spans.getLast? = some (spans.getLast some_) := List.getLast?_eq_some_getLast some_
  have cursor := recorded.cursor
  rw [endOf, last] at cursor
  obtain ⟨before, split⟩ := List.getLast?_eq_some_iff.mp last
  have tiles := recorded.tiles
  rw [split, tiles_append] at tiles
  obtain ⟨-, owner, member, named, bounded⟩ := tiles.2.2.1
  cases from_ : sourcesFrom (spans.getLast some_).rel sources.docs with
  | nil => exact absurd from_ (sourcesFrom_of_mem member named)
  | cons doc later =>
    obtain ⟨named', front, whole⟩ := sourcesFrom_eq_cons from_
    have listed : doc ∈ sources.docs := by
      rw [whole]
      simp
    have same : owner = doc :=
      List.inj_on_of_nodup_map sources.distinct member listed (named.trans named'.symm)
    rw [same] at bounded
    exact ⟨_, doc, later, last, cursor, from_, bounded⟩

/-- With only blanks left the planner leaves the state as it is, whatever a model would answer;
else it asks. -/
theorem plan_settled {s : ProjectState} (settled : Settled rt sources spans s) (some_ : spans ≠ []) :
    ((∀ text ∈ unplannedTexts sources s.project.planningCursor, PyText.isBlank text = true) ∧
      ∀ answers, plan rt sources products s answers s = .ok s) ∨
    ¬(∀ text ∈ unplannedTexts sources s.project.planningCursor, PyText.isBlank text = true) ∧
      plan rt sources products s [] s = .error .generationFailed := by
  obtain ⟨items, listed, numbered⟩ := settled.recorded.entries
  obtain ⟨span, doc, later, last, cursor, from_, bounded⟩ :=
    recorded_position settled.recorded some_
  have begins : effectiveStart rt sources { s.project with episodes := some (.arr items) } =
      .ok (span.rel, (span.stop : Int)) :=
    effectiveStart_last rfl numbered last settled.recorded.cursor
  have ranges : checkSourceRanges rt { s.project with episodes := some (.arr items) } = .ok () := by
    unfold checkSourceRanges
    rw [ranges_numbered rfl numbered]
    rfl
  have fingerprints : checkSourceFingerprints rt sources
      { s.project with episodes := some (.arr items) } = .ok () := by
    unfold checkSourceFingerprints
    simp only [settled.recorded.fingerprints]
    rfl
  have text : sourceText rt sources span.rel = .ok doc.text := by
    rw [sourceText, from_]
  have inside : ¬(doc.text.length : Int) < span.stop := by omega
  have rest : unplannedTexts sources s.project.planningCursor =
      PyText.sliceFrom doc.text span.stop :: later.map SourceDoc.text := by
    unfold unplannedTexts
    rw [cursor, cursorPosition_at]
    simp only [from_]
  have backfilled : backfillSourceFingerprints rt sources
      { s.project with episodes := some (.arr items) } span.rel s = .ok s := by
    unfold backfillSourceFingerprints
    rw [settled.fingerprints some_]
    rfl
  rw [rest, List.forall_mem_cons, List.forall_mem_map, ← @firstWithText_eq_none span.rel]
  unfold plan
  simp only [register_settled settled some_ listed numbered, ranges, fingerprints, begins, text,
    inside, from_, List.tail_cons, bind, Except.bind, if_false]
  cases firstWithText span.rel doc.text span.stop later with
  | none => exact .inl ⟨rfl, fun _ => backfilled⟩
  | some start => exact .inr ⟨by simp, rfl⟩

/-- Without an answer the planner succeeds exactly if only blanks are left. -/
theorem exhausts_iff {s : ProjectState} (settled : Settled rt sources spans s) (some_ : spans ≠ []) :
    exhausts rt sources products s = true ↔
      ∀ text ∈ unplannedTexts sources s.project.planningCursor, PyText.isBlank text = true := by
  unfold exhausts
  have settles : (_ ∧ ∀ answers, plan rt sources products s answers s = .ok s) ∨ _ := plan_settled settled some_
  cases settles with
  | inl blank =>
    rw [blank.2]
    exact iff_of_true rfl blank.1
  | inr text =>
    rw [text.2]
    exact iff_of_false (by decide) text.1

theorem plan_exhausted {s : ProjectState} (settled : Settled rt sources spans s) (some_ : spans ≠ [])
    (exhausted : exhausts rt sources products s = true) (answers : List (Option (List EpisodeDraft))) :
    plan rt sources products s answers s = .ok s := by
  have settles : (_ ∧ ∀ answers, plan rt sources products s answers s = .ok s) ∨ _ := plan_settled settled some_
  cases settles with
  | inl blank => exact blank.2 answers
  | inr text => exact absurd ((exhausts_iff settled some_).mp exhausted) text.1

end Planner

/-! The status's side. -/

section Status

variable {rt : Runtime} {sources : Sources} {blocked : Bool} {spans : List Span}

theorem fingerprintsCurrent_recorded {rt : Runtime} {sources : Sources} (some_ : sources.docs ≠ []) :
    fingerprintsCurrent rt sources (some (fingerprintsJson rt sources)) = true := by
  have distinct : ((computeSourceFingerprints rt sources).map Prod.fst).Nodup := by
    unfold computeSourceFingerprints
    rw [List.map_map]
    exact sources.distinct
  have recorded : (((computeSourceFingerprints rt sources).map fun field =>
      (field.1, Json.str field.2)).map Prod.fst).Nodup := by
    rw [List.map_map]
    exact distinct
  have present : ((computeSourceFingerprints rt sources).map fun field =>
      (field.1, Json.str field.2)).isEmpty = false := by
    unfold computeSourceFingerprints
    simpa using some_
  unfold fingerprintsCurrent fingerprintsJson
  simp only [present, List.length_map, beq_self_eq_true, Bool.not_false, Bool.and_true,
    Bool.true_and, List.all_eq_true]
  intro field member
  have found := (Dict.lookup_eq_some_iff recorded field.1 (.str field.2)).mpr
    (List.mem_map.mpr ⟨field, member, rfl⟩)
  rw [found]
  simp [Json.str?]

theorem sourceRevisionFiles_eq_nil (some_ : sources.docs ≠ []) :
    sourceRevisionFiles rt blocked sources = [] ↔
      ¬(blocked = false ∧ (sources.docs.map fun doc => canonicalRel rt doc.relPath).Nodup) := by
  unfold sourceRevisionFiles
  simp only
  split_ifs with stops
  · simpa [imp_iff_not_or] using stops
  · simpa [some_] using stops

/-- The cursor is at the end if nothing follows it in its file and no file follows. -/
theorem cursorAtEnd_iff {before later : List SourceDoc} {doc final : SourceDoc} {stop : Nat}
    (split : sources.docs = before ++ doc :: later)
    (distinct : (sources.docs.map fun doc => canonicalRel rt doc.relPath).Nodup)
    (last : sources.docs.getLast? = some final) :
    cursorAtEnd rt sources (canonicalRel rt final.relPath)
        (.obj [("source_file", .str doc.relPath), ("offset", .int stop)]) = true ↔
      doc.text.drop stop = [] ∧ later = [] := by
  obtain ⟨front, whole⟩ := List.getLast?_eq_some_iff.mp last
  have names := distinct
  rw [whole, List.map_append, List.map_singleton, List.nodup_append] at names
  have matching : (sources.docs.filter fun other =>
      canonicalRel rt other.relPath == canonicalRel rt final.relPath) = [final] := by
    have earlier : (front.filter fun other =>
        canonicalRel rt other.relPath == canonicalRel rt final.relPath) = [] := by
      rw [List.filter_eq_nil_iff]
      intro other member
      simpa using names.2.2 _ (List.mem_map_of_mem member) _ (.head _)
    rw [whole, List.filter_append, earlier, List.nil_append]
    simp
  have member : final ∈ sources.docs := List.mem_of_getLast? last
  have owner : doc ∈ sources.docs := by
    rw [split]
    simp
  have unique : canonicalRel rt doc.relPath = canonicalRel rt final.relPath ↔
      later = [] ∧ doc = final := by
    constructor
    · intro same
      have equal := List.inj_on_of_nodup_map distinct owner member same
      have parts := split_unique sources.distinct split whole (congrArg SourceDoc.relPath equal)
      exact ⟨parts.2.2, equal⟩
    · intro top
      rw [top.2]
  have place : cursorAtEnd rt sources (canonicalRel rt final.relPath)
      (.obj [("source_file", .str doc.relPath), ("offset", .int stop)]) =
        (canonicalRel rt doc.relPath == canonicalRel rt final.relPath &&
          decide ((final.text.length : Int) ≤ stop)) := by
    unfold cursorAtEnd
    rw [matching]
    rfl
  rw [place, Bool.and_eq_true, beq_iff_eq, unique, List.drop_eq_nil_iff]
  constructor
  · rintro ⟨⟨none_, same⟩, reached⟩
    have bound := of_decide_eq_true reached
    rw [same]
    exact ⟨by omega, none_⟩
  · rintro ⟨reached, none_⟩
    have same : doc = final := by
      rw [split, none_, List.getLast?_append, List.getLast?_singleton] at last
      exact Option.some.inj last
    rw [same] at reached
    exact ⟨⟨none_, same⟩, decide_eq_true (by omega)⟩

/-- The planning counts as complete exactly at the very end of the last file. -/
theorem planningComplete_iff {s : ProjectState} (settled : Settled rt sources spans s)
    (some_ : spans ≠ []) :
    planningComplete rt blocked sources s.project = true ↔
      unplannedTexts sources s.project.planningCursor = [[]] ∧
        sourceRevisionFiles rt blocked sources ≠ [] := by
  obtain ⟨span, doc, later, -, cursor, from_, -⟩ := recorded_position settled.recorded some_
  obtain ⟨named, before, split⟩ := sourcesFrom_eq_cons from_
  have present : sources.docs ≠ [] := by
    rw [split]
    simp
  have rest : unplannedTexts sources s.project.planningCursor =
      doc.text.drop span.stop :: later.map SourceDoc.text := by
    unfold unplannedTexts
    rw [cursor, cursorPosition_at]
    simp only [from_, PyText.sliceFrom_of_nat]
  have ended : unplannedTexts sources s.project.planningCursor = [[]] ↔
      doc.text.drop span.stop = [] ∧ later = [] := by
    rw [rest, List.cons.injEq, List.map_eq_nil_iff]
  rw [ended]
  unfold planningComplete
  rw [settled.fingerprints some_, fingerprintsCurrent_recorded present, cursor]
  by_cases listed : sourceRevisionFiles rt blocked sources = []
  · rw [listed]
    simp
  · have distinct := (not_iff_comm.mp (sourceRevisionFiles_eq_nil present).symm).mp listed
    have files : sourceRevisionFiles rt blocked sources =
        sources.docs.map fun doc => canonicalRel rt doc.relPath := by
      unfold sourceRevisionFiles
      simp [distinct.1, distinct.2]
    have last : sources.docs.getLast? = some (sources.docs.getLast present) :=
      List.getLast?_eq_some_getLast present
    rw [files, List.getLast?_map, last, Option.map_some, ← named]
    simp only [Bool.true_and, Json.isObj]
    rw [cursorAtEnd_iff split distinct.2 last]
    simp [present]

end Status

/-- In every ledger that calls reach from an empty one and that has an episode, the status and the
planner agree on the end of the planning exactly if some of the text that is left is not blank, or
the cursor stands at the very end of the last file of a revision that is not blocked. An exhausted
planner changes nothing, whatever a model would answer, and no status is ready for an export
before all text that is left is blank. -/
theorem planning_ends_agree_iff (rt : Runtime) (sources : Sources) (blocked : Bool)
    (products : Products) (calls : List Call) (s t : ProjectState) (entry : Json) (later : List Json)
    (empty : EmptyLedger s.project) (ran : runSteps (call rt sources) calls s = some t)
    (planned : t.project.episodes = some (.arr (entry :: later))) :
    ((planningComplete rt blocked sources t.project = true ↔
        exhausts rt sources products t = true) ↔
      (∃ text ∈ unplannedTexts sources t.project.planningCursor, PyText.isBlank text = false) ∨
        unplannedTexts sources t.project.planningCursor = [[]] ∧
          sourceRevisionFiles rt blocked sources ≠ []) ∧
    (exhausts rt sources products t = true →
      ∀ answers, plan rt sources products t answers t = .ok t) ∧
    ((completionStatus rt blocked sources t.project).1 = .exportReady →
      ∀ text ∈ unplannedTexts sources t.project.planningCursor, PyText.isBlank text = true) := by
  obtain ⟨spans, settled⟩ := settled_run empty ran
  have some_ : spans ≠ [] := by
    obtain ⟨items, listed, numbered⟩ := settled.recorded.entries
    rw [planned, Option.getD_some, Json.arr.injEq] at listed
    rw [← listed] at numbered
    intro none_
    rw [none_] at numbered
    exact numbered
  refine ⟨?_, plan_exhausted settled some_, ?_⟩
  · rw [planningComplete_iff settled some_, exhausts_iff settled some_]
    by_cases blank : ∀ text ∈ unplannedTexts sources t.project.planningCursor,
        PyText.isBlank text = true
    · have none_ : ¬∃ text ∈ unplannedTexts sources t.project.planningCursor,
          PyText.isBlank text = false := by
        rintro ⟨text, member, dark⟩
        rw [blank text member] at dark
        cases dark
      rw [iff_true_right blank, or_iff_right none_]
    · have some_ : ∃ text ∈ unplannedTexts sources t.project.planningCursor,
          PyText.isBlank text = false := by
        push Not at blank
        simpa using blank
      rw [iff_true_right (.inl some_)]
      constructor
      · intro ended
        refine absurd ?_ blank
        rw [ended.1]
        simp [PyText.isBlank]
      · intro all
        exact absurd all blank
  · intro ready
    unfold completionStatus at ready
    split_ifs at ready with complete
    have ended := (planningComplete_iff settled some_).mp (by simpa using complete)
    rw [ended.1]
    simp [PyText.isBlank]

private def lateText : List Char := "One.".toList

/-- The second file has nothing but a line end. -/
private def lateSources : Sources := ⟨[⟨"source/a.txt", lateText⟩, ⟨"source/b.txt", ['\n']⟩], by decide⟩

private def lateRuntime : Runtime where
  nfc := id
  otherDigits := fun _ => none
  sha256 := fun text => if text = lateText then
    "70277bfc409b502132d7a48b2a3b386294264b31f7bf024a5fb0cafabb8ac122" else
    "01ba4719c80b6fe911b091a7c05124b64eeece964e09c058ef8f9805daca546b"
  readText := fun _ => none
  stretch := fun n => n * 12 / 10

private def nothingMade : Products := ⟨fun _ => false, [], [], fun _ => .null⟩

private def unplannedProject : ProjectState := ⟨⟨some (.arr []), none, none, none, none⟩, .empty⟩

private def planOne : Call := .plan nothingMade unplannedProject
  [some [⟨"Title", "Hook", lateText, none⟩]]

private def wholePlan : ProjectState :=
  (call lateRuntime lateSources unplannedProject planOne).getD unplannedProject

private theorem wholePlan_run :
    runSteps (call lateRuntime lateSources) [planOne] unplannedProject = some wholePlan := by
  have found : (call lateRuntime lateSources unplannedProject planOne).isSome := by decide
  obtain ⟨t, reached⟩ := Option.isSome_iff_exists.mp found
  unfold wholePlan
  rw [runSteps, reached]
  rfl

private theorem wholePlan_episodes : ∃ entry later,
    wholePlan.project.episodes = some (.arr (entry :: later)) := ⟨_, _, rfl⟩

/-- After the only episode a file with a line end is left: the planner has nothing to plan, and
the status goes on to ask for a plan. -/
theorem blank_file_is_proposed : ∃ t entry later,
    runSteps (call lateRuntime lateSources) [planOne] unplannedProject = some t ∧
      t.project.episodes = some (.arr (entry :: later)) ∧
      ¬(planningComplete lateRuntime false lateSources t.project = true ↔
        exhausts lateRuntime lateSources nothingMade t = true) ∧
      completionStatus lateRuntime false lateSources t.project =
        (.episodePlan, .planEpisodes "source text remains unplanned") := by
  obtain ⟨entry, later, planned⟩ := wholePlan_episodes
  refine ⟨wholePlan, entry, later, wholePlan_run, planned, ?_, by decide⟩
  have incomplete : planningComplete lateRuntime false lateSources wholePlan.project = false := by
    decide
  have exhausted : exhausts lateRuntime lateSources nothingMade wholePlan = true := by
    decide
  rw [incomplete, exhausted]
  decide

theorem blank_file_ends_planning : ∃ t,
    runSteps (call lateRuntime lateSources) [planOne] unplannedProject = some t ∧
      ((planningComplete lateRuntime false lateSources t.project = true ↔
          exhausts lateRuntime lateSources nothingMade t = true) ↔
        (∃ text ∈ unplannedTexts lateSources t.project.planningCursor,
          PyText.isBlank text = false) ∨
          unplannedTexts lateSources t.project.planningCursor = [[]] ∧
            sourceRevisionFiles lateRuntime false lateSources ≠ []) ∧
      (exhausts lateRuntime lateSources nothingMade t = true →
        ∀ answers, plan lateRuntime lateSources nothingMade t answers t = .ok t) ∧
      ((completionStatus lateRuntime false lateSources t.project).1 = .exportReady →
        ∀ text ∈ unplannedTexts lateSources t.project.planningCursor,
          PyText.isBlank text = true) := by
  obtain ⟨entry, later, planned⟩ := wholePlan_episodes
  exact ⟨wholePlan, wholePlan_run, planning_ends_agree_iff lateRuntime lateSources false nothingMade
    [planOne] unplannedProject wholePlan entry later ⟨.inr rfl, .inl rfl, rfl⟩ wholePlan_run planned⟩

end ArcReel.Episode
