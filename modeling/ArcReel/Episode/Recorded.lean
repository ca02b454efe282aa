import ArcReel.Lib.Except
import ArcReel.Episode.Tiling

/-! A ledger that records spans, and the planner's commits, which keep one recorded. -/

namespace ArcReel.Episode
open ArcReel.Lib

/-- The number and the range that an entry records. -/
def readEntry (rt : Runtime) (entry : Json) : Option (Int × String × Int × Int) :=
  (entryNum rt entry).bind fun num => (parseSourceRange entry).map fun range => (num, range)

/-- The entries have the numbers `n, n + 1, …` and record the spans. -/
def Numbered (rt : Runtime) : Int → List Json → List Span → Prop
  | _, [], [] => True
  | n, entry :: items, span :: spans =>
      readEntry rt entry = some (n, span.rel, (span.start : Int), (span.stop : Int)) ∧
        Numbered rt (n + 1) items spans
  | _, _, _ => False

/-- The cursor stands at the position, or is null. -/
def CursorAt (cursor : Option Json) : Option (String × Nat) → Prop
  | none => cursor = none ∨ cursor = some .null
  | some (rel, stop) =>
      cursor = some (.obj [("source_file", .str rel), ("offset", .int stop)])

/-- The ledger records spans that tile the sources, and the cursor stands at their end. -/
structure Recorded (rt : Runtime) (sources : Sources) (spans : List Span) (project : Project) :
    Prop where
  entries : ∃ items, project.episodes.getD (.arr []) = .arr items ∧ Numbered rt 1 items spans
  tiles : Tiles sources none spans
  cursor : CursorAt project.planningCursor (endOf none spans)
  fingerprints : mismatchedSourceFingerprints rt project.sourceFingerprints sources = []

section Entries

variable {rt : Runtime} {n : Int} {items : List Json} {spans : List Span}

theorem readEntry_eq_some {entry : Json} {num : Int} {range : String × Int × Int} :
    readEntry rt entry = some (num, range) ↔
      entryNum rt entry = some num ∧ parseSourceRange entry = some range := by
  unfold readEntry
  cases entryNum rt entry <;> cases parseSourceRange entry <;> simp

theorem entryNum_eq_some {entry : Json} {num : Int} :
    entryNum rt entry = some num ↔
      entry.isObj = true ∧ parseEpisodeNum rt (entry.get "episode") = some num := by
  unfold entryNum
  split_ifs with object <;> simp [object]

theorem numbered_append {items' : List Json} {spans' : List Span} (first : Numbered rt n items spans)
    (second : Numbered rt (n + spans.length) items' spans') :
    Numbered rt n (items ++ items') (spans ++ spans') := by
  induction spans generalizing n items with
  | nil =>
    cases items with
    | nil => simpa using second
    | cons entry items => exact first.elim
  | cons span spans ih =>
    cases items with
    | nil => exact first.elim
    | cons entry items =>
      refine ⟨first.1, ih first.2 ?_⟩
      rwa [List.length_cons, Nat.cast_add, Nat.cast_one, add_comm (spans.length : Int) 1,
        ← add_assoc] at second

theorem numbered_length (numbered : Numbered rt n items spans) : items.length = spans.length := by
  induction spans generalizing n items with
  | nil =>
    cases items with
    | nil => rfl
    | cons entry items => exact numbered.elim
  | cons span spans ih =>
    cases items with
    | nil => exact numbered.elim
    | cons entry items => rw [List.length_cons, ih numbered.2, List.length_cons]

theorem numbered_take (numbered : Numbered rt n items spans) (count : Nat) :
    Numbered rt n (items.take count) (spans.take count) := by
  induction spans generalizing n items count with
  | nil =>
    cases items with
    | nil => simpa using numbered
    | cons entry items => exact numbered.elim
  | cons span spans ih =>
    cases items with
    | nil => exact numbered.elim
    | cons entry items =>
      cases count with
      | zero => trivial
      | succ count => exact ⟨numbered.1, ih numbered.2 count⟩

/-- Every entry is an object with a number from `n` on and a range. -/
theorem numbered_mem (numbered : Numbered rt n items spans) {entry : Json} (member : entry ∈ items) :
    ∃ num range, n ≤ num ∧ num < n + spans.length ∧ entryNum rt entry = some num ∧
      parseSourceRange entry = some range := by
  induction spans generalizing n items with
  | nil =>
    cases items with
    | nil => cases member
    | cons head items => exact numbered.elim
  | cons span spans ih =>
    cases items with
    | nil => exact numbered.elim
    | cons head items =>
      have here := readEntry_eq_some.mp numbered.1
      cases List.mem_cons.mp member with
      | inl same =>
        rw [same]
        exact ⟨n, _, le_refl n, by simp, here⟩
      | inr later =>
        obtain ⟨num, range, low, high, known⟩ := ih numbered.2 later
        refine ⟨num, range, by omega, ?_, known⟩
        rw [List.length_cons]
        push_cast
        omega

theorem numbered_sorted (numbered : Numbered rt n items spans) :
    sortByNum rt items = items := by
  unfold sortByNum
  apply List.Pairwise.insertionSort_eq
  induction spans generalizing n items with
  | nil =>
    cases items with
    | nil => exact .nil
    | cons entry items => exact numbered.elim
  | cons span spans ih =>
    cases items with
    | nil => exact numbered.elim
    | cons entry items =>
      refine .cons ?_ (ih numbered.2)
      intro other member
      obtain ⟨num, range, low, -, known, -⟩ := numbered_mem numbered.2 member
      have here := (entryNum_eq_some.mp (readEntry_eq_some.mp numbered.1).1).2
      have there := (entryNum_eq_some.mp known).2
      rw [here, there]
      simp only [Option.getD_some]
      omega

theorem numbered_sortIfPossible (numbered : Numbered rt n items spans) :
    sortEpisodesIfPossible rt items = items := by
  unfold sortEpisodesIfPossible
  split_ifs
  · exact numbered_sorted numbered
  · rfl

theorem anchoredEnd_of_read {entry : Json} {num : Int} {rel : String} {start stop : Int}
    (read : readEntry rt entry = some (num, rel, start, stop)) :
    anchoredEnd rt entry = some (num, rel, stop) := by
  obtain ⟨known, range⟩ := readEntry_eq_some.mp read
  unfold parseSourceRange at range
  unfold anchoredEnd
  simp only at range ⊢
  split at range
  case h_1 file start' stop' hasFile hasStart hasStop =>
    have parts := Option.some.inj range
    simp only [Prod.mk.injEq] at parts
    simp only [known, hasFile, hasStop, parts.1, parts.2.2]
  case h_2 => cases range

theorem lastAnchored_numbered (numbered : Numbered rt n items spans) :
    ∀ best : Option (Int × String × Int), (∀ found ∈ best, found.1 < n) →
      (items.foldl (fun best entry =>
        match anchoredEnd rt entry with
        | none => best
        | some found =>
            if best.all fun other => decide (other.1 < found.1) then some found else best)
        best).map Prod.snd =
          (spans.getLast?.map fun span => (span.rel, (span.stop : Int))).or (best.map Prod.snd) := by
  induction spans generalizing n items with
  | nil =>
    intro best below
    cases items with
    | nil => simp
    | cons entry items => exact numbered.elim
  | cons span spans ih =>
    intro best below
    cases items with
    | nil => exact numbered.elim
    | cons entry items =>
      have larger : (best.all fun other => decide (other.1 < n)) = true := by
        cases best with
        | none => rfl
        | some found => simpa using below found rfl
      rw [List.foldl_cons, anchoredEnd_of_read numbered.1]
      simp only [larger, if_true]
      rw [ih numbered.2 (some (n, span.rel, span.stop)) (by simp)]
      cases spans with
      | nil => rfl
      | cons next spans =>
        rw [List.getLast?_cons_cons, List.getLast?_eq_some_getLast (List.cons_ne_nil next spans)]
        rfl

/-- The largest number of the ledger is its length. -/
theorem numbered_max (numbered : Numbered rt n items spans) (positive : 0 < n) :
    ((items.filterMap (entryNum rt)).filter fun num => decide (0 < num)).foldl max (n - 1) =
      n - 1 + spans.length := by
  induction spans generalizing n items with
  | nil =>
    cases items with
    | nil => simp
    | cons entry items => exact numbered.elim
  | cons span spans ih =>
    cases items with
    | nil => exact numbered.elim
    | cons entry items =>
      have here := (readEntry_eq_some.mp numbered.1).1
      rw [List.filterMap_cons, here]
      simp only [List.filter_cons, positive, decide_true, if_true, List.foldl_cons]
      have step : max (n - 1) n = n + 1 - 1 := by omega
      rw [step, ih numbered.2 (by omega), List.length_cons]
      push_cast
      omega

end Entries

/-! The planner keeps the ledger recorded. -/

section Planning

variable {rt : Runtime} {sources : Sources} {products : Products} {spans : List Span}

theorem perm_sortByNum (items : List Json) : (sortByNum rt items).Perm items :=
  List.perm_insertionSort _ items

theorem perm_sortIfPossible (items : List Json) : (sortEpisodesIfPossible rt items).Perm items := by
  unfold sortEpisodesIfPossible
  split_ifs
  · exact perm_sortByNum items
  · exact .refl items

theorem ranges_of_checked {items : List Json} {project : Project}
    (listed : project.episodes = some (.arr items)) (checked : checkSourceRanges rt project = .ok ())
    {entry : Json} (member : entry ∈ items) {num : Int} (known : entryNum rt entry = some num) :
    (parseSourceRange entry).isSome = true := by
  unfold checkSourceRanges at checked
  simp only at checked
  split_ifs at checked with empty
  unfold episodesWithoutSourceRange at empty
  simp only [listed] at empty
  cases range : parseSourceRange entry with
  | some found => rfl
  | none =>
    have missing : num ∈ items.filterMap fun entry =>
        (entryNum rt entry).filter fun _ => (parseSourceRange entry).isNone :=
      List.mem_filterMap.mpr ⟨entry, member, by rw [known, range]; rfl⟩
    have listed_ := (List.mem_insertionSort (· ≤ ·)).mpr (List.mem_dedup.mpr missing)
    rw [List.isEmpty_iff.mp empty] at listed_
    cases listed_

theorem orphanEntry_known (num : Nat) : entryNum rt (orphanEntry products num) = some (num : Int) := rfl

theorem orphanEntry_range (num : Nat) : parseSourceRange (orphanEntry products num) = none := rfl

/-- Every derived file belongs to an entry of a ledger that passes the check. -/
theorem orphans_of_checked {items : List Json} {s : ProjectState}
    (listed : s.project.episodes.getD (.arr []) = .arr items)
    (checked : checkSourceRanges rt (registerOrphanEpisodeEntries rt products s) = .ok ()) :
    (((discoverEpisodeFiles s.files).map Prod.fst).insertionSort (· ≤ ·)).filter
      (fun num : Nat => !(items.filterMap (entryNum rt)).contains (num : Int)) = [] := by
  unfold registerOrphanEpisodeEntries at checked
  rw [listed] at checked
  simp only at checked
  generalize listedOrphans : List.filter _ _ = orphans at checked ⊢
  cases orphans with
  | nil => rfl
  | cons orphan orphans =>
    have member : orphanEntry products orphan ∈ sortEpisodesIfPossible rt
        (items ++ (orphan :: orphans).map (orphanEntry products)) := by
      rw [(perm_sortIfPossible _).mem_iff]
      simp
    have impossible := ranges_of_checked rfl checked member (orphanEntry_known orphan)
    rw [orphanEntry_range] at impossible
    cases impossible

/-- Without orphans nothing is registered. -/
theorem register_of_orphans {items : List Json} {s : ProjectState}
    (listed : s.project.episodes.getD (.arr []) = .arr items) (numbered : Numbered rt 1 items spans)
    (none_ : (((discoverEpisodeFiles s.files).map Prod.fst).insertionSort (· ≤ ·)).filter
      (fun num : Nat => !(items.filterMap (entryNum rt)).contains (num : Int)) = []) :
    registerOrphanEpisodeEntries rt products s =
      { s.project with episodes := some (.arr items) } := by
  unfold registerOrphanEpisodeEntries
  rw [listed]
  simp only [none_, List.map_nil, List.append_nil, numbered_sortIfPossible numbered]

/-- A ledger that passes the check had no orphans to register. -/
theorem register_of_checked {items : List Json} {s : ProjectState}
    (listed : s.project.episodes.getD (.arr []) = .arr items) (numbered : Numbered rt 1 items spans)
    (checked : checkSourceRanges rt (registerOrphanEpisodeEntries rt products s) = .ok ()) :
    registerOrphanEpisodeEntries rt products s =
      { s.project with episodes := some (.arr items) } :=
  register_of_orphans listed numbered (orphans_of_checked listed checked)

theorem cursorPosition_at (rel : String) (stop : Nat) :
    cursorPosition (some (.obj [("source_file", .str rel), ("offset", .int stop)])) =
      some (rel, (stop : Int)) := by
  show (if (0 : Int) ≤ stop then some (rel, (stop : Int)) else none) = some (rel, (stop : Int))
  exact if_pos (Int.natCast_nonneg stop)

theorem effectiveStart_last {items : List Json} {project : Project} {span : Span}
    (listed : project.episodes = some (.arr items)) (numbered : Numbered rt 1 items spans)
    (final : spans.getLast? = some span)
    (cursor : CursorAt project.planningCursor (endOf none spans)) :
    effectiveStart rt sources project = .ok (span.rel, (span.stop : Int)) := by
  have last : (lastAnchored rt items).map Prod.snd =
      (spans.getLast?.map fun span => (span.rel, (span.stop : Int))).or none :=
    lastAnchored_numbered numbered none (by simp)
  have position : cursorPosition project.planningCursor = some (span.rel, (span.stop : Int)) := by
    rw [endOf, final] at cursor
    rw [cursor, cursorPosition_at]
  unfold effectiveStart
  simp only [listed, Option.getD_some, Json.iterate?, last, Option.or_none, final, Option.map_some,
    position, if_true, max_self]

/-- Planning starts at the end of the last span. -/
theorem effectiveStart_recorded {items : List Json} {project : Project} {startRef : String × Int}
    (begins : effectiveStart rt sources project = .ok startRef)
    (listed : project.episodes = some (.arr items)) (numbered : Numbered rt 1 items spans)
    (cursor : CursorAt project.planningCursor (endOf none spans)) :
    ∃ offset : Nat, startRef.2 = offset ∧
      startAfter sources (endOf none spans) = some (startRef.1, offset) := by
  cases final : spans.getLast? with
  | some span =>
    rw [effectiveStart_last listed numbered final cursor, Except.ok.injEq] at begins
    rw [endOf, final, ← begins]
    exact ⟨span.stop, rfl, rfl⟩
  | none =>
    have last : (lastAnchored rt items).map Prod.snd =
        (spans.getLast?.map fun span => (span.rel, (span.stop : Int))).or none :=
      lastAnchored_numbered numbered none (by simp)
    unfold effectiveStart at begins
    simp only [listed, Option.getD_some, Json.iterate?, last, Option.or_none] at begins
    rw [endOf, final] at cursor ⊢
    have position : cursorPosition project.planningCursor = none := by
      cases cursor with
      | inl missing => rw [missing]; rfl
      | inr null => rw [null]; rfl
    simp only [final, Option.map_none, position] at begins
    cases docs : sources.docs with
    | nil => rw [docs] at begins; cases begins
    | cons doc later =>
      rw [docs] at begins
      rw [← Except.ok.inj begins]
      exact ⟨0, rfl, by simp [startAfter, docs]⟩

/-! What a commit can do. -/

theorem commitBatch_cases {batch : Batch} {s t : ProjectState}
    (committed : commitBatch rt sources products batch s = .ok t) :
    let p := registerOrphanEpisodeEntries rt products s
    checkSourceRanges rt p = .ok () ∧ effectiveStart rt sources p = .ok batch.startRef ∧
      sourcesFrom batch.rel sources.docs ≠ [] ∧
      ∃ entries files, (p.episodes.getD .null).iterate? = some entries ∧
        let kept := entries.filter fun entry => !entry.isNull
        let nums := (kept.filterMap (entryNum rt)).filter fun num => decide (0 < num)
        let all := sortEpisodesIfPossible rt (kept ++
          newEntries products batch.rel batch.start (nums.foldl max 0 + 1) batch.start
            (batch.drafts.zip batch.ends))
        reconcileDerivedFiles rt sources all s.files = .ok files ∧ t = ⟨{ p with
          episodes := some (.arr all)
          planningCursor := some (.obj [("source_file", .str batch.rel),
            ("offset", .int (batch.start + batch.ends.getLast?.getD 0))])
          sourceFingerprints := some (fingerprintsJson rt sources) }, files⟩ := by
  unfold commitBatch at committed
  simp only at committed ⊢
  obtain ⟨_, checked, committed⟩ := bind_eq_ok.mp committed
  obtain ⟨startRef, begins, committed⟩ := bind_eq_ok.mp committed
  obtain ⟨same, committed⟩ := throwIf_eq_ok.mp committed
  obtain ⟨_, -, committed⟩ := bind_eq_ok.mp committed
  obtain ⟨listed, committed⟩ := throwIf_eq_ok.mp committed
  cases iterated : ((registerOrphanEpisodeEntries rt products s).episodes.getD .null).iterate? with
  | none =>
    rw [iterated] at committed
    cases committed
  | some entries =>
    simp only [iterated, pure_bind] at committed
    obtain ⟨files, reconciled, done⟩ := bind_eq_ok.mp committed
    refine ⟨checked, ?_, ?_, entries, files, rfl, reconciled, (Except.ok.inj done).symm⟩
    · rw [begins, not_not.mp same]
    · intro empty
      rw [empty] at listed
      exact listed rfl

theorem readEntry_newEntry (draft : EpisodeDraft) (num : Int) (rel : String) (start stop : Int) :
    readEntry rt (newEntry products draft num rel start stop) = some (num, rel, start, stop) := by
  unfold newEntry
  simp only
  split_ifs
  · rfl
  · rfl

theorem numbered_newEntries (rel : String) (start : Nat) (ends : List Nat) :
    ∀ (drafts : List EpisodeDraft) (num : Int) (p : Nat), drafts.length = ends.length →
      Numbered rt num (newEntries products rel start num (start + p : Nat) (drafts.zip ends))
        (cutSpans rel start p ends) := by
  induction ends with
  | nil =>
    intro drafts num p same
    rw [List.length_eq_zero_iff.mp same]
    trivial
  | cons stop ends ih =>
    intro drafts num p same
    cases drafts with
    | nil => cases same
    | cons draft drafts =>
      refine ⟨?_, ih drafts (num + 1) stop (Nat.succ.inj same)⟩
      rw [readEntry_newEntry]
      rfl

theorem fingerprints_match (rt : Runtime) (sources : Sources) :
    mismatchedSourceFingerprints rt (some (fingerprintsJson rt sources)) sources = [] := by
  have distinct : ((computeSourceFingerprints rt sources).map Prod.fst).Nodup := by
    unfold computeSourceFingerprints
    rw [List.map_map]
    exact sources.distinct
  unfold mismatchedSourceFingerprints fingerprintsJson
  simp only
  have none_ : (List.filter (fun field : String × Json => field.2.str?.any fun fingerprint =>
      (computeSourceFingerprints rt sources).lookup field.1 != some fingerprint)
      ((computeSourceFingerprints rt sources).map fun field => (field.1, Json.str field.2))) = [] := by
    rw [List.filter_eq_nil_iff]
    intro field member
    obtain ⟨recorded, listed, same⟩ := List.mem_map.mp member
    have found := (Dict.lookup_eq_some_iff distinct recorded.1 recorded.2).mpr listed
    rw [← same]
    simp [Json.str?, found]
  rw [none_]
  rfl

theorem numbered_kept {n : Int} {items : List Json} (numbered : Numbered rt n items spans) :
    (items.filter fun entry => !entry.isNull) = items := by
  rw [List.filter_eq_self]
  intro entry member
  obtain ⟨num, range, -, -, known, -⟩ := numbered_mem numbered member
  have object := (entryNum_eq_some.mp known).1
  cases entry with
  | obj fields => rfl
  | _ => cases object

/-- A batch that the planner may commit after a position. -/
structure Batch.Fits (sources : Sources) (position : Option (String × Nat)) (batch : Batch)
    (start : Nat) : Prop where
  start_eq : batch.start = start
  continues : Continues sources position batch.rel start
  drafts : batch.drafts.length = batch.ends.length
  ends : batch.ends ≠ []
  inside : ∃ doc ∈ sources.docs, doc.relPath = batch.rel ∧
    ∃ last, Ascends 0 batch.ends last ∧ start + last ≤ doc.text.length

theorem recorded_commit {batch : Batch} {start : Nat} {s t : ProjectState}
    (recorded : Recorded rt sources spans s.project)
    (fits : batch.Fits sources (endOf none spans) start)
    (committed : commitBatch rt sources products batch s = .ok t) :
    Recorded rt sources (spans ++ cutSpans batch.rel start 0 batch.ends) t.project := by
  obtain ⟨checked, -, -, entries, files, iterated, -, done⟩ := commitBatch_cases committed
  obtain ⟨items, listed, numbered⟩ := recorded.entries
  rw [register_of_checked listed numbered checked] at iterated done
  have same : items = entries := Option.some.inj iterated
  subst same
  have count : ((items.filterMap (entryNum rt)).filter fun num => decide (0 < num)).foldl max 0 =
      (spans.length : Int) := by
    have largest := numbered_max numbered (by omega)
    rwa [sub_self, zero_add] at largest
  have later : Numbered rt (1 + spans.length)
      (newEntries products batch.rel batch.start (spans.length + 1) batch.start
        (batch.drafts.zip batch.ends)) (cutSpans batch.rel start 0 batch.ends) := by
    rw [fits.start_eq, add_comm (1 : Int)]
    exact numbered_newEntries batch.rel start batch.ends batch.drafts _ 0 fits.drafts
  have whole := numbered_append numbered later
  simp only [numbered_kept numbered, count, numbered_sortIfPossible whole] at done
  rw [done]
  obtain ⟨doc, member, named, last, ascends, bounded⟩ := fits.inside
  refine ⟨⟨_, rfl, whole⟩, ?_, ?_, fingerprints_match rt sources⟩
  · exact (tiles_append none spans _).mpr
      ⟨recorded.tiles, tiles_cutSpans member named fits.continues ascends bounded⟩
  · rw [endOf_append, endOf_cutSpans _ _ _ _ fits.ends, fits.start_eq]
    rfl

theorem startAfter_listed {rel : String} {offset : Nat} (tiles : Tiles sources none spans)
    (begins : startAfter sources (endOf none spans) = some (rel, offset)) :
    sourcesFrom rel sources.docs ≠ [] := by
  cases final : endOf none spans with
  | none =>
    rw [final] at begins
    obtain ⟨doc, top, same⟩ := Option.map_eq_some_iff.mp begins
    exact sourcesFrom_of_mem (List.mem_of_head? top) (Prod.mk.inj same).1
  | some position =>
    rw [final] at begins
    have here : position = (rel, offset) := Option.some.inj begins
    rw [endOf, Option.or_none, here] at final
    obtain ⟨span, last, same⟩ := Option.map_eq_some_iff.mp final
    obtain ⟨before, split⟩ := List.getLast?_eq_some_iff.mp last
    rw [split, tiles_append] at tiles
    obtain ⟨doc, member, named, -⟩ := tiles.2.2.1.2
    exact sourcesFrom_of_mem member (named.trans (Prod.mk.inj same).1)

/-- Cuts of a window are cuts of its text. -/
theorem window_fits {text : List Char} {start last : Nat} {stop : Int} {ends : List Nat}
    (ascends : Ascends 0 ends last) (some_ : ends ≠ [])
    (bounded : last ≤ (PyText.slice text start stop).length) : start + last ≤ text.length := by
  have positive : 0 < last := by
    cases ends with
    | nil => exact absurd rfl some_
    | cons first ends =>
      have rises := ascends.1
      have further := ascends_le ascends.2
      omega
  unfold PyText.slice at bounded
  rw [List.length_drop, List.length_take, PyText.bound_of_nat] at bounded
  omega

theorem settingInt_pos (value : Option Json) {default : Nat} (positive : 0 < default) :
    0 < settingInt value default := by
  unfold settingInt
  split
  · split_ifs
    · omega
    · exact positive
  · exact positive

/-- What a plan can do: record the fingerprints of exhausted sources, or commit a batch. -/
theorem plan_cases {seen s t : ProjectState} {answers : List (Option (List EpisodeDraft))}
    (planned : plan rt sources products seen answers s = .ok t) :
    ∃ startRef text, sourceText rt sources startRef.1 = .ok text ∧
      ((∃ project, backfillSourceFingerprints rt sources project startRef.1 s = .ok t) ∨
        ∃ rel start text' stop snap maxEpisodes drafts ends,
          firstWithText startRef.1 text startRef.2 (sourcesFrom startRef.1 sources.docs).tail =
            some (rel, start, text') ∧ 0 < maxEpisodes ∧
          requestValidatedDrafts rt (PyText.slice text' start stop) snap maxEpisodes maxPlanAttempts
            answers = .ok (drafts, ends) ∧
          commitBatch rt sources products ⟨startRef, rel, start, text', drafts, ends⟩ s = .ok t) := by
  unfold plan at planned
  simp only at planned
  obtain ⟨_, -, planned⟩ := bind_eq_ok.mp planned
  obtain ⟨_, -, planned⟩ := bind_eq_ok.mp planned
  obtain ⟨startRef, -, planned⟩ := bind_eq_ok.mp planned
  obtain ⟨text, read, planned⟩ := bind_eq_ok.mp planned
  obtain ⟨-, planned⟩ := throwIf_eq_ok.mp planned
  refine ⟨startRef, text, read, ?_⟩
  split at planned
  case h_1 exhausted => exact .inl ⟨_, planned⟩
  case h_2 rel start text' found =>
    obtain ⟨accepted, requested, committed⟩ := bind_eq_ok.mp planned
    exact .inr ⟨rel, start, text', _, _, _, accepted.1, accepted.2, found,
      settingInt_pos _ (by decide), requested, committed⟩

theorem recorded_backfill {seen : Project} {rel : String} {s t : ProjectState}
    (recorded : Recorded rt sources spans s.project)
    (filled : backfillSourceFingerprints rt sources seen rel s = .ok t) :
    Recorded rt sources spans t.project := by
  unfold backfillSourceFingerprints at filled
  simp only at filled
  split at filled
  · rwa [← Except.ok.inj filled]
  · obtain ⟨_, -, filled⟩ := bind_eq_ok.mp filled
    obtain ⟨-, filled⟩ := throwIf_eq_ok.mp filled
    rw [← Except.ok.inj filled]
    exact ⟨recorded.entries, recorded.tiles, recorded.cursor, fingerprints_match rt sources⟩

theorem backfill_files {seen : Project} {rel : String} {s t : ProjectState}
    (filled : backfillSourceFingerprints rt sources seen rel s = .ok t) : t.files = s.files := by
  unfold backfillSourceFingerprints at filled
  simp only at filled
  split at filled
  · rw [← Except.ok.inj filled]
  · obtain ⟨_, -, filled⟩ := bind_eq_ok.mp filled
    rw [← Except.ok.inj (throwIf_eq_ok.mp filled).2]

/-- A plan on a recorded ledger records fingerprints, or commits a batch that fits. -/
theorem plan_outcome {seen s t : ProjectState} {answers : List (Option (List EpisodeDraft))}
    (recorded : Recorded rt sources spans s.project)
    (planned : plan rt sources products seen answers s = .ok t) :
    (∃ project rel, backfillSourceFingerprints rt sources project rel s = .ok t) ∨
      ∃ batch start, Batch.Fits sources (endOf none spans) batch start ∧
        commitBatch rt sources products batch s = .ok t := by
  obtain ⟨startRef, text, read, done⟩ := plan_cases planned
  cases done with
  | inl exhausted =>
    obtain ⟨project, filled⟩ := exhausted
    exact .inl ⟨project, _, filled⟩
  | inr batch =>
    obtain ⟨rel, start, text', stop, snap, maxEpisodes, drafts, ends, found, positive, requested,
      committed⟩ := batch
    obtain ⟨checked, begins, -⟩ := commitBatch_cases committed
    obtain ⟨items, listed, numbered⟩ := recorded.entries
    rw [register_of_checked listed numbered checked] at begins
    obtain ⟨offset, measured, after⟩ := effectiveStart_recorded begins rfl numbered recorded.cursor
    rw [measured] at found
    obtain ⟨begin, same, continues, doc, member, named, owned⟩ :=
      firstWithText_continues after (startAfter_listed recorded.tiles after) read found
    obtain ⟨some_, length, last, ascends, bounded⟩ :=
      requestValidatedDrafts_spec positive maxPlanAttempts answers requested
    have cut : ends ≠ [] := by
      intro none_
      rw [none_] at length
      exact some_ (List.length_eq_zero_iff.mp length.symm)
    rw [same] at bounded
    have fits : Batch.Fits sources (endOf none spans) ⟨startRef, rel, start, text', drafts, ends⟩
        begin := by
      refine ⟨same, continues, length.symm, cut, doc, member, named, last, ascends, ?_⟩
      rw [owned]
      exact window_fits ascends cut bounded
    exact .inr ⟨_, begin, fits, committed⟩

theorem recorded_plan {seen s t : ProjectState} {answers : List (Option (List EpisodeDraft))}
    (recorded : Recorded rt sources spans s.project)
    (planned : plan rt sources products seen answers s = .ok t) :
    ∃ spans', Recorded rt sources spans' t.project := by
  cases plan_outcome recorded planned with
  | inl exhausted =>
    obtain ⟨project, rel, filled⟩ := exhausted
    exact ⟨spans, recorded_backfill recorded filled⟩
  | inr committed =>
    obtain ⟨batch, start, fits, done⟩ := committed
    exact ⟨_, recorded_commit recorded fits done⟩

end Planning

end ArcReel.Episode
