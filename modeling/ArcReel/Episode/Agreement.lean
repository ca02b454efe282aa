import ArcReel.Lib.Run
import ArcReel.Episode.Recorded
import ArcReel.Episode.Reset

/-! Planner and resetter agree on the ledger, over every sequence of their calls. -/

namespace ArcReel.Episode
open ArcReel.Lib

/-! What the resetter looks up in the sources. -/

section Sources

variable {sources : Sources} {before after : List SourceDoc} {doc : SourceDoc}

theorem absent_before (split : sources.docs = before ++ doc :: after) {other : SourceDoc}
    (member : other ∈ before) : other.relPath ≠ doc.relPath := by
  intro same
  have distinct := sources.distinct
  rw [split, List.map_append, List.nodup_append] at distinct
  exact distinct.2.2 _ (List.mem_map_of_mem member) _ (List.mem_map_of_mem (.head _)) same

theorem sourceIndex_split (split : sources.docs = before ++ doc :: after) :
    sourceIndex sources doc.relPath = some before.length := by
  unfold sourceIndex
  have missing : before.findIdx? (fun other => other.relPath == doc.relPath) = none := by
    rw [List.findIdx?_eq_none_iff]
    intro other member
    exact beq_false_of_ne (absent_before split member)
  rw [split, List.findIdx?_append, missing, Option.none_or, List.findIdx?_cons, beq_self_eq_true]
  simp

theorem textByRel_split (split : sources.docs = before ++ doc :: after) :
    textByRel sources doc.relPath = some doc.text := by
  unfold textByRel
  have missing : before.find? (fun other => other.relPath == doc.relPath) = none := by
    rw [List.find?_eq_none]
    intro other member
    simpa using absent_before split member
  rw [split, List.find?_append, missing, Option.none_or, List.find?_cons, beq_self_eq_true]
  rfl

theorem textByRel_of_mem (member : doc ∈ sources.docs) :
    textByRel sources doc.relPath = some doc.text := by
  obtain ⟨before, after, split⟩ := List.append_of_mem member
  exact textByRel_split split

theorem startsLedger_first (split : sources.docs = before ++ doc :: after)
    (blank : ∀ other ∈ before, PyText.isBlank other.text = true) :
    startsLedger sources doc.relPath 0 = true := by
  unfold startsLedger
  rw [sourceIndex_split split, split]
  simpa using blank

theorem switchesSource_over {between : List SourceDoc} {old : SourceDoc} {stop : Nat}
    (split : sources.docs = before ++ old :: (between ++ doc :: after))
    (rest : PyText.isBlank (old.text.drop stop) = true)
    (blank : ∀ other ∈ between, PyText.isBlank other.text = true) :
    switchesSource sources old.relPath stop doc.relPath = true := by
  have later : sources.docs = (before ++ old :: between) ++ doc :: after := by
    rw [split]
    simp
  have window : (sources.docs.take (before ++ old :: between).length).drop (before.length + 1) =
      between := by
    rw [later, List.take_left]
    simp
  unfold switchesSource
  rw [sourceIndex_split split, sourceIndex_split later, textByRel_split split]
  simp only [window, PyText.sliceFrom_of_nat, rest, Bool.and_true, Bool.and_eq_true,
    decide_eq_true_eq, List.all_eq_true]
  exact ⟨by simp, blank⟩

end Sources

/-- A position as the resetter holds it. -/
def toCursor (position : Option (String × Nat)) : Option (String × Int) :=
  position.map fun place => (place.1, (place.2 : Int))

/-- A span that continues the position passes the check of the resetter. -/
theorem checkRetained_continues {rt : Runtime} {sources : Sources} {entry : Json} {num : Int}
    {span : Span} {prev : Option (String × Nat)}
    (read : readEntry rt entry = some (num, span.rel, (span.start : Int), (span.stop : Int)))
    (continues : Continues sources prev span.rel span.start) (inside : span.Inside sources)
    (first : prev = none → num = 1) :
    checkRetained sources num entry (toCursor prev) = .ok (some (span.rel, (span.stop : Int))) := by
  obtain ⟨rises, owner, member, named, bounded⟩ := inside
  have text := textByRel_of_mem member
  rw [named] at text
  have proper : (0 : Int) ≤ span.start ∧ (span.start : Int) < span.stop ∧
      (span.stop : Int) ≤ owner.text.length := by omega
  unfold checkRetained
  simp only [(readEntry_eq_some.mp read).2, text, proper, and_self, not_true_eq_false, if_false]
  cases prev with
  | none =>
    obtain ⟨zero, before, doc, after, split, same, blank, -⟩ := continues
    have starts := startsLedger_first split blank
    rw [same] at starts
    simp only [toCursor, Option.map_none, first rfl, zero, Nat.cast_zero, starts, ne_eq,
      not_true_eq_false, if_false, if_true]
  | some position =>
    simp only [toCursor, Option.map_some]
    cases continues with
    | inl same => rw [if_pos same.1, if_pos (by rw [same.2])]
    | inr hop =>
      obtain ⟨zero, before, old, between, doc, after, split, named', same, rest, blank⟩ := hop
      have apart : span.rel ≠ position.1 := by
        rw [← same, ← named']
        have later : sources.docs = (before ++ old :: between) ++ doc :: after := by
          rw [split]
          simp
        exact (absent_before later (by simp)).symm
      have switches := switchesSource_over split rest blank
      rw [named', same] at switches
      rw [if_neg apart]
      simp [switches, zero]

/-! The resetter reads a recorded ledger back. -/

section Resetting

variable {rt : Runtime} {sources : Sources} {n : Int} {items : List Json} {spans : List Span}

/-- The numbers `n, n + 1, …` with the items. -/
def numberFrom : Int → List Json → List (Int × Json)
  | _, [] => []
  | n, entry :: items => (n, entry) :: numberFrom (n + 1) items

theorem numberFrom_ge {n : Int} {items : List Json} {num : Int}
    (member : num ∈ (numberFrom n items).map Prod.fst) : n ≤ num := by
  induction items generalizing n with
  | nil => cases member
  | cons entry items ih =>
    rw [numberFrom, List.map_cons] at member
    cases List.mem_cons.mp member with
    | inl same => exact le_of_eq same.symm
    | inr later =>
      have deeper := ih later
      omega

theorem numberFrom_lt {n : Int} {items : List Json} {num : Int}
    (member : num ∈ (numberFrom n items).map Prod.fst) : num < n + items.length := by
  induction items generalizing n with
  | nil => cases member
  | cons entry items ih =>
    rw [numberFrom, List.map_cons] at member
    rw [List.length_cons]
    push_cast
    cases List.mem_cons.mp member with
    | inl same => omega
    | inr later =>
      have deeper := ih later
      omega

theorem mem_numberFrom {n : Int} {items : List Json} {num : Int} (low : n ≤ num)
    (high : num < n + items.length) : num ∈ (numberFrom n items).map Prod.fst := by
  induction items generalizing n with
  | nil =>
    rw [List.length_nil] at high
    omega
  | cons entry items ih =>
    rw [List.length_cons] at high
    push_cast at high
    rw [numberFrom, List.map_cons, List.mem_cons]
    by_cases same : num = n
    · exact .inl same
    · exact .inr (ih (by omega) (by omega))

theorem numberFrom_sorted (n : Int) (items : List Json) :
    ((numberFrom n items).map Prod.fst).insertionSort (· ≤ ·) = (numberFrom n items).map Prod.fst := by
  apply List.Pairwise.insertionSort_eq
  induction items generalizing n with
  | nil => exact .nil
  | cons entry items ih =>
    refine .cons ?_ (ih (n + 1))
    intro num member
    have further := numberFrom_ge member
    omega

/-- No number is missing before one that the ledger reaches. -/
theorem firstGap_numberFrom {n k : Int} (items : List Json) (low : n ≤ k)
    (high : k ≤ n + items.length) :
    firstGap (((numberFrom n items).map Prod.fst).filter fun num => decide (num < k)) n = k := by
  induction items generalizing n with
  | nil =>
    rw [List.length_nil] at high
    have same : n = k := by omega
    exact same
  | cons entry items ih =>
    rw [List.length_cons] at high
    push_cast at high
    rw [numberFrom, List.map_cons]
    by_cases below : n < k
    · rw [List.filter_cons_of_pos (by simpa using below), firstGap, if_pos rfl]
      exact ih (by omega) (by omega)
    · have none_ : ((numberFrom (n + 1) items).map Prod.fst).filter (fun num => decide (num < k)) =
          [] := by
        rw [List.filter_eq_nil_iff]
        intro num member
        have further := numberFrom_ge member
        rw [decide_eq_true_eq]
        omega
      rw [List.filter_cons_of_neg (by simpa using below), none_, firstGap]
      omega

theorem entriesByNum_numbered (numbered : Numbered rt n items spans) (positive : 1 ≤ n) :
    ∀ found : Dict Int Json, (∀ key ∈ found.keys, key < n) →
      ∃ dict, entriesByNum rt items found = .ok dict ∧
        dict.entries = found.entries ++ numberFrom n items := by
  induction spans generalizing n items with
  | nil =>
    intro found below
    cases items with
    | nil => exact ⟨found, rfl, (List.append_nil _).symm⟩
    | cons entry items => exact numbered.elim
  | cons span spans ih =>
    intro found below
    cases items with
    | nil => exact numbered.elim
    | cons entry items =>
      have known := entryNum_eq_some.mp (readEntry_eq_some.mp numbered.1).1
      have new : n ∉ found.keys := fun member => absurd (below n member) (lt_irrefl n)
      have further : ∀ key ∈ (found.set n entry).keys, key < n + 1 := by
        intro key member
        cases (Dict.mem_keys_set found n key entry).mp member with
        | inl old =>
          have smaller := below key old
          omega
        | inr same => omega
      obtain ⟨dict, rest, listed⟩ := ih numbered.2 (by omega) (found.set n entry) further
      refine ⟨dict, ?_, ?_⟩
      · simp only [entriesByNum, known.1, known.2, Bool.not_true, Bool.false_eq_true, if_false,
          not_lt.mpr positive, new]
        exact rest
      · rw [listed, Dict.entries_set_new new, numberFrom, List.append_assoc]
        rfl

theorem checkAllRetained_tiles {dict : Dict Int Json} (count : Nat) :
    ∀ {n : Int} {items : List Json} {spans : List Span} {prev : Option (String × Nat)},
      Numbered rt n items spans → Tiles sources prev spans → (prev = none → n = 1) →
        (∀ field ∈ numberFrom n items, dict.get? field.1 = some field.2) → count ≤ spans.length →
          checkAllRetained sources dict count n (toCursor prev) =
            .ok (toCursor (endOf prev (spans.take count))) := by
  induction count with
  | zero =>
    intro n items spans prev numbered tiles first known bounded
    rw [List.take_zero]
    rfl
  | succ count ih =>
    intro n items spans prev numbered tiles first known bounded
    cases spans with
    | nil => cases bounded
    | cons span spans =>
      cases items with
      | nil => exact numbered.elim
      | cons entry items =>
        have here : dict.get? n = some entry := known (n, entry) (.head _)
        have passed := checkRetained_continues numbered.1 tiles.1 tiles.2.1 first
        rw [checkAllRetained, here, Option.getD_some, passed, List.take_succ_cons, endOf_cons]
        exact ih numbered.2 tiles.2.2 (fun none_ => nomatch none_)
          (fun field member => known field (.tail _ member)) (Nat.le_of_succ_le_succ bounded)

theorem endOf_take {prev : Option (String × Nat)} {count : Nat} {span : Span}
    (found : spans[count]? = some span) :
    endOf prev (spans.take (count + 1)) = some (span.rel, span.stop) := by
  rw [List.take_add_one, found, endOf_append]
  rfl

/-- The resetter accepts every episode of a recorded ledger but the first, and answers the end of
the episode before it. -/
theorem resolvePartialResetCursor_recorded {project : Project}
    (recorded : Recorded rt sources spans project) {k : Nat} (low : 2 ≤ k)
    (high : k ≤ spans.length) {span : Span} (before : spans[k - 2]? = some span) :
    resolvePartialResetCursor rt sources project k = .ok (span.rel, (span.stop : Int)) := by
  obtain ⟨items, listed, numbered⟩ := recorded.entries
  have length := numbered_length numbered
  have present : project.episodes = some (.arr items) := by
    cases episodes : project.episodes with
    | some json =>
      rw [episodes] at listed
      exact congrArg some listed
    | none =>
      rw [episodes] at listed
      have empty : [] = items := Json.arr.inj listed
      rw [← empty, List.length_nil] at length
      omega
  obtain ⟨dict, read, entries⟩ := entriesByNum_numbered numbered (le_refl 1) .empty (by simp)
  have keys : dict.keys = (numberFrom 1 items).map Prod.fst := by
    rw [Dict.keys, entries]
    rfl
  have member : (k : Int) ∈ dict.keys := by
    rw [keys]
    exact mem_numberFrom (by omega) (by omega)
  have gap := firstGap_numberFrom (n := 1) (k := k) items (by omega) (by omega)
  have known : ∀ field ∈ numberFrom 1 items, dict.get? field.1 = some field.2 := by
    intro field found
    rw [Dict.get?_eq_some_iff, entries]
    exact List.mem_append.mpr (.inr found)
  have retained := checkAllRetained_tiles (k - 1) numbered recorded.tiles (fun _ => rfl) known
    (by omega)
  have earlier : k - 1 = k - 2 + 1 := by omega
  rw [earlier, endOf_take before] at retained
  have count : ((k : Int) - 1).toNat = k - 2 + 1 := by omega
  unfold resolvePartialResetCursor
  simp only [present]
  refine bind_eq_ok.mpr ⟨dict, read, ?_⟩
  refine throwIf_eq_ok.mpr ⟨not_not.mpr member, throwIf_eq_ok.mpr ⟨?_, throwIf_eq_ok.mpr ⟨?_, ?_⟩⟩⟩
  · rw [keys, numberFrom_sorted, gap]
    exact not_not.mpr rfl
  · rw [recorded.fingerprints]
    exact not_not.mpr rfl
  · refine bind_eq_ok.mpr ⟨some (span.rel, (span.stop : Int)), ?_, rfl⟩
    rw [count]
    exact retained

/-- The entries that a partial reset keeps are the first ones. -/
theorem filter_numbered (numbered : Numbered rt n items spans) (k : Int) :
    (items.filter fun entry =>
      entry.isObj && decide ((parseEpisodeNum rt (entry.get "episode")).getD 0 < k)) =
        items.take (k - n).toNat := by
  induction spans generalizing n items with
  | nil =>
    cases items with
    | nil => rw [List.take_nil]; rfl
    | cons entry items => exact numbered.elim
  | cons span spans ih =>
    cases items with
    | nil => exact numbered.elim
    | cons entry items =>
      have known := entryNum_eq_some.mp (readEntry_eq_some.mp numbered.1).1
      rw [List.filter_cons, known.1, known.2, ih numbered.2, Bool.true_and, Option.getD_some]
      by_cases below : n < k
      · have count : (k - n).toNat = (k - (n + 1)).toNat + 1 := by omega
        rw [if_pos (by simpa using below), count, List.take_succ_cons]
      · have count : (k - n).toNat = 0 := by omega
        have count' : (k - (n + 1)).toNat = 0 := by omega
        rw [if_neg (by simpa using below), count, count']
        rfl

theorem retainedEntries_numbered (numbered : Numbered rt 1 items spans) (k : Int) :
    retainedEntries rt k items = items.take (k - 1).toNat := by
  unfold retainedEntries
  rw [filter_numbered numbered]
  exact numbered_sorted (numbered_take numbered _)

theorem known_of_resolved {project : Project} {k : Int} {cursor : String × Int}
    (listed : project.episodes.getD (.arr []) = .arr items) (numbered : Numbered rt 1 items spans)
    (resolved : resolvePartialResetCursor rt sources project k = .ok cursor) :
    project.episodes = some (.arr items) ∧ 1 ≤ k ∧ k ≤ spans.length := by
  unfold resolvePartialResetCursor at resolved
  split at resolved
  case h_1 items' episodes =>
    rw [episodes, Option.getD_some] at listed
    have same : items' = items := Json.arr.inj listed
    subst same
    obtain ⟨dict, read, entries⟩ := entriesByNum_numbered numbered (le_refl 1) .empty (by simp)
    rw [read] at resolved
    have member := not_not.mp (throwIf_eq_ok.mp resolved).1
    rw [Dict.keys, entries] at member
    have low := numberFrom_ge member
    have high := numberFrom_lt member
    rw [numbered_length numbered] at high
    exact ⟨episodes, low, by omega⟩
  case h_2 => cases resolved

/-- What a reset can do: ask for a confirmation, clear the ledger, or cut it. -/
theorem resetEpisodePlanning_cases {products : Products} {seen s t : ProjectState} {k : Int}
    {confirm : Bool} {outcome : ResetOutcome}
    (done : resetEpisodePlanning rt sources products seen k confirm s = .ok (outcome, t)) :
    t = s ∨
    t.project = { s.project with
      episodes := some (.arr []), planningCursor := some .null, sourceFingerprints := none } ∨
    1 < k ∧ ∃ cursor, resolvePartialResetCursor rt sources s.project k = .ok cursor ∧
      t.project = { s.project with
        episodes := some (.arr (retainedEntries rt k
          ((s.project.episodes.getD .null).iterate?.getD [])))
        planningCursor := some (.obj [("source_file", .str cursor.1),
          ("offset", .int cursor.2)]) } ∧
      t.files = applyFiles (scan rt products s k) s.files := by
  unfold resetEpisodePlanning at done
  simp only at done
  obtain ⟨-, done⟩ := throwIf_eq_ok.mp done
  by_cases later : 1 < k
  · simp only [if_pos later] at done
    obtain ⟨_, -, done⟩ := bind_eq_ok.mp done
    split at done
    · exact .inl (Prod.mk.inj (Except.ok.inj done)).2.symm
    · obtain ⟨cursor, resolved, done⟩ := bind_eq_ok.mp done
      rw [pure_bind] at done
      obtain ⟨-, done⟩ := throwIf_eq_ok.mp done
      rw [← (Prod.mk.inj (Except.ok.inj done)).2]
      exact .inr (.inr ⟨later, cursor, resolved, rfl, rfl⟩)
  · simp only [if_neg later] at done
    split at done
    · exact .inl (Prod.mk.inj (Except.ok.inj done)).2.symm
    · rw [pure_bind] at done
      obtain ⟨-, done⟩ := throwIf_eq_ok.mp done
      rw [← (Prod.mk.inj (Except.ok.inj done)).2]
      exact .inr (.inl rfl)

/-- A ledger cut before an episode records the spans before it. -/
theorem recorded_cut {project : Project} {k : Int} {cursor : String × Int}
    (recorded : Recorded rt sources spans project) (later : 1 < k)
    (resolved : resolvePartialResetCursor rt sources project k = .ok cursor) :
    ∃ count : Nat, k = (count : Int) + 1 ∧ count + 1 ≤ spans.length ∧
      Recorded rt sources (spans.take count) { project with
        episodes := some (.arr (retainedEntries rt k ((project.episodes.getD .null).iterate?.getD [])))
        planningCursor := some (.obj [("source_file", .str cursor.1), ("offset", .int cursor.2)]) } := by
  obtain ⟨items, listed, numbered⟩ := recorded.entries
  obtain ⟨episodes, -, high⟩ := known_of_resolved listed numbered resolved
  obtain ⟨count, rfl⟩ : ∃ count : Nat, k = count := ⟨k.toNat, by omega⟩
  have inside : count - 2 < spans.length := by omega
  have before : spans[count - 2]? = some spans[count - 2] := List.getElem?_eq_getElem inside
  have found := resolvePartialResetCursor_recorded recorded (by omega) (by omega) before
  rw [resolved] at found
  have kept : ((count : Int) - 1).toNat = count - 2 + 1 := by omega
  rw [Except.ok.inj found, episodes]
  refine ⟨count - 2 + 1, by omega, by omega, ⟨items.take (count - 2 + 1), ?_,
    numbered_take numbered _⟩, tiles_take recorded.tiles _, ?_, recorded.fingerprints⟩
  · rw [← kept]
    exact congrArg Json.arr (retainedEntries_numbered numbered count)
  · rw [endOf_take before]
    rfl

theorem recorded_cleared {project : Project} : Recorded rt sources [] { project with
    episodes := some (.arr []), planningCursor := some .null, sourceFingerprints := none } :=
  ⟨⟨[], rfl, trivial⟩, trivial, .inr rfl, rfl⟩

theorem recorded_reset {products : Products} {seen s t : ProjectState} {k : Int} {confirm : Bool}
    {outcome : ResetOutcome} (recorded : Recorded rt sources spans s.project)
    (done : resetEpisodePlanning rt sources products seen k confirm s = .ok (outcome, t)) :
    ∃ spans', Recorded rt sources spans' t.project := by
  cases resetEpisodePlanning_cases done with
  | inl asked =>
    rw [asked]
    exact ⟨spans, recorded⟩
  | inr changed =>
    cases changed with
    | inl cleared =>
      rw [cleared]
      exact ⟨[], recorded_cleared⟩
    | inr cut =>
      obtain ⟨later, cursor, resolved, project, -⟩ := cut
      obtain ⟨count, -, -, kept⟩ := recorded_cut recorded later resolved
      rw [project]
      exact ⟨_, kept⟩

end Resetting

/-- A call of the planner or of the resetter, with what it has read before its commit. -/
inductive Call where
  | plan (products : Products) (seen : ProjectState) (answers : List (Option (List EpisodeDraft)))
  | reset (products : Products) (seen : ProjectState) (fromEpisode : Int) (confirmConsumed : Bool)

/-- The state after a call that succeeds. -/
def call (rt : Runtime) (sources : Sources) (s : ProjectState) : Call → Option ProjectState
  | .plan products seen answers => (plan rt sources products seen answers s).toOption
  | .reset products seen fromEpisode confirmConsumed =>
      ((resetEpisodePlanning rt sources products seen fromEpisode confirmConsumed s).map
        Prod.snd).toOption

/-- No episodes, no planning position and no recorded sources. -/
structure EmptyLedger (project : Project) : Prop where
  episodes : project.episodes = none ∨ project.episodes = some (.arr [])
  cursor : project.planningCursor = none ∨ project.planningCursor = some .null
  fingerprints : project.sourceFingerprints = none

theorem recorded_empty {rt : Runtime} {sources : Sources} {project : Project}
    (empty : EmptyLedger project) : Recorded rt sources [] project := by
  refine ⟨⟨[], ?_, trivial⟩, trivial, empty.cursor, ?_⟩
  · cases empty.episodes with
    | inl missing => rw [missing]; rfl
    | inr none_ => rw [none_]; rfl
  · rw [empty.fingerprints]
    rfl

theorem call_plan {rt : Runtime} {sources : Sources} {products : Products} {seen s t : ProjectState}
    {answers : List (Option (List EpisodeDraft))}
    (called : call rt sources s (.plan products seen answers) = some t) :
    plan rt sources products seen answers s = .ok t := by
  simp only [call] at called
  cases planned : plan rt sources products seen answers s with
  | error error => rw [planned] at called; cases called
  | ok next =>
    rw [planned] at called
    rw [← Option.some.inj called]

theorem call_reset {rt : Runtime} {sources : Sources} {products : Products}
    {seen s t : ProjectState} {fromEpisode : Int} {confirmConsumed : Bool}
    (called : call rt sources s (.reset products seen fromEpisode confirmConsumed) = some t) :
    ∃ outcome,
      resetEpisodePlanning rt sources products seen fromEpisode confirmConsumed s = .ok (outcome, t) := by
  simp only [call] at called
  cases done : resetEpisodePlanning rt sources products seen fromEpisode confirmConsumed s with
  | error error => rw [done] at called; cases called
  | ok result =>
    rw [done] at called
    rw [← Option.some.inj called]
    exact ⟨result.1, rfl⟩

theorem recorded_call {rt : Runtime} {sources : Sources} {s t : ProjectState} {next : Call}
    (recorded : ∃ spans, Recorded rt sources spans s.project)
    (called : call rt sources s next = some t) : ∃ spans, Recorded rt sources spans t.project := by
  obtain ⟨spans, recorded⟩ := recorded
  cases next with
  | plan products seen answers => exact recorded_plan recorded (call_plan called)
  | reset products seen fromEpisode confirmConsumed =>
    obtain ⟨outcome, done⟩ := call_reset called
    exact recorded_reset recorded done

/-- After every sequence of successful calls from an empty ledger, the episodes tile the sources,
the cursor is their end, and the resetter accepts every episode after the first. -/
theorem planner_and_resetter_agree (rt : Runtime) (sources : Sources) (calls : List Call)
    (s t : ProjectState) (empty : EmptyLedger s.project)
    (ran : runSteps (call rt sources) calls s = some t) :
    ∃ spans, Recorded rt sources spans t.project ∧
      ∀ k, 2 ≤ k → k ≤ spans.length → ∃ span, spans[k - 2]? = some span ∧
        resolvePartialResetCursor rt sources t.project k = .ok (span.rel, (span.stop : Int)) := by
  have kept : ∃ spans, Recorded rt sources spans t.project :=
    runSteps_induct (fun _ _ _ before stepped => recorded_call before stepped)
      ⟨[], recorded_empty empty⟩ ran
  obtain ⟨spans, recorded⟩ := kept
  refine ⟨spans, recorded, ?_⟩
  intro k low high
  have before : spans[k - 2]? = some spans[k - 2] := List.getElem?_eq_getElem (by omega)
  exact ⟨_, before, resolvePartialResetCursor_recorded recorded low high before⟩

private def shortBook : List Char := "One. Two. Three.".toList

private def shortSources : Sources := ⟨[⟨"source/book.txt", shortBook⟩], by decide⟩

/-- ASCII text is its own normal form; the digest is that of the short book. -/
private def shortRuntime : Runtime where
  nfc := id
  otherDigits := fun _ => none
  sha256 := fun text => if text = shortBook then
    "a8db19f2ee4707812db67e59473f91f26b3201fb93ac4d8865e95c513cdb47d7" else ""
  readText := fun _ => none
  stretch := fun n => n * 12 / 10

private def noProducts : Products := ⟨fun _ => false, [], [], fun _ => .null⟩

private def freshProject : ProjectState := ⟨⟨some (.arr []), none, none, none, none⟩, .empty⟩

private def draftTo (anchor : String) : EpisodeDraft := ⟨"Title", "Hook", anchor.toList, none⟩

/-- The first answer of the model is not a plan. -/
private def planThree : Call := .plan noProducts freshProject
  [none, some [draftTo "One.", draftTo "Two.", draftTo "Three."]]

private def plannedProject : ProjectState :=
  (call shortRuntime shortSources freshProject planThree).getD freshProject

/-- Three episodes are planned, and the last two are planned again after a reset. -/
private def planAgain : List Call :=
  [planThree, .reset noProducts plannedProject 2 false,
    .plan noProducts
      ((call shortRuntime shortSources plannedProject
        (.reset noProducts plannedProject 2 false)).getD freshProject)
      [some [draftTo "Two.", draftTo "Three."]]]

private theorem planAgain_run :
    (runSteps (call shortRuntime shortSources) planAgain freshProject).isSome := by decide

theorem planner_and_resetter_agree_again :
    ∃ t, runSteps (call shortRuntime shortSources) planAgain freshProject = some t ∧
      ∃ spans, Recorded shortRuntime shortSources spans t.project ∧
        ∀ k, 2 ≤ k → k ≤ spans.length → ∃ span, spans[k - 2]? = some span ∧
          resolvePartialResetCursor shortRuntime shortSources t.project k =
            .ok (span.rel, (span.stop : Int)) :=
  ⟨_, (Option.some_get planAgain_run).symm,
    planner_and_resetter_agree shortRuntime shortSources planAgain freshProject _
      ⟨.inr rfl, .inl rfl, rfl⟩ (Option.some_get planAgain_run).symm⟩

end ArcReel.Episode
