import ArcReel.Transcript.Store

/-! What `load` returns is the committed log of the key, and the two listings agree. -/

namespace ArcReel.Transcript
open Lib

/-- Every row that the INSERT would add goes after the rows its key already has. -/
def goesLast (table rows : List Row) : Bool :=
  rows.all fun row => table.any row.sameUuid ||
    table.all fun old => old.key ≠ row.key || old.seq < row.seq

/-- An INSERT that succeeds was not overtaken by a row with a higher `seq`, and a delete with an
empty `subpath` is not made of a session that has a summary. -/
def inOrder (s : State) : Step → Bool
  | .insert id primaryFirst =>
    match s.calls.get? id with
    | some call =>
      match call.phase with
      | .insert _ start =>
        let rows := batchRows call.key call.nowMs start call.entries
        (insertEntries primaryFirst s.rows rows).isNone || goesLast s.rows rows
      | _ => true
    | none => true
  | .delete key =>
    key.subpath ≠ some "" || (s.summaries.get? (key.projectKey, key.sessionId)).isNone
  | _ => true

/-- The stored uuid of every row is that of its payload. -/
def Labelled (rows : List Row) : Prop := ∀ row ∈ rows, row.uuid = entryUuid row.payload

def Ascending (rows : List Row) (key : EntryKey) : Prop :=
  (rowsOf rows key).Pairwise (·.seq < ·.seq)

section Insert

variable {primaryFirst : Bool} {table after : List Row} {row : Row}

theorem insertRow_cases (done : insertRow primaryFirst table row = some after) :
    (table.any row.sameUuid = true ∧ after = table) ∨
      (table.any row.sameUuid = false ∧ after = table ++ [row]) := by
  unfold insertRow at done
  by_cases known : table.any row.sameUuid = true
  · rw [if_pos known] at done
    left
    split at done
    · cases done
    · exact ⟨known, (Option.some.inj done).symm⟩
  · rw [if_neg known] at done
    right
    split at done
    · cases done
    · exact ⟨eq_false_of_ne_true known, (Option.some.inj done).symm⟩

theorem rowsOf_append (first second : List Row) (key : EntryKey) :
    rowsOf (first ++ second) key = rowsOf first key ++ rowsOf second key := List.filter_append ..

theorem mem_rowsOf {rows : List Row} {key : EntryKey} :
    row ∈ rowsOf rows key ↔ row ∈ rows ∧ row.key = key := by
  simp [rowsOf]

theorem rowsOf_singleton (row : Row) (key : EntryKey) :
    rowsOf [row] key = if row.key = key then [row] else [] := by
  by_cases same : row.key = key <;> simp [rowsOf, same]

/-- The index lookup sees the uuids of the payloads. -/
theorem any_sameUuid (labelled : Labelled table) (rowUuid : row.uuid = entryUuid row.payload) :
    table.any row.sameUuid =
      ((rowsOf table row.key).map Row.payload).any fun old =>
        (entryUuid row.payload).isSome && entryUuid old = entryUuid row.payload := by
  rw [Bool.eq_iff_iff, List.any_eq_true, List.any_eq_true]
  constructor
  · intro found
    obtain ⟨old, member, same⟩ := found
    simp only [Row.sameUuid, Bool.and_eq_true, decide_eq_true_eq] at same
    have kept : old ∈ rowsOf table row.key := mem_rowsOf.mpr ⟨member, same.1.1⟩
    refine ⟨old.payload, List.mem_map_of_mem kept, ?_⟩
    rw [← rowUuid, ← labelled old member, same.2, same.1.2]
    simp
  · intro found
    obtain ⟨payload, member, same⟩ := found
    obtain ⟨old, kept, isPayload⟩ := List.mem_map.mp member
    have stored := mem_rowsOf.mp kept
    refine ⟨old, stored.1, ?_⟩
    simp only [Bool.and_eq_true, decide_eq_true_eq] at same
    rw [← isPayload, ← labelled old stored.1, ← rowUuid] at same
    simp only [Row.sameUuid, Bool.and_eq_true, decide_eq_true_eq]
    exact ⟨⟨stored.2, same.1⟩, same.2⟩

theorem labelled_insertRow (labelled : Labelled table) (rowUuid : row.uuid = entryUuid row.payload)
    (done : insertRow primaryFirst table row = some after) : Labelled after := by
  cases insertRow_cases done with
  | inl skipped =>
    rw [skipped.2]
    exact labelled
  | inr added =>
    rw [added.2]
    intro old member
    rw [List.mem_append, List.mem_singleton] at member
    cases member with
    | inl old => exact labelled _ old
    | inr new =>
      rw [new]
      exact rowUuid

theorem payloads_insertRow (labelled : Labelled table)
    (rowUuid : row.uuid = entryUuid row.payload)
    (done : insertRow primaryFirst table row = some after) :
    (rowsOf after row.key).map Row.payload =
      keepFirst ((rowsOf table row.key).map Row.payload) row.payload := by
  unfold keepFirst
  rw [← any_sameUuid labelled rowUuid]
  cases insertRow_cases done with
  | inl skipped => rw [if_pos skipped.1, skipped.2]
  | inr added =>
    rw [if_neg (by simp [added.1]), added.2, rowsOf_append, rowsOf_singleton, if_pos rfl,
      List.map_append]
    rfl

theorem rowsOf_insertRow {other : EntryKey} (apart : row.key ≠ other)
    (done : insertRow primaryFirst table row = some after) :
    rowsOf after other = rowsOf table other := by
  cases insertRow_cases done with
  | inl skipped => rw [skipped.2]
  | inr added => rw [added.2, rowsOf_append, rowsOf_singleton, if_neg apart, List.append_nil]

theorem ascending_insertRow (ascending : Ascending table row.key)
    (last : table.any row.sameUuid = true ∨ ∀ old ∈ table, old.key = row.key → old.seq < row.seq)
    (done : insertRow primaryFirst table row = some after) : Ascending after row.key := by
  cases insertRow_cases done with
  | inl skipped =>
    rw [skipped.2]
    exact ascending
  | inr added =>
    have below : ∀ old ∈ table, old.key = row.key → old.seq < row.seq := by
      cases last with
      | inl known =>
        rw [added.1] at known
        cases known
      | inr below => exact below
    unfold Ascending
    rw [added.2, rowsOf_append, rowsOf_singleton, if_pos rfl, List.pairwise_append]
    refine ⟨ascending, List.pairwise_singleton .., ?_⟩
    intro old member new only
    rw [List.mem_singleton.mp only]
    have stored := mem_rowsOf.mp member
    exact below old stored.1 stored.2

end Insert

section Batch

variable {primaryFirst : Bool} {key : EntryKey} {nowMs start : Nat} {entries : List Json}
  {table after : List Row}

/-- The rows of other keys are untouched, and those of the key grow by the first occurrences. -/
theorem insertEntries_spec (labelled : Labelled table)
    (done : insertEntries primaryFirst table (batchRows key nowMs start entries) = some after) :
    Labelled after ∧ (∀ other, key ≠ other → rowsOf after other = rowsOf table other) ∧
      (rowsOf after key).map Row.payload =
        entries.foldl keepFirst ((rowsOf table key).map Row.payload) := by
  induction entries generalizing start table with
  | nil =>
    rw [batchRows, insertEntries, Option.some.injEq] at done
    rw [← done]
    exact ⟨labelled, fun _ _ => rfl, rfl⟩
  | cons entry entries ih =>
    rw [batchRows, insertEntries, Option.bind_eq_some_iff] at done
    obtain ⟨between, first, rest⟩ := done
    have step := ih (labelled_insertRow labelled rfl first) rest
    refine ⟨step.1, ?_, ?_⟩
    · intro other apart
      rw [step.2.1 other apart]
      exact rowsOf_insertRow apart first
    · rw [step.2.2, List.foldl_cons]
      congr 1
      exact payloads_insertRow labelled rfl first

theorem seq_of_mem_batchRows {row : Row} (member : row ∈ batchRows key nowMs start entries) :
    start ≤ row.seq ∧ row.key = key := by
  induction entries generalizing start with
  | nil => cases member
  | cons entry entries ih =>
    rw [batchRows, List.mem_cons] at member
    cases member with
    | inl same =>
      rw [same]
      exact ⟨Nat.le_refl _, rfl⟩
    | inr later =>
      have step := ih later
      exact ⟨by omega, step.2⟩

/-- Rows that go last leave the key in ascending order. -/
theorem ascending_insertEntries (ascending : Ascending table key)
    (last : ∀ row ∈ batchRows key nowMs start entries,
      table.any row.sameUuid = true ∨ ∀ old ∈ table, old.key = key → old.seq < row.seq)
    (done : insertEntries primaryFirst table (batchRows key nowMs start entries) = some after) :
    Ascending after key := by
  induction entries generalizing start table with
  | nil =>
    rw [batchRows, insertEntries, Option.some.injEq] at done
    rw [← done]
    exact ascending
  | cons entry entries ih =>
    rw [batchRows, insertEntries, Option.bind_eq_some_iff] at done
    obtain ⟨between, first, rest⟩ := done
    rw [batchRows] at last
    refine ih (ascending_insertRow ascending (last _ List.mem_cons_self) first) ?_ rest
    intro row member
    have bound := (seq_of_mem_batchRows member).1
    cases last row (List.mem_cons_of_mem _ member) with
    | inl known =>
      left
      cases insertRow_cases first with
      | inl skipped =>
        rw [skipped.2]
        exact known
      | inr added => rw [added.2, List.any_append, known, Bool.true_or]
    | inr below =>
      right
      intro old stored sameKey
      cases insertRow_cases first with
      | inl skipped =>
        rw [skipped.2] at stored
        exact below old stored sameKey
      | inr added =>
        rw [added.2, List.mem_append, List.mem_singleton] at stored
        cases stored with
        | inl kept => exact below old kept sameKey
        | inr new =>
          rw [new]
          exact Nat.lt_of_succ_le bound

theorem last_of_goesLast (last : goesLast table (batchRows key nowMs start entries) = true) :
    ∀ row ∈ batchRows key nowMs start entries,
      table.any row.sameUuid = true ∨ ∀ old ∈ table, old.key = key → old.seq < row.seq := by
  intro row member
  have this := List.all_eq_true.mp last row member
  rw [Bool.or_eq_true, List.all_eq_true] at this
  cases this with
  | inl known => exact .inl known
  | inr below =>
    right
    intro old stored sameKey
    have either := below old stored
    rw [(seq_of_mem_batchRows member).2] at either
    simpa [sameKey] using either

theorem keepFirst_ne_nil (kept : List Json) (entry : Json) : keepFirst kept entry ≠ [] := by
  unfold keepFirst
  split
  next seen =>
    intro empty
    rw [empty] at seen
    cases seen
  next => simp

theorem foldl_keepFirst_ne_nil {kept : List Json} (nonempty : kept ≠ [] ∨ entries ≠ []) :
    entries.foldl keepFirst kept ≠ [] := by
  induction entries generalizing kept with
  | nil =>
    cases nonempty with
    | inl some => exact some
    | inr none => exact absurd rfl none
  | cons entry entries ih =>
    rw [List.foldl_cons]
    exact ih (.inl (keepFirst_ne_nil kept entry))

end Batch

section Log

variable {key : EntryKey} {log : List Event}

theorem appendedSince_append (first second : List Event) (entries : List Json) :
    appendedSince key (first ++ second) entries =
      appendedSince key second (appendedSince key first entries) := by
  induction first generalizing entries with
  | nil => rfl
  | cons event first ih =>
    cases event with
    | appended other batch =>
      rw [List.cons_append, appendedSince, appendedSince]
      exact ih _
    | deleted deleted =>
      rw [List.cons_append, appendedSince, appendedSince]
      exact ih _

theorem transcript_appended (other : EntryKey) (batch : List Json) :
    transcript (log ++ [.appended other batch]) key =
      if other = key then batch.foldl keepFirst (transcript log key) else transcript log key := by
  unfold transcript
  rw [appendedSince_append, appendedSince, appendedSince]
  by_cases same : other = key
  · rw [if_pos same, if_pos same, List.foldl_append]
  · rw [if_neg same, if_neg same]

theorem transcript_deleted (deleted : SessionKey) :
    transcript (log ++ [.deleted deleted]) key = if hits deleted key then [] else transcript log key := by
  unfold transcript
  rw [appendedSince_append, appendedSince, appendedSince]
  by_cases covered : hits deleted key = true
  · rw [if_pos covered, if_pos covered]
    rfl
  · rw [if_neg covered, if_neg covered]

end Log

def Call.writes (call : Call) : Prop :=
  (∃ attempt, call.phase = .select attempt) ∨ ∃ attempt start, call.phase = .insert attempt start

/-- The tables hold what was committed, and a session has a summary when it has a main
transcript. -/
structure Sound (s : State) : Prop where
  labelled : Labelled s.rows
  ascending : ∀ key, Ascending s.rows key
  content : ∀ key, (rowsOf s.rows key).map Row.payload = transcript s.log key
  summarized : ∀ project session,
    rowsOf s.rows ⟨project, session, ""⟩ ≠ [] ↔ (project, session) ∈ s.summaries.keys
  nonempty : ∀ id call, s.calls.get? id = some call → call.writes → call.entries ≠ []

section Preservation

variable {fold : Option Summary → String × String → List Json → Option Json} {s t : State}

theorem Sound.setPhase (sound : Sound s) {id : Nat} {call : Call} {phase : Phase}
    (known : s.calls.get? id = some call) (writing : call.writes) :
    Sound (s.setPhase id call phase) where
  labelled := sound.labelled
  ascending := sound.ascending
  content := sound.content
  summarized := sound.summarized
  nonempty := by
    intro other found stored writes
    rw [State.setPhase, Dict.get?_set] at stored
    by_cases same : other = id
    · rw [if_pos same] at stored
      rw [← Option.some.inj stored]
      exact sound.nonempty id call known writing
    · rw [if_neg same] at stored
      exact sound.nonempty other found stored writes

theorem sound_append (sound : Sound s) {id nowMs : Nat} {key : SessionKey} {entries : List Json}
    (stepped : step fold s (.append id key entries nowMs) = some t) : Sound t := by
  simp only [step] at stepped
  split at stepped
  · cases stepped
  · rw [← Option.some.inj stepped]
    refine ⟨sound.labelled, sound.ascending, sound.content, sound.summarized, ?_⟩
    intro other found stored writes
    rw [Dict.get?_set] at stored
    by_cases same : other = id
    · rw [if_pos same] at stored
      rw [← Option.some.inj stored] at writes ⊢
      intro empty
      have nothing : entries = [] := empty
      simp [Call.writes, nothing] at writes
    · rw [if_neg same] at stored
      exact sound.nonempty other found stored writes

theorem rowsOf_delete (key : SessionKey) (entry : EntryKey) :
    rowsOf (delete s key).rows entry = if hits key entry then [] else rowsOf s.rows entry := by
  unfold delete rowsOf
  rw [List.filter_filter]
  by_cases covered : hits key entry = true
  · rw [if_pos covered, List.filter_eq_nil_iff]
    intro row member kept
    rw [Bool.and_eq_true, decide_eq_true_eq] at kept
    rw [kept.1, covered] at kept
    cases kept.2
  · rw [if_neg covered]
    apply List.filter_congr
    intro row member
    by_cases same : row.key = entry
    · simp [same, covered]
    · simp [same]

theorem hits_main (key : SessionKey) (project session : String) :
    hits key ⟨project, session, ""⟩ = true ↔
      (project = key.projectKey ∧ session = key.sessionId) ∧
        (key.subpath = none ∨ key.subpath = some "") := by
  unfold hits
  simp only [Bool.and_eq_true, decide_eq_true_eq]
  apply and_congr_right
  intro same
  split
  next missing => simp [missing]
  next empty => simp [empty]
  next subpath named found =>
    rw [decide_eq_true_eq, found]
    constructor
    · intro isEmpty
      exact (named isEmpty.symm).elim
    · intro either
      cases either with
      | inl none => cases none
      | inr empty => exact (Option.some.inj empty).symm

theorem summarized_delete (sound : Sound s) {key : SessionKey}
    (ok : inOrder s (.delete key) = true) (project session : String) :
    rowsOf (delete s key).rows ⟨project, session, ""⟩ ≠ [] ↔
      (project, session) ∈ (delete s key).summaries.keys := by
  rw [rowsOf_delete]
  have before := sound.summarized project session
  unfold delete
  by_cases covered : hits key ⟨project, session, ""⟩ = true
  · rw [if_pos covered]
    have which := (hits_main key project session).mp covered
    have absent : (project, session) ∉
        (if key.subpath = none then s.summaries.erase (key.projectKey, key.sessionId)
          else s.summaries).keys := by
      cases which.2 with
      | inl missing =>
        rw [if_pos missing, ← Dict.get?_eq_none_iff, Dict.get?_erase, which.1.1, which.1.2, if_pos rfl]
      | inr empty =>
        rw [if_neg (by simp [empty]), ← Dict.get?_eq_none_iff, which.1.1, which.1.2]
        simpa [inOrder, empty] using ok
    simp [absent]
  · rw [if_neg covered, before]
    by_cases missing : key.subpath = none
    · have apart : (project, session) ≠ (key.projectKey, key.sessionId) := by
        intro same
        rw [Prod.mk.injEq] at same
        exact covered ((hits_main key project session).mpr ⟨same, .inl missing⟩)
      rw [if_pos missing, Dict.mem_keys_iff, Dict.mem_keys_iff, Dict.get?_erase, if_neg apart]
    · rw [if_neg missing]

theorem sound_delete (sound : Sound s) {key : SessionKey} (ok : inOrder s (.delete key) = true) :
    Sound (delete s key) where
  labelled := fun row member => sound.labelled row (List.mem_of_mem_filter member)
  ascending := by
    intro entry
    unfold Ascending
    rw [rowsOf_delete]
    split
    · exact List.Pairwise.nil
    · exact sound.ascending entry
  content := by
    intro entry
    have logged : (delete s key).log = s.log ++ [.deleted key] := rfl
    rw [rowsOf_delete, logged, transcript_deleted]
    split
    · rfl
    · exact sound.content entry
  summarized := summarized_delete sound ok
  nonempty := sound.nonempty

theorem mem_keys_foldSummary (key : EntryKey) (entries : List Json) (nowMs : Nat)
    (project session : String) :
    (project, session) ∈ (foldSummary fold s.summaries key entries nowMs).keys ↔
      (project, session) ∈ s.summaries.keys ∨ key = ⟨project, session, ""⟩ := by
  unfold foldSummary
  cases key with
  | mk otherProject otherSession subpath =>
    by_cases main : subpath = ""
    · simp [main, Dict.mem_keys_set, eq_comm]
    · simp [main]

/-- The step that writes: the INSERT with the fold and the commit. -/
theorem sound_inserted (sound : Sound s) {id start : Nat} {call : Call} {primaryFirst : Bool}
    {rows : List Row} (nonempty : call.entries ≠ [])
    (done : insertEntries primaryFirst s.rows
      (batchRows call.key call.nowMs start call.entries) = some rows)
    (last : goesLast s.rows (batchRows call.key call.nowMs start call.entries) = true) :
    Sound {
      rows
      summaries := foldSummary fold s.summaries call.key call.entries call.nowMs
      calls := s.calls.set id { call with phase := .returned }
      log := s.log ++ [.appended call.key call.entries] } := by
  have spec := insertEntries_spec sound.labelled done
  have filled : rowsOf rows call.key ≠ [] := by
    intro empty
    have content := spec.2.2
    rw [empty] at content
    exact foldl_keepFirst_ne_nil (.inr nonempty) content.symm
  constructor
  · exact spec.1
  · intro key
    by_cases same : call.key = key
    · rw [← same]
      exact ascending_insertEntries (sound.ascending _) (last_of_goesLast last) done
    · unfold Ascending
      rw [spec.2.1 key same]
      exact sound.ascending key
  · intro key
    rw [transcript_appended]
    by_cases same : call.key = key
    · rw [if_pos same, ← same, spec.2.2, sound.content]
    · rw [if_neg same, spec.2.1 key same, sound.content]
  · intro project session
    rw [mem_keys_foldSummary]
    by_cases same : call.key = ⟨project, session, ""⟩
    · rw [← same]
      exact ⟨fun _ => .inr rfl, fun _ => filled⟩
    · rw [spec.2.1 _ same, sound.summarized]
      simp [same]
  · intro other found stored writes
    rw [Dict.get?_set] at stored
    by_cases same : other = id
    · rw [if_pos same] at stored
      rw [← Option.some.inj stored] at writes
      simp [Call.writes] at writes
    · rw [if_neg same] at stored
      exact sound.nonempty other found stored writes

theorem sound_insert (sound : Sound s) {id : Nat} {primaryFirst : Bool}
    (ok : inOrder s (.insert id primaryFirst) = true)
    (stepped : step fold s (.insert id primaryFirst) = some t) : Sound t := by
  unfold step at stepped
  cases known : s.calls.get? id with
  | none => simp [known] at stepped
  | some call =>
    cases phase : call.phase with
    | insert attempt start =>
      have writing : call.writes := .inr ⟨attempt, start, phase⟩
      simp only [known, phase, Option.some.injEq] at stepped
      simp only [inOrder, known, phase, Bool.or_eq_true] at ok
      rw [← stepped, insert]
      split
      next rows done =>
        rw [done] at ok
        have last := ok.resolve_left (by simp)
        exact sound_inserted sound (sound.nonempty id call known writing) done last
      next conflict =>
        split
        · exact sound.setPhase known writing
        · exact sound.setPhase known writing
    | select attempt => simp [known, phase] at stepped
    | returned => simp [known, phase] at stepped
    | raised => simp [known, phase] at stepped

theorem sound_step (sound : Sound s) {next : Step} (ok : inOrder s next = true)
    (stepped : step fold s next = some t) : Sound t := by
  cases next with
  | append id key entries nowMs => exact sound_append sound stepped
  | insert id primaryFirst => exact sound_insert sound ok stepped
  | delete key =>
    rw [← Option.some.inj stepped]
    exact sound_delete sound ok
  | select id =>
    unfold step at stepped
    cases known : s.calls.get? id with
    | none => simp [known] at stepped
    | some call =>
      cases phase : call.phase with
      | select attempt =>
        simp only [known, phase, Option.some.injEq] at stepped
        rw [← stepped]
        exact sound.setPhase known (.inl ⟨attempt, phase⟩)
      | insert attempt start => simp [known, phase] at stepped
      | returned => simp [known, phase] at stepped
      | raised => simp [known, phase] at stepped
  | fail id =>
    unfold step at stepped
    cases known : s.calls.get? id with
    | none => simp [known] at stepped
    | some call =>
      cases phase : call.phase with
      | select attempt =>
        simp only [known, phase, Option.some.injEq] at stepped
        rw [← stepped]
        exact sound.setPhase known (.inl ⟨attempt, phase⟩)
      | insert attempt start =>
        simp only [known, phase, Option.some.injEq] at stepped
        rw [← stepped]
        exact sound.setPhase known (.inr ⟨attempt, start, phase⟩)
      | returned => simp [known, phase] at stepped
      | raised => simp [known, phase] at stepped

theorem sound_initial : Sound initial where
  labelled := fun _ member => absurd member List.not_mem_nil
  ascending := fun _ => List.Pairwise.nil
  content := fun _ => rfl
  summarized := fun _ _ => by simp [initial, rowsOf]
  nonempty := fun _ _ stored => by cases stored

end Preservation

section Reading

variable {s : State}

/-- Rows in ascending order are read as they were inserted. -/
theorem load_of_sound (sound : Sound s) (key : EntryKey) :
    load s key = if (transcript s.log key).isEmpty then none else some (transcript s.log key) := by
  have sorted : (rowsOf s.rows key).insertionSort (·.seq ≤ ·.seq) = rowsOf s.rows key :=
    List.Pairwise.insertionSort_eq ((sound.ascending key).imp Nat.le_of_lt)
  unfold load
  simp only [sorted, sound.content]

theorem mem_listSessions (project session : String) :
    session ∈ (listSessions s project).map Prod.fst ↔ rowsOf s.rows ⟨project, session, ""⟩ ≠ [] := by
  unfold listSessions
  simp only [List.map_map, Function.comp_def, List.map_id', List.mem_dedup, List.mem_map,
    List.mem_filter, Bool.and_eq_true, decide_eq_true_eq]
  constructor
  · intro found
    obtain ⟨row, member, named⟩ := found
    have stored : row ∈ rowsOf s.rows ⟨project, session, ""⟩ := by
      refine mem_rowsOf.mpr ⟨member.1, ?_⟩
      rw [← named, ← member.2.1, ← member.2.2]
    exact List.ne_nil_of_mem stored
  · intro filled
    obtain ⟨row, member⟩ := List.exists_mem_of_ne_nil _ filled
    have stored := mem_rowsOf.mp member
    exact ⟨row, ⟨stored.1, by rw [stored.2], by rw [stored.2]⟩, by rw [stored.2]⟩

theorem mem_listSessionSummaries (project session : String) :
    session ∈ (listSessionSummaries s project).map Prod.fst ↔
      (project, session) ∈ s.summaries.keys := by
  unfold listSessionSummaries Dict.keys
  simp only [List.map_map, List.mem_map, List.mem_filter, Function.comp_def, decide_eq_true_eq]
  constructor
  · intro found
    obtain ⟨entry, member, named⟩ := found
    exact ⟨entry, member.1, Prod.ext member.2 named⟩
  · intro found
    obtain ⟨entry, member, named⟩ := found
    exact ⟨entry, ⟨member, by rw [named]⟩, by rw [named]⟩

end Reading

/-- `load` returns the committed log of every key, and both listings name the same sessions. -/
def Faithful (s : State) : Prop :=
  (∀ key, load s key =
    if (transcript s.log key).isEmpty then none else some (transcript s.log key)) ∧
  ∀ project session, session ∈ (listSessions s project).map Prod.fst ↔
    session ∈ (listSessionSummaries s project).map Prod.fst

private def entry (uuid text : String) : Json := .obj [("uuid", .str uuid), ("text", .str text)]

private def mainKey : SessionKey := ⟨"p", "s", none⟩

/-- Two appends read the same next `seq`; the second to insert fails and reads again. -/
private def retried : List Step :=
  [.append 0 mainKey [entry "a" "1", entry "a" "2", .obj []] 10,
    .append 1 mainKey [entry "b" "3", entry "a" "4"] 11,
    .append 2 ⟨"p", "s", some "sub"⟩ [entry "a" "5"] 12,
    .select 0, .select 1, .select 2, .insert 0 true, .insert 1 true, .insert 2 true, .select 1,
    .insert 1 true, .delete ⟨"p", "s", some "sub"⟩]

private def keepData (previous : Option Summary) (_ : String × String) (_ : List Json) :
    Option Json := previous.map Summary.data

private theorem ran_retried : (runSteps (step keepData) retried initial).isSome = true := by
  decide

/-- The second append finds its first entry stored, so its new one gets a `seq` that leaves room
for the first append to land below it. -/
private def overtaken : List Step :=
  [.append 0 mainKey [entry "u" "0"] 10, .select 0, .insert 0 false,
    .append 1 mainKey [entry "x" "1"] 11, .append 2 mainKey [entry "u" "0", entry "y" "2"] 12,
    .select 1, .select 2, .insert 2 false, .insert 1 false]

private def emptySubpath : List Step :=
  [.append 0 mainKey [entry "u" "0"] 10, .select 0, .insert 0 false, .delete ⟨"p", "s", some ""⟩]

private theorem ran_overtaken : (runSteps (step keepData) overtaken initial).isSome = true := by
  decide

private theorem ran_emptySubpath :
    (runSteps (step keepData) emptySubpath initial).isSome = true := by
  decide

private def afterOvertaken : State := (runSteps (step keepData) overtaken initial).get ran_overtaken

private def afterEmptySubpath : State :=
  (runSteps (step keepData) emptySubpath initial).get ran_emptySubpath

private theorem load_afterOvertaken :
    load afterOvertaken ⟨"p", "s", ""⟩ ≠ some (transcript afterOvertaken.log ⟨"p", "s", ""⟩) := by
  intro same
  have uuids := congrArg (Option.map fun entries => entries.map entryUuid) same
  revert uuids
  decide

private theorem summaries_afterEmptySubpath :
    (listSessionSummaries afterEmptySubpath "p").map Prod.fst = ["s"] := by
  decide

end ArcReel.Transcript
