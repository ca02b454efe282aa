import ArcReel.Episode.Agreement

/-! The derived episode files of `source/`: after a commit and after a partial reset, each of
them belongs to an episode of the ledger. -/

namespace ArcReel.Episode
open ArcReel.Lib

/-! The number of a file name is the number it was made from. -/

section Names

theorem numberBetween_between (start stop : String) (num : Nat) :
    numberBetween start stop (start ++ toString num ++ stop) = some num := by
  have chars : (start ++ toString num ++ stop).toList =
      start.toList ++ (Nat.toDigits 10 num ++ stop.toList) := by
    rw [String.toList_append, String.toList_append, Nat.toString_eq_repr, Nat.toList_repr,
      List.append_assoc]
  have nonempty : 0 < (Nat.toDigits 10 num).length := Nat.length_toDigits_pos
  have digits : ((start.toList ++ (Nat.toDigits 10 num ++ stop.toList)).drop start.length).take
      ((start.toList ++ (Nat.toDigits 10 num ++ stop.toList)).length - start.length - stop.length) =
        Nat.toDigits 10 num := by
    rw [← String.length_toList, ← String.length_toList, List.drop_left]
    have rest : (start.toList ++ (Nat.toDigits 10 num ++ stop.toList)).length - start.toList.length -
        stop.toList.length = (Nat.toDigits 10 num).length := by
      rw [List.length_append, List.length_append]
      omega
    rw [rest, List.take_left]
  have decimal : (Nat.toDigits 10 num).all Char.isDigit = true := by
    rw [List.all_eq_true]
    intro c member
    exact Nat.isDigit_of_mem_toDigits (by decide) (by decide) member
  have starts : start.toList.isPrefixOf (start.toList ++ (Nat.toDigits 10 num ++ stop.toList)) =
      true := List.isPrefixOf_iff_prefix.mpr (List.prefix_append _ _)
  have stops : stop.toList.isSuffixOf (start.toList ++ (Nat.toDigits 10 num ++ stop.toList)) =
      true := by
    rw [List.isSuffixOf_iff_suffix, ← List.append_assoc]
    exact List.suffix_append _ _
  have room : start.length + stop.length <
      (start.toList ++ (Nat.toDigits 10 num ++ stop.toList)).length := by
    rw [List.length_append, List.length_append, String.length_toList, String.length_toList]
    omega
  have some_ : (Nat.toDigits 10 num).isEmpty = false := List.isEmpty_eq_false_iff.mpr
    (List.ne_nil_of_length_pos nonempty)
  unfold numberBetween
  simp only [chars, digits, decimal, starts, stops, room, some_, Bool.not_false, Bool.and_self,
    decide_true, if_true]
  rw [← Nat.ofDigitChars_eq_foldl, Nat.ofDigitChars_ten_toDigits]

theorem episodeFileNum_name (num : Nat) : episodeFileNum (episodeFileName num) = some num :=
  numberBetween_between "episode_" ".txt" num

/-- The name of an archived file has no number. -/
theorem episodeFileNum_underscore (name : String) : episodeFileNum ("_" ++ name) = none := by
  unfold episodeFileNum numberBetween
  have chars : ("_" ++ name).toList = '_' :: name.toList := by
    rw [String.toList_append]
    rfl
  simp only [chars]
  rw [if_neg]
  simp [List.isPrefixOf]

theorem mem_discoverEpisodeFileAliases {files : Dict String (List Char)} {num : Nat}
    {name : String} : (num, name) ∈ discoverEpisodeFileAliases files ↔
      name ∈ files.keys ∧ episodeFileNum name = some num := by
  unfold discoverEpisodeFileAliases
  rw [List.mem_filterMap]
  constructor
  · rintro ⟨other, listed, same⟩
    obtain ⟨found, number, pair⟩ := Option.map_eq_some_iff.mp same
    have parts := Prod.mk.inj pair
    rw [parts.1, parts.2] at number
    rw [parts.2] at listed
    exact ⟨(List.mem_insertionSort (· ≤ ·)).mp listed, number⟩
  · rintro ⟨listed, number⟩
    exact ⟨name, (List.mem_insertionSort (· ≤ ·)).mpr listed, by rw [number]; rfl⟩

/-- One file is kept for each number. -/
theorem firsts_numbers (aliases : List (Nat × String)) (found : List (Nat × String)) (num : Nat) :
    num ∈ (aliases.foldl (fun found file =>
        if found.any (·.1 == file.1) then found else found ++ [file]) found).map Prod.fst ↔
      num ∈ found.map Prod.fst ∨ num ∈ aliases.map Prod.fst := by
  induction aliases generalizing found with
  | nil => simp
  | cons file aliases ih =>
    rw [List.foldl_cons, ih]
    split_ifs with known
    · obtain ⟨other, member, same⟩ := List.any_eq_true.mp known
      have listed : file.1 ∈ found.map Prod.fst :=
        List.mem_map.mpr ⟨other, member, by simpa using same⟩
      rw [List.map_cons, List.mem_cons]
      constructor
      · rintro (old | later)
        · exact .inl old
        · exact .inr (.inr later)
      · rintro (old | here | later)
        · exact .inl old
        · exact .inl (here ▸ listed)
        · exact .inr later
    · rw [List.map_append, List.mem_append, List.map_cons, List.mem_cons, or_assoc]
      simp

theorem mem_discoverEpisodeFiles {files : Dict String (List Char)} {num : Nat} :
    num ∈ (discoverEpisodeFiles files).map Prod.fst ↔
      ∃ name ∈ files.keys, episodeFileNum name = some num := by
  unfold discoverEpisodeFiles
  rw [firsts_numbers, List.map_nil, List.mem_map]
  constructor
  · rintro (none_ | ⟨file, listed, same⟩)
    · cases none_
    · obtain ⟨owner, number⟩ := mem_discoverEpisodeFileAliases.mp (show (file.1, file.2) ∈ _ from listed)
      exact ⟨file.2, owner, by rw [number, same]⟩
  · rintro ⟨name, owner, number⟩
    exact .inr ⟨(num, name), mem_discoverEpisodeFileAliases.mpr ⟨owner, number⟩, rfl⟩

end Names

/-- The numbers of the derived files are `1, …, count`. -/
def NumbersWithin (count : Nat) (files : Dict String (List Char)) : Prop :=
  ∀ name ∈ files.keys, ∀ num, episodeFileNum name = some num → 1 ≤ num ∧ num ≤ count

/-! A commit. -/

section Commit

variable {rt : Runtime} {sources : Sources} {products : Products} {items : List Json}
  {spans : List Span} {files files' : Dict String (List Char)}

theorem numbered_known (numbered : Numbered rt 1 items spans) {num : Nat}
    (known : (num : Int) ∈ items.filterMap (entryNum rt)) : 1 ≤ num ∧ num ≤ spans.length := by
  obtain ⟨entry, member, here⟩ := List.mem_filterMap.mp known
  obtain ⟨other, range, low, high, same, -⟩ := numbered_mem numbered member
  rw [here, Option.some.injEq] at same
  omega

/-- The files that the check of the ranges lets pass all belong to the ledger. -/
theorem within_of_checked {s : ProjectState}
    (listed : s.project.episodes.getD (.arr []) = .arr items) (numbered : Numbered rt 1 items spans)
    (checked : checkSourceRanges rt (registerOrphanEpisodeEntries rt products s) = .ok ()) :
    NumbersWithin spans.length s.files := by
  intro name owner num number
  have none_ := orphans_of_checked listed checked
  have found := mem_discoverEpisodeFiles.mpr ⟨name, owner, number⟩
  have kept := List.filter_eq_nil_iff.mp none_ num ((List.mem_insertionSort (· ≤ ·)).mpr found)
  exact numbered_known numbered (by simpa using kept)

theorem keys_fold_set {name : String} (writes : List (Int × List Char)) :
    ∀ files : Dict String (List Char),
      name ∈ (writes.foldl (fun files write => files.set (episodeFileName write.1) write.2)
        files).keys →
      name ∈ files.keys ∨ ∃ write ∈ writes, name = episodeFileName write.1 := by
  induction writes with
  | nil =>
    intro files member
    exact .inl member
  | cons write writes ih =>
    intro files member
    cases ih _ member with
    | inl early =>
      cases (Dict.mem_keys_set _ _ _ _).mp early with
      | inl old => exact .inl old
      | inr here => exact .inr ⟨write, .head _, here⟩
    | inr late =>
      obtain ⟨other, listed, same⟩ := late
      exact .inr ⟨other, .tail _ listed, same⟩

theorem mem_keys_of_erase {files : Dict String (List Char)} {name other : String}
    (member : name ∈ (files.erase other).keys) : name ∈ files.keys ∧ name ≠ other := by
  rw [Dict.keys_erase, List.mem_filter] at member
  exact ⟨member.1, by simpa using member.2⟩

theorem keys_fold_erase {name : String} {β : Type} (target : β → String) (gone : List β) :
    ∀ files : Dict String (List Char),
      name ∈ (gone.foldl (fun files other => files.erase (target other)) files).keys →
      name ∈ files.keys ∧ ∀ other ∈ gone, name ≠ target other := by
  induction gone with
  | nil =>
    intro files member
    exact ⟨member, fun _ none_ => nomatch none_⟩
  | cons first gone ih =>
    intro files member
    obtain ⟨early, apart⟩ := ih _ member
    obtain ⟨owner, differs⟩ := mem_keys_of_erase early
    refine ⟨owner, ?_⟩
    intro other listed
    cases List.mem_cons.mp listed with
    | inl same => rwa [same]
    | inr later => exact apart other later

theorem derivedFile_num {entry : Json} {write : Int × List Char}
    (derived : derivedFile rt sources entry = .ok (some write)) :
    entryNum rt entry = some write.1 := by
  unfold derivedFile at derived
  cases known : entryNum rt entry with
  | none => simp only [known] at derived; cases derived
  | some num =>
    simp only [known] at derived
    cases range : parseSourceRange entry with
    | none => simp only [range] at derived; cases derived
    | some place =>
      simp only [range] at derived
      obtain ⟨text, -, derived⟩ := bind_eq_ok.mp derived
      split_ifs at derived
      rw [← Option.some.inj (Except.ok.inj derived)]

/-- The files after a reconciliation are old ones, or files of entries. -/
theorem reconcile_keys {name : String}
    (reconciled : reconcileDerivedFiles rt sources items files = .ok files')
    (member : name ∈ files'.keys) :
    name ∈ files.keys ∨
      ∃ num, num ∈ items.filterMap (entryNum rt) ∧ name = episodeFileName num := by
  unfold reconcileDerivedFiles at reconciled
  obtain ⟨derived, mapped, reconciled⟩ := bind_eq_ok.mp reconciled
  rw [← Except.ok.inj reconciled] at member
  have written := (keys_fold_erase _ _ _ (mem_keys_of_erase member).1).1
  cases keys_fold_set _ _ written with
  | inl old => exact .inl old
  | inr made =>
    obtain ⟨write, listed, same⟩ := made
    obtain ⟨result, member', here⟩ := List.mem_filterMap.mp listed
    rw [id] at here
    rw [here] at member'
    obtain ⟨entry, owner, derivation⟩ := (mem_of_mapM_eq_ok mapped _).mp member'
    exact .inr ⟨write.1, List.mem_filterMap.mpr ⟨entry, owner, derivedFile_num derivation⟩, same⟩

/-- After a commit the files belong to the ledger, which records the sources. -/
theorem commitBatch_files {batch : Batch} {s t : ProjectState}
    (recorded : Recorded rt sources spans s.project) {spans' : List Span}
    (later : Recorded rt sources (spans ++ spans') t.project)
    (committed : commitBatch rt sources products batch s = .ok t) :
    t.project.sourceFingerprints = some (fingerprintsJson rt sources) ∧
      NumbersWithin (spans ++ spans').length t.files := by
  obtain ⟨checked, -, -, entries, files, -, reconciled, done⟩ := commitBatch_cases committed
  obtain ⟨items, listed, numbered⟩ := recorded.entries
  obtain ⟨all, episodes, renumbered⟩ := later.entries
  have before := within_of_checked listed numbered checked
  rw [done] at episodes
  simp only [Option.getD_some, Json.arr.injEq] at episodes
  simp only [episodes] at reconciled
  rw [done]
  refine ⟨rfl, ?_⟩
  intro name member num number
  cases reconcile_keys reconciled member with
  | inl old =>
    have small := before name old num number
    rw [List.length_append]
    omega
  | inr made =>
    obtain ⟨other, known, same⟩ := made
    obtain ⟨entry, owner, here⟩ := List.mem_filterMap.mp known
    obtain ⟨_, _, low, -, again, -⟩ := numbered_mem renumbered owner
    rw [here, Option.some.injEq] at again
    obtain ⟨count, rfl⟩ := Int.eq_ofNat_of_zero_le (show 0 ≤ other by omega)
    rw [same, episodeFileNum_name, Option.some.injEq] at number
    rw [← number]
    exact numbered_known renumbered known

end Commit

/-! A partial reset. -/

section Reset

variable {rt : Runtime} {products : Products}

theorem episodeFileNum_archivePath (files : Dict String (List Char)) (name : String) :
    ∀ fuel index, episodeFileNum (archivePath files name fuel index) = none := by
  intro fuel
  induction fuel with
  | zero =>
    intro index
    unfold archivePath
    rw [String.append_assoc, String.append_assoc, String.append_assoc]
    exact episodeFileNum_underscore _
  | succ fuel ih =>
    intro index
    unfold archivePath
    have candidate : episodeFileNum (if index = 0 then "_" ++ name ++ ".bak"
        else "_" ++ name ++ "." ++ toString index ++ ".bak") = none := by
      split_ifs
      · rw [String.append_assoc]
        exact episodeFileNum_underscore _
      · rw [String.append_assoc, String.append_assoc, String.append_assoc]
        exact episodeFileNum_underscore _
    generalize (if index = 0 then "_" ++ name ++ ".bak"
      else "_" ++ name ++ "." ++ toString index ++ ".bak") = free at candidate ⊢
    simp only
    split_ifs with taken
    · exact ih (index + 1)
    · exact candidate

/-- Archiving leaves no numbered file under an archived name. -/
theorem keys_fold_archive {name : String} {num : Nat} (number : episodeFileNum name = some num)
    (archives : List String) :
    ∀ files : Dict String (List Char),
      name ∈ (archives.foldl (fun files name =>
        match files.get? name with
        | none => files
        | some content =>
            (files.erase name).set (archivePath files name files.size 0) content) files).keys →
      name ∈ files.keys ∧ name ∉ archives := by
  induction archives with
  | nil =>
    intro files member
    exact ⟨member, fun none_ => nomatch none_⟩
  | cons first archives ih =>
    intro files member
    rw [List.foldl_cons] at member
    obtain ⟨early, apart⟩ := ih _ member
    cases stored : files.get? first with
    | none =>
      simp only [stored] at early
      refine ⟨early, ?_⟩
      intro listed
      cases List.mem_cons.mp listed with
      | inl same =>
        rw [same] at early
        exact (Dict.get?_eq_none_iff files first).mp stored early
      | inr later => exact apart later
    | some content =>
      simp only [stored] at early
      cases (Dict.mem_keys_set _ _ _ _).mp early with
      | inl kept =>
        obtain ⟨owner, differs⟩ := mem_keys_of_erase kept
        refine ⟨owner, ?_⟩
        intro listed
        cases List.mem_cons.mp listed with
        | inl same => exact differs same
        | inr later => exact apart later
      | inr moved =>
        rw [moved, episodeFileNum_archivePath] at number
        cases number

/-- A file whose number is counted is on one of the two lists of a plan. -/
theorem alias_covered {aliases : List (Int × String)} {nums : List Int} {num : Int} {name : String}
    (recreatable : Int → Bool) (aliased : (num, name) ∈ aliases) (counted : num ∈ nums) :
    (name ∈ (nums.filter recreatable).flatMap fun num =>
      (aliases.filter fun file => file.1 == num).map Prod.snd) ∨
    name ∈ (nums.filter fun num => !recreatable num).flatMap fun num =>
      (aliases.filter fun file => file.1 == num).map Prod.snd := by
  have pathed : name ∈ (aliases.filter fun file => file.1 == num).map Prod.snd :=
    List.mem_map.mpr ⟨(num, name), List.mem_filter.mpr ⟨aliased, beq_self_eq_true _⟩, rfl⟩
  rw [List.mem_flatMap, List.mem_flatMap]
  cases fate : recreatable num with
  | true => exact .inl ⟨num, List.mem_filter.mpr ⟨counted, fate⟩, pathed⟩
  | false => exact .inr ⟨num, List.mem_filter.mpr ⟨counted, by rw [fate]; rfl⟩, pathed⟩

/-- Every numbered file in the scope of a reset is deleted or archived. -/
theorem scan_covers {s : ProjectState} {k : Int} {name : String} {num : Nat}
    (owner : name ∈ s.files.keys) (number : episodeFileNum name = some num)
    (inside : inScope k num = true) :
    name ∈ (scan rt products s k).deletes ∨ name ∈ (scan rt products s k).archives := by
  have listed := mem_discoverEpisodeFileAliases.mpr ⟨owner, number⟩
  have aliased : ((num : Int), name) ∈
      (discoverEpisodeFileAliases s.files).map fun file => ((file.1 : Int), file.2) :=
    List.mem_map.mpr ⟨(num, name), listed, rfl⟩
  unfold scan
  apply alias_covered _ aliased
  rw [List.mem_filter, List.mem_insertionSort, List.mem_dedup, List.mem_append, List.mem_append]
  exact ⟨.inl (.inr (List.mem_map_of_mem aliased)), inside⟩

theorem applyFiles_below {s : ProjectState} {k : Int} {name : String} {num : Nat}
    (member : name ∈ (applyFiles (scan rt products s k) s.files).keys)
    (number : episodeFileNum name = some num) : name ∈ s.files.keys ∧ (num : Int) < k := by
  unfold applyFiles at member
  obtain ⟨kept, unarchived⟩ := keys_fold_archive number _ _ (mem_keys_of_erase member).1
  obtain ⟨owner, undeleted⟩ := keys_fold_erase id _ _ kept
  refine ⟨owner, ?_⟩
  by_contra above
  have inside : inScope k num = true := by
    unfold inScope
    rw [decide_eq_true (not_lt.mp above), Bool.or_true]
  cases scan_covers owner number inside with
  | inl deleted => exact undeleted name deleted rfl
  | inr archived => exact unarchived archived

end Reset

/-! The run. -/

section Run

variable {rt : Runtime} {sources : Sources} {spans : List Span}

/-- A recorded ledger whose episodes, if there are any, own the derived files and whose sources
all have a fingerprint. -/
structure Settled (rt : Runtime) (sources : Sources) (spans : List Span) (s : ProjectState) :
    Prop where
  recorded : Recorded rt sources spans s.project
  fingerprints : spans ≠ [] → s.project.sourceFingerprints = some (fingerprintsJson rt sources)
  files : spans ≠ [] → NumbersWithin spans.length s.files

theorem settled_plan {products : Products} {seen s t : ProjectState}
    {answers : List (Option (List EpisodeDraft))} (settled : Settled rt sources spans s)
    (planned : plan rt sources products seen answers s = .ok t) :
    ∃ spans', Settled rt sources spans' t := by
  cases plan_outcome settled.recorded planned with
  | inl exhausted =>
    obtain ⟨project, rel, filled⟩ := exhausted
    refine ⟨spans, recorded_backfill settled.recorded filled, ?_, ?_⟩
    · intro some_
      have before := settled.fingerprints some_
      unfold backfillSourceFingerprints at filled
      simp only at filled
      split at filled
      · rwa [← Except.ok.inj filled]
      · obtain ⟨_, -, filled⟩ := bind_eq_ok.mp filled
        rw [← Except.ok.inj (throwIf_eq_ok.mp filled).2]
    · intro some_
      rw [backfill_files filled]
      exact settled.files some_
  | inr committed =>
    obtain ⟨batch, start, fits, done⟩ := committed
    have recorded := recorded_commit settled.recorded fits done
    have files := commitBatch_files settled.recorded recorded done
    exact ⟨_, recorded, fun _ => files.1, fun _ => files.2⟩

theorem settled_reset {products : Products} {seen s t : ProjectState} {k : Int} {confirm : Bool}
    {outcome : ResetOutcome} (settled : Settled rt sources spans s)
    (done : resetEpisodePlanning rt sources products seen k confirm s = .ok (outcome, t)) :
    ∃ spans', Settled rt sources spans' t := by
  cases resetEpisodePlanning_cases done with
  | inl asked =>
    rw [asked]
    exact ⟨spans, settled⟩
  | inr changed =>
    cases changed with
    | inl cleared =>
      refine ⟨[], ?_, fun some_ => absurd rfl some_, fun some_ => absurd rfl some_⟩
      rw [cleared]
      exact recorded_cleared
    | inr cut =>
      obtain ⟨later, cursor, resolved, project, files⟩ := cut
      obtain ⟨count, rfl, high, kept⟩ := recorded_cut settled.recorded later resolved
      have some_ : spans ≠ [] := List.ne_nil_of_length_pos (by omega)
      refine ⟨spans.take count, ?_, ?_, ?_⟩
      · rw [project]
        exact kept
      · intro _
        rw [project]
        exact settled.fingerprints some_
      · intro _ name member num number
        rw [files] at member
        obtain ⟨owner, below⟩ := applyFiles_below member number
        have bounds := settled.files some_ name owner num number
        rw [List.length_take]
        omega

theorem settled_call {s t : ProjectState} {next : Call} (settled : ∃ spans, Settled rt sources spans s)
    (called : call rt sources s next = some t) : ∃ spans, Settled rt sources spans t := by
  obtain ⟨spans, settled⟩ := settled
  cases next with
  | plan products seen answers => exact settled_plan settled (call_plan called)
  | reset products seen fromEpisode confirmConsumed =>
    obtain ⟨outcome, done⟩ := call_reset called
    exact settled_reset settled done

/-- Every run from an empty ledger leaves a settled one. -/
theorem settled_run {calls : List Call} {s t : ProjectState} (empty : EmptyLedger s.project)
    (ran : runSteps (call rt sources) calls s = some t) : ∃ spans, Settled rt sources spans t :=
  runSteps_induct (fun _ _ _ before stepped => settled_call before stepped)
    ⟨[], recorded_empty empty, fun some_ => absurd rfl some_, fun some_ => absurd rfl some_⟩ ran

end Run

end ArcReel.Episode
