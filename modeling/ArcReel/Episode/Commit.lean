import ArcReel.Episode.DerivedFiles

/-! The commit of `EpisodePlanner.plan` on the disk: the links of `source/`, the texts that the
call has read before, and what is on the disk when the commit is aborted. -/

namespace ArcReel.Episode
open ArcReel.Lib

/-- An entry of `source/`; a link holds its target. -/
inductive SourceItem where
  | file (text : List Char)
  | link (target : String)
  deriving DecidableEq, Repr

/-- `project.json` and the directory `source/`, which may itself be a link. -/
structure Disk where
  project : Project
  sourceLinked : Bool
  files : Dict String SourceItem

def SourceItem.isLink : SourceItem → Bool
  | .file _ => false
  | .link _ => true

/-- The files and the links that lead to a file, by the targets that do. -/
def readableFiles (leads : Dict String SourceItem → String → Bool) (files : Dict String SourceItem) :
    Dict String (List Char) :=
  (files.filter fun _ item =>
    match item with
    | .file _ => true
    | .link target => leads files target).mapValues fun _ item =>
      match item with
      | .file text => text
      | .link _ => []

inductive CommitError where
  | planning (error : PlanningError)
  | sourceDirLinked
  | derivedFileLinked (num : Int)
  deriving DecidableEq, Repr

/-- A batch with the fingerprints of the texts that its call has read. -/
structure ReadBatch extends Batch where
  used : List (String × String)

/-- The text of a path: the one that the call has read for its batch, or the one on the disk. -/
def ReadBatch.textOf (batch : ReadBatch) (rt : Runtime) (sources : Sources) (rel : String) :
    Except PlanningError (List Char) :=
  if rel = batch.rel then .ok batch.text else sourceText rt sources rel

/-- The used files whose fingerprint is no longer the one of the call. -/
def changedSources (rt : Runtime) (sources : Sources) (used : List (String × String)) : List String :=
  ((used.filter fun file =>
    (computeSourceFingerprints rt sources).lookup file.1 != some file.2).map Prod.fst).insertionSort
      (· ≤ ·)

/-- The part of `_commit` before the derived files: the project with the entries of the batch. -/
def ledgerAfter (rt : Runtime) (sources : Sources) (products : Products) (batch : ReadBatch)
    (current : ProjectState) : Except PlanningError (List Json × Project) := do
  let p := registerOrphanEpisodeEntries rt products current
  checkSourceRanges rt p
  let startRef ← effectiveStart rt sources p
  if startRef ≠ batch.startRef then throw .conflict
  checkSourceFingerprints rt sources p
  let changed := changedSources rt sources batch.used
  if changed ≠ [] then throw (.sourceChanged changed)
  let entries ← match (p.episodes.getD .null).iterate? with
    | none => throw .notIterable
    | some entries => pure (entries.filter fun entry => !entry.isNull)
  let nums := (entries.filterMap (entryNum rt)).filter fun num => decide (0 < num)
  let all := sortEpisodesIfPossible rt (entries ++
    newEntries products batch.rel batch.start (nums.foldl max 0 + 1) batch.start
      (batch.drafts.zip batch.ends))
  .ok (all, { p with
    episodes := some (.arr all)
    planningCursor := some (.obj [("source_file", .str batch.rel),
      ("offset", .int (batch.start + batch.ends.getLast?.getD 0))])
    sourceFingerprints := some (fingerprintsJson rt sources) })

/-- The file that an entry has to have, if the entry has a number. -/
def plannedWrite (rt : Runtime) (textOf : String → Except PlanningError (List Char))
    (files : Dict String SourceItem) (entry : Json) : Except CommitError (Option (Int × List Char)) :=
  match entryNum rt entry with
  | none => .ok none
  | some num =>
      match parseSourceRange entry with
      | none => .error (.planning (.rangeRecordInvalid num))
      | some (rel, start, stop) =>
          match textOf rel with
          | .error error => .error (.planning error)
          | .ok text =>
              if ¬(0 ≤ start ∧ start ≤ stop ∧ stop ≤ text.length) then
                .error (.planning (.rangeOutOfBounds num start stop text.length))
              else if (files.get? (episodeFileName num)).any SourceItem.isLink then
                .error (.derivedFileLinked num)
              else .ok (some (num, PyText.slice text start stop))

def writeFiles (writes : List (Int × List Char)) (files : Dict String SourceItem) :
    Dict String SourceItem :=
  writes.foldl (fun files write => files.set (episodeFileName write.1) (.file write.2)) files

/-- The files of numbers outside of the ledger and the rest of the old splitting are removed. -/
def removeResidual (leads : Dict String SourceItem → String → Bool) (keep : List Int)
    (files : Dict String SourceItem) : Dict String SourceItem :=
  let residual := (discoverEpisodeFiles (readableFiles leads files)).filter fun file =>
    !keep.contains (file.1 : Int)
  let kept := residual.foldl (fun files file => files.erase file.2) files
  if "_remaining.txt" ∈ (readableFiles leads kept).keys then kept.erase "_remaining.txt" else kept

/-- The callback that `plan` commits, with the disk that it leaves. -/
def commitOnDisk (rt : Runtime) (leads : Dict String SourceItem → String → Bool) (sources : Sources)
    (products : Products) (batch : ReadBatch) (disk : Disk) : Except CommitError Unit × Disk :=
  match ledgerAfter rt sources products batch ⟨disk.project, readableFiles leads disk.files⟩ with
  | .error error => (.error (.planning error), disk)
  | .ok (all, project) =>
      if disk.sourceLinked then (.error .sourceDirLinked, disk)
      else
        match all.mapM (plannedWrite rt (batch.textOf rt sources) disk.files) with
        | .error error => (.error error, disk)
        | .ok planned =>
            let writes := planned.filterMap id
            (.ok (), ⟨project, false,
              removeResidual leads (writes.map Prod.fst) (writeFiles writes disk.files)⟩)

/-- A numbered entry whose file cannot be derived: its range is missing, ill-typed, reversed or out
of bounds, its source unreadable or the file a link. -/
def Underivable (textOf : String → Except PlanningError (List Char))
    (files : Dict String SourceItem) (entry : Json) (num : Int) : Prop :=
  (∀ rel start stop text, parseSourceRange entry = some (rel, start, stop) → textOf rel = .ok text →
    ¬(0 ≤ start ∧ start ≤ stop ∧ stop ≤ text.length)) ∨
  ∃ target, files.get? (episodeFileName num) = some (.link target)

/-! The name of a file tells its number. -/

section Names

theorem episodeFileName_toList (num : Int) :
    (episodeFileName num).toList = "episode_".toList ++ ((toString num).toList ++ ".txt".toList) := by
  rw [episodeFileName, String.toList_append, String.toList_append, List.append_assoc]

theorem toString_negSucc_toList (n : Nat) :
    (toString (Int.negSucc n)).toList = '-' :: Nat.toDigits 10 (n + 1) := by
  have spelled : toString (Int.negSucc n) = "-" ++ toString (n + 1) := rfl
  rw [spelled, String.toList_append, Nat.toString_eq_repr, Nat.toList_repr]
  rfl

theorem episodeFileNum_negSucc (n : Nat) : episodeFileNum (episodeFileName (Int.negSucc n)) = none := by
  unfold episodeFileNum numberBetween
  simp only
  rw [if_neg]
  simp only [Bool.and_eq_true, not_and]
  intro shaped
  have first : '-' ∈ ((episodeFileName (Int.negSucc n)).toList.drop "episode_".length).take
      ((episodeFileName (Int.negSucc n)).toList.length - "episode_".length - ".txt".length) := by
    rw [episodeFileName_toList, toString_negSucc_toList]
    have room : ("episode_".toList ++ ('-' :: Nat.toDigits 10 (n + 1) ++ ".txt".toList)).length -
        "episode_".length - ".txt".length = (Nat.toDigits 10 (n + 1)).length + 1 := by
      have starts : "episode_".length = 8 := rfl
      have stops : ".txt".length = 4 := rfl
      simp only [List.length_append, List.length_cons, String.length_toList]
      omega
    rw [room]
    change '-' ∈ ('-' :: (Nat.toDigits 10 (n + 1) ++ ".txt".toList)).take
      ((Nat.toDigits 10 (n + 1)).length + 1)
    rw [List.take_succ_cons]
    exact List.mem_cons_self
  have digit := List.all_eq_true.mp shaped.2 '-' first
  cases digit

theorem episodeFileName_injective : Function.Injective episodeFileName := by
  intro a b same
  cases a with
  | ofNat a =>
    have number := episodeFileNum_name a
    rw [show ((a : Nat) : Int) = Int.ofNat a from rfl, same] at number
    cases b with
    | ofNat b =>
      have other := episodeFileNum_name b
      rw [show ((b : Nat) : Int) = Int.ofNat b from rfl, number] at other
      rw [Option.some.inj other]
    | negSucc b =>
      rw [episodeFileNum_negSucc] at number
      cases number
  | negSucc a =>
    have none := episodeFileNum_negSucc a
    rw [same] at none
    cases b with
    | ofNat b =>
      have number := episodeFileNum_name b
      rw [show ((b : Nat) : Int) = Int.ofNat b from rfl, none] at number
      cases number
    | negSucc b =>
      have digits : Nat.toDigits 10 (a + 1) = Nat.toDigits 10 (b + 1) := by
        have texts := congrArg String.toList same
        rw [episodeFileName_toList, episodeFileName_toList, toString_negSucc_toList,
          toString_negSucc_toList] at texts
        have inner := List.append_cancel_right (List.append_cancel_left texts)
        exact (List.cons.inj inner).2
      have numbers := congrArg (fun digits => Nat.ofDigitChars 10 digits 0) digits
      simp only [Nat.ofDigitChars_ten_toDigits] at numbers
      rw [Nat.succ.inj numbers]

theorem episodeFileName_ne_remaining (num : Int) : episodeFileName num ≠ "_remaining.txt" := by
  intro same
  have texts := congrArg String.toList same
  rw [episodeFileName_toList] at texts
  cases texts

/-- A name with a number is the name of that number only. -/
theorem eq_of_episodeFileNum {num : Int} {k : Nat}
    (number : episodeFileNum (episodeFileName num) = some k) : num = k := by
  cases num with
  | ofNat n =>
    have own := episodeFileNum_name n
    rw [show ((n : Nat) : Int) = Int.ofNat n from rfl, number] at own
    rw [Option.some.inj own]
    rfl
  | negSucc n =>
    rw [episodeFileNum_negSucc] at number
    cases number

end Names

section Writes

theorem firsts_aliases (aliases found : List (Nat × String)) {file : Nat × String}
    (member : file ∈ aliases.foldl (fun found file =>
      if found.any (·.1 == file.1) then found else found ++ [file]) found) :
    file ∈ found ∨ file ∈ aliases := by
  induction aliases generalizing found with
  | nil => exact .inl member
  | cons first aliases ih =>
    rw [List.foldl_cons] at member
    cases ih _ member with
    | inl early =>
      split_ifs at early
      · exact .inl early
      · cases List.mem_append.mp early with
        | inl old => exact .inl old
        | inr here => exact .inr (List.mem_singleton.mp here ▸ List.mem_cons_self)
    | inr later => exact .inr (.tail _ later)

theorem discoverEpisodeFiles_aliases {texts : Dict String (List Char)} {file : Nat × String}
    (found : file ∈ discoverEpisodeFiles texts) : (file.1, file.2) ∈ discoverEpisodeFileAliases texts := by
  cases firsts_aliases _ _ found with
  | inl none => cases none
  | inr listed => exact listed

variable {leads : Dict String SourceItem → String → Bool} {files : Dict String SourceItem}

theorem writeFiles_other {num : Int} (writes : List (Int × List Char))
    (apart : ∀ write ∈ writes, write.1 ≠ num) :
    ∀ files, (writeFiles writes files).get? (episodeFileName num) =
      files.get? (episodeFileName num) := by
  induction writes with
  | nil => exact fun _ => rfl
  | cons write writes ih =>
    intro files
    have differs : episodeFileName num ≠ episodeFileName write.1 := fun same =>
      apart write (.head _) (episodeFileName_injective same).symm
    rw [writeFiles, List.foldl_cons]
    refine (ih (fun other member => apart other (.tail _ member)) _).trans ?_
    rw [Dict.get?_set, if_neg differs]

/-- The last write of a number is the one that stays. -/
theorem writeFiles_last {num : Int} {text : List Char} (before after : List (Int × List Char))
    (last : ∀ write ∈ after, write.1 ≠ num) :
    (writeFiles (before ++ (num, text) :: after) files).get? (episodeFileName num) =
      some (.file text) := by
  rw [writeFiles, List.foldl_append, List.foldl_cons]
  refine (writeFiles_other after last _).trans ?_
  rw [Dict.get?_set, if_pos rfl]

theorem get?_fold_erase {name : String} (gone : List (Nat × String))
    (apart : ∀ file ∈ gone, file.2 ≠ name) : ∀ files : Dict String SourceItem,
      (gone.foldl (fun files file => files.erase file.2) files).get? name = files.get? name := by
  induction gone with
  | nil => exact fun _ => rfl
  | cons file gone ih =>
    intro files
    rw [List.foldl_cons, ih fun other member => apart other (.tail _ member), Dict.get?_erase,
      if_neg (apart file (.head _)).symm]

/-- The files of the kept numbers stay. -/
theorem removeResidual_kept {keep : List Int} {num : Int} (kept : num ∈ keep) :
    (removeResidual leads keep files).get? (episodeFileName num) =
      files.get? (episodeFileName num) := by
  have residual : ∀ file ∈ (discoverEpisodeFiles (readableFiles leads files)).filter (fun file =>
      !keep.contains (file.1 : Int)), file.2 ≠ episodeFileName num := by
    intro file member same
    obtain ⟨found, outside⟩ := List.mem_filter.mp member
    have number := (mem_discoverEpisodeFileAliases.mp (discoverEpisodeFiles_aliases found)).2
    rw [same] at number
    rw [← eq_of_episodeFileNum number] at outside
    simp [kept] at outside
  unfold removeResidual
  simp only
  split_ifs
  · rw [Dict.get?_erase, if_neg (episodeFileName_ne_remaining num), get?_fold_erase _ residual]
  · exact get?_fold_erase _ residual files

end Writes

/-! What a commit leaves. -/

section Commits

variable {rt : Runtime} {leads : Dict String SourceItem → String → Bool} {sources : Sources}
  {products : Products} {batch : ReadBatch} {disk : Disk}
  {textOf : String → Except PlanningError (List Char)} {files : Dict String SourceItem}

/-- A write that is planned is a slice inside the text of its entry, and its target is no link. -/
theorem plannedWrite_numbered {entry : Json} {num : Int} {planned : Option (Int × List Char)}
    (numbered : entryNum rt entry = some num)
    (derived : plannedWrite rt textOf files entry = .ok planned) :
    ∃ rel start stop text, parseSourceRange entry = some (rel, start, stop) ∧ textOf rel = .ok text ∧
      (0 ≤ start ∧ start ≤ stop ∧ stop ≤ text.length) ∧
      (files.get? (episodeFileName num)).any SourceItem.isLink = false ∧
      planned = some (num, PyText.slice text start stop) := by
  unfold plannedWrite at derived
  rw [numbered] at derived
  dsimp only at derived
  cases range : parseSourceRange entry with
  | none => rw [range] at derived; cases derived
  | some place =>
    obtain ⟨rel, start, stop⟩ := place
    rw [range] at derived
    dsimp only at derived
    cases read : textOf rel with
    | error error => rw [read] at derived; cases derived
    | ok text =>
      rw [read] at derived
      dsimp only at derived
      split_ifs at derived with inside linked
      exact ⟨rel, start, stop, text, rfl, read, inside, by simpa using linked,
        (Except.ok.inj derived).symm⟩

theorem plannedWrite_unnumbered {entry : Json} (unnumbered : entryNum rt entry = none) :
    plannedWrite rt textOf files entry = .ok none := by
  unfold plannedWrite
  rw [unnumbered]

theorem plannedWrite_num {entry : Json} {write : Int × List Char}
    (derived : plannedWrite rt textOf files entry = .ok (some write)) :
    entryNum rt entry = some write.1 := by
  cases numbered : entryNum rt entry with
  | none =>
    rw [plannedWrite_unnumbered numbered] at derived
    cases derived
  | some num =>
    obtain ⟨_, _, _, _, _, _, _, _, same⟩ := plannedWrite_numbered numbered derived
    rw [Option.some.inj same]

theorem underivable_error {entry : Json} {num : Int} (numbered : entryNum rt entry = some num)
    (wrong : Underivable textOf files entry num) :
    ∃ error, plannedWrite rt textOf files entry = .error error := by
  cases derived : plannedWrite rt textOf files entry with
  | error error => exact ⟨error, rfl⟩
  | ok planned =>
    obtain ⟨rel, start, stop, text, range, read, inside, unlinked, -⟩ :=
      plannedWrite_numbered numbered derived
    cases wrong with
    | inl outside => exact absurd inside (outside rel start stop text range read)
    | inr link =>
      obtain ⟨target, there⟩ := link
      rw [there] at unlinked
      cases unlinked

/-- A commit that is aborted leaves the disk; one that goes through has planned a write for every
entry before the first one is written. -/
theorem commitOnDisk_cases :
    (∃ error, commitOnDisk rt leads sources products batch disk = (.error error, disk)) ∨
    ∃ all project planned,
      ledgerAfter rt sources products batch ⟨disk.project, readableFiles leads disk.files⟩ =
        .ok (all, project) ∧
      all.mapM (plannedWrite rt (batch.textOf rt sources) disk.files) = .ok planned ∧
      commitOnDisk rt leads sources products batch disk = (.ok (), ⟨project, false,
        removeResidual leads ((planned.filterMap id).map Prod.fst)
          (writeFiles (planned.filterMap id) disk.files)⟩) := by
  unfold commitOnDisk
  cases ledger : ledgerAfter rt sources products batch
      ⟨disk.project, readableFiles leads disk.files⟩ with
  | error error => exact .inl ⟨_, rfl⟩
  | ok after =>
    obtain ⟨all, project⟩ := after
    dsimp only
    split_ifs
    · exact .inl ⟨_, rfl⟩
    · cases mapped : all.mapM (plannedWrite rt (batch.textOf rt sources) disk.files) with
      | error error => exact .inl ⟨_, rfl⟩
      | ok planned => exact .inr ⟨all, project, planned, rfl, mapped, rfl⟩

/-- The writes of the entries in front of an entry and after it. -/
theorem writes_split {entry : Json} {before after : List Json} {write : Int × List Char}
    {planned : List (Option (Int × List Char))}
    (mapped : (before ++ entry :: after).mapM (plannedWrite rt textOf files) = .ok planned)
    (derived : plannedWrite rt textOf files entry = .ok (some write)) :
    ∃ earlier later, planned.filterMap id = earlier ++ write :: later ∧
      ∀ other ∈ later, ∃ item ∈ after, entryNum rt item = some other.1 := by
  rw [List.mapM_append, List.mapM_cons] at mapped
  obtain ⟨front, -, mapped⟩ := bind_eq_ok.mp mapped
  obtain ⟨back, rest, mapped⟩ := bind_eq_ok.mp mapped
  obtain ⟨made, here, rest⟩ := bind_eq_ok.mp rest
  obtain ⟨others, mapped', rest⟩ := bind_eq_ok.mp rest
  rw [derived, Except.ok.injEq] at here
  refine ⟨front.filterMap id, others.filterMap id, ?_, ?_⟩
  · rw [← Except.ok.inj mapped, ← Except.ok.inj rest, ← here]
    simp
  · intro other member
    obtain ⟨result, listed, same⟩ := List.mem_filterMap.mp member
    rw [id] at same
    rw [same] at listed
    obtain ⟨item, owner, made⟩ := (mem_of_mapM_eq_ok mapped' _).mp listed
    exact ⟨item, owner, plannedWrite_num made⟩

/-- The ledger of a commit has all entries that it has found, and those of the batch. -/
theorem ledgerAfter_all {s : ProjectState} {all : List Json} {project : Project}
    (ledger : ledgerAfter rt sources products batch s = .ok (all, project)) :
    project.episodes = some (.arr all) ∧
      ∃ entries, ((registerOrphanEpisodeEntries rt products s).episodes.getD .null).iterate? =
        some entries ∧ ∀ entry ∈ entries, entry.isNull = false → entry ∈ all := by
  unfold ledgerAfter at ledger
  dsimp only at ledger
  obtain ⟨_, -, ledger⟩ := bind_eq_ok.mp ledger
  obtain ⟨startRef, -, ledger⟩ := bind_eq_ok.mp ledger
  obtain ⟨-, ledger⟩ := throwIf_eq_ok.mp ledger
  obtain ⟨_, -, ledger⟩ := bind_eq_ok.mp ledger
  obtain ⟨-, ledger⟩ := throwIf_eq_ok.mp ledger
  cases iterated : ((registerOrphanEpisodeEntries rt products s).episodes.getD .null).iterate? with
  | none =>
    rw [iterated] at ledger
    cases ledger
  | some entries =>
    simp only [iterated, pure_bind, Except.ok.injEq, Prod.mk.injEq] at ledger
    refine ⟨?_, entries, rfl, ?_⟩
    · rw [← ledger.2, ← ledger.1]
    · intro entry member some
      rw [← ledger.1]
      apply (perm_sortIfPossible _).mem_iff.mpr
      exact List.mem_append.mpr (.inl (List.mem_filter.mpr ⟨member, by rw [some]; rfl⟩))

theorem reconciled_map {ε α β : Type} (x : Except ε α) (f : α → β) :
    (x >>= fun a => .ok (f a)) = x.map f := by
  cases x with
  | error e => rfl
  | ok a => rfl

/-- Without links, a commit is the one that the runs of the planner are made of. -/
theorem commitBatch_eq {s : ProjectState} (unchanged : changedSources rt sources batch.used = [])
    (listed : (sourcesFrom batch.rel sources.docs).isEmpty = false) :
    commitBatch rt sources products batch.toBatch s =
      ledgerAfter rt sources products batch s >>= fun after =>
        (reconcileDerivedFiles rt sources after.1 s.files).map (⟨after.2, ·⟩) := by
  unfold commitBatch ledgerAfter
  simp only [unchanged, listed, bind_assoc, ne_eq, not_true_eq_false, if_false, Bool.false_eq_true]
  apply bind_congr
  intro _
  apply bind_congr
  intro startRef
  by_cases same : startRef = batch.startRef
  · simp only [same, not_true_eq_false, if_false, bind_assoc]
    apply bind_congr
    intro _
    cases ((registerOrphanEpisodeEntries rt products s).episodes.getD .null).iterate? with
    | none => rfl
    | some entries =>
      simp only [pure_bind]
      exact reconciled_map _ _
  · simp only [same, not_false_eq_true, if_true]
    rfl

/-- The entries that the registration keeps. -/
theorem mem_registered {s : ProjectState} {entries : List Json} {entry : Json}
    (listed : (s.project.episodes.getD .null).iterate? = some entries) (member : entry ∈ entries)
    {entries' : List Json}
    (registered : ((registerOrphanEpisodeEntries rt products s).episodes.getD .null).iterate? =
      some entries') : entry ∈ entries' := by
  unfold registerOrphanEpisodeEntries at registered
  cases stored : s.project.episodes with
  | none =>
    rw [stored] at listed
    rw [← Option.some.inj listed] at member
    cases member
  | some json =>
    rw [stored] at listed registered
    simp only [Option.getD_some] at listed registered
    cases json with
    | arr items =>
      rw [← Option.some.inj listed] at member
      rw [← Option.some.inj registered]
      apply (perm_sortIfPossible _).mem_iff.mpr
      exact List.mem_append_left _ member
    | _ =>
      simp only [stored, Option.getD_some] at registered
      rw [listed] at registered
      rw [← Option.some.inj registered]
      exact member

/-- The files of a commit are the slices that its ledger names, unless an entry shares the number
of a later one; an entry whose file cannot be derived aborts the commit before anything is written. -/
theorem committed_files_are_slices (rt : Runtime) (leads : Dict String SourceItem → String → Bool)
    (sources : Sources) (products : Products) (batch : ReadBatch) (disk : Disk) :
    (∀ after, commitOnDisk rt leads sources products batch disk = (.ok (), after) →
      ∃ all, after.project.episodes = some (.arr all) ∧
        ∀ front entry back num, all = front ++ entry :: back → entryNum rt entry = some num →
          (∀ later ∈ back, entryNum rt later ≠ some num) →
            ∃ rel start stop text, parseSourceRange entry = some (rel, start, stop) ∧
              batch.textOf rt sources rel = .ok text ∧
              (0 ≤ start ∧ start ≤ stop ∧ stop ≤ text.length) ∧
              after.files.get? (episodeFileName num) = some (.file (PyText.slice text start stop))) ∧
    (∀ entries entry num, (disk.project.episodes.getD .null).iterate? = some entries →
      entry ∈ entries → entryNum rt entry = some num →
        Underivable (batch.textOf rt sources) disk.files entry num →
          ∃ error, commitOnDisk rt leads sources products batch disk = (.error error, disk)) ∧
    (∀ all project entry num, ledgerAfter rt sources products batch
        ⟨disk.project, readableFiles leads disk.files⟩ = .ok (all, project) →
      entry ∈ all → entryNum rt entry = some num →
        Underivable (batch.textOf rt sources) disk.files entry num →
          ∃ error, commitOnDisk rt leads sources products batch disk = (.error error, disk)) := by
  have aborts : ∀ all project entry num, ledgerAfter rt sources products batch
      ⟨disk.project, readableFiles leads disk.files⟩ = .ok (all, project) →
      entry ∈ all → entryNum rt entry = some num →
        Underivable (batch.textOf rt sources) disk.files entry num →
          ∃ error, commitOnDisk rt leads sources products batch disk = (.error error, disk) := by
    intro all project entry num ledger member numbered wrong
    cases @commitOnDisk_cases rt leads sources products batch disk with
    | inl aborted => exact aborted
    | inr went =>
      obtain ⟨all', project', planned, ledger', mapped, -⟩ := went
      have same := Prod.mk.inj (Except.ok.inj (ledger.symm.trans ledger'))
      rw [same.1] at member
      obtain ⟨result, made⟩ := ok_of_mapM_eq_ok mapped entry member
      obtain ⟨error, failed⟩ := underivable_error numbered wrong
      rw [failed] at made
      cases made
  refine ⟨?_, ?_, aborts⟩
  · intro after committed
    cases @commitOnDisk_cases rt leads sources products batch disk with
    | inl aborted =>
      obtain ⟨error, aborted⟩ := aborted
      rw [committed] at aborted
      cases (Prod.mk.inj aborted).1
    | inr went =>
      obtain ⟨all, project, planned, ledger, mapped, done⟩ := went
      have disks := (Prod.mk.inj (committed.symm.trans done)).2
      refine ⟨all, by rw [disks]; exact (ledgerAfter_all ledger).1, ?_⟩
      intro front entry back num split numbered last
      rw [split] at mapped
      obtain ⟨result, made⟩ := ok_of_mapM_eq_ok mapped entry (by simp)
      obtain ⟨rel, start, stop, text, range, read, inside, -, write⟩ :=
        plannedWrite_numbered numbered made
      rw [write] at made
      obtain ⟨earlier, later, writes, nums⟩ := writes_split mapped made
      refine ⟨rel, start, stop, text, range, read, inside, ?_⟩
      have apart : ∀ other ∈ later, other.1 ≠ num := by
        intro other member same
        obtain ⟨item, owner, here⟩ := nums other member
        exact last item owner (same ▸ here)
      rw [disks]
      dsimp only
      rw [removeResidual_kept, writes, writeFiles_last earlier later apart]
      rw [writes, List.map_append]
      simp
  · intro entries entry num listed member numbered wrong
    cases ledger : ledgerAfter rt sources products batch
        ⟨disk.project, readableFiles leads disk.files⟩ with
    | error error =>
      refine ⟨.planning error, ?_⟩
      unfold commitOnDisk
      rw [ledger]
    | ok found =>
      obtain ⟨all, project⟩ := found
      obtain ⟨-, entries', registered, kept⟩ := ledgerAfter_all ledger
      have object : entry.isNull = false := by
        cases entry with
        | null => cases numbered
        | _ => rfl
      exact aborts all project entry num ledger
        (kept entry (mem_registered listed member registered) object) numbered wrong

end Commits

/-! A ledger with an entry without a number and with two entries of one number. -/

private def nightText : List Char := "天黑他走天亮了".toList

private def nightSources : Sources := ⟨[⟨"source/night.txt", nightText⟩], by decide⟩

private def nightDigest : String := "c48ea20b33edbcddc89f79f073e6e09464756757c5fd9c93c52bcb45fd4e748a"

/-- The text is its own normal form; the digest is that of the text. -/
private def nightRuntime : Runtime where
  nfc := id
  otherDigits := fun _ => none
  sha256 := fun text => if text = nightText then nightDigest else ""
  readText := fun _ => none
  stretch := fun n => n * 12 / 10

private def unnumbered : Json := .obj [("title", .str "序")]

private def sharedNumber (num : Json) (start stop : Int) : Json :=
  .obj [("episode", num), ("source_range", sourceRangeJson "source/night.txt" start stop)]

private def nightDisk : Disk where
  project := ⟨some (.arr [unnumbered, sharedNumber (.int 1) 0 2, sharedNumber (.str "1") 2 4]),
    some (.obj [("source_file", .str "source/night.txt"), ("offset", .int 4)]), none, none, none⟩
  sourceLinked := false
  files := .empty

private def nightBatch : ReadBatch where
  startRef := ("source/night.txt", 4)
  rel := "source/night.txt"
  start := 4
  text := nightText
  drafts := [⟨"天亮", "?", "亮了".toList, none⟩]
  ends := [3]
  used := [("source/night.txt", nightDigest)]

/-- The entry without a number has no range and does not abort the commit, and the first entry of
number 1 does not get its slice. -/
theorem skipped_and_shared_entries_commit :
    ∃ after, commitOnDisk nightRuntime (fun _ _ => false) nightSources
        ⟨fun _ => false, [], [], fun _ => .null⟩ nightBatch nightDisk = (.ok (), after) ∧
      (∃ entries, nightDisk.project.episodes = some (.arr entries) ∧ unnumbered ∈ entries ∧
        sharedNumber (.int 1) 0 2 ∈ entries) ∧
      parseSourceRange unnumbered = none ∧
      entryNum nightRuntime (sharedNumber (.int 1) 0 2) = some 1 ∧
      parseSourceRange (sharedNumber (.int 1) 0 2) = some ("source/night.txt", 0, 2) ∧
      PyText.slice nightText 0 2 = "天黑".toList ∧
      after.files.get? "episode_1.txt" = some (.file "他走".toList) := by
  have succeeds : (commitOnDisk nightRuntime (fun _ _ => false) nightSources
      ⟨fun _ => false, [], [], fun _ => .null⟩ nightBatch nightDisk).1.isOk = true := by
    decide
  have written : (commitOnDisk nightRuntime (fun _ _ => false) nightSources
      ⟨fun _ => false, [], [], fun _ => .null⟩ nightBatch nightDisk).2.files.get? "episode_1.txt" =
        some (.file "他走".toList) := by
    decide
  refine ⟨_, ?_, ⟨_, rfl, .head _, .tail _ (.head _)⟩, rfl, rfl, rfl, rfl, written⟩
  cases outcome : commitOnDisk nightRuntime (fun _ _ => false) nightSources
      ⟨fun _ => false, [], [], fun _ => .null⟩ nightBatch nightDisk with
  | mk result after =>
    rw [outcome] at succeeds
    cases result with
    | ok done => rfl
    | error error => cases succeeds

end ArcReel.Episode
