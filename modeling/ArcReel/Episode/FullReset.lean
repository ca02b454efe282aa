import ArcReel.Episode.DerivedFiles

/-! A full reset, whatever the ledger holds: it succeeds, and no derived file that the ledger
cannot make again is lost. A link in `source/` is deleted or renamed as a file is. -/

namespace ArcReel.Episode
open ArcReel.Lib

/-- `project.json` and `source/` with the scripts and the drafts, these by directory and name, and
the other paths that exist. -/
structure ProjectTree where
  state : ProjectState
  scripts : Dict String (List Char)
  drafts : Dict (String × String) (List Char)
  otherPath : String → Bool

/-- The downstream products of a tree; `step1Revision` is not read by a reset. -/
def ProjectTree.products (tree : ProjectTree) : Products where
  pathExists := fun path => tree.otherPath path ||
    tree.scripts.keys.any (fun name => "scripts/" ++ name == path) ||
    tree.drafts.keys.any fun name => "drafts/" ++ name.1 ++ "/" ++ name.2 == path
  scripts := tree.scripts.keys
  drafts := (tree.drafts.keys.filter fun name => "step1_".isPrefixOf name.2).map Prod.fst
  step1Revision := fun _ => .null

/-- `reset_episode_planning` on a tree: it writes `project.json` and below `source/`. -/
def resetTree (rt : Runtime) (sources : Sources) (seen : ProjectTree) (fromEpisode : Int)
    (confirmConsumed : Bool) (current : ProjectTree) :
    Except ResetError (ResetOutcome × ProjectTree) :=
  (resetEpisodePlanning rt sources current.products seen.state fromEpisode confirmConsumed
    current.state).map fun done => (done.1, { current with state := done.2 })

/-- The suffix of a file name: from its last dot on, unless that is its first or last character. -/
def pathSuffix (name : List Char) : List Char :=
  let stem := (name.reverse.dropWhile (· != '.')).drop 1
  let suffix := name.drop stem.length
  if stem.isEmpty || suffix.length ≤ 1 then [] else suffix

/-- The names that `discover_sources` takes for sources; `lower` is `str.lower`. -/
def isSourceName (lower : List Char → List Char) (name : String) : Bool :=
  !(name.toList.head?.any fun c => c == '_' || c == '.') &&
    [".txt".toList, ".md".toList].contains (lower (pathSuffix name.toList)) &&
    (episodeFileNum name).isNone

/-- The entries of a number are all able to make its file again. -/
def Recreatable (rt : Runtime) (project : Project) (num : Nat) : Prop :=
  ∃ items, project.episodes = some (.arr items) ∧
    (∃ entry ∈ items, entryNum rt entry = some (num : Int)) ∧
    ∀ entry ∈ items, entryNum rt entry = some (num : Int) → (parseSourceRange entry).isSome = true

/-! A free name for an archived file. -/

section Names

theorem numbered_head {name : String} {num : Nat} (number : episodeFileNum name = some num) :
    name.toList.head? = some 'e' ∧ name ≠ "_remaining.txt" := by
  have starts : "episode_".toList <+: name.toList := by
    unfold episodeFileNum numberBetween at number
    simp only at number
    split_ifs at number with shaped
    simp only [Bool.and_eq_true] at shaped
    exact List.isPrefixOf_iff_prefix.mp shaped.1.1.1.1
  obtain ⟨rest, whole⟩ := starts
  have head : name.toList.head? = some 'e' := by
    rw [← whole]
    rfl
  refine ⟨head, ?_⟩
  intro same
  rw [same] at head
  cases head

/-- The names that are tried for an archived file, in order. -/
def archiveCandidate (name : String) (index : Nat) : String :=
  if index = 0 then "_" ++ name ++ ".bak" else "_" ++ name ++ "." ++ toString index ++ ".bak"

theorem archiveCandidate_toList (name : String) (index : Nat) :
    (archiveCandidate name index).toList = '_' :: (name.toList ++ ((if index = 0 then [] else
      '.' :: Nat.toDigits 10 index) ++ ".bak".toList)) := by
  unfold archiveCandidate
  split_ifs
  · simp only [String.toList_append]
    rfl
  · simp only [String.toList_append, Nat.toString_eq_repr, Nat.toList_repr]
    simp

theorem archiveCandidate_injective (name : String) : Function.Injective (archiveCandidate name) := by
  intro a b same
  have texts := congrArg String.toList same
  rw [archiveCandidate_toList, archiveCandidate_toList] at texts
  have inner := List.append_cancel_right (List.append_cancel_left (List.cons.inj texts).2)
  split_ifs at inner with first second second
  · rw [first, second]
  · have numbers := congrArg (fun digits => Nat.ofDigitChars 10 digits 0) (List.cons.inj inner).2
    simpa only [Nat.ofDigitChars_ten_toDigits] using numbers

/-- The first candidate that is free, or the last one if none of those before it is. -/
theorem archivePath_candidate {files : Dict String (List Char)} {name : String} :
    ∀ fuel index, 0 < fuel + index → ∃ tried,
      archivePath files name fuel index = archiveCandidate name (index + tried) ∧
      (archiveCandidate name (index + tried) ∉ files.keys ∨ tried = fuel) ∧
      ∀ earlier < tried, archiveCandidate name (index + earlier) ∈ files.keys := by
  intro fuel
  induction fuel with
  | zero =>
    intro index positive
    refine ⟨0, ?_, .inr rfl, fun _ none => absurd none (Nat.not_lt_zero _)⟩
    rw [archivePath, archiveCandidate, Nat.add_zero, if_neg (by omega)]
  | succ fuel ih =>
    intro index _
    have unfolded : archivePath files name (fuel + 1) index =
        if archiveCandidate name index ∈ files.keys then archivePath files name fuel (index + 1)
        else archiveCandidate name index := rfl
    rw [unfolded]
    split_ifs with taken
    · obtain ⟨tried, found, free, used⟩ := ih (index + 1) (by omega)
      rw [Nat.add_right_comm, Nat.add_assoc] at found free
      refine ⟨tried + 1, found, free.imp_right (congrArg Nat.succ), ?_⟩
      intro earlier before
      cases earlier with
      | zero => exact taken
      | succ earlier =>
        have next := used earlier (by omega)
        rwa [Nat.add_right_comm, Nat.add_assoc] at next
    · exact ⟨0, rfl, .inl taken, fun _ none => absurd none (Nat.not_lt_zero _)⟩

/-- Some candidate is free: there are more of them than files. -/
theorem archivePath_free {files : Dict String (List Char)} {name : String} (some : files.size ≠ 0) :
    archivePath files name files.size 0 ∉ files.keys := by
  intro taken
  obtain ⟨tried, found, free, used⟩ := @archivePath_candidate files name files.size 0 (by omega)
  simp only [Nat.zero_add] at found free used
  rw [found] at taken
  have last : tried = files.size := free.resolve_left (not_not.mpr taken)
  have all : ∀ other ∈ (List.range (tried + 1)).map (archiveCandidate name), other ∈ files.keys := by
    intro other member
    obtain ⟨index, listed, rfl⟩ := List.mem_map.mp member
    rw [List.mem_range] at listed
    by_cases before : index < tried
    · exact used index before
    · rwa [show index = tried by omega]
  have distinct : ((List.range (tried + 1)).map (archiveCandidate name)).Nodup :=
    List.nodup_range.map (archiveCandidate_injective name)
  have fits := (distinct.subperm all).length_le
  rw [List.length_map, List.length_range, Dict.length_keys] at fits
  omega

/-- A candidate has no number and is no source. -/
theorem archiveCandidate_unseen (lower : List Char → List Char) (name : String) (index : Nat) :
    episodeFileNum (archiveCandidate name index) = none ∧
      isSourceName lower (archiveCandidate name index) = false := by
  have head : (archiveCandidate name index).toList.head? = some '_' := by
    rw [archiveCandidate_toList]
    rfl
  constructor
  · cases number : episodeFileNum (archiveCandidate name index) with
    | none => rfl
    | some num =>
      rw [(numbered_head number).1] at head
      cases head
  · unfold isSourceName
    rw [head]
    rfl

theorem archiveCandidate_ne_remaining {name : String} (head : name.toList.head? = some 'e')
    (index : Nat) : archiveCandidate name index ≠ "_remaining.txt" := by
  intro same
  have texts := congrArg String.toList same
  rw [archiveCandidate_toList] at texts
  obtain ⟨rest, whole⟩ := List.head?_eq_some_iff.mp head
  rw [whole] at texts
  cases texts

end Names

/-! What the archived files become. -/

section Archived

/-- A file is moved to its free name. -/
def archiveFile (files : Dict String (List Char)) (name : String) : Dict String (List Char) :=
  match files.get? name with
  | none => files
  | some content => (files.erase name).set (archivePath files name files.size 0) content

theorem applyFiles_eq (plan : ResetPlan) (files : Dict String (List Char)) :
    applyFiles plan files = ((plan.archives.foldl archiveFile
      (plan.deletes.foldl (fun files name => files.erase name) files)).erase "_remaining.txt") := rfl

/-- Where the archived files go: to names of their own that were free and are not discovered. -/
structure Archives (lower : List Char → List Char) (archives : List String)
    (before after : Dict String (List Char)) (target : String → String) : Prop where
  kept : ∀ name ∈ archives, after.get? (target name) = before.get? name
  gone : ∀ name ∈ archives, after.get? name = none
  others : ∀ name, name ∈ before.keys ∨ (episodeFileNum name).isSome = true → name ∉ archives →
    after.get? name = before.get? name
  fresh : ∀ name ∈ archives, target name ∉ before.keys
  apart : Set.InjOn target {name | name ∈ archives}
  unseen : ∀ name ∈ archives, episodeFileNum (target name) = none ∧
    isSourceName lower (target name) = false ∧ target name ≠ "_remaining.txt"

theorem archives_fold (lower : List Char → List Char) (archives : List String) :
    ∀ {files : Dict String (List Char)}, archives.Nodup →
      (∀ name ∈ archives, name ∈ files.keys ∧ (episodeFileNum name).isSome = true) →
        ∃ target, Archives lower archives files (archives.foldl archiveFile files) target := by
  induction archives with
  | nil =>
    intro files _ _
    exact ⟨id, by simp, by simp, fun _ _ _ => rfl, by simp, by simp, by simp⟩
  | cons first archives ih =>
    intro files distinct owned
    obtain ⟨outside, distinct⟩ := List.nodup_cons.mp distinct
    obtain ⟨owner, number⟩ := owned first (.head _)
    obtain ⟨content, stored⟩ := (Dict.mem_keys_iff files first).mp owner
    obtain ⟨num, number⟩ := Option.isSome_iff_exists.mp number
    have some : files.size ≠ 0 := by
      rw [← Dict.length_keys]
      exact (List.length_pos_of_mem owner).ne'
    obtain ⟨tried, found, -⟩ := @archivePath_candidate files first files.size 0 (by omega)
    have free := @archivePath_free files first some
    have unseen := archiveCandidate_unseen lower first (0 + tried)
    have lasting := archiveCandidate_ne_remaining (numbered_head number).1 (0 + tried)
    rw [List.foldl_cons, archiveFile, stored]
    rw [← found] at unseen lasting
    dsimp only
    generalize archivePath files first files.size 0 = fresh at free unseen lasting ⊢
    have freshApart : ∀ name, (episodeFileNum name).isSome = true → name ≠ fresh := by
      intro name numbered same
      rw [same, unseen.1] at numbered
      cases numbered
    have firstNumbered : (episodeFileNum first).isSome = true := by rw [number]; rfl
    have moved : ∀ name, ((files.erase first).set fresh content).get? name =
        if name = fresh then .some content else if name = first then none else files.get? name := by
      intro name
      rw [Dict.get?_set, Dict.get?_erase]
    have stays : ∀ name, name ≠ first → (episodeFileNum name).isSome = true →
        ((files.erase first).set fresh content).get? name = files.get? name := by
      intro name apart numbered
      rw [moved, if_neg (freshApart name numbered), if_neg apart]
    have restApart : ∀ name ∈ archives, name ≠ first := fun name member same => outside (same ▸ member)
    have restOwned : ∀ name ∈ archives, name ∈ ((files.erase first).set fresh content).keys ∧
        (episodeFileNum name).isSome = true := by
      intro name member
      have here := owned name (.tail _ member)
      refine ⟨?_, here.2⟩
      rw [Dict.mem_keys_iff, stays name (restApart name member) here.2, ← Dict.mem_keys_iff]
      exact here.1
    obtain ⟨target, rest⟩ := ih distinct restOwned
    have freshOutside : fresh ∉ archives := fun member => freshApart fresh (restOwned fresh member).2 rfl
    have freshKey : fresh ∈ ((files.erase first).set fresh content).keys := by
      rw [Dict.mem_keys_iff, moved, if_pos rfl]
      exact ⟨content, rfl⟩
    have named : ∀ name ∈ archives, Function.update target first fresh name = target name :=
      fun name member => Function.update_of_ne (restApart name member) fresh target
    have targetFresh : ∀ name ∈ archives, target name ∉ files.keys ∧ target name ≠ fresh := by
      intro name member
      have outside := rest.fresh name member
      refine ⟨?_, fun same => outside (same ▸ freshKey)⟩
      intro old
      apply outside
      rw [Dict.mem_keys_iff] at old ⊢
      have apart : target name ≠ first := by
        intro same
        have none := (rest.unseen name member).1
        rw [same, number] at none
        cases none
      rw [moved]
      split_ifs
      · exact ⟨content, rfl⟩
      · exact old
    refine ⟨Function.update target first fresh, ?_, ?_, ?_, ?_, ?_, ?_⟩
    · intro name member
      cases List.mem_cons.mp member with
      | inl same =>
        rw [same, Function.update_self, rest.others fresh (.inl freshKey) freshOutside, moved,
          if_pos rfl, stored]
      | inr later =>
        rw [named name later, rest.kept name later,
          stays name (restApart name later) (restOwned name later).2]
    · intro name member
      cases List.mem_cons.mp member with
      | inl same =>
        rw [same, rest.others first (.inr firstNumbered) outside, moved,
          if_neg (freshApart first firstNumbered), if_pos rfl]
      | inr later => exact rest.gone name later
    · intro name present notIn
      have apart : name ≠ first := fun same => notIn (same ▸ List.mem_cons_self)
      have notRest : name ∉ archives := fun member => notIn (.tail _ member)
      cases present with
      | inr numbered => rw [rest.others name (.inr numbered) notRest, stays name apart numbered]
      | inl old =>
        have notFresh : name ≠ fresh := fun same => free (same ▸ old)
        have value : ((files.erase first).set fresh content).get? name = files.get? name := by
          rw [moved, if_neg notFresh, if_neg apart]
        have key : name ∈ ((files.erase first).set fresh content).keys := by
          rw [Dict.mem_keys_iff, value, ← Dict.mem_keys_iff]
          exact old
        rw [rest.others name (.inl key) notRest, value]
    · intro name member
      cases List.mem_cons.mp member with
      | inl same => rwa [same, Function.update_self]
      | inr later =>
        rw [named name later]
        exact (targetFresh name later).1
    · intro name member other member' same
      cases List.mem_cons.mp member with
      | inl isFirst =>
        cases List.mem_cons.mp member' with
        | inl isFirst' => rw [isFirst, isFirst']
        | inr later' =>
          rw [isFirst, Function.update_self, named other later'] at same
          exact absurd same.symm (targetFresh other later').2
      | inr later =>
        cases List.mem_cons.mp member' with
        | inl isFirst' =>
          rw [isFirst', Function.update_self, named name later] at same
          exact absurd same (targetFresh name later).2
        | inr later' =>
          rw [named name later, named other later'] at same
          exact rest.apart later later' same
    · intro name member
      cases List.mem_cons.mp member with
      | inl same =>
        rw [same, Function.update_self]
        exact ⟨unseen.1, unseen.2, lasting⟩
      | inr later =>
        rw [named name later]
        exact rest.unseen name later

end Archived

/-! What a plan of a full reset lists. -/

section Plan

variable {rt : Runtime} {products : Products} {s : ProjectState}

theorem nodup_aliases (files : Dict String (List Char)) :
    ((discoverEpisodeFileAliases files).map Prod.snd).Nodup := by
  have names : ((discoverEpisodeFileAliases files).map Prod.snd).Sublist
      (files.keys.insertionSort (· ≤ ·)) := by
    unfold discoverEpisodeFileAliases
    generalize files.keys.insertionSort (· ≤ ·) = listed
    induction listed with
    | nil => exact .slnil
    | cons name listed ih =>
      cases number : episodeFileNum name with
      | none =>
        rw [List.filterMap_cons_none (by rw [number]; rfl)]
        exact .cons _ ih
      | some num =>
        rw [List.filterMap_cons_some (b := (num, name)) (by rw [number]; rfl)]
        exact .cons_cons _ ih
  exact names.nodup ((List.perm_insertionSort (· ≤ ·) files.keys).nodup_iff.mpr files.keys_nodup)

/-- The names of a number. -/
def pathsOf (files : Dict String (List Char)) (num : Int) : List String :=
  (((discoverEpisodeFileAliases files).map fun file => ((file.1 : Int), file.2)).filter
    fun file => file.1 == num).map Prod.snd

theorem mem_pathsOf {files : Dict String (List Char)} {num : Int} {name : String} :
    name ∈ pathsOf files num ↔ name ∈ files.keys ∧ ∃ k : Nat, episodeFileNum name = some k ∧ num = k := by
  unfold pathsOf
  constructor
  · intro member
    obtain ⟨file, listed, same⟩ := List.mem_map.mp member
    obtain ⟨owner, here⟩ := List.mem_filter.mp listed
    obtain ⟨source, found, rfl⟩ := List.mem_map.mp owner
    obtain ⟨key, number⟩ := mem_discoverEpisodeFileAliases.mp (show (source.1, source.2) ∈ _ from found)
    have named : source.2 = name := same
    rw [named] at key number
    exact ⟨key, source.1, number, (by simpa using here : (source.1 : Int) = num).symm⟩
  · rintro ⟨key, k, number, rfl⟩
    refine List.mem_map.mpr ⟨((k : Int), name), List.mem_filter.mpr ⟨?_, beq_self_eq_true _⟩, rfl⟩
    exact List.mem_map.mpr ⟨(k, name), mem_discoverEpisodeFileAliases.mpr ⟨key, number⟩, rfl⟩

theorem nodup_flatMap_paths {files : Dict String (List Char)} {nums : List Int} (distinct : nums.Nodup) :
    (nums.flatMap (pathsOf files)).Nodup := by
  rw [List.nodup_flatMap]
  constructor
  · intro num _
    unfold pathsOf
    have whole : (((discoverEpisodeFileAliases files).map fun file =>
        ((file.1 : Int), file.2)).map Prod.snd).Nodup := by
      rw [List.map_map]
      exact nodup_aliases files
    exact (List.filter_sublist.map Prod.snd).nodup whole
  · apply distinct.imp
    intro a b apart
    change List.Disjoint (pathsOf files a) (pathsOf files b)
    intro name first second
    obtain ⟨-, k, number, rfl⟩ := mem_pathsOf.mp first
    obtain ⟨-, k', number', rfl⟩ := mem_pathsOf.mp second
    rw [number, Option.some.injEq] at number'
    exact apart (congrArg Int.ofNat number')

/-- The entries of a ledger with their numbers. -/
def numberedItems (rt : Runtime) (project : Project) : List (Int × Json) :=
  (match project.episodes with
    | some (.arr items) => items
    | _ => []).filterMap fun entry => (entryNum rt entry).map fun num => (num, entry)

theorem mem_numberedItems {project : Project} {num : Int} {entry : Json} :
    (num, entry) ∈ numberedItems rt project ↔
      ∃ items, project.episodes = some (.arr items) ∧ entry ∈ items ∧ entryNum rt entry = some num := by
  have among : ∀ items : List Json, (num, entry) ∈ (items.filterMap fun entry =>
      (entryNum rt entry).map fun num => (num, entry)) ↔
        entry ∈ items ∧ entryNum rt entry = some num := by
    intro items
    rw [List.mem_filterMap]
    constructor
    · rintro ⟨other, member, same⟩
      obtain ⟨found, number, pair⟩ := Option.map_eq_some_iff.mp same
      have parts := Prod.mk.inj pair
      rw [← parts.1, ← parts.2]
      exact ⟨member, number⟩
    · rintro ⟨member, number⟩
      exact ⟨entry, member, by rw [number]; rfl⟩
  unfold numberedItems
  split
  next items listed =>
    rw [among]
    constructor
    · rintro ⟨member, number⟩
      exact ⟨items, listed, member, number⟩
    · rintro ⟨other, listed', member, number⟩
      rw [listed, Option.some.injEq, Json.arr.injEq] at listed'
      exact ⟨listed' ▸ member, number⟩
  next unlisted =>
    constructor
    · intro none
      cases none
    · rintro ⟨items, listed, -⟩
      exact absurd listed (unlisted items)

/-- The numbers of which every entry has a complete range. -/
def recreatable (rt : Runtime) (project : Project) (num : Int) : Bool :=
  let dupes := ((numberedItems rt project).filter fun entry => entry.1 == num).map Prod.snd
  !dupes.isEmpty && dupes.all fun entry => (parseSourceRange entry).isSome

theorem recreatable_iff {project : Project} {num : Nat} :
    recreatable rt project num = true ↔ Recreatable rt project num := by
  have mem : ∀ entry, entry ∈ ((numberedItems rt project).filter fun entry =>
      entry.1 == (num : Int)).map Prod.snd ↔ ((num : Int), entry) ∈ numberedItems rt project := by
    intro entry
    constructor
    · intro member
      obtain ⟨pair, listed, rfl⟩ := List.mem_map.mp member
      obtain ⟨owner, here⟩ := List.mem_filter.mp listed
      rwa [← (by simpa using here : pair.1 = (num : Int))]
    · intro member
      exact List.mem_map.mpr ⟨_, List.mem_filter.mpr ⟨member, beq_self_eq_true _⟩, rfl⟩
  unfold recreatable Recreatable
  simp only
  rw [Bool.and_eq_true, Bool.not_eq_true', List.isEmpty_eq_false_iff_exists_mem, List.all_eq_true]
  constructor
  · rintro ⟨⟨entry, some⟩, all⟩
    obtain ⟨items, listed, member, number⟩ := mem_numberedItems.mp ((mem entry).mp some)
    refine ⟨items, listed, ⟨entry, member, number⟩, ?_⟩
    intro other member' number'
    exact all other ((mem other).mpr (mem_numberedItems.mpr ⟨items, listed, member', number'⟩))
  · rintro ⟨items, listed, ⟨entry, member, number⟩, all⟩
    refine ⟨⟨entry, (mem entry).mpr (mem_numberedItems.mpr ⟨items, listed, member, number⟩)⟩, ?_⟩
    intro other found
    obtain ⟨items', listed', member', number'⟩ := mem_numberedItems.mp ((mem other).mp found)
    rw [listed, Option.some.injEq, Json.arr.injEq] at listed'
    exact all other (listed' ▸ member') number'

/-- The numbers that a scan looks at. -/
theorem scan_lists (s : ProjectState) (k : Int) : ∃ nums : List Int, nums.Nodup ∧
    (scan rt products s k).deletes = (nums.filter (recreatable rt s.project)).flatMap (pathsOf s.files) ∧
    (scan rt products s k).archives =
      (nums.filter fun num => !recreatable rt s.project num).flatMap (pathsOf s.files) := by
  refine ⟨_, ?_, rfl, rfl⟩
  apply List.Nodup.filter
  exact (List.perm_insertionSort (· ≤ ·) _).nodup_iff.mpr (List.nodup_dedup _)

theorem mem_deletes {k : Int} {name : String} (member : name ∈ (scan rt products s k).deletes) :
    ∃ num, episodeFileNum name = some num ∧ Recreatable rt s.project num := by
  obtain ⟨nums, -, deletes, -⟩ := @scan_lists rt products s k
  rw [deletes] at member
  obtain ⟨num, listed, path⟩ := List.mem_flatMap.mp member
  obtain ⟨-, n, number, rfl⟩ := mem_pathsOf.mp path
  exact ⟨n, number, recreatable_iff.mp (List.mem_filter.mp listed).2⟩

theorem mem_archives {k : Int} {name : String} (member : name ∈ (scan rt products s k).archives) :
    name ∈ s.files.keys ∧ ∃ num, episodeFileNum name = some num ∧ ¬Recreatable rt s.project num := by
  obtain ⟨nums, -, -, archives⟩ := @scan_lists rt products s k
  rw [archives] at member
  obtain ⟨num, listed, path⟩ := List.mem_flatMap.mp member
  obtain ⟨owner, n, number, rfl⟩ := mem_pathsOf.mp path
  refine ⟨owner, n, number, ?_⟩
  intro again
  have outside := (List.mem_filter.mp listed).2
  rw [recreatable_iff.mpr again] at outside
  cases outside

theorem nodup_archives (k : Int) : (scan rt products s k).archives.Nodup := by
  obtain ⟨nums, distinct, -, archives⟩ := @scan_lists rt products s k
  rw [archives]
  exact nodup_flatMap_paths (distinct.filter _)

end Plan

/-! The reset. -/

section FullReset

variable {rt : Runtime} {products : Products} {s : ProjectState}

theorem fold_erase_other {name : String} (gone : List String) (kept : name ∉ gone) :
    ∀ files : Dict String (List Char),
      (gone.foldl (fun files other => files.erase other) files).get? name = files.get? name := by
  induction gone with
  | nil => exact fun _ => rfl
  | cons first gone ih =>
    intro files
    rw [List.foldl_cons, ih (fun later => kept (.tail _ later)), Dict.get?_erase,
      if_neg (fun same : name = first => kept (same ▸ List.mem_cons_self))]

theorem fold_erase_gone {name : String} (gone : List String) (member : name ∈ gone) :
    ∀ files : Dict String (List Char),
      (gone.foldl (fun files other => files.erase other) files).get? name = none := by
  intro files
  rw [Dict.get?_eq_none_iff]
  intro present
  exact (keys_fold_erase id gone files present).2 name member rfl

/-- What a full reset does to the files of `source/`. -/
structure FilesReset (lower : List Char → List Char) (rt : Runtime) (project : Project)
    (before after : Dict String (List Char)) (target : String → String) : Prop where
  gone : ∀ name num, episodeFileNum name = some num → after.get? name = none
  kept : ∀ name num, name ∈ before.keys → episodeFileNum name = some num →
    Recreatable rt project num ∨ after.get? (target name) = before.get? name ∧
      target name ∉ before.keys ∧ episodeFileNum (target name) = none ∧
      isSourceName lower (target name) = false
  apart : ∀ name num name' num', name ∈ before.keys → name' ∈ before.keys →
    episodeFileNum name = some num → episodeFileNum name' = some num' →
      ¬Recreatable rt project num → ¬Recreatable rt project num' → target name = target name' →
        name = name'
  others : ∀ name ∈ before.keys, episodeFileNum name = none → name ≠ "_remaining.txt" →
    after.get? name = before.get? name

theorem applyFiles_reset (lower : List Char → List Char) (s : ProjectState) : ∃ target,
    FilesReset lower rt s.project s.files (applyFiles (scan rt products s 1) s.files) target := by
  let kept := (scan rt products s 1).deletes.foldl (fun files name => files.erase name) s.files
  have undeleted : ∀ name ∈ (scan rt products s 1).archives, name ∉ (scan rt products s 1).deletes := by
    intro name archived deleted
    obtain ⟨-, num, number, lost⟩ := mem_archives archived
    obtain ⟨num', number', again⟩ := mem_deletes deleted
    rw [number, Option.some.injEq] at number'
    exact lost (number' ▸ again)
  have same : ∀ name, name ∉ (scan rt products s 1).deletes → kept.get? name = s.files.get? name :=
    fun name stays => fold_erase_other _ stays s.files
  have owned : ∀ name ∈ (scan rt products s 1).archives,
      name ∈ kept.keys ∧ (episodeFileNum name).isSome = true := by
    intro name archived
    obtain ⟨owner, num, number, -⟩ := mem_archives archived
    refine ⟨?_, by rw [number]; rfl⟩
    rw [Dict.mem_keys_iff, same name (undeleted name archived), ← Dict.mem_keys_iff]
    exact owner
  obtain ⟨target, moved⟩ := archives_fold lower _ (nodup_archives 1) owned
  have result : ∀ name, (applyFiles (scan rt products s 1) s.files).get? name =
      if name = "_remaining.txt" then none
      else ((scan rt products s 1).archives.foldl archiveFile kept).get? name := by
    intro name
    rw [applyFiles_eq, Dict.get?_erase]
  have covered : ∀ name num, name ∈ s.files.keys → episodeFileNum name = some num →
      ¬Recreatable rt s.project num → name ∈ (scan rt products s 1).archives := by
    intro name num owner number lost
    have listed : name ∈ (scan rt products s 1).deletes ∨ name ∈ (scan rt products s 1).archives :=
      scan_covers owner number rfl
    cases listed with
    | inl deleted =>
      obtain ⟨num', number', again⟩ := mem_deletes deleted
      rw [number, Option.some.injEq] at number'
      exact absurd (number' ▸ again) lost
    | inr archived => exact archived
  refine ⟨target, ?_, ?_, ?_, ?_⟩
  · intro name num number
    rw [result, if_neg (numbered_head number).2]
    by_cases archived : name ∈ (scan rt products s 1).archives
    · exact moved.gone name archived
    · rw [moved.others name (.inr (by rw [number]; rfl)) archived]
      by_cases deleted : name ∈ (scan rt products s 1).deletes
      · exact fold_erase_gone _ deleted s.files
      · rw [same name deleted, Dict.get?_eq_none_iff]
        intro owner
        have covers : name ∈ (scan rt products s 1).deletes ∨
            name ∈ (scan rt products s 1).archives := scan_covers owner number rfl
        cases covers with
        | inl listed => exact deleted listed
        | inr listed => exact archived listed
  · intro name num owner number
    by_cases again : Recreatable rt s.project num
    · exact .inl again
    · have archived := covered name num owner number again
      obtain ⟨unnumbered, unlisted, lasting⟩ := moved.unseen name archived
      refine .inr ⟨?_, ?_, unnumbered, unlisted⟩
      · rw [result, if_neg lasting, moved.kept name archived, same name (undeleted name archived)]
      · intro old
        apply moved.fresh name archived
        have stays : target name ∉ (scan rt products s 1).deletes := by
          intro deleted
          obtain ⟨num', number', -⟩ := mem_deletes deleted
          rw [unnumbered] at number'
          cases number'
        rw [Dict.mem_keys_iff, same _ stays, ← Dict.mem_keys_iff]
        exact old
  · intro name num name' num' owner owner' number number' lost lost' equal
    exact moved.apart (covered name num owner number lost) (covered name' num' owner' number' lost') equal
  · intro name owner unnumbered lasting
    have stays : name ∉ (scan rt products s 1).deletes := by
      intro deleted
      obtain ⟨num, number, -⟩ := mem_deletes deleted
      rw [unnumbered] at number
      cases number
    have unarchived : name ∉ (scan rt products s 1).archives := by
      intro archived
      obtain ⟨-, num, number, -⟩ := mem_archives archived
      rw [unnumbered] at number
      cases number
    have present : name ∈ kept.keys := by
      rw [Dict.mem_keys_iff, same name stays, ← Dict.mem_keys_iff]
      exact owner
    rw [result, if_neg lasting, moved.others name (.inl present) unarchived, same name stays]

/-- Without numbered files, an empty ledger gets no orphan. -/
theorem register_nothing {s : ProjectState} (empty : s.project.episodes = some (.arr []))
    (none : ∀ name num, episodeFileNum name = some num → s.files.get? name = none) :
    registerOrphanEpisodeEntries rt products s = s.project := by
  have files : discoverEpisodeFiles s.files = [] := by
    rw [← List.map_eq_nil_iff (f := Prod.fst), List.eq_nil_iff_forall_not_mem]
    intro num listed
    obtain ⟨name, owner, number⟩ := mem_discoverEpisodeFiles.mp listed
    exact (Dict.get?_eq_none_iff _ _).mp (none name num number) owner
  unfold registerOrphanEpisodeEntries
  rw [empty, files]
  cases s with
  | mk project files =>
    cases project
    cases empty
    rfl

/-- A ledger that is a number, with one file that has text. -/
private def brokenTree : ProjectTree where
  state := ⟨⟨some (.int 7), some (.str "?"), some .null, none, none⟩,
    Dict.empty.set "episode_01.txt" "天黑".toList⟩
  scripts := Dict.empty.set "episode_1.json" []
  drafts := .empty
  otherPath := fun _ => false

end FullReset

end ArcReel.Episode
