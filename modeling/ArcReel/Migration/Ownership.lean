import ArcReel.Migration.Resume

/-! Which clue a file belongs to, and when the migration sorts every file by the type of its own
clue. -/

namespace ArcReel.Migration
open Lib Crash Prog

/-- The suffix of a file, which may be empty. -/
def isSuffix (text : List Char) : Bool := text = [] || (text.head? == some '.' && !text.tail.contains '.')

/-- `%Y%m%dT%H%M%S`. -/
def isStamp (text : List Char) : Bool :=
  text.length == 15 && text[8]? == some 'T' && (text.eraseIdx 8).all Char.isDigit

/-- A snapshot of a clue is named after it, with a version and a timestamp. -/
def snapshotOf (clue file : String) : Bool :=
  let marker := clue.toList ++ "_v".toList
  let rest := file.toList.drop marker.length
  let version := rest.takeWhile Char.isDigit
  let stamp := rest.drop (version.length + 1)
  marker.isPrefixOf file.toList && !version.isEmpty && rest[version.length]? == some '_' &&
    isStamp (stamp.take 15) && isSuffix (stamp.drop 15)

section Turns

variable (listing : Listing)

/-- The turns of some clues at `versions/clues`. -/
def versionTurns (clues : List (String × Kind)) : Prog Sorting :=
  .each clues fun clue => (mkdir clue.2).seq
    (.reading fun s => .each (versionNames listing clue.1 s) (move clue.2))

/-- After the turns of some clues, what they take is gone and the rest is still there. -/
theorem found_versionTurns (clues : List (String × Kind)) (s : Sorting) (there : s.source.isSome = true) :
    ((versionTurns listing clues).final s).source.isSome = true ∧
      ∀ file, ((versionTurns listing clues).final s).found file =
        if clues.any fun clue => acceptsVersion clue.1 file then none else s.found file := by
  induction clues generalizing s with
  | nil => exact ⟨there, fun _ => rfl⟩
  | cons clue clues ih =>
    rw [versionTurns, final_each_cons, final_seq, final_reading]
    obtain ⟨-, source, ready, -⟩ := @mkdir_spec (fun _ => some clue.2) everyKind s clue.2 trivial
    have found : ∀ file, ((mkdir clue.2).final s).found file = s.found file := by
      intro file
      rw [Sorting.found, source, Sorting.found]
    obtain ⟨-, there', -, moved⟩ := @moves_spec (fun _ => some clue.2) everyKind _
      (versionNames listing clue.1 ((mkdir clue.2).final s)) ((mkdir clue.2).final s)
      (by rw [source]; exact there) ready (fun _ _ _ => rfl)
    obtain ⟨there'', rest⟩ := ih _ there'
    refine ⟨there'', fun file => (rest file).trans ?_⟩
    rw [moved file, found file, List.any_cons]
    cases content : s.found file with
    | none => simp
    | some bytes =>
      have listed := @mem_versionNames listing clue.1 file ((mkdir clue.2).final s)
        (by rw [found, content]; rfl)
      by_cases accepted : acceptsVersion clue.1 file = true
      · rw [if_pos (listed.mpr accepted), accepted]
        simp
      · rw [if_neg fun member => accepted (listed.mp member), Bool.eq_false_iff.mpr accepted, Bool.false_or]

end Turns

section Images

theorem exts_plain : ∀ ext ∈ exts, '.' ∉ ext.toList := by decide

/-- An image has the name of one clue only. -/
theorem imageNames_injective {clue other file : String} (own : file ∈ imageNames clue)
    (same : file ∈ imageNames other) : clue = other := by
  obtain ⟨ext, isExt, named⟩ := List.mem_map.mp own
  obtain ⟨ext', isExt', named'⟩ := List.mem_map.mp same
  have cut : ∀ (name ext : String), ext ∈ exts →
      ((name ++ "." ++ ext).toList.reverse.dropWhile (· ≠ '.')) = '.' :: name.toList.reverse := by
    intro name ext isExt
    have spelled : (name ++ "." ++ ext).toList.reverse =
        ext.toList.reverse ++ '.' :: name.toList.reverse := by
      simp [String.toList_append]
    rw [spelled, List.dropWhile_append_of_pos]
    · exact List.dropWhile_cons_of_neg (by simp)
    · intro c member
      rw [List.mem_reverse] at member
      have plain := exts_plain ext isExt
      simp only [decide_eq_true_eq]
      rintro rfl
      exact plain member
  have first := cut clue ext isExt
  rw [named, ← named', cut other ext' isExt'] at first
  exact (String.toList_injective (List.reverse_injective (List.cons.inj first).2)).symm

theorem takes_image {clues : Dict String Kind} {clue file : String} {kind : Kind}
    (known : clues.get? clue = some kind) (own : file ∈ imageNames clue) :
    takes clues.entries acceptsImage file = some kind := by
  have member := (Dict.get?_eq_some_iff _ _ _).mp known
  unfold takes
  cases found : clues.entries.find? fun clue => acceptsImage clue.1 file with
  | none =>
    have none := List.find?_eq_none.mp found _ member
    exact absurd (decide_eq_true own) none
  | some first =>
    have accepts := List.find?_some found
    have accepted : file ∈ imageNames first.1 := of_decide_eq_true accepts
    have inside : (first.1, first.2) ∈ clues.entries := List.mem_of_find?_eq_some found
    rw [imageNames_injective accepted own] at inside
    have same := (Dict.get?_eq_some_iff _ _ _).mpr inside
    rw [known] at same
    exact same.symm

end Images

section Types

variable (listing : Listing) (t : Tree)

/-- The first folder of a path in `scenes` or `props`. -/
def folderOf : Kind → String
  | .scene => "scenes/"
  | .prop => "props/"

/-- The entry that a clue has become. -/
def entryOf (project : Project) (kind : Kind) (clue : String) : Option Item :=
  match kind with
  | .scene => project.scenes.join.bind (·.get? clue)
  | .prop => project.props.join.bind (·.get? clue)

/-- Every file of a clue is sorted by the clue's type, in the turn of that clue, and the path of its
entry follows it. -/
structure SortedByType : Prop where
  images : ∀ clue kind, (oldClues t.project).get? clue = some kind → ∀ file ∈ imageNames clue,
    ∀ bytes, t.images.found file = some bytes →
      ((migrateV0ToV1 listing).final t).images.found file = none ∧
        ((migrateV0ToV1 listing).final t).images.inTarget kind file = some bytes
  versions : ∀ clue kind, (oldClues t.project).get? clue = some kind → ∀ file,
    snapshotOf clue file = true → ∀ bytes, t.versions.found file = some bytes →
      ((migrateV0ToV1 listing).final t).versions.found file = none ∧
        ((migrateV0ToV1 listing).final t).versions.inTarget kind file = some bytes
  ownImages : ∀ clue ∈ (oldClues t.project).keys, ∀ file ∈ imageNames clue,
    ∀ other ∈ (oldClues t.project).keys, file ∈ imageNames other → other = clue
  ownVersions : t.images.source.isSome = true → t.versions.source.isSome = true → ∀ done clue todo,
    (oldClues t.project).entries = done ++ clue :: todo →
    ∀ file ∈ versionNames listing clue.1 ((versionTurns listing done).final t.versions),
      ∀ other ∈ (oldClues t.project).keys, snapshotOf other file = true → other = clue.1
  sheets : ∀ name clue, t.project.clues.get? name = some clue → ∀ file bytes,
    clue.clueSheet = some ("clues/" ++ file) → t.images.found file = some bytes →
      (∃ item, entryOf ((migrateV0ToV1 listing).final t).project clue.kind name = some item ∧
        item.sheet = some (folderOf clue.kind ++ file)) ∧
      ((migrateV0ToV1 listing).final t).images.inTarget clue.kind file = some bytes

/-- The clue whose pattern is the first to match a file of `versions/clues`. -/
def claimant (file : String) : Option String :=
  ((oldClues t.project).entries.find? fun clue => acceptsVersion clue.1 file).map Prod.fst

/-- Snapshots are there together with `clues/` and go with their own clue; a sheet in `clues/` is an
image of a clue of the same type, or lies in the directory of that type already. -/
structure Unmixed : Prop where
  versions : ∀ clue ∈ (oldClues t.project).keys, ∀ file, snapshotOf clue file = true →
    (t.versions.found file).isSome = true → t.images.source.isSome = true ∧ claimant t file = some clue
  sheets : ∀ name clue, t.project.clues.get? name = some clue → ∀ file bytes,
    clue.clueSheet = some ("clues/" ++ file) → t.images.found file = some bytes →
      (∃ owner, (oldClues t.project).get? owner = some clue.kind ∧ file ∈ imageNames owner) ∨
        t.images.inTarget clue.kind file = some bytes

variable {listing t}

theorem final_images (v0 : t.project.schemaVersion < 1) {file : String} {bytes : File}
    (found : t.images.found file = some bytes) (kind : Kind) :
    ((migrateV0ToV1 listing).final t).images.inTarget kind file =
        (if takes (oldClues t.project).entries acceptsImage file = some kind then some bytes
          else t.images.inTarget kind file) ∧
      ((migrateV0ToV1 listing).final t).images.found file =
        if takes (oldClues t.project).entries acceptsImage file = none then some bytes else none := by
  have there : t.images.source.isSome = true := by
    rw [Sorting.found] at found
    exact Option.isSome_of_isSome_bind (Option.isSome_of_eq_some found)
  obtain ⟨-, goal, done⟩ := relocateImages_spec (oldClues t.project) t.images there
  rw [(final_parts v0).1, final_relocate there]
  dsimp only
  rw [← sorted_of_done done kind file, ← left_of_done done file, goal]
  constructor
  · show (if takes _ _ file = some kind ∧ (t.images.found file).isSome = true then t.images.found file else _) = _
    rw [found]
    simp
  · show (if takes _ _ file = none then t.images.found file else none) = _
    rw [found]

theorem final_versions (v0 : t.project.schemaVersion < 1) (there : t.images.source.isSome = true)
    {file : String} {bytes : File} (found : t.versions.found file = some bytes) (kind : Kind) :
    ((migrateV0ToV1 listing).final t).versions.inTarget kind file =
        (if takes (oldClues t.project).entries acceptsVersion file = some kind then some bytes
          else t.versions.inTarget kind file) ∧
      ((migrateV0ToV1 listing).final t).versions.found file =
        if takes (oldClues t.project).entries acceptsVersion file = none then some bytes else none := by
  have source : t.versions.source.isSome = true := by
    rw [Sorting.found] at found
    exact Option.isSome_of_isSome_bind (Option.isSome_of_eq_some found)
  obtain ⟨-, goal, done⟩ := relocateVersions_spec listing (oldClues t.project) t.versions source
  rw [(final_parts v0).2.1, final_relocate there]
  dsimp only
  rw [← sorted_of_done done kind file, ← left_of_done done file, goal]
  constructor
  · show (if takes _ _ file = some kind ∧ (t.versions.found file).isSome = true then t.versions.found file
      else _) = _
    rw [found]
    simp
  · show (if takes _ _ file = none then t.versions.found file else none) = _
    rw [found]

/-- Without `clues/` the versions stay where they are. -/
theorem final_versions_gone (v0 : t.project.schemaVersion < 1) (gone : t.images.source = none) :
    ((migrateV0ToV1 listing).final t).versions = t.versions := by
  rw [(final_parts v0).2.1, final_of_nil (relocate_gone gone)]

theorem takes_of_claimant {clue file : String} {kind : Kind} (known : (oldClues t.project).get? clue = some kind)
    (claims : claimant t file = some clue) :
    takes (oldClues t.project).entries acceptsVersion file = some kind := by
  obtain ⟨first, found, same⟩ := Option.map_eq_some_iff.mp claims
  have inside : (first.1, first.2) ∈ (oldClues t.project).entries := List.mem_of_find?_eq_some found
  rw [same] at inside
  have recorded := (Dict.get?_eq_some_iff _ _ _).mpr inside
  rw [known] at recorded
  rw [takes, found, Option.map_some, Option.some.inj recorded]

theorem unique_entry {clues : Dict String Kind} {done todo : List (String × Kind)} {clue first : String × Kind}
    (split : clues.entries = done ++ clue :: todo) (member : first ∈ clues.entries) (same : first.1 = clue.1) :
    first = clue ∧ first ∉ done := by
  have own : clue ∈ clues.entries := by
    rw [split]
    exact List.mem_append_right _ (.head _)
  have equal : first = clue := List.inj_on_of_nodup_map clues.distinct member own same
  refine ⟨equal, ?_⟩
  intro earlier
  have distinct := clues.distinct
  rw [split, List.map_append, List.map_cons] at distinct
  have apart := (List.nodup_append.mp distinct).2.2 first.1 (List.mem_map_of_mem earlier) clue.1 (.head _)
  exact apart same

/-- A clue moves the files of which it is the claimant. -/
theorem mem_turn_iff (there : t.versions.source.isSome = true) {done todo : List (String × Kind)}
    {clue : String × Kind} (split : (oldClues t.project).entries = done ++ clue :: todo) {file : String} :
    file ∈ versionNames listing clue.1 ((versionTurns listing done).final t.versions) ↔
      (t.versions.found file).isSome = true ∧ claimant t file = some clue.1 := by
  obtain ⟨-, found⟩ := found_versionTurns listing done t.versions there
  constructor
  · intro member
    have still : (((versionTurns listing done).final t.versions).found file).isSome = true := by
      unfold versionNames at member
      rw [Sorting.found]
      cases source : ((versionTurns listing done).final t.versions).source with
      | none =>
        rw [source] at member
        cases member
      | some dir =>
        rw [source, List.mem_filter, listing.mem_files] at member
        rw [Option.bind_some]
        exact Finmap.lookup_isSome.mpr member.1
    have accepted := (mem_versionNames still).mp member
    rw [found file] at still
    split_ifs at still with earlier
    · cases still
    · refine ⟨still, ?_⟩
      have none : done.find? (fun clue => acceptsVersion clue.1 file) = none := by
        rw [List.find?_eq_none]
        intro other inside accepts
        exact earlier (List.any_eq_true.mpr ⟨other, inside, accepts⟩)
      have here : (clue :: todo).find? (fun clue => acceptsVersion clue.1 file) = some clue :=
        List.find?_cons_of_pos accepted
      rw [claimant, split, List.find?_append, none, Option.none_or, here]
      rfl
  · rintro ⟨there', claims⟩
    obtain ⟨first, isFirst, same⟩ := Option.map_eq_some_iff.mp claims
    obtain ⟨isClue, later⟩ := unique_entry split (List.mem_of_find?_eq_some isFirst) same
    have accepted := List.find?_some isFirst
    have passed : (done.any fun clue => acceptsVersion clue.1 file) = false := by
      rw [List.any_eq_false]
      intro other inside accepts
      rw [split, List.find?_append] at isFirst
      cases early : done.find? fun clue => acceptsVersion clue.1 file with
      | none => exact List.find?_eq_none.mp early other inside accepts
      | some found =>
        rw [early, Option.some_or, Option.some.injEq] at isFirst
        exact later (isFirst ▸ List.mem_of_find?_eq_some early)
    rw [mem_versionNames (by rw [found file, passed]; exact there'), ← isClue]
    exact accepted

/-- The path of a sheet in `clues/` follows its file. -/
theorem movedSheet_clues {clue : Clue} {file : String} (sheet : clue.clueSheet = some ("clues/" ++ file))
    (folder : String) : movedSheet folder clue = some (folder ++ file) := by
  have filled : "clues/" ++ file ≠ "" := by
    intro empty
    have lengths := congrArg String.length empty
    simp at lengths
  have replaced : replaceFirst "clues/".toList folder.toList ("clues/" ++ file).toList =
      folder.toList ++ file.toList := by
    rw [String.toList_append]
    rfl
  rw [movedSheet, sheet]
  dsimp only
  rw [if_neg filled, replaced, String.ofList_append]
  simp

theorem entryOf_migrated {project : Project} {name : String} {clue : Clue}
    (known : project.clues.get? name = some clue) :
    entryOf (migrateProject project) clue.kind name =
      some ⟨clue.description, movedSheet (folderOf clue.kind) clue⟩ := by
  have filled : project.clues.entries ≠ [] := by
    intro empty
    rw [Dict.get?_eq_some_iff, empty] at known
    cases known
  rw [migrateProject, if_neg filled]
  cases kind : clue.kind with
  | scene =>
    show ((splitClues project.clues).1.get? name) = _
    rw [splitClues, Dict.get?_mapValues, Dict.get?_filter, known, Option.filter_some_pos (by simpa using kind)]
    rfl
  | prop =>
    show ((splitClues project.clues).2.get? name) = _
    rw [splitClues, Dict.get?_mapValues, Dict.get?_filter, known, Option.filter_some_pos (by simpa using kind)]
    rfl

theorem found_source {s : Sorting} {file : String} {bytes : File} (found : s.found file = some bytes) :
    s.source.isSome = true := by
  rw [Sorting.found] at found
  exact Option.isSome_of_isSome_bind (Option.isSome_of_eq_some found)

theorem unmixed_of_sorted (v0 : t.project.schemaVersion < 1) (sorted : SortedByType listing t) : Unmixed t := by
  constructor
  · intro clue known file snapshot there
    obtain ⟨kind, recorded⟩ := (Dict.mem_keys_iff _ _).mp known
    obtain ⟨bytes, found⟩ := Option.isSome_iff_exists.mp there
    have gone := (sorted.versions clue kind recorded file snapshot bytes found).1
    cases source : t.images.source with
    | none =>
      rw [final_versions_gone v0 source, found] at gone
      cases gone
    | some dir =>
      refine ⟨rfl, ?_⟩
      have images : t.images.source.isSome = true := by rw [source]; rfl
      rw [(final_versions v0 images found kind).2] at gone
      cases first : (oldClues t.project).entries.find? fun clue => acceptsVersion clue.1 file with
      | none =>
        rw [takes, first] at gone
        cases gone
      | some entry =>
        obtain ⟨done, todo, split⟩ := List.append_of_mem (List.mem_of_find?_eq_some first)
        have claims : claimant t file = some entry.1 := by rw [claimant, first]; rfl
        have moved := (@mem_turn_iff listing _ (found_source found) _ _ _ split _).mpr ⟨there, claims⟩
        rw [sorted.ownVersions images (found_source found) done entry todo split file moved clue known snapshot]
        exact claims
  · intro name clue known file bytes sheet found
    have lies := (sorted.sheets name clue known file bytes sheet found).2
    rw [(final_images v0 found clue.kind).1] at lies
    split_ifs at lies with routed
    · obtain ⟨owner, first, same⟩ := Option.map_eq_some_iff.mp routed
      have accepts := List.find?_some first
      have inside : (owner.1, owner.2) ∈ (oldClues t.project).entries := List.mem_of_find?_eq_some first
      rw [same] at inside
      exact .inl ⟨owner.1, (Dict.get?_eq_some_iff _ _ _).mpr inside, of_decide_eq_true accepts⟩
    · exact .inr lies

theorem sorted_of_unmixed (v0 : t.project.schemaVersion < 1) (unmixed : Unmixed t) : SortedByType listing t := by
  constructor
  · intro clue kind known file own bytes found
    have routed := takes_image known own
    obtain ⟨target, left⟩ := @final_images listing _ v0 _ _ found kind
    rw [target, left, routed]
    exact ⟨if_neg nofun, if_pos rfl⟩
  · intro clue kind known file snapshot bytes found
    obtain ⟨there, claims⟩ := unmixed.versions clue ((Dict.mem_keys_iff _ _).mpr ⟨kind, known⟩) file snapshot
      (by rw [found]; rfl)
    have routed := takes_of_claimant known claims
    obtain ⟨target, left⟩ := @final_versions listing _ v0 there _ _ found kind
    rw [target, left, routed]
    exact ⟨if_neg nofun, if_pos rfl⟩
  · intro clue _ file own other _ same
    exact imageNames_injective same own
  · intro _ there done clue todo split file moved other known snapshot
    obtain ⟨found, claims⟩ := (mem_turn_iff there split).mp moved
    have own := (unmixed.versions other known file snapshot found).2
    rw [claims] at own
    exact (Option.some.inj own).symm
  · intro name clue known file bytes sheet found
    constructor
    · rw [(final_parts v0).2.2.2]
      exact ⟨_, entryOf_migrated known, movedSheet_clues sheet _⟩
    · rw [(final_images v0 found clue.kind).1]
      cases unmixed.sheets name clue known file bytes sheet found with
      | inl owned =>
        obtain ⟨owner, recorded, own⟩ := owned
        exact if_pos (takes_image recorded own)
      | inr already =>
        rw [already]
        exact ite_self _

private theorem mem_fileKeys (dir : Dir) (name : String) : name ∈ dir.keys.toList ↔ name ∈ dir := by
  rw [Finset.mem_toList, Finmap.mem_keys]

private theorem mem_scriptKeys (dir : Finmap fun _ : String => Option Script) (name : String) :
    name ∈ dir.keys.toList ↔ name ∈ dir := by
  rw [Finset.mem_toList, Finmap.mem_keys]

/-- The files of a directory by their names. -/
private noncomputable def keyListing : Listing where
  files dir := dir.keys.toList
  mem_files := mem_fileKeys
  scripts dir := dir.keys.toList
  mem_scripts := mem_scriptKeys

/-- A prop and a scene of which one name begins the other, with an image directory and one snapshot. -/
private def twoClues (snapshot : String) : Tree where
  images := ⟨some ∅, fun _ => none⟩
  versions := ⟨some (Finmap.singleton snapshot [1]), fun _ => none⟩
  scripts := ∅
  project := ⟨0, ⟨[("玉", ⟨none, "", none⟩), ("玉佩", ⟨some "location", "", none⟩)], by decide⟩, none, none⟩

private theorem mem_twoClues {snapshot file : String}
    (found : ((twoClues snapshot).versions.found file).isSome = true) : file = snapshot := by
  have inside : ((Finmap.singleton snapshot [1] : Dir).lookup file).isSome = true := found
  rwa [Finmap.lookup_isSome, Finmap.mem_singleton] at inside

private theorem keys_twoClues (snapshot : String) :
    (oldClues (twoClues snapshot).project).keys = ["玉", "玉佩"] := rfl

private theorem unmixed_twoClues : Unmixed (twoClues "玉_v1_20240101T000000.png") := by
  constructor
  · intro clue known file snapshot found
    rw [mem_twoClues found] at snapshot ⊢
    rw [keys_twoClues] at known
    refine ⟨rfl, ?_⟩
    rcases List.mem_cons.mp known with first | second
    · rw [first]
      decide
    · have foreign : snapshotOf "玉佩" "玉_v1_20240101T000000.png" = false := by decide
      rw [List.mem_singleton.mp second, foreign] at snapshot
      cases snapshot
  · intro name clue _ file bytes _ found
    have none : (twoClues "玉_v1_20240101T000000.png").images.found file = none := Finmap.lookup_empty file
    rw [none] at found
    cases found

end Types

end ArcReel.Migration
