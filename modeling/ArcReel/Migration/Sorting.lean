import ArcReel.Migration.Clues

/-! Sorting the files of a directory into two others, stopped anywhere and started again: what the
files end up as does not change from one write to the next. -/

namespace ArcReel.Migration
open Lib Crash Prog

/-- A file that is still to be sorted. -/
def Sorting.found (s : Sorting) (name : String) : Option File := s.source.bind (·.lookup name)

def Sorting.inTarget (s : Sorting) (kind : Kind) (name : String) : Option File :=
  (s.target kind).bind (·.lookup name)

/-- What a sorting leads to: the files left, the directories and the files sorted into them. -/
@[ext] structure Goal where
  left : String → Option File
  folder : Kind → Prop
  sorted : Kind → String → Option File

section Goal

variable (route : String → Option Kind) (needed : Kind → Prop)

def Sorting.goal (s : Sorting) : Goal where
  left name := if route name = none then s.found name else none
  folder kind := needed kind ∨ (s.target kind).isSome = true
  sorted kind name :=
    if route name = some kind ∧ (s.found name).isSome = true then s.found name
    else s.inTarget kind name

/-- Nothing is left to do. -/
structure Sorting.Done (s : Sorting) : Prop where
  unrouted : ∀ name, (s.found name).isSome = true → route name = none
  filled : s.source ≠ some ∅
  folders : ∀ kind, needed kind → (s.target kind).isSome = true

variable {route needed}

theorem left_of_done {s : Sorting} (done : s.Done route needed) (name : String) :
    (s.goal route needed).left name = s.found name := by
  change (if route name = none then s.found name else none) = _
  split
  · rfl
  · next routed =>
    cases found : s.found name with
    | none => rfl
    | some file => exact absurd (done.unrouted name (by rw [found]; rfl)) routed

theorem folder_of_done {s : Sorting} (done : s.Done route needed) (kind : Kind) :
    (s.goal route needed).folder kind ↔ (s.target kind).isSome = true :=
  ⟨fun either => either.elim (done.folders kind) id, .inr⟩

theorem sorted_of_done {s : Sorting} (done : s.Done route needed) (kind : Kind) (name : String) :
    (s.goal route needed).sorted kind name = s.inTarget kind name := by
  change (if route name = some kind ∧ (s.found name).isSome = true then _ else _) = _
  rw [if_neg]
  rintro ⟨routed, found⟩
  rw [done.unrouted name found] at routed
  cases routed

theorem eq_of_lookup {first second : Option Dir} (exist : first.isSome = true ↔ second.isSome = true)
    (same : ∀ name, first.bind (·.lookup name) = second.bind (·.lookup name)) : first = second := by
  cases first with
  | none =>
    cases second with
    | none => rfl
    | some dir => exact absurd (exist.mpr rfl) (by simp)
  | some dir =>
    cases second with
    | none => exact absurd (exist.mp rfl) (by simp)
    | some other => exact congrArg some (Finmap.ext_lookup same)

theorem exists_found {s : Sorting} (filled : s.source ≠ some ∅) (there : s.source.isSome = true) :
    ∃ name, (s.found name).isSome = true := by
  obtain ⟨dir, split⟩ := Option.isSome_iff_exists.mp there
  by_contra none
  push Not at none
  apply filled
  rw [split]
  congr 1
  apply Finmap.ext_lookup
  intro name
  have missing := none name
  rw [Sorting.found, split] at missing
  simpa using missing

/-- Two sortings that are done and lead to the same are the same. -/
theorem eq_of_done {s t : Sorting} (first : s.Done route needed) (second : t.Done route needed)
    (same : s.goal route needed = t.goal route needed) : s = t := by
  have found : ∀ name, s.found name = t.found name := by
    intro name
    rw [← left_of_done first, same, left_of_done second]
  have source : s.source = t.source := by
    apply eq_of_lookup _ found
    constructor
    · intro there
      obtain ⟨name, some⟩ := exists_found first.filled there
      rw [found, Sorting.found] at some
      exact Option.isSome_of_isSome_bind some
    · intro there
      obtain ⟨name, some⟩ := exists_found second.filled there
      rw [← found, Sorting.found] at some
      exact Option.isSome_of_isSome_bind some
  have target : s.target = t.target := by
    funext kind
    apply eq_of_lookup
    · rw [← folder_of_done first, same, folder_of_done second]
    · intro name
      change s.inTarget kind name = t.inTarget kind name
      rw [← sorted_of_done first, same, sorted_of_done second]
  cases s
  cases t
  congr

end Goal

section Writes

variable {route : String → Option Kind} {needed : Kind → Prop}

/-- The sorting after a file is moved. -/
def Sorting.moved (s : Sorting) (kind : Kind) (name : String) (file : File) : Sorting where
  source := s.source.map (·.erase name)
  target k := if k = kind then (s.target kind).map (·.insert name file) else s.target k

theorem move_cases (s : Sorting) (kind : Kind) (name : String) (ready : (s.target kind).isSome = true) :
    (s.found name = none ∧ move kind name s = []) ∨
      ∃ file, s.found name = some file ∧ move kind name s = [s.moved kind name file] := by
  obtain ⟨target, folder⟩ := Option.isSome_iff_exists.mp ready
  cases source : s.source with
  | none =>
    refine .inl ⟨by rw [Sorting.found, source]; rfl, ?_⟩
    unfold move reading
    simp only [source]
    rfl
  | some dir =>
    cases content : dir.lookup name with
    | none =>
      refine .inl ⟨by rw [Sorting.found, source]; exact content, ?_⟩
      unfold move reading
      simp only [source, folder, content]
      rfl
    | some file =>
      refine .inr ⟨file, by rw [Sorting.found, source]; exact content, ?_⟩
      unfold move reading Sorting.moved
      simp only [source, folder, content]
      rfl

theorem found_moved (s : Sorting) (kind : Kind) (name other : String) (file : File) :
    (s.moved kind name file).found other = if other = name then none else s.found other := by
  unfold Sorting.found Sorting.moved
  cases s.source with
  | none => simp
  | some dir =>
    simp only [Option.map_some, Option.bind_some]
    split
    · next same => rw [same, Finmap.lookup_erase]
    · next different => exact Finmap.lookup_erase_ne different

theorem folder_moved (s : Sorting) (kind k : Kind) (name : String) (file : File) :
    ((s.moved kind name file).target k).isSome = (s.target k).isSome := by
  unfold Sorting.moved
  dsimp only
  split
  · next same => rw [same, Option.isSome_map]
  · rfl

theorem inTarget_moved (s : Sorting) (kind k : Kind) (name other : String) (file : File)
    (ready : (s.target kind).isSome = true) : (s.moved kind name file).inTarget k other =
      if k = kind ∧ other = name then some file else s.inTarget k other := by
  obtain ⟨target, folder⟩ := Option.isSome_iff_exists.mp ready
  unfold Sorting.inTarget Sorting.moved
  dsimp only
  by_cases here : k = kind
  · subst here
    by_cases same : other = name
    · subst same
      rw [if_pos rfl, if_pos ⟨rfl, rfl⟩, folder]
      exact Finmap.lookup_insert target
    · rw [if_pos rfl, if_neg fun both => same both.2, folder]
      exact Finmap.lookup_insert_of_ne target same
  · rw [if_neg here, if_neg fun both => here both.1]

theorem goal_moved {s : Sorting} {kind : Kind} {name : String} {file : File}
    (found : s.found name = some file) (routed : route name = some kind)
    (ready : (s.target kind).isSome = true) :
    (s.moved kind name file).goal route needed = s.goal route needed := by
  ext1
  · funext other
    change (if route other = none then (s.moved kind name file).found other else none) =
      if route other = none then s.found other else none
    rw [found_moved]
    by_cases same : other = name
    · rw [same, routed]
      rfl
    · rw [if_neg same]
  · funext k
    change (needed k ∨ ((s.moved kind name file).target k).isSome = true) = _
    rw [folder_moved]
    rfl
  · funext k other
    change (if route other = some k ∧ ((s.moved kind name file).found other).isSome = true then
      (s.moved kind name file).found other else (s.moved kind name file).inTarget k other) =
      if route other = some k ∧ (s.found other).isSome = true then s.found other
      else s.inTarget k other
    rw [found_moved, inTarget_moved _ _ _ _ _ _ ready]
    by_cases same : other = name
    · subst same
      rw [if_pos rfl, found, routed]
      by_cases here : k = kind
      · simp [here]
      · have other : ¬kind = k := fun same => here same.symm
        simp [here, other]
    · simp [same]

theorem mkdir_cases (s : Sorting) (kind : Kind) :
    ((s.target kind).isSome = true ∧ mkdir kind s = []) ∨ (s.target kind = none ∧
      mkdir kind s = [{ s with target := fun k => if k = kind then some ∅ else s.target k }]) := by
  unfold mkdir reading
  cases folder : s.target kind with
  | some dir => exact .inl ⟨rfl, by simp only [folder]; rfl⟩
  | none => exact .inr ⟨rfl, by simp only [folder]; rfl⟩

/-- A directory that is needed may be made at any time. -/
theorem mkdir_spec (s : Sorting) {kind : Kind} (need : needed kind) :
    (∀ t ∈ mkdir kind s, t.source = s.source ∧ t.goal route needed = s.goal route needed) ∧
      ((mkdir kind).final s).source = s.source ∧
      (((mkdir kind).final s).target kind).isSome = true ∧
      ∀ k, (s.target k).isSome = true → (((mkdir kind).final s).target k).isSome = true := by
  rcases mkdir_cases s kind with ⟨there, none⟩ | ⟨missing, made⟩
  · rw [final_of_nil none, none]
    exact ⟨by simp, rfl, there, fun _ some => some⟩
  · have result : (mkdir kind).final s =
        { s with target := fun k => if k = kind then some ∅ else s.target k } := by
      rw [final, made]
      rfl
    rw [result, made]
    refine ⟨?_, rfl, by simp, ?_⟩
    · intro t member
      rw [List.mem_singleton.mp member]
      refine ⟨rfl, ?_⟩
      ext1
      · rfl
      · funext k
        change (needed k ∨ (if k = kind then some ∅ else s.target k).isSome = true) =
          (needed k ∨ (s.target k).isSome = true)
        by_cases here : k = kind
        · rw [here]
          simp [need]
        · rw [if_neg here]
      · funext k name
        have empty : (if k = kind then some (∅ : Dir) else s.target k).bind (·.lookup name) =
            (s.target k).bind (·.lookup name) := by
          by_cases here : k = kind
          · rw [if_pos here, here, missing]
            exact Finmap.lookup_empty name
          · rw [if_neg here]
        change (if route name = some k ∧ (s.found name).isSome = true then s.found name
          else (if k = kind then some (∅ : Dir) else s.target k).bind (·.lookup name)) =
          if route name = some k ∧ (s.found name).isSome = true then s.found name
          else (s.target k).bind (·.lookup name)
        rw [empty]
    · intro k some
      change (if k = kind then _ else s.target k).isSome = true
      split
      · rfl
      · exact some

theorem rmdir_cases (s : Sorting) : (s.source = some ∅ ∧ rmdir s = [{ s with source := none }]) ∨
    (s.source ≠ some ∅ ∧ rmdir s = []) := by
  unfold rmdir reading
  cases source : s.source with
  | none => exact .inr ⟨by simp, by simp only [source]; rfl⟩
  | some dir =>
    by_cases empty : dir.keys = ∅
    · have same : dir = ∅ := by
        apply Finmap.ext_lookup
        intro name
        rw [Finmap.lookup_empty, Finmap.lookup_eq_none, ← Finmap.mem_keys, empty]
        simp
      refine .inl ⟨by rw [same], ?_⟩
      simp only [source, if_pos empty]
      rfl
    · refine .inr ⟨?_, ?_⟩
      · intro same
        rw [Option.some.injEq] at same
        exact empty (by rw [same]; rfl)
      · simp only [source, if_neg empty]
        rfl

/-- The directory is removed when nothing is left in it. -/
theorem rmdir_spec (s : Sorting) :
    (∀ t ∈ rmdir s, t = rmdir.final s) ∧ (rmdir.final s).target = s.target ∧
      (rmdir.final s).goal route needed = s.goal route needed ∧
      (∀ name, (rmdir.final s).found name = s.found name) ∧ (rmdir.final s).source ≠ some ∅ := by
  rcases rmdir_cases s with ⟨empty, made⟩ | ⟨filled, none⟩
  · have result : rmdir.final s = { s with source := none } := by
      rw [final, made]
      rfl
    have found : ∀ name, s.found name = none := by
      intro name
      rw [Sorting.found, empty]
      exact Finmap.lookup_empty name
    rw [result, made]
    refine ⟨by simp, rfl, ?_, fun name => (found name).symm, by simp⟩
    have gone : ∀ name, Sorting.found { s with source := none } name = s.found name := fun name =>
      (found name).symm
    unfold Sorting.goal
    simp only [gone]
    rfl
  · rw [final_of_nil none, none]
    exact ⟨by simp, rfl, rfl, fun _ => rfl, filled⟩

/-- Moving some files to where they belong. -/
theorem moves_spec {kind : Kind} (names : List String) (s : Sorting)
    (there : s.source.isSome = true) (ready : (s.target kind).isSome = true)
    (routed : ∀ name ∈ names, (s.found name).isSome = true → route name = some kind) :
    (∀ t ∈ each names (move kind) s,
      t.source.isSome = true ∧ t.goal route needed = s.goal route needed) ∧
      ((each names (move kind)).final s).source.isSome = true ∧
      (∀ k, (((each names (move kind)).final s).target k).isSome = (s.target k).isSome) ∧
      ∀ name, ((each names (move kind)).final s).found name =
        if name ∈ names then none else s.found name := by
  induction names generalizing s with
  | nil =>
    refine ⟨?_, there, fun _ => rfl, fun _ => rfl⟩
    intro t none
    cases none
  | cons first names ih =>
    have later : ∀ name ∈ names, (s.found name).isSome = true → route name = some kind :=
      fun name member => routed name (List.mem_cons_of_mem _ member)
    rw [final_each_cons]
    rcases move_cases s kind first ready with ⟨missing, none⟩ | ⟨file, found, made⟩
    · have rest := ih s there ready later
      rw [final_of_nil none]
      refine ⟨?_, rest.2.1, rest.2.2.1, ?_⟩
      · intro t member
        rcases mem_seq.mp member with early | late
        · rw [none] at early
          cases early
        · rw [final_of_nil none] at late
          exact rest.1 t late
      · intro name
        rw [rest.2.2.2]
        by_cases same : name = first
        · simp [same, missing]
        · simp [same]
    · have result : (move kind first).final s = s.moved kind first file := by
        rw [final, made]
        rfl
      have belongs := routed first List.mem_cons_self (by rw [found]; rfl)
      have goal := @goal_moved route needed s kind first file found belongs ready
      have rest := ih (s.moved kind first file)
        (by
          unfold Sorting.moved
          rw [Option.isSome_map]
          exact there)
        (by rw [folder_moved]; exact ready)
        (by
          intro name member some
          rw [found_moved] at some
          split at some
          · cases some
          · exact later name member some)
      rw [result]
      refine ⟨?_, rest.2.1, ?_, ?_⟩
      · intro t member
        rcases mem_seq.mp member with early | late
        · rw [made, List.mem_singleton] at early
          rw [early]
          refine ⟨?_, goal⟩
          unfold Sorting.moved
          rw [Option.isSome_map]
          exact there
        · rw [result] at late
          exact ⟨(rest.1 t late).1, (rest.1 t late).2.trans goal⟩
      · intro k
        rw [rest.2.2.1, folder_moved]
      · intro name
        rw [rest.2.2.2, found_moved]
        by_cases same : name = first
        · simp [same]
        · simp [same]

end Writes

section Phases

/-- A clue takes a file by its name. -/
def takes (clues : List (String × Kind)) (accepts : String → String → Bool) (name : String) :
    Option Kind := (clues.find? fun clue => accepts clue.1 name).map Prod.snd

/-- No clue that had its turn takes a file that is still there. -/
def Cleared (accepts : String → String → Bool) (done : List (String × Kind)) (s : Sorting) : Prop :=
  ∀ name, (s.found name).isSome = true → ∀ clue ∈ done, accepts clue.1 name = false

variable {clues : List (String × Kind)} {accepts : String → String → Bool} {needed : Kind → Prop}

theorem cleared_nil (s : Sorting) : Cleared accepts [] s := by
  intro name _ clue none
  cases none

theorem takes_of_cleared {done todo : List (String × Kind)} {clue : String × Kind}
    (split : clues = done ++ clue :: todo) {name : String}
    (passed : ∀ earlier ∈ done, accepts earlier.1 name = false) (accepted : accepts clue.1 name = true) :
    takes clues accepts name = some clue.2 := by
  have none : done.find? (fun clue => accepts clue.1 name) = none := by
    rw [List.find?_eq_none]
    intro earlier member
    rw [passed earlier member]
    exact Bool.false_ne_true
  rw [takes, split, List.find?_append, none, Option.none_or]
  simp [accepted]

theorem takes_eq_none {name : String} :
    takes clues accepts name = none ↔ ∀ clue ∈ clues, accepts clue.1 name = false := by
  simp [takes]

/-- One clue takes its files. -/
theorem take_spec {done todo : List (String × Kind)} {clue : String × Kind}
    (split : clues = done ++ clue :: todo) (files : List String) (s : Sorting)
    (listed : ∀ name, (s.found name).isSome = true → (name ∈ files ↔ accepts clue.1 name = true))
    (there : s.source.isSome = true) (ready : (s.target clue.2).isSome = true)
    (cleared : Cleared accepts done s) :
    (∀ t ∈ each files (move clue.2) s, t.source.isSome = true ∧
      t.goal (takes clues accepts) needed = s.goal (takes clues accepts) needed) ∧
      ((each files (move clue.2)).final s).source.isSome = true ∧
      Cleared accepts (done ++ [clue]) ((each files (move clue.2)).final s) ∧
      ∀ k, (((each files (move clue.2)).final s).target k).isSome = (s.target k).isSome := by
  have moved := @moves_spec (takes clues accepts) needed clue.2 files s there ready (by
    intro name member found
    exact takes_of_cleared split (cleared name found) ((listed name found).mp member))
  refine ⟨moved.1, moved.2.1, ?_, moved.2.2.1⟩
  intro name found other member
  rw [moved.2.2.2] at found
  split at found
  · cases found
  · next unlisted =>
    rcases List.mem_append.mp member with earlier | last
    · exact cleared name found other earlier
    · rw [List.mem_singleton.mp last]
      by_contra accepted
      exact unlisted ((listed name found).mpr (eq_true_of_ne_false accepted))

/-- Between the turns of the clues. -/
structure Sweeping (accepts : String → String → Bool) (ready : List (String × Kind) → Kind → Prop)
    (done : List (String × Kind)) (s : Sorting) : Prop where
  there : s.source.isSome = true
  cleared : Cleared accepts done s
  folders : ∀ kind, ready done kind → (s.target kind).isSome = true

/-- The directory goes at the end, and not before. -/
theorem rmdir_after {ready : List (String × Kind) → Kind → Prop} {p : Prog Sorting}
    {before : Sorting → Prop} (enough : ∀ kind, needed kind → ready clues kind)
    (keeps : Keeps before p (fun t => t.source.isSome = true) (Sweeping accepts ready clues)
      (Sorting.goal (takes clues accepts) needed)) (s : Sorting) (start : before s) :
    (∀ t ∈ p.seq rmdir s, (t.source.isSome = true ∨ t = (p.seq rmdir).final s) ∧
      t.goal (takes clues accepts) needed = s.goal (takes clues accepts) needed) ∧
      ((p.seq rmdir).final s).goal (takes clues accepts) needed =
        s.goal (takes clues accepts) needed ∧
      ((p.seq rmdir).final s).Done (takes clues accepts) needed := by
  have swept := keeps.after s start
  have removed := @rmdir_spec (takes clues accepts) needed (p.final s)
  have goal := removed.2.2.1.trans (keeps.final_goal start)
  rw [final_seq]
  refine ⟨?_, goal, ?_, removed.2.2.2.2, ?_⟩
  · intro t member
    rcases mem_seq.mp member with early | late
    · have during := keeps.during s start t early
      exact ⟨.inl during.1, during.2⟩
    · rw [removed.1 t late]
      exact ⟨.inr rfl, goal⟩
  · intro name found
    rw [removed.2.2.2.1] at found
    exact takes_eq_none.mpr (swept.cleared name found)
  · intro kind need
    rw [removed.2.1]
    exact swept.folders kind (enough kind need)

/-- The names under which a clue's image is looked for. -/
def acceptsImage (clue name : String) : Bool := decide (name ∈ imageNames clue)

def acceptsVersion (clue name : String) : Bool := fnmatch (clue ++ "*") name

def everyKind (_ : Kind) : Prop := True

def kindIn (clues : List (String × Kind)) (kind : Kind) : Prop := ∃ clue ∈ clues, clue.2 = kind

theorem mkdir_keeps {kind : Kind} (need : needed kind) {route : String → Option Kind}
    {before after : Sorting → Prop} (there : ∀ s, before s → s.source.isSome = true)
    (next : ∀ s t, before s → t.source = s.source → (t.target kind).isSome = true →
      (∀ k, (s.target k).isSome = true → (t.target k).isSome = true) → after t) :
    Keeps before (mkdir kind) (fun t => t.source.isSome = true) after (Sorting.goal route needed) := by
  constructor
  · intro s start t member
    have made := (@mkdir_spec route needed s kind need).1 t member
    refine ⟨?_, made.2⟩
    rw [made.1]
    exact there s start
  · intro s start
    have made := (@mkdir_spec route needed s kind need).2
    exact next s _ start made.1 made.2.1 made.2.2

/-- The images are sorted, whatever is there already. -/
theorem relocateImages_keeps (dict : Dict String Kind) :
    Keeps (fun s => s.source.isSome = true)
      ((mkdir .scene).seq <| (mkdir .prop).seq <|
        Prog.each dict.entries fun clue => .each (imageNames clue.1) (move clue.2))
      (fun t => t.source.isSome = true)
      (Sweeping acceptsImage (fun _ => everyKind) dict.entries)
      (Sorting.goal (takes dict.entries acceptsImage) everyKind) := by
  have scene : Keeps (fun s => s.source.isSome = true) (mkdir .scene) (fun t => t.source.isSome = true)
      (fun s => s.source.isSome = true ∧ (s.target .scene).isSome = true)
      (Sorting.goal (takes dict.entries acceptsImage) everyKind) := by
    apply mkdir_keeps trivial (fun s start => start)
    intro s t start source made _
    exact ⟨by rw [source]; exact start, made⟩
  have prop : Keeps (fun s => s.source.isSome = true ∧ (s.target .scene).isSome = true) (mkdir .prop)
      (fun t => t.source.isSome = true) (Sweeping acceptsImage (fun _ => everyKind) [])
      (Sorting.goal (takes dict.entries acceptsImage) everyKind) := by
    apply mkdir_keeps trivial (fun s start => start.1)
    intro s t start source made kept
    refine ⟨by rw [source]; exact start.1, cleared_nil t, ?_⟩
    intro kind _
    cases kind with
    | scene => exact kept .scene start.2
    | prop => exact made
  apply scene.seq
  apply prop.seq
  apply Keeps.each
  intro done clue todo split
  constructor
  · intro s start t member
    have taken := @take_spec _ acceptsImage everyKind done todo clue split (imageNames clue.1) s
      (fun name _ => by simp [acceptsImage]) start.there (start.folders _ trivial) start.cleared
    exact taken.1 t member
  · intro s start
    have taken := @take_spec _ acceptsImage everyKind done todo clue split (imageNames clue.1) s
      (fun name _ => by simp [acceptsImage]) start.there (start.folders _ trivial) start.cleared
    refine ⟨taken.2.1, taken.2.2.1, ?_⟩
    intro kind _
    rw [taken.2.2.2]
    exact start.folders kind trivial

theorem relocateImages_eq (dict : Dict String Kind) : relocateImages dict =
    ((mkdir .scene).seq <| (mkdir .prop).seq <|
      Prog.each dict.entries fun clue => .each (imageNames clue.1) (move clue.2)).seq rmdir := by
  funext s
  unfold relocateImages seq
  simp [final]

theorem mem_versionNames {listing : Listing} {clue name : String} {s : Sorting}
    (found : (s.found name).isSome = true) :
    name ∈ versionNames listing clue s ↔ acceptsVersion clue name = true := by
  unfold versionNames
  cases source : s.source with
  | none =>
    rw [Sorting.found, source] at found
    cases found
  | some dir =>
    rw [Sorting.found, source, Option.bind_some, Finmap.lookup_isSome] at found
    simp [acceptsVersion, listing.mem_files, found]

theorem relocateVersions_keeps (listing : Listing) (dict : Dict String Kind) :
    Keeps (fun s => s.source.isSome = true)
      (Prog.each dict.entries fun clue => (mkdir clue.2).seq
        (.reading fun s => .each (versionNames listing clue.1 s) (move clue.2)))
      (fun t => t.source.isSome = true) (Sweeping acceptsVersion kindIn dict.entries)
      (Sorting.goal (takes dict.entries acceptsVersion) (kindIn dict.entries)) := by
  have rounds : Keeps (Sweeping acceptsVersion kindIn [])
      (Prog.each dict.entries fun clue => (mkdir clue.2).seq
        (.reading fun s => .each (versionNames listing clue.1 s) (move clue.2)))
      (fun t => t.source.isSome = true) (Sweeping acceptsVersion kindIn dict.entries)
      (Sorting.goal (takes dict.entries acceptsVersion) (kindIn dict.entries)) := by
    apply Keeps.each
    intro done clue todo split
    have made : Keeps (Sweeping acceptsVersion kindIn done) (mkdir clue.2)
        (fun t => t.source.isSome = true)
        (fun s => Sweeping acceptsVersion kindIn done s ∧ (s.target clue.2).isSome = true)
        (Sorting.goal (takes dict.entries acceptsVersion) (kindIn dict.entries)) := by
      apply mkdir_keeps ⟨clue, by rw [split]; simp, rfl⟩ (fun s start => start.there)
      intro s t start source made kept
      refine ⟨⟨by rw [source]; exact start.there, ?_, fun kind ready => kept kind (start.folders kind ready)⟩,
        made⟩
      intro name found
      rw [Sorting.found, source] at found
      exact start.cleared name found
    apply made.seq
    constructor
    · intro s start t member
      have taken := @take_spec _ acceptsVersion (kindIn dict.entries) done todo clue split
        (versionNames listing clue.1 s) s (fun name found => mem_versionNames found) start.1.there start.2
        start.1.cleared
      exact taken.1 t member
    · intro s start
      have taken := @take_spec _ acceptsVersion (kindIn dict.entries) done todo clue split
        (versionNames listing clue.1 s) s (fun name found => mem_versionNames found) start.1.there start.2
        start.1.cleared
      refine ⟨taken.2.1, taken.2.2.1, ?_⟩
      rintro kind ⟨other, member, same⟩
      change (((each (versionNames listing clue.1 s) (move clue.2)).final s).target kind).isSome = true
      rw [taken.2.2.2]
      rcases List.mem_append.mp member with earlier | last
      · exact start.1.folders kind ⟨other, earlier, same⟩
      · rw [← same, List.mem_singleton.mp last]
        exact start.2
  have start : ∀ s : Sorting, s.source.isSome = true → Sweeping acceptsVersion kindIn [] s := by
    intro s there
    refine ⟨there, cleared_nil s, ?_⟩
    rintro kind ⟨clue, none, _⟩
    cases none
  exact ⟨fun s there => rounds.during s (start s there), fun s there => rounds.after s (start s there)⟩

/-- What the images lead to is kept, and at the end nothing is left to do. -/
theorem relocateImages_spec (dict : Dict String Kind) (s : Sorting) (there : s.source.isSome = true) :
    (∀ t ∈ relocateImages dict s, (t.source.isSome = true ∨ t = (relocateImages dict).final s) ∧
      t.goal (takes dict.entries acceptsImage) everyKind =
        s.goal (takes dict.entries acceptsImage) everyKind) ∧
      ((relocateImages dict).final s).goal (takes dict.entries acceptsImage) everyKind =
        s.goal (takes dict.entries acceptsImage) everyKind ∧
      ((relocateImages dict).final s).Done (takes dict.entries acceptsImage) everyKind := by
  rw [relocateImages_eq]
  exact rmdir_after (fun _ _ => trivial) (relocateImages_keeps dict) s there

theorem relocateVersions_there {listing : Listing} {dict : Dict String Kind} {s : Sorting}
    (there : s.source.isSome = true) : relocateVersions listing dict s = ((Prog.each dict.entries fun clue =>
      (mkdir clue.2).seq (.reading fun s => .each (versionNames listing clue.1 s) (move clue.2))).seq
        rmdir) s := by
  change (if s.source.isSome = true then _ else (skip : Prog Sorting)) s = _
  rw [if_pos there]

theorem relocateVersions_gone {listing : Listing} {dict : Dict String Kind} {s : Sorting}
    (gone : s.source = none) : relocateVersions listing dict s = [] := by
  change (if s.source.isSome = true then _ else (skip : Prog Sorting)) s = []
  rw [if_neg (by simp [gone])]
  rfl

theorem relocateVersions_spec (listing : Listing) (dict : Dict String Kind) (s : Sorting)
    (there : s.source.isSome = true) :
    (∀ t ∈ relocateVersions listing dict s,
      (t.source.isSome = true ∨ t = (relocateVersions listing dict).final s) ∧
      t.goal (takes dict.entries acceptsVersion) (kindIn dict.entries) =
        s.goal (takes dict.entries acceptsVersion) (kindIn dict.entries)) ∧
      ((relocateVersions listing dict).final s).goal (takes dict.entries acceptsVersion)
          (kindIn dict.entries) =
        s.goal (takes dict.entries acceptsVersion) (kindIn dict.entries) ∧
      ((relocateVersions listing dict).final s).Done (takes dict.entries acceptsVersion)
        (kindIn dict.entries) := by
  rw [final, relocateVersions_there there]
  exact rmdir_after (fun _ need => need) (relocateVersions_keeps listing dict) s there

/-- Sorting the images again while their directory is there ends the same. -/
theorem relocateImages_again {dict : Dict String Kind} {s t : Sorting} (there : s.source.isSome = true)
    (stop : t ∈ (relocateImages dict).stops s) :
    (t.source.isSome = true → (relocateImages dict).final t = (relocateImages dict).final s) ∧
      (t.source = none → t = (relocateImages dict).final s) := by
  have first := relocateImages_spec dict s there
  rcases List.mem_cons.mp stop with same | later
  · rw [same]
    refine ⟨fun _ => rfl, fun gone => ?_⟩
    rw [gone] at there
    cases there
  · have visited := first.1 t later
    constructor
    · intro again
      have second := relocateImages_spec dict t again
      exact eq_of_done second.2.2 first.2.2 (second.2.1.trans (visited.2.trans first.2.1.symm))
    · intro gone
      rcases visited.1 with there | last
      · rw [gone] at there
        cases there
      · exact last

/-- Sorting the versions again ends the same, in whatever order the files are listed. -/
theorem relocateVersions_again {listing other : Listing} {dict : Dict String Kind} {s t : Sorting}
    (stop : t ∈ (relocateVersions listing dict).stops s) :
    (relocateVersions other dict).final t = (relocateVersions listing dict).final s := by
  cases source : s.source with
  | none =>
    have nothing := @relocateVersions_gone listing dict s source
    rw [stops, nothing, List.mem_singleton] at stop
    rw [stop, final_of_nil (relocateVersions_gone source), final_of_nil nothing]
  | some dir =>
    have first := relocateVersions_spec listing dict s (by rw [source]; rfl)
    have goal : t.goal (takes dict.entries acceptsVersion) (kindIn dict.entries) =
        s.goal (takes dict.entries acceptsVersion) (kindIn dict.entries) := by
      rcases List.mem_cons.mp stop with same | later
      · rw [same]
      · exact (first.1 t later).2
    by_cases there : t.source.isSome = true
    · have second := relocateVersions_spec other dict t there
      exact eq_of_done second.2.2 first.2.2 (second.2.1.trans (goal.trans first.2.1.symm))
    · have gone : t.source = none := by simpa using there
      rw [final_of_nil (relocateVersions_gone gone)]
      rcases List.mem_cons.mp stop with same | later
      · rw [same, source] at gone
        cases gone
      · rcases (first.1 t later).1 with still | last
        · exact absurd still there
        · exact last

theorem each_nil {α σ : Type} {items : List α} {body : α → Prog σ} {s : σ}
    (idle : ∀ item ∈ items, body item s = []) : each items body s = [] := by
  induction items with
  | nil => rfl
  | cons item items ih =>
    have first := idle item List.mem_cons_self
    change body item s ++ each items body ((body item).final s) = []
    rw [final_of_nil first, first, List.nil_append]
    exact ih fun other member => idle other (List.mem_cons_of_mem _ member)

/-- Where nothing is left to do, nothing is done. -/
theorem relocateVersions_idle {listing : Listing} {dict : Dict String Kind} {s : Sorting}
    (done : s.Done (takes dict.entries acceptsVersion) (kindIn dict.entries)) :
    relocateVersions listing dict s = [] := by
  cases source : s.source with
  | none => exact relocateVersions_gone source
  | some dir =>
    have nobody : ∀ clue ∈ dict.entries, versionNames listing clue.1 s = [] := by
      intro clue member
      rw [versionNames, source, List.filter_eq_nil_iff]
      intro name listed accepted
      have found : (s.found name).isSome = true := by
        rw [Sorting.found, source, Option.bind_some, Finmap.lookup_isSome]
        exact (listing.mem_files dir name).mp listed
      have none := takes_eq_none.mp (done.unrouted name found) clue member
      rw [acceptsVersion, accepted] at none
      cases none
    have turns : each dict.entries (fun clue => (mkdir clue.2).seq
        (.reading fun s => .each (versionNames listing clue.1 s) (move clue.2))) s = [] := by
      apply each_nil
      intro clue member
      have made : mkdir clue.2 s = [] := by
        rcases mkdir_cases s clue.2 with ⟨_, none⟩ | ⟨missing, _⟩
        · exact none
        · have folder := done.folders clue.2 ⟨clue, member, rfl⟩
          rw [missing] at folder
          cases folder
      change mkdir clue.2 s ++ each (versionNames listing clue.1 ((mkdir clue.2).final s))
        (move clue.2) ((mkdir clue.2).final s) = []
      rw [final_of_nil made, made, nobody clue member]
      rfl
    have kept : rmdir s = [] := by
      rcases rmdir_cases s with ⟨empty, _⟩ | ⟨_, none⟩
      · exact absurd empty done.filled
      · exact none
    rw [relocateVersions_there (by rw [source]; rfl)]
    change each _ _ s ++ rmdir _ = []
    rw [final_of_nil turns, turns, kept]
    rfl

end Phases

end ArcReel.Migration
