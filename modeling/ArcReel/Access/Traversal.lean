import ArcReel.Access.Whitelist

/-! No word of an accepted command has a `..` segment. -/

namespace ArcReel.Access
open Lib PyText

section Pattern

/-- A `..` between boundaries or ends. -/
def Traverses (command : List Char) : Prop :=
  ∃ before after, command = before ++ '.' :: '.' :: after ∧
    (∀ c ∈ before.getLast?, isBoundary c = true) ∧ ∀ c ∈ after.head?, isBoundary c = true

theorem traversalFrom_of_behind {after : List Char} (stop : ∀ c ∈ after.head?, isBoundary c = true)
    (before : List Char) (start : Bool) (first : before = [] → start = true)
    (last : ∀ c ∈ before.getLast?, isBoundary c = true) :
    traversalFrom start (before ++ '.' :: '.' :: after) = true := by
  induction before generalizing start with
  | nil =>
    have here : dotsHere ('.' :: '.' :: after) = true := by
      cases after with
      | nil => rfl
      | cons c after => exact stop c rfl
    rw [List.nil_append, traversalFrom, first rfl, here]
    rfl
  | cons c before ih =>
    rw [List.cons_append, traversalFrom, ih (isBoundary c) ?_ ?_, Bool.or_true]
    · intro empty
      exact last c (by rw [empty]; rfl)
    · intro d found
      refine last d ?_
      rw [List.getLast?_cons, Option.mem_def.mp found]
      rfl

theorem hasTraversal_of_traverses {command : List Char} (found : Traverses command) :
    hasTraversal command = true := by
  obtain ⟨before, after, whole, last, stop⟩ := found
  rw [whole]
  exact traversalFrom_of_behind stop before true (fun _ => rfl) last

theorem Traverses.of_cons {c : Char} {command : List Char} (found : Traverses (c :: command))
    (space : isSpace c = true) : Traverses command := by
  obtain ⟨before, after, whole, last, stop⟩ := found
  cases before with
  | nil =>
    rw [(List.cons.inj whole).1] at space
    cases space
  | cons d before =>
    refine ⟨before, after, (List.cons.inj whole).2, ?_, stop⟩
    intro e found
    refine last e ?_
    rw [List.getLast?_cons, Option.mem_def.mp found]
    rfl

theorem Traverses.of_snoc {c : Char} {command : List Char} (found : Traverses (command ++ [c]))
    (space : isSpace c = true) : Traverses command := by
  obtain ⟨before, after, whole, last, stop⟩ := found
  cases after using List.reverseRecOn with
  | nil =>
    have same : command ++ [c] = (before ++ ['.']) ++ ['.'] := by rw [whole]; simp
    rw [(List.append_inj' same rfl).2 |> List.singleton_inj.mp] at space
    cases space
  | append_singleton after d =>
    have same : command ++ [c] = (before ++ '.' :: '.' :: after) ++ [d] := by rw [whole]; simp
    refine ⟨before, after, (List.append_inj' same rfl).1, last, ?_⟩
    intro e found
    refine stop e ?_
    rw [List.head?_append, Option.mem_def.mp found]
    rfl

/-- White space around a command has no part in a `..` segment. -/
theorem Traverses.of_spaces {before command after : List Char}
    (found : Traverses (before ++ command ++ after)) (front : ∀ c ∈ before, isSpace c = true)
    (back : ∀ c ∈ after, isSpace c = true) : Traverses command := by
  induction before with
  | nil =>
    rw [List.nil_append] at found
    induction after using List.reverseRecOn with
    | nil => rwa [List.append_nil] at found
    | append_singleton after c ih =>
      rw [← List.append_assoc] at found
      exact ih (fun d member => back d (List.mem_append_left _ member)) (found.of_snoc (back c (by simp)))
  | cons c before ih =>
    exact ih (Traverses.of_cons found (front c List.mem_cons_self))
      fun d member => front d (List.mem_cons_of_mem _ member)

end Pattern

section Kept

/-- What a check keeps of each mark: dots, boundaries at separators of words and of paths, and
nothing of what the shell takes away. -/
structure Keeps (separates : Char → Bool) (keep : Mark → List Char) (marks : List Mark) : Prop where
  dot : keep (.lit '.') = ['.']
  separator : ∀ c, separates c = true → ∃ b, keep (.lit c) = [b] ∧ isBoundary b = true
  sep : ∀ c, .sep c ∈ marks → ∃ b, keep (.sep c) = [b] ∧ isBoundary b = true
  drop : ∀ c, .drop c ∈ marks → keep (.drop c) = []
  join : ∀ before after, marks = before ++ .join :: after → (∃ b, keep .join = [b] ∧ isBoundary b = true) ∧
    (.lit '.' ∉ before ∨ .lit '.' ∉ after)

variable {separates : Char → Bool} {keep : Mark → List Char} {marks : List Mark}

theorem Keeps.join_mem (keeps : Keeps separates keep marks) (member : Mark.join ∈ marks) :
    ∃ b, keep .join = [b] ∧ isBoundary b = true := by
  obtain ⟨before, after, whole⟩ := List.append_of_mem member
  exact (keeps.join before after whole).1

theorem boundary_last {init : List Char} {b : Char} (boundary : isBoundary b = true) :
    ∀ c ∈ (init ++ [b]).getLast?, isBoundary c = true := by
  intro c found
  rw [List.getLast?_concat, Option.mem_some_iff] at found
  rwa [← found]

/-- A part of a word that ends at a separator, or has no text, ends at a boundary if what stands
before it does. -/
theorem Keeps.ends (keeps : Keeps separates keep marks) {before part : List Mark}
    (inside : ∀ mark ∈ part, mark ∈ marks ∧ mark.isSep = false)
    (start : ∀ c ∈ (before.flatMap keep).getLast?, isBoundary c = true)
    (last : ∀ c ∈ (text part).getLast?, separates c = true) :
    ∀ c ∈ ((before ++ part).flatMap keep).getLast?, isBoundary c = true := by
  induction part using List.reverseRecOn with
  | nil => rwa [List.append_nil]
  | append_singleton part mark ih =>
    have within : ∀ mark ∈ part, mark ∈ marks ∧ mark.isSep = false :=
      fun other member => inside other (List.mem_append_left _ member)
    have here := inside mark (by simp)
    rw [← List.append_assoc, List.flatMap_append, List.flatMap_singleton]
    cases mark with
    | sep c => cases here.2
    | lit c =>
      have ends : separates c = true := last c (by simp [text, Mark.lit?])
      obtain ⟨b, kept, boundary⟩ := keeps.separator c ends
      rw [kept]
      exact boundary_last boundary
    | drop c =>
      rw [keeps.drop c here.1, List.append_nil]
      exact ih within (by simpa [text, Mark.lit?] using last)
    | join =>
      obtain ⟨b, kept, boundary⟩ := keeps.join_mem here.1
      rw [kept]
      exact boundary_last boundary

theorem Keeps.starts (keeps : Keeps separates keep marks) {part after : List Mark}
    (inside : ∀ mark ∈ part, mark ∈ marks ∧ mark.isSep = false)
    (stop : ∀ c ∈ (after.flatMap keep).head?, isBoundary c = true)
    (first : ∀ c ∈ (text part).head?, separates c = true) :
    ∀ c ∈ ((part ++ after).flatMap keep).head?, isBoundary c = true := by
  induction part with
  | nil => rwa [List.nil_append]
  | cons mark part ih =>
    have within : ∀ mark ∈ part, mark ∈ marks ∧ mark.isSep = false :=
      fun other member => inside other (List.mem_cons_of_mem _ member)
    have here := inside mark List.mem_cons_self
    rw [List.cons_append, List.flatMap_cons]
    have behind {b : Char} (kept : keep mark = [b]) (boundary : isBoundary b = true) :
        ∀ c ∈ (keep mark ++ (part ++ after).flatMap keep).head?, isBoundary c = true := by
      intro c found
      rw [kept] at found
      rwa [← Option.some.inj (Option.mem_def.mp found)]
    cases mark with
    | sep c => cases here.2
    | lit c =>
      have ends : separates c = true := first c (by simp [text, Mark.lit?])
      obtain ⟨b, kept, boundary⟩ := keeps.separator c ends
      exact behind kept boundary
    | drop c =>
      have same : text (.drop c :: part) = text part := rfl
      rw [keeps.drop c here.1, List.nil_append]
      rw [same] at first
      exact ih within first
    | join =>
      obtain ⟨b, kept, boundary⟩ := keeps.join_mem here.1
      exact behind kept boundary

theorem lit?_eq_some {mark : Mark} {c : Char} (found : mark.lit? = some c) : mark = .lit c := by
  cases mark with
  | lit d => exact congrArg Mark.lit (Option.some.inj found)
  | sep d => cases found
  | drop d => cases found
  | join => cases found

/-- A word with a `..` segment shows in what is kept. -/
theorem Keeps.traverses (keeps : Keeps separates keep marks) {run : List Mark} (member : run ∈ runs marks)
    (dots : "..".toList ∈ (text run).splitOnP separates) : Traverses (marks.flatMap keep) := by
  obtain ⟨before, after, whole, starts, stops, plain⟩ := mem_runs member
  obtain ⟨left, right, split, last, first, _⟩ := mem_splitOnP dots
  have shape : text run = left ++ ('.' :: '.' :: right) := by rw [split]; simp
  obtain ⟨front, back, cut, frontText, backText⟩ := List.filterMap_eq_append_iff.mp shape
  obtain ⟨gap, mark, back, cut', noText, isDot, backText⟩ := List.filterMap_eq_cons_iff.mp backText
  obtain ⟨gap', mark', back', cut'', noText', isDot', backText⟩ := List.filterMap_eq_cons_iff.mp backText
  cases lit?_eq_some isDot
  cases lit?_eq_some isDot'
  have within : ∀ mark ∈ run, mark ∈ marks ∧ mark.isSep = false := by
    intro mark inside
    refine ⟨?_, plain mark inside⟩
    rw [whole]
    exact List.mem_append_left _ (List.mem_append_right _ inside)
  have parts : run = (front ++ gap) ++ .lit '.' :: (gap' ++ .lit '.' :: back') := by
    rw [cut, cut', cut'']
    simp
  have sides : marks = (before ++ (front ++ gap)) ++ .lit '.' :: (gap' ++ .lit '.' :: (back' ++ after)) := by
    rw [whole, parts]
    simp
  -- between the dots stand only marks that leave nothing
  have quiet : ∀ mark ∈ gap', keep mark = [] := by
    intro mark inside
    have here := within mark (by rw [parts]; simp [inside])
    cases mark with
    | sep c => cases here.2
    | lit c => cases noText' _ inside
    | drop c => exact keeps.drop c here.1
    | join =>
      obtain ⟨left', right', halves⟩ := List.append_of_mem inside
      have around : marks = ((before ++ (front ++ gap)) ++ .lit '.' :: left') ++
          .join :: (right' ++ .lit '.' :: (back' ++ after)) := by
        rw [sides, halves]
        simp
      cases (keeps.join _ _ around).2 with
      | inl absent => exact absurd (by simp) absent
      | inr absent => exact absurd (by simp) absent
  have frontWhole : text (front ++ gap) = left := by
    have blank : gap.filterMap Mark.lit? = [] := List.filterMap_eq_nil_iff.mpr noText
    rw [text, List.filterMap_append, blank, List.append_nil, frontText]
  refine ⟨(before ++ (front ++ gap)).flatMap keep, (back' ++ after).flatMap keep, ?_, ?_, ?_⟩
  · have none : gap'.flatMap keep = [] := List.flatMap_eq_nil_iff.mpr quiet
    rw [sides]
    simp only [List.flatMap_append, List.flatMap_cons, keeps.dot, none, List.nil_append]
    rfl
  · apply keeps.ends
    · exact fun mark inside => within mark (by rw [parts]; exact List.mem_append_left _ inside)
    · intro c found
      cases before using List.reverseRecOn with
      | nil => cases found
      | append_singleton before mark =>
        have isSep := starts mark (by simp)
        cases mark with
        | sep d =>
          obtain ⟨b, kept, boundary⟩ := keeps.sep d (by rw [whole]; simp)
          rw [List.flatMap_append, List.flatMap_singleton, kept] at found
          exact boundary_last boundary c found
        | lit d => cases isSep
        | drop d => cases isSep
        | join => cases isSep
    · rwa [frontWhole]
  · apply keeps.starts
    · exact fun mark inside => within mark (by rw [parts]; simp [inside])
    · intro c found
      cases after with
      | nil => cases found
      | cons mark after =>
        have isSep := stops mark rfl
        cases mark with
        | sep d =>
          obtain ⟨b, kept, boundary⟩ := keeps.sep d (by rw [whole]; simp)
          rw [List.flatMap_cons, kept] at found
          rwa [← Option.some.inj (Option.mem_def.mp found)]
        | lit d => cases isSep
        | drop d => cases isSep
        | join => cases isSep
    · rw [show text back' = right from backText]
      exact first

end Kept

section Accepted

variable {command : List Char}

/-- What the check has seen of an accepted command. -/
structure Checked (command before after : List Char) : Prop where
  whole : command = before ++ strip command ++ after
  front : ∀ c ∈ before, isSpace c = true
  back : ∀ c ∈ after, isSpace c = true
  metachar : ∀ c ∈ strip command, isMetachar c = false
  slashed : hasTraversal (slashed (unquote (strip command))) = false
  unescaped : hasTraversal (unescaped (unquote (strip command))) = false
  admitted : windowsBashPrefixWhitelist.any (admittedBy (Access.slashed (unquote (strip command)))) = true

theorem checked_of_accepted (accepted : isBashCommandWhitelisted command = true) :
    ∃ before after, Checked command before after := by
  obtain ⟨before, after, whole, front, back⟩ := strip_split command
  simp only [isBashCommandWhitelisted] at accepted
  split at accepted
  · cases accepted
  · next clean =>
    simp only [Bool.or_eq_true, not_or, List.any_eq_true, not_exists, not_and] at clean
    split at accepted
    · cases accepted
    · next quiet =>
      simp only [List.any_cons, List.any_nil, Bool.or_eq_true, not_or, Bool.not_eq_true] at quiet
      exact ⟨before, after, whole, front, back, fun c member => by simpa using clean.2 c member,
        quiet.2.1, quiet.2.2.1, accepted⟩

/-- No line break stands between visible characters of an accepted command. -/
theorem Checked.newline {before after left right : List Char} (checked : Checked command before after)
    (whole : command = left ++ '\n' :: right) :
    (∀ c ∈ left, isSpace c = true) ∨ ∀ c ∈ right, isSpace c = true := by
  by_contra both
  simp only [not_or, not_forall] at both
  obtain ⟨⟨c, inLeft, visible⟩, d, inRight, visible'⟩ := both
  have inside : '\n' ∈ strip command := by
    have parts := checked.whole.symm.trans whole
    rw [List.append_assoc] at parts
    rcases List.append_eq_append_iff.mp parts with ⟨middle, fronts, backs⟩ | ⟨middle, fronts, backs⟩
    · rcases List.append_eq_append_iff.mp backs with ⟨inner, first, second⟩ | ⟨inner, first, second⟩
      · -- then all that follows the line break is white space
        have later : d ∈ after := by
          rw [second]
          exact List.mem_append_right _ (List.mem_cons_of_mem _ inRight)
        exact absurd (checked.back d later) visible'
      · cases inner with
        | nil =>
          have later : d ∈ after := by
            rw [List.nil_append] at second
            rw [← second]
            exact List.mem_cons_of_mem _ inRight
          exact absurd (checked.back d later) visible'
        | cons e inner =>
          rw [first, (List.cons.inj second).1]
          simp
    · have earlier : c ∈ before := by
        rw [fronts]
        exact List.mem_append_left _ inLeft
      exact absurd (checked.front c earlier) visible
  have banned := checked.metachar '\n' inside
  revert banned
  decide

theorem isSpace_of_isQuote {c : Char} (quote : isQuote c = true) : isSpace c = false := by
  simp only [isQuote, Bool.or_eq_true, beq_iff_eq] at quote
  cases quote with
  | inl same => rw [same]; decide
  | inr same => rw [same]; decide

theorem isSpace_of_isBlank {c : Char} (blank : isBlank c = true) : isSpace c = true := by
  simp only [isBlank, Bool.or_eq_true, beq_iff_eq] at blank
  rcases blank with (same | same) | same <;> rw [same] <;> decide

theorem isQuote_of_isSpace {c : Char} (space : isSpace c = true) : isQuote c = false := by
  cases quote : isQuote c with
  | true => rw [isSpace_of_isQuote quote] at space; cases space
  | false => rfl

theorem ne_backslash_of_isSpace {c : Char} (space : isSpace c = true) : c ≠ '\\' := by
  intro same
  rw [same] at space
  revert space
  decide

theorem unquote_spaces {blank : List Char} (spaces : ∀ c ∈ blank, isSpace c = true) : unquote blank = blank :=
  List.filter_eq_self.mpr fun c member => by simp [isQuote_of_isSpace (spaces c member)]

theorem unescaped_spaces {blank : List Char} (spaces : ∀ c ∈ blank, isSpace c = true) : unescaped blank = blank :=
  List.filter_eq_self.mpr fun c member => by simp [ne_backslash_of_isSpace (spaces c member)]

theorem slashed_spaces {blank : List Char} (spaces : ∀ c ∈ blank, isSpace c = true) : slashed blank = blank := by
  conv_rhs => rw [← List.map_id blank]
  exact List.map_congr_left fun c member => if_neg (ne_backslash_of_isSpace (spaces c member))

theorem read_source {read : List Char → List Char}
    (splits : ∀ left right, read (left ++ right) = read left ++ read right) (empty : read [] = [])
    (marks : List Mark) : read (source marks) = marks.flatMap fun mark => read mark.chars := by
  induction marks with
  | nil => exact empty
  | cons mark marks ih => rw [List.flatMap_cons, source_cons, splits, ih]

/-- No word of an accepted command has a `..` segment, where the marks of the command keep what the
check reads. -/
theorem Checked.no_dots {before after : List Char} (checked : Checked command before after)
    {separates : Char → Bool} (read : List Char → List Char) {marks : List Mark}
    (whole : source marks = command) (splits : ∀ left right, read (left ++ right) = read left ++ read right)
    (spaces : ∀ blank, (∀ c ∈ blank, isSpace c = true) → read blank = blank)
    (quiet : hasTraversal (read (strip command)) = false)
    (keeps : Keeps separates (fun mark => read mark.chars) marks) :
    ∀ word ∈ words marks, "..".toList ∉ word.splitOnP separates := by
  intro word member dots
  obtain ⟨run, listed, same⟩ := List.mem_map.mp member
  rw [← same] at dots
  have empty : read [] = [] := spaces [] (by simp)
  have kept : marks.flatMap (fun mark => read mark.chars) = read command := by
    rw [← whole, read_source splits empty]
  have found := keeps.traverses listed dots
  rw [kept, checked.whole, splits, splits, spaces _ checked.front, spaces _ checked.back] at found
  have traverses := hasTraversal_of_traverses (found.of_spaces checked.front checked.back)
  rw [traverses] at quiet
  cases quiet

theorem posix_no_dots (accepted : isBashCommandWhitelisted command = true) {marks : List Mark}
    (read : posixMarks .none command = some marks) :
    ∀ word ∈ words marks, "..".toList ∉ word.splitOnP posixSeparator := by
  obtain ⟨before, after, checked⟩ := checked_of_accepted accepted
  obtain ⟨whole, fits⟩ := posixMarks_source read
  apply checked.no_dots (fun part => unescaped (unquote part)) whole
    (fun left right => by simp [unquote, unescaped])
    (fun blank spaces => by rw [unquote_spaces spaces, unescaped_spaces spaces]) checked.unescaped
  constructor
  · rfl
  · intro c separates
    rw [beq_iff_eq.mp separates]
    exact ⟨'/', rfl, by decide⟩
  · intro c member
    have space := isSpace_of_isBlank (fits _ member)
    have alone : ∀ d ∈ [c], isSpace d = true := by simpa using space
    refine ⟨c, ?_, by simp [isBoundary, space]⟩
    rw [Mark.chars, unquote_spaces alone, unescaped_spaces alone]
  · intro c member
    cases fits _ member with
    | inl quote => simp [Mark.chars, unquote, unescaped, quote]
    | inr same => rw [same]; rfl
  · intro left right split
    refine ⟨⟨'\n', rfl, by decide⟩, ?_⟩
    have broken : command = (source left ++ ['\\']) ++ '\n' :: source right := by
      rw [← whole, split, source_append, source_cons]
      simp [Mark.chars]
    have dotted {part : List Mark} (member : Mark.lit '.' ∈ part) : '.' ∈ source part :=
      List.mem_flatMap.mpr ⟨_, member, List.mem_singleton_self _⟩
    have dot : isSpace '.' = false := by decide
    cases checked.newline broken with
    | inl blank =>
      refine .inl fun member => ?_
      rw [blank '.' (List.mem_append_left _ (dotted member))] at dot
      cases dot
    | inr blank =>
      refine .inr fun member => ?_
      rw [blank '.' (dotted member)] at dot
      cases dot

theorem windows_no_dots (accepted : isBashCommandWhitelisted command = true) :
    ∀ word ∈ words (windowsMarks .none command), "..".toList ∉ word.splitOnP windowsSeparator := by
  obtain ⟨before, after, checked⟩ := checked_of_accepted accepted
  obtain ⟨whole, quotes⟩ := windowsMarks_source .none command
  apply checked.no_dots (fun part => slashed (unquote part)) whole
    (fun left right => by simp [unquote, slashed])
    (fun blank spaces => by rw [unquote_spaces spaces, slashed_spaces spaces]) checked.slashed
  constructor
  · rfl
  · intro c separates
    simp only [windowsSeparator, Bool.or_eq_true, beq_iff_eq] at separates
    cases separates with
    | inl same => rw [same]; exact ⟨'/', rfl, by decide⟩
    | inr same => rw [same]; exact ⟨'/', rfl, by decide⟩
  · intro c member
    have space := isSpace_of_isBlank (quotes _ member)
    have alone : ∀ d ∈ [c], isSpace d = true := by simpa using space
    refine ⟨c, ?_, by simp [isBoundary, space]⟩
    rw [Mark.chars, unquote_spaces alone, slashed_spaces alone]
  · intro c member
    have quote : isQuote c = true := quotes _ member
    simp [Mark.chars, unquote, slashed, quote]
  · intro left right split
    have member : Mark.join ∈ windowsMarks .none command := by
      rw [split]
      simp
    exact absurd (quotes _ member) id

end Accepted

end ArcReel.Access
