import ArcReel.Mention.Header
import ArcReel.Prompt.Render
import ArcReel.Speech.Composition

/-! What is read off the lines of a text, before and after the shots of a unit are assembled to one
text and cut apart again. -/

namespace ArcReel.Speech
open Lib PyText Mention Prompt

section Lines

variable {α : Type} {f : List Char → List α}

/-- What is read off the lines of a text, one by one. -/
def perLine (f : List Char → List α) (text : List Char) : List α := (splitlines text).flatMap f

theorem perLine_eq (empty : f [] = []) (text : List Char) :
    perLine f text = (text.splitOnP isLineBreak).flatMap f := by
  rw [perLine, ← flatMap_filled empty, splitlines_filled, flatMap_filled empty]

theorem perLine_nil : perLine f [] = [] := rfl

theorem perLine_break (empty : f [] = []) {c : Char} (isBreak : isLineBreak c = true)
    (before after : List Char) :
    perLine f (before ++ c :: after) = perLine f before ++ perLine f after := by
  rw [perLine_eq empty, perLine_eq empty, perLine_eq empty, List.splitOnP_append_cons _ _ isBreak,
    List.flatMap_append]

theorem perLine_plain (empty : f [] = []) {line : List Char}
    (plain : ∀ c ∈ line, isLineBreak c = false) : perLine f line = f line := by
  rw [perLine_eq empty, List.splitOnP_eq_singleton plain, List.flatMap_cons, List.flatMap_nil,
    List.append_nil]

theorem perLine_joinLines (empty : f [] = []) (lines : List (List Char)) :
    perLine f (joinLines lines) = lines.flatMap (perLine f) := by
  induction lines with
  | nil => rfl
  | cons line lines ih =>
    cases lines with
    | nil => simp [joinLines]
    | cons next lines =>
      have unfolded : joinLines (line :: next :: lines) = line ++ '\n' :: joinLines (next :: lines) := by
        simp [joinLines, List.intercalate_cons_cons]
      rw [unfolded, perLine_break empty (by decide), ih]
      rfl

/-- The pieces of a text with one more character at its end. -/
theorem splitOnP_snoc {c : Char} (plain : isLineBreak c = false) (text : List Char) :
    ∃ init last, text.splitOnP isLineBreak = init ++ [last] ∧
      (text ++ [c]).splitOnP isLineBreak = init ++ [last ++ [c]] := by
  induction text with
  | nil => exact ⟨[], [], rfl, by rw [List.nil_append, splitOnP_cons_of_plain plain]; rfl⟩
  | cons d text ih =>
    obtain ⟨init, last, before, after⟩ := ih
    by_cases isBreak : isLineBreak d = true
    · refine ⟨[] :: init, last, ?_, ?_⟩
      · rw [splitOnP_cons_of_break isBreak, before]
        rfl
      · rw [List.cons_append, splitOnP_cons_of_break isBreak, after]
        rfl
    · have other := eq_false_of_ne_true isBreak
      rw [List.cons_append, splitOnP_cons_of_plain other, splitOnP_cons_of_plain other, before, after]
      cases init with
      | nil => exact ⟨[], d :: last, rfl, rfl⟩
      | cons first init => exact ⟨(d :: first) :: init, last, rfl, rfl⟩

/-- Outer whitespace is nothing to read, where it is nothing on a line. -/
theorem perLine_lstrip (empty : f [] = []) (front : ∀ c line, isSpace c = true → f (c :: line) = f line)
    (text : List Char) : perLine f (lstrip text) = perLine f text := by
  induction text with
  | nil => rfl
  | cons c text ih =>
    unfold lstrip at ih ⊢
    by_cases space : isSpace c = true
    · rw [List.dropWhile_cons_of_pos space, ih]
      by_cases isBreak : isLineBreak c = true
      · have split := perLine_break empty isBreak [] text
        rw [perLine_nil, List.nil_append, List.nil_append] at split
        exact split.symm
      · rw [perLine_eq empty, perLine_eq empty,
          splitOnP_cons_of_plain (eq_false_of_ne_true isBreak)]
        cases pieces : text.splitOnP isLineBreak with
        | nil => exact absurd pieces (List.splitOnP_ne_nil _ _)
        | cons line later => rw [consLine, List.flatMap_cons, List.flatMap_cons, front c line space]
    · rw [List.dropWhile_cons_of_neg space]

theorem perLine_rstrip (empty : f [] = []) (back : ∀ c line, isSpace c = true → f (line ++ [c]) = f line)
    (text : List Char) : perLine f (text.rdropWhile isSpace) = perLine f text := by
  induction text using List.reverseRecOn with
  | nil => rfl
  | append_singleton text c ih =>
    by_cases space : isSpace c = true
    · rw [List.rdropWhile_concat_pos _ _ _ space, ih]
      by_cases isBreak : isLineBreak c = true
      · rw [perLine_break empty isBreak, perLine_nil, List.append_nil]
      · obtain ⟨init, last, before, after⟩ := splitOnP_snoc (eq_false_of_ne_true isBreak) text
        rw [perLine_eq empty, perLine_eq empty, before, after, List.flatMap_append,
          List.flatMap_append, List.flatMap_singleton, List.flatMap_singleton, back c last space]
    · rw [List.rdropWhile_concat_neg _ _ _ space]

end Lines

section Spoken

variable (u : Unicode)

/-- A line as its utterance is looked for: normalized and without outer whitespace. -/
def core (line : List Char) : List Char := strip (normalizeSource u line)

theorem core_nil : core u [] = [] := by
  rw [core, normalizeSource_nil]
  rfl

theorem core_normalizeSource (line : List Char) : core u (normalizeSource u line) = core u line := by
  rw [core, normalizeSource_idem, core]

theorem core_eq (line : List Char) : core u line = u.nfc (strip (line.filter (· ≠ bom))) :=
  u.nfc_strip _

theorem ne_bom_of_space {c : Char} (space : isSpace c = true) : c ≠ bom := by
  intro same
  rw [same] at space
  revert space
  decide

theorem core_cons {c : Char} (space : isSpace c = true) (line : List Char) :
    core u (c :: line) = core u line := by
  rw [core_eq, core_eq, List.filter_cons_of_pos (by simpa using ne_bom_of_space space), strip, lstrip,
    List.dropWhile_cons_of_pos space]
  rfl

theorem strip_snoc {c : Char} (space : isSpace c = true) (text : List Char) :
    strip (text ++ [c]) = strip text := by
  unfold strip lstrip
  rw [List.dropWhile_append]
  split
  · next blank =>
    rw [List.isEmpty_iff.mp blank, List.dropWhile_cons_of_pos space]
    rfl
  · rw [List.rdropWhile_concat_pos _ _ _ space]

theorem core_snoc {c : Char} (space : isSpace c = true) (line : List Char) :
    core u (line ++ [c]) = core u line := by
  rw [core_eq, core_eq, List.filter_append,
    List.filter_cons_of_pos (by simpa using ne_bom_of_space space), List.filter_nil,
    strip_snoc space]

/-- What is read off the lines of a text as they are looked at. -/
def hear {α : Type} (f : List Char → List α) (text : List Char) : List α :=
  perLine (fun line => f (core u line)) text

variable {α : Type} {f : List Char → List α}

theorem hear_nil : hear u f [] = [] := rfl

theorem core_empty (empty : f [] = []) : f (core u []) = [] := by rw [core_nil, empty]

theorem hear_break (empty : f [] = []) {c : Char} (isBreak : isLineBreak c = true)
    (before after : List Char) : hear u f (before ++ c :: after) = hear u f before ++ hear u f after :=
  perLine_break (core_empty u empty) isBreak before after

theorem hear_plain (empty : f [] = []) {line : List Char}
    (plain : ∀ c ∈ line, isLineBreak c = false) : hear u f line = f (core u line) :=
  perLine_plain (core_empty u empty) plain

theorem hear_joinLines (empty : f [] = []) (lines : List (List Char)) :
    hear u f (joinLines lines) = lines.flatMap (hear u f) :=
  perLine_joinLines (core_empty u empty) lines

theorem hear_lstrip (empty : f [] = []) (text : List Char) :
    hear u f (lstrip text) = hear u f text := by
  apply perLine_lstrip (core_empty u empty)
  intro c line space
  rw [core_cons u space]

theorem hear_rstrip (empty : f [] = []) (text : List Char) :
    hear u f (text.rdropWhile isSpace) = hear u f text := by
  apply perLine_rstrip (core_empty u empty)
  intro c line space
  rw [core_snoc u space]

theorem hear_strip (empty : f [] = []) (text : List Char) :
    hear u f (strip text) = hear u f text := by
  rw [strip, hear_rstrip u empty, hear_lstrip u empty]

theorem hear_normalizeSource (empty : f [] = []) (text : List Char) :
    hear u f (normalizeSource u text) = hear u f text := by
  rw [hear, hear, perLine_eq (core_empty u empty), perLine_eq (core_empty u empty),
    splitOnP_normalizeSource, List.flatMap_map]
  congr 1
  funext line
  rw [core_normalizeSource]

end Spoken

section Cutting

theorem mem_consLine {c : Char} {line : List Char} {lines : List (List Char)}
    (member : line ∈ consLine c lines) : line = [c] ∨ (∃ tail ∈ lines, line = c :: tail) ∨ line ∈ lines := by
  cases lines with
  | nil => exact .inl (List.mem_singleton.mp member)
  | cons first lines =>
    cases List.mem_cons.mp member with
    | inl same => exact .inr (.inl ⟨first, List.mem_cons_self, same⟩)
    | inr later => exact .inr (.inr (List.mem_cons_of_mem _ later))

theorem plain_of_mem_splitlines {text line : List Char} (member : line ∈ splitlines text) :
    ∀ c ∈ line, isLineBreak c = false := by
  induction text using splitlines.induct generalizing line with
  | case1 => cases member
  | case2 rest ih =>
    rw [splitlines] at member
    cases List.mem_cons.mp member with
    | inl same =>
      rw [same]
      intro c none
      cases none
    | inr later => exact ih later
  | case3 c rest notPair isBreak ih =>
    rw [splitlines, if_pos isBreak] at member
    · cases List.mem_cons.mp member with
      | inl same =>
        rw [same]
        intro c none
        cases none
      | inr later => exact ih later
    · exact notPair
  | case4 c rest notPair plain ih =>
    rw [splitlines, if_neg plain] at member
    · intro d inside
      rcases mem_consLine member with same | ⟨tail, old, same⟩ | old
      · rw [same, List.mem_singleton] at inside
        rw [inside]
        exact eq_false_of_ne_true plain
      · rw [same] at inside
        cases List.mem_cons.mp inside with
        | inl head =>
          rw [head]
          exact eq_false_of_ne_true plain
        | inr deeper => exact ih old d deeper
      · exact ih old d inside
    · exact notPair

variable (u : Unicode) {α : Type} {f : List Char → List α}

/-- A normalized line without the header of a shot. -/
def headerless (line : List Char) : List Char := (shotHeader? u line).getD line

/-- What is read off the shots that are cut so far and off the one under way. -/
def Cut.heard (f : List Char → List α) (cut : Cut) : List α :=
  cut.segments.flatMap (hear u f) ++ cut.current.flatMap (hear u f)

theorem heard_line (empty : f [] = []) (cut : Cut) (line : List Char)
    (before : cut.started = false → cut.segments = []) :
    Cut.heard u f (cut.line u line) = Cut.heard u f cut ++ hear u f (headerless u line) := by
  unfold Cut.line headerless
  have closed : hear u f (strip (joinLines cut.current)) = cut.current.flatMap (hear u f) := by
    rw [hear_strip u empty, hear_joinLines u empty]
  cases shotHeader? u line with
  | none =>
    change _ ++ (cut.current ++ [line]).flatMap (hear u f) = _
    rw [List.flatMap_append, List.flatMap_singleton, ← List.append_assoc]
    rfl
  | some rest =>
    rw [Option.getD_some]
    by_cases started : cut.started = true
    · change Cut.heard u f (if cut.started then _ else _) = _
      rw [if_pos started]
      change (cut.segments ++ [strip (joinLines cut.current)]).flatMap (hear u f) ++
        [rest].flatMap (hear u f) = _
      rw [List.flatMap_append, List.flatMap_singleton, List.flatMap_singleton, closed]
      rfl
    · change Cut.heard u f (if cut.started then _ else _) = _
      rw [if_neg started, Cut.heard, Cut.heard, before (eq_false_of_ne_true started), ← closed]
      change [] ++ (if (strip (joinLines cut.current)).isEmpty then [rest]
        else [strip (joinLines cut.current), rest]).flatMap (hear u f) = _
      split
      · next blank =>
        rw [List.isEmpty_iff.mp blank, hear_nil, List.flatMap_singleton]
        rfl
      · rw [List.flatMap_cons, List.flatMap_singleton]
        rfl

/-- Before the first header nothing is cut and the lines are kept as they are. -/
def Cut.Opening (cut : Cut) (lines : List (List Char)) : Prop :=
  cut.started = false → cut.segments = [] ∧ cut.current = lines

theorem opening_line {cut : Cut} {lines : List (List Char)} (opening : Cut.Opening cut lines)
    (line : List Char) : Cut.Opening (cut.line u line) (lines ++ [line]) := by
  unfold Cut.Opening Cut.line
  cases shotHeader? u line with
  | none =>
    intro early
    exact ⟨(opening early).1, by rw [← (opening early).2]⟩
  | some rest =>
    by_cases started : cut.started = true
    · simp [started]
    · simp [started]

theorem heard_fold (empty : f [] = []) (lines done : List (List Char)) (cut : Cut)
    (opening : Cut.Opening cut done) :
    Cut.Opening (lines.foldl (Cut.line u) cut) (done ++ lines) ∧
      Cut.heard u f (lines.foldl (Cut.line u) cut) =
        Cut.heard u f cut ++ lines.flatMap fun line => hear u f (headerless u line) := by
  induction lines generalizing done cut with
  | nil => simpa using opening
  | cons line lines ih =>
    have later := ih (done ++ [line]) (cut.line u line) (opening_line u opening line)
    rw [List.foldl_cons]
    refine ⟨by simpa using later.1, ?_⟩
    rw [later.2, heard_line u empty cut line fun early => (opening early).1, List.flatMap_cons,
      List.append_assoc]

/-- The shots of a text are heard as the lines of the text are, without their headers. -/
theorem hear_parseShots (empty : f [] = []) (text : List Char) :
    (parseShots u text).flatMap (hear u f) =
      (splitlines text).flatMap fun line => hear u f (headerless u line) := by
  have folded := heard_fold u empty (splitlines text) [] ⟨[], false, []⟩ fun _ => ⟨rfl, rfl⟩
  have total := folded.2
  rw [show Cut.heard u f ⟨[], false, []⟩ = [] from rfl, List.nil_append] at total
  rw [parseShots, ← total]
  by_cases started : ((splitlines text).foldl (Cut.line u) ⟨[], false, []⟩).started = true
  · rw [if_pos started, List.flatMap_append, List.flatMap_singleton, hear_strip u empty,
      hear_joinLines u empty]
    rfl
  · have kept := folded.1 (eq_false_of_ne_true started)
    rw [if_neg started, List.flatMap_singleton, hear_strip u empty, Cut.heard, kept.1, kept.2]
    change (splitlines text).flatMap (fun line => f (core u line)) =
      (splitlines text).flatMap (hear u f)
    apply List.flatMap_congr
    intro line member
    exact (hear_plain u empty (plain_of_mem_splitlines member)).symm

end Cutting

section Utterances

variable (u : Unicode)

/-- The utterance of a line, whatever the braces around it. -/
def said (line : List Char) : Option Utterance :=
  match matchDialogueLine u line with
  | some (speaker, text) => some (.dialogue speaker text)
  | none => (matchVoiceoverLine u line).map .voiceover

theorem core_infix (line : List Char) : ∃ before after,
    normalizeSource u line = before ++ core u line ++ after := by
  have front : (normalizeSource u line).takeWhile isSpace ++ lstrip (normalizeSource u line) =
      normalizeSource u line := List.takeWhile_append_dropWhile
  obtain ⟨after, rear⟩ := List.rdropWhile_prefix isSpace (l := lstrip (normalizeSource u line))
  exact ⟨_, after, by rw [List.append_assoc, core, strip, rear, front]⟩

theorem normalizeSource_core (line : List Char) : normalizeSource u (core u line) = core u line := by
  obtain ⟨before, after, split⟩ := core_infix u line
  exact normalizeSource_part u split

theorem core_core (line : List Char) : core u (core u line) = core u line := by
  rw [core, normalizeSource_core, core, strip_strip]

theorem matchDialogueLine_core (line : List Char) :
    matchDialogueLine u (core u line) = matchDialogueLine u line := by
  unfold matchDialogueLine
  rw [show strip (normalizeSource u (core u line)) = core u (core u line) from rfl, core_core]
  rfl

theorem said_core (line : List Char) : said u (core u line) = said u line := by
  have voiceover : matchVoiceoverLine u (core u line) = matchVoiceoverLine u line := by
    unfold matchVoiceoverLine unwrapBraces
    rw [show strip (normalizeSource u (core u line)) = core u (core u line) from rfl, core_core]
    rfl
  rw [said, said, matchDialogueLine_core, voiceover]

/-- An utterance starts with a mention or with a brace. -/
theorem head_of_said {line : List Char} (some : said u line ≠ none) :
    (core u line).head? = .some '@' ∨ (core u line).head? = .some '\x7b' := by
  by_contra other
  rw [not_or] at other
  apply some
  have dialogue : matchDialogueLine u line = none := by
    unfold matchDialogueLine
    rw [show strip (normalizeSource u line) = core u line from rfl]
    rw [if_pos (by simpa using other.1)]
  have voiceover : matchVoiceoverLine u line = none := by
    unfold matchVoiceoverLine unwrapBraces
    rw [show strip (normalizeSource u line) = core u line from rfl]
    rw [if_pos (by simp [other.2])]
  rw [said, dialogue, voiceover]
  rfl

theorem mem_of_mem_strip {c : Char} {text : List Char} (member : c ∈ strip text) : c ∈ text :=
  List.dropWhile_subset _ ((List.rdropWhile_prefix isSpace _).subset member)

theorem mem_lstrip {c : Char} {text : List Char} (visible : isSpace c = false) (member : c ∈ text) :
    c ∈ lstrip text := by
  induction text with
  | nil => cases member
  | cons d text ih =>
    unfold lstrip at ih ⊢
    by_cases space : isSpace d = true
    · rw [List.dropWhile_cons_of_pos space]
      cases List.mem_cons.mp member with
      | inl same =>
        rw [same, space] at visible
        cases visible
      | inr later => exact ih later
    · rwa [List.dropWhile_cons_of_neg space]

theorem mem_strip {c : Char} {text : List Char} (visible : isSpace c = false) (member : c ∈ text) :
    c ∈ strip text := by
  have inside := mem_lstrip visible member
  unfold strip
  generalize lstrip text = body at inside ⊢
  induction body using List.reverseRecOn with
  | nil => cases inside
  | append_singleton text d ih =>
    by_cases space : isSpace d = true
    · rw [List.rdropWhile_concat_pos _ _ _ space]
      cases List.mem_append.mp inside with
      | inl earlier => exact ih earlier
      | inr last =>
        rw [List.mem_singleton.mp last, space] at visible
        cases visible
    · rwa [List.rdropWhile_concat_neg _ _ _ space]

/-- No brace of speech in the text. -/
def BraceFree (text : List Char) : Prop := '\x7b' ∉ text ∧ '\x7d' ∉ text

theorem BraceFree.mono {text part : List Char} (free : BraceFree text) (inside : part ⊆ text) :
    BraceFree part := ⟨fun opened => free.1 (inside opened), fun closed => free.2 (inside closed)⟩

theorem BraceFree.normalizeSource {line : List Char} (free : BraceFree line) :
    BraceFree (normalizeSource u line) :=
  ⟨fun opened => free.1 (List.mem_of_mem_filter (u.mem_of_mem_nfc _ _ (by simp) opened)),
    fun closed => free.2 (List.mem_of_mem_filter (u.mem_of_mem_nfc _ _ (by simp) closed))⟩

theorem BraceFree.core {line : List Char} (free : BraceFree line) : BraceFree (core u line) :=
  (free.normalizeSource u).mono fun _ => mem_of_mem_strip

theorem BraceFree.of_core {line : List Char} (free : BraceFree (Speech.core u line)) :
    BraceFree (Mention.normalizeSource u line) :=
  ⟨fun opened => free.1 (mem_strip (by decide) opened), fun closed => free.2 (mem_strip (by decide) closed)⟩

theorem brace_of_unwrapBraces {text spoken : List Char} (found : unwrapBraces text = some spoken) :
    '\x7b' ∈ text := by
  unfold unwrapBraces at found
  simp only [Bool.or_eq_true, decide_eq_true_eq, bne_iff_ne, ne_eq] at found
  split_ifs at found with outer
  push Not at outer
  exact mem_of_mem_strip (List.mem_of_mem_head? outer.1.2)

theorem said_of_braceFree {line : List Char} (free : BraceFree (core u line)) : said u line = none := by
  have voiceover : matchVoiceoverLine u line = none := by
    rw [Option.eq_none_iff_forall_ne_some]
    intro spoken found
    exact (free.of_core u).1 (brace_of_unwrapBraces found)
  have dialogue : matchDialogueLine u line = none := by
    unfold matchDialogueLine
    rw [show strip (normalizeSource u line) = core u line from rfl]
    dsimp only
    split
    · rfl
    · split
      · rfl
      · next first _ =>
        split
        · rfl
        · have inside : (lstrip ((core u line).drop first.stop)).tail ⊆ core u line := fun c member =>
            List.drop_subset _ _ (List.dropWhile_subset _ (List.tail_subset _ member))
          have quiet : unwrapBraces (lstrip ((core u line).drop first.stop)).tail = none := by
            rw [Option.eq_none_iff_forall_ne_some]
            intro spoken found
            exact free.1 (inside (brace_of_unwrapBraces found))
          simp only [quiet]
          split <;> rfl
  rw [said, dialogue, voiceover]
  rfl

end Utterances

end ArcReel.Speech
