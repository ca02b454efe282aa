import ArcReel.Speech.Rederived

/-! The shots of a prompt, rendered to one text and parsed again. -/

namespace ArcReel.Speech
open Lib PyText Mention Prompt

section Lines

theorem splitlines_plain {c : Char} (plain : isLineBreak c = false) (text : List Char) :
    splitlines (c :: text) = consLine c (splitlines text) := by
  rw [splitlines, if_neg (by simp [plain])]
  intro rest carriage _
  rw [carriage] at plain
  revert plain
  decide

theorem splitlines_ne_nil {text : List Char} (something : text ≠ []) : splitlines text ≠ [] := by
  unfold splitlines
  split
  · exact absurd rfl something
  · exact List.cons_ne_nil _ _
  · split
    · exact List.cons_ne_nil _ _
    · next rest _ _ =>
      cases splitlines rest with
      | nil => exact List.cons_ne_nil _ _
      | cons line later => exact List.cons_ne_nil _ _

/-- Plain text in front goes to the first line. -/
theorem splitlines_append_plain {head : List Char} (plain : ∀ c ∈ head, isLineBreak c = false)
    (something : head ≠ []) (text : List Char) :
    splitlines (head ++ text) = (head ++ (splitlines text).headD []) :: (splitlines text).tail := by
  induction head with
  | nil => exact absurd rfl something
  | cons c head ih =>
    rw [List.cons_append, splitlines_plain (plain c List.mem_cons_self)]
    cases head with
    | nil =>
      rw [List.nil_append]
      cases splitlines text <;> rfl
    | cons d head =>
      rw [ih (fun e member => plain e (List.mem_cons_of_mem _ member)) (List.cons_ne_nil _ _)]
      rfl

/-- A text that ends visibly is cut apart from the lines below it. -/
theorem splitlines_append_newline {c : Char} (plain : isLineBreak c = false)
    (body after : List Char) :
    splitlines (body ++ c :: '\n' :: after) = splitlines (body ++ [c]) ++ splitlines after := by
  have last : splitlines (c :: '\n' :: after) = splitlines [c] ++ splitlines after := by
    rw [splitlines_plain plain, splitlines_plain plain]
    rfl
  induction body using splitlines.induct with
  | case1 => exact last
  | case2 rest ih =>
    rw [List.cons_append, List.cons_append, List.cons_append, List.cons_append, splitlines, splitlines, ih]
    rfl
  | case3 d rest notPair isBreak ih =>
    have apart : ∀ more : List Char, d = '\r' → ∀ others, rest ++ c :: more = '\n' :: others → False := by
      intro more carriage others same
      cases rest with
      | nil =>
        rw [List.nil_append, List.cons.injEq] at same
        rw [same.1] at plain
        revert plain
        decide
      | cons e rest =>
        rw [List.cons_append, List.cons.injEq] at same
        exact notPair rest carriage (by rw [same.1])
    rw [List.cons_append, List.cons_append, splitlines, splitlines, if_pos isBreak, if_pos isBreak, ih]
    · rfl
    · exact fun others carriage => apart _ carriage others
    · exact fun others carriage => apart _ carriage others
  | case4 d rest notPair plainFirst ih =>
    have first := eq_false_of_ne_true plainFirst
    rw [List.cons_append, List.cons_append, splitlines_plain first, splitlines_plain first, ih]
    cases lines : splitlines (rest ++ [c]) with
    | nil => exact absurd lines (splitlines_ne_nil (by simp))
    | cons line later => rfl

theorem joinLines_cons (line : List Char) {later : List (List Char)} (more : later ≠ []) :
    joinLines (line :: later) = line ++ '\n' :: joinLines later := by
  cases later with
  | nil => exact absurd rfl more
  | cons next later => simp [joinLines, List.intercalate_cons_cons]

/-- A text that ends in a visible character. -/
def EndsVisibly (text : List Char) : Prop := ∃ body c, text = body ++ [c] ∧ isSpace c = false

theorem splitlines_joinLines {texts : List (List Char)} (ends : ∀ text ∈ texts, EndsVisibly text) :
    splitlines (joinLines texts) = texts.flatMap splitlines := by
  induction texts with
  | nil => rfl
  | cons text texts ih =>
    have later := ih fun other member => ends other (List.mem_cons_of_mem _ member)
    cases texts with
    | nil => simp [joinLines]
    | cons next texts =>
      obtain ⟨body, c, split, visible⟩ := ends text List.mem_cons_self
      rw [joinLines_cons text (List.cons_ne_nil _ _), List.flatMap_cons, ← later, split,
        List.append_assoc, List.singleton_append, splitlines_append_newline (plain_of_visible visible)]

/-- A text without other line breaks than `\n`. -/
def OnlyNewlines (text : List Char) : Prop := ∀ c ∈ text, isLineBreak c = true → c = '\n'

/-- The text up to its first `\n`. -/
def firstLine (text : List Char) : List Char := text.takeWhile (· ≠ '\n')

theorem headD_splitlines {text : List Char} (only : OnlyNewlines text) :
    (splitlines text).headD [] = firstLine text := by
  induction text with
  | nil => rfl
  | cons c text ih =>
    have rest := ih fun d member => only d (List.mem_cons_of_mem _ member)
    unfold firstLine at rest ⊢
    by_cases isBreak : isLineBreak c = true
    · have newline := only c List.mem_cons_self isBreak
      rw [newline, List.takeWhile_cons_of_neg (by decide)]
      rfl
    · have plain := eq_false_of_ne_true isBreak
      have other : c ≠ '\n' := by
        intro same
        rw [same] at plain
        revert plain
        decide
      rw [splitlines_plain plain, List.takeWhile_cons_of_pos (by simpa using other), ← rest]
      cases splitlines text <;> rfl

theorem joinLines_splitlines {text : List Char} (only : OnlyNewlines text)
    (ends : text ≠ [] → EndsVisibly text) : joinLines (splitlines text) = text := by
  induction text with
  | nil => rfl
  | cons c text ih =>
    have restOnly : OnlyNewlines text := fun d member => only d (List.mem_cons_of_mem _ member)
    have restEnds : text ≠ [] → EndsVisibly text := by
      intro something
      obtain ⟨body, last, split, visible⟩ := ends (List.cons_ne_nil _ _)
      cases body with
      | nil =>
        rw [List.nil_append, List.cons.injEq] at split
        exact absurd split.2 something
      | cons d body =>
        rw [List.cons_append, List.cons.injEq] at split
        exact ⟨body, last, split.2, visible⟩
    have rest := ih restOnly restEnds
    by_cases isBreak : isLineBreak c = true
    · have newline := only c List.mem_cons_self isBreak
      have something : text ≠ [] := by
        intro none
        obtain ⟨body, last, split, visible⟩ := ends (List.cons_ne_nil _ _)
        rw [none, newline] at split
        cases body with
        | nil =>
          rw [List.nil_append, List.cons.injEq] at split
          rw [← split.1] at visible
          revert visible
          decide
        | cons d body => simp at split
      rw [newline, show splitlines ('\n' :: text) = [] :: splitlines text from rfl,
        joinLines_cons [] (splitlines_ne_nil something), rest]
      rfl
    · rw [splitlines_plain (eq_false_of_ne_true isBreak)]
      cases lines : splitlines text with
      | nil =>
        rw [lines] at rest
        rw [← rest]
        rfl
      | cons line later =>
        rw [lines] at rest
        rw [← rest]
        exact (append_joinLines [c] line later).symm

end Lines

section Blocks

variable (u : Unicode)

/-- The lines before the first header, and the lines of each shot from its header on. -/
def blocks : List (List Char) → List (List Char) × List (List (List Char))
  | [] => ([], [])
  | line :: lines =>
    match shotHeader? u line with
    | none => (line :: (blocks lines).1, (blocks lines).2)
    | some rest => ([], (rest :: (blocks lines).1) :: (blocks lines).2)

/-- The lines of the first shot, with the text before its header. -/
def opened (before block : List (List Char)) : List (List Char) :=
  let opening := strip (joinLines before)
  if opening.isEmpty then block else opening :: block

def shotOf (block : List (List Char)) : List Char := strip (joinLines block)

/-- The cut is in a shot, and these are its shots. -/
def Cut.Has (cut : Cut) (shots : List (List Char)) : Prop :=
  cut.started = true ∧ cut.segments ++ [shotOf cut.current] = shots

theorem fold_started (lines segments current : List (List Char)) :
    Cut.Has (lines.foldl (Cut.line u) ⟨segments, true, current⟩)
      (segments ++ shotOf (current ++ (blocks u lines).1) :: (blocks u lines).2.map shotOf) := by
  induction lines generalizing segments current with
  | nil => exact ⟨rfl, by rw [blocks, List.append_nil]; rfl⟩
  | cons line lines ih =>
    rw [List.foldl_cons, blocks]
    unfold Cut.line
    cases shotHeader? u line with
    | none =>
      have later := ih segments (current ++ [line])
      rw [List.append_assoc] at later
      exact later
    | some rest =>
      have later := ih (segments ++ [strip (joinLines current)]) [rest]
      rw [List.append_assoc] at later
      rw [List.append_nil]
      exact later

theorem fold_opening (lines current : List (List Char)) :
    match (blocks u lines).2 with
    | [] => (lines.foldl (Cut.line u) ⟨[], false, current⟩).started = false
    | block :: later => Cut.Has (lines.foldl (Cut.line u) ⟨[], false, current⟩)
        (shotOf (opened (current ++ (blocks u lines).1) block) :: later.map shotOf) := by
  induction lines generalizing current with
  | nil => rfl
  | cons line lines ih =>
    rw [List.foldl_cons, blocks]
    unfold Cut.line
    cases shotHeader? u line with
    | none =>
      have later := ih (current ++ [line])
      rw [List.append_assoc] at later
      exact later
    | some rest =>
      dsimp only
      rw [List.append_nil, opened]
      by_cases blank : (strip (joinLines current)).isEmpty = true
      · simp only [Bool.false_eq_true, if_false, blank, if_true]
        exact fold_started u lines [] [rest]
      · simp only [Bool.false_eq_true, if_false, blank]
        exact fold_started u lines [] [_, rest]

/-- The shots of a text without header and of one with headers. -/
theorem parseShots_blocks (text : List Char) :
    parseShots u text = match blocks u (splitlines text) with
      | (_, []) => [strip text]
      | (before, block :: later) => shotOf (opened before block) :: later.map shotOf := by
  have folded := fold_opening u (splitlines text) []
  rw [parseShots]
  cases cut : blocks u (splitlines text) with
  | mk before shots =>
    rw [cut] at folded
    cases shots with
    | nil =>
      have early : ((splitlines text).foldl (Cut.line u) ⟨[], false, []⟩).started = false := folded
      rw [early]
      rfl
    | cons block later =>
      obtain ⟨started, all⟩ := folded
      dsimp only
      rw [if_pos started]
      exact all

theorem length_blocks (lines : List (List Char)) :
    (blocks u lines).2.length = lines.countP fun line => (shotHeader? u line).isSome := by
  induction lines with
  | nil => rfl
  | cons line lines ih =>
    rw [blocks]
    cases header : shotHeader? u line with
    | none => rw [List.countP_cons_of_neg (by simp [header]), ← ih]
    | some rest => rw [List.countP_cons_of_pos (by simp [header]), ← ih]; rfl

theorem blocks_append (lines more : List (List Char))
    (plain : ∀ line ∈ lines, shotHeader? u line = none) (headed : (blocks u more).1 = []) :
    blocks u (lines ++ more) = (lines, (blocks u more).2) := by
  induction lines with
  | nil => exact Prod.ext headed rfl
  | cons line lines ih =>
    rw [List.cons_append, blocks, plain line List.mem_cons_self,
      ih fun other member => plain other (List.mem_cons_of_mem _ member)]

end Blocks

section Rendering

/-- `render_shots_text`. -/
def renderShotsText (shots : List (List Char)) : List Char :=
  joinLines ((numbered shots).map fun shot =>
    let head := shot.2.takeWhile (· ≠ '\n')
    let rest := (shot.2.dropWhile (· ≠ '\n')).drop 1
    "镜头".toList ++ numeral shot.1 ++ ['：'] ++ head ++ if rest.isEmpty then [] else '\n' :: rest)

/-- A text without whitespace around it. -/
def Stripped (text : List Char) : Prop := strip text = text

theorem stripped_shotOf (block : List (List Char)) : Stripped (shotOf block) := strip_strip _

theorem Stripped.endsVisibly {text : List Char} (stripped : Stripped text) (something : text ≠ []) :
    EndsVisibly text := by
  have kept : (lstrip text).rdropWhile isSpace ≠ [] := by
    rw [show (lstrip text).rdropWhile isSpace = text from stripped]
    exact something
  have visible := List.rdropWhile_last_not isSpace (lstrip text) kept
  refine ⟨text.dropLast, text.getLast something, (List.dropLast_append_getLast something).symm, ?_⟩
  have same : (lstrip text).rdropWhile isSpace = text := stripped
  simpa only [same, Bool.not_eq_true] using visible

theorem render_shot {text : List Char} (stripped : Stripped text) :
    (text.takeWhile (· ≠ '\n') ++ if ((text.dropWhile (· ≠ '\n')).drop 1).isEmpty then []
      else '\n' :: (text.dropWhile (· ≠ '\n')).drop 1) = text := by
  have split := @List.takeWhile_append_dropWhile _ (fun c => decide (c ≠ '\n')) text
  cases rest : text.dropWhile (· ≠ '\n') with
  | nil =>
    rw [rest] at split
    exact split
  | cons c later =>
    have newline : c = '\n' := by
      have stops := List.head?_dropWhile_not (fun c => decide (c ≠ '\n')) text
      rw [rest] at stops
      simpa using stops
    rw [rest, newline] at split
    cases later with
    | nil =>
      obtain ⟨body, last, ending, visible⟩ := stripped.endsVisibly (by rw [← split]; simp)
      have same := List.append_inj' (split.trans ending) rfl
      rw [List.cons.injEq] at same
      rw [← same.2.1] at visible
      exact absurd visible (by decide)
    | cons d later => exact split

theorem renderShotsText_stripped {shots : List (List Char)} (stripped : ∀ shot ∈ shots, Stripped shot) :
    renderShotsText shots = joinLines ((numbered shots).map fun shot => shotHead shot.1 ++ shot.2) := by
  rw [renderShotsText]
  apply congrArg joinLines
  apply List.map_congr_left
  intro shot member
  have whole := render_shot (stripped shot.2 (List.of_mem_zip member).2)
  conv_rhs => rw [← whole]
  exact List.append_assoc ..

theorem lstrip_rdropWhile (text : List Char) : lstrip (text.rdropWhile isSpace) = strip text := by
  induction text using List.reverseRecOn with
  | nil => rfl
  | append_singleton text c ih =>
    by_cases space : isSpace c = true
    · rw [List.rdropWhile_concat_pos _ _ _ space, ih, strip_snoc space]
    · have kept : lstrip (text ++ [c]) = lstrip text ++ [c] := by
        unfold lstrip
        rw [List.dropWhile_append]
        split
        · next blank => rw [List.dropWhile_cons_of_neg space, List.isEmpty_iff.mp blank]; rfl
        · rfl
      rw [List.rdropWhile_concat_neg _ _ _ space, strip, kept, List.rdropWhile_concat_neg _ _ _ space]

theorem endsVisibly_shotHead (n : Nat) {text : List Char} (stripped : Stripped text) :
    EndsVisibly (shotHead n ++ text) := by
  cases text with
  | nil => exact ⟨"镜头".toList ++ numeral n, '：', by rw [List.append_nil, shotHead], by decide⟩
  | cons c text =>
    obtain ⟨body, last, split, visible⟩ := stripped.endsVisibly (List.cons_ne_nil _ _)
    exact ⟨shotHead n ++ body, last, by rw [split, List.append_assoc], visible⟩

theorem splitlines_shotHead (n : Nat) (text : List Char) : splitlines (shotHead n ++ text) =
    (shotHead n ++ (splitlines text).headD []) :: (splitlines text).tail := by
  apply splitlines_append_plain
  · exact fun c member => plain_of_visible (mem_shotHead member).1
  · rw [shotHead]
    simp

variable (u : Unicode)

theorem shotHeader?_shotHead (n : Nat) {line : List Char} (plain : ∀ c ∈ line, isLineBreak c = false) :
    shotHeader? u (shotHead n ++ line) = some (strip line) := by
  have noBreak : '\n' ∉ line.rdropWhile isSpace := fun member =>
    absurd (plain _ ((List.rdropWhile_prefix isSpace _).subset member)) (by decide)
  rw [shotHeader?_eq, strip_shotHead, headerBody_shotHead, Option.filter,
    if_pos (by simpa using noBreak), Option.map_some, lstrip_rdropWhile]

/-- The lines of a shot when its rendering is parsed again. -/
def rereadLines (text : List Char) : List (List Char) :=
  strip ((splitlines text).headD []) :: (splitlines text).tail

/-- No header below the first line. -/
def Headless (text : List Char) : Prop := ∀ line ∈ (splitlines text).tail, shotHeader? u line = none

/-- The lines of rendered shots. -/
def renderedLines (start : Nat) (shots : List (List Char)) : List (List Char) :=
  ((List.range' start shots.length).zip shots).flatMap fun shot => splitlines (shotHead shot.1 ++ shot.2)

theorem renderedLines_cons (start : Nat) (shot : List Char) (shots : List (List Char)) :
    renderedLines start (shot :: shots) = (shotHead start ++ (splitlines shot).headD []) ::
      ((splitlines shot).tail ++ renderedLines (start + 1) shots) := by
  rw [renderedLines, List.length_cons, List.range'_succ, List.zip_cons_cons, List.flatMap_cons,
    splitlines_shotHead]
  rfl

theorem header_first (n : Nat) (text : List Char) :
    shotHeader? u (shotHead n ++ (splitlines text).headD []) =
      some (strip ((splitlines text).headD [])) := by
  apply shotHeader?_shotHead
  cases lines : splitlines text with
  | nil => simp
  | cons line later => exact @plain_of_mem_splitlines text line (by rw [lines]; simp)

theorem blocks_renderedLines (start : Nat) {shots : List (List Char)}
    (headless : ∀ shot ∈ shots, Headless u shot) :
    blocks u (renderedLines start shots) = ([], shots.map rereadLines) := by
  induction shots generalizing start with
  | nil => rfl
  | cons shot shots ih =>
    have later := ih (start + 1) fun other member => headless other (List.mem_cons_of_mem _ member)
    have below := blocks_append u (splitlines shot).tail (renderedLines (start + 1) shots)
      (headless shot List.mem_cons_self) (by rw [later])
    rw [renderedLines_cons, blocks, header_first, below, later]
    rfl

/-- Every shot is met again, and there are more where a header stands in a shot. -/
theorem length_renderedLines (start : Nat) (shots : List (List Char)) :
    shots.length ≤ (blocks u (renderedLines start shots)).2.length ∧
      ((blocks u (renderedLines start shots)).2.length = shots.length →
        ∀ shot ∈ shots, Headless u shot) := by
  induction shots generalizing start with
  | nil => exact ⟨Nat.zero_le _, by simp⟩
  | cons shot shots ih =>
    obtain ⟨enough, exactly⟩ := ih (start + 1)
    rw [length_blocks] at enough exactly ⊢
    rw [renderedLines_cons, List.countP_cons_of_pos (by rw [header_first]; rfl), List.countP_append,
      List.length_cons]
    refine ⟨by omega, fun same other member => ?_⟩
    have none : (splitlines shot).tail.countP (fun line => (shotHeader? u line).isSome) = 0 := by omega
    rcases List.mem_cons.mp member with here | later
    · rw [here]
      intro line inside
      have unheaded := List.countP_eq_zero.mp none line inside
      simpa using unheaded
    · exact exactly (by omega) other later

theorem splitlines_renderShotsText {shots : List (List Char)}
    (stripped : ∀ shot ∈ shots, Stripped shot) :
    splitlines (renderShotsText shots) = renderedLines 1 shots := by
  rw [renderShotsText_stripped stripped, splitlines_joinLines, List.flatMap_map]
  · rfl
  · intro text member
    obtain ⟨shot, inside, same⟩ := List.mem_map.mp member
    rw [← same]
    exact endsVisibly_shotHead shot.1 (stripped shot.2 (List.of_mem_zip inside).2)

theorem normalized_renderShotsText {shots : List (List Char)} (stripped : ∀ shot ∈ shots, Stripped shot)
    (normalized : ∀ shot ∈ shots, Normalized u shot) : Normalized u (renderShotsText shots) := by
  rw [renderShotsText_stripped stripped]
  apply Normalized.join
  intro line member
  obtain ⟨shot, inside, same⟩ := List.mem_map.mp member
  rw [← same, Normalized, normalizeSource_shotHead, normalized shot.2 (List.of_mem_zip inside).2]

/-- Shots are parsed again as they are if and only if each of them is read again as it is. -/
theorem parse_rendered_iff {shots : List (List Char)} (some : shots ≠ [])
    (stripped : ∀ shot ∈ shots, Stripped shot) (normalized : ∀ shot ∈ shots, Normalized u shot) :
    (parsePrompt u (renderShotsText shots)).1 = shots ↔
      ∀ shot ∈ shots, Headless u shot ∧ shotOf (rereadLines shot) = shot := by
  have parsed : (parsePrompt u (renderShotsText shots)).1 = parseShots u (renderShotsText shots) := by
    change parseShots u (normalizeSource u (renderShotsText shots)) = _
    rw [normalized_renderShotsText u stripped normalized]
  have lines := splitlines_renderShotsText stripped
  have headed := length_renderedLines u 1 shots
  have again : (∀ shot ∈ shots, Headless u shot) →
      parseShots u (renderShotsText shots) = shots.map fun shot => shotOf (rereadLines shot) := by
    intro headless
    rw [parseShots_blocks, lines, blocks_renderedLines u 1 headless]
    cases shots with
    | nil => exact absurd rfl some
    | cons shot shots =>
      have mapped : ∀ shots : List (List Char), shots.map (fun shot => shotOf (rereadLines shot)) =
          (shots.map rereadLines).map shotOf := by
        intro shots
        rw [List.map_map]
        rfl
      rw [mapped]
      rfl
  rw [parsed]
  constructor
  · intro same
    have headless : ∀ shot ∈ shots, Headless u shot := by
      apply headed.2
      have count := congrArg List.length same
      rw [parseShots_blocks, lines] at count
      cases found : blocks u (renderedLines 1 shots) with
      | mk before cut =>
        rw [found] at headed count
        cases cut with
        | nil =>
          have none := Nat.le_zero.mp headed.1
          exact absurd (List.length_eq_zero_iff.mp none) some
        | cons block later =>
          rw [← count]
          simp
    rw [again headless] at same
    intro shot member
    exact ⟨headless shot member, List.map_inj_left.mp (same.trans (List.map_id _).symm) shot member⟩
  · intro each
    rw [again fun shot member => (each shot member).1]
    exact (List.map_congr_left fun shot member => (each shot member).2).trans (List.map_id _)

end Rendering

section Tidy

/-- No blank at the end of the first line. -/
def FirstTidy (text : List Char) : Prop := (firstLine text).rdropWhile isSpace = firstLine text

theorem onlyNewlines_joinLines {lines : List (List Char)} (only : ∀ line ∈ lines, OnlyNewlines line) :
    OnlyNewlines (joinLines lines) := by
  induction lines with
  | nil =>
    intro c member
    cases member
  | cons line lines ih =>
    have first := only line List.mem_cons_self
    cases lines with
    | nil => simpa [joinLines] using first
    | cons next lines =>
      rw [joinLines_cons line (List.cons_ne_nil _ _)]
      intro c member isBreak
      rcases List.mem_append.mp member with here | below
      · exact first c here isBreak
      · rcases List.mem_cons.mp below with newline | later
        · exact newline
        · exact ih (fun other inside => only other (List.mem_cons_of_mem _ inside)) c later isBreak

theorem OnlyNewlines.of_plain {line : List Char} (plain : ∀ c ∈ line, isLineBreak c = false) :
    OnlyNewlines line := by
  intro c member isBreak
  rw [plain c member] at isBreak
  cases isBreak

theorem OnlyNewlines.mono {text part : List Char} (only : OnlyNewlines text) (inside : part ⊆ text) :
    OnlyNewlines part := fun c member => only c (inside member)

theorem onlyNewlines_shotOf {lines : List (List Char)} (only : ∀ line ∈ lines, OnlyNewlines line) :
    OnlyNewlines (shotOf lines) :=
  (onlyNewlines_joinLines only).mono fun _ => mem_of_mem_strip

theorem Stripped.head_visible {c : Char} {text : List Char} (stripped : Stripped (c :: text)) :
    isSpace c = false := by
  apply @head_strip_visible (c :: text)
  rw [show strip (c :: text) = c :: text from stripped]
  rfl

theorem strip_firstLine {text : List Char} (stripped : Stripped text) :
    strip (firstLine text) = (firstLine text).rdropWhile isSpace := by
  have front : lstrip (firstLine text) = firstLine text := by
    cases text with
    | nil => rfl
    | cons c text =>
      have visible := stripped.head_visible
      have other : c ≠ '\n' := by
        intro same
        rw [same] at visible
        exact absurd visible (by decide)
      rw [firstLine, List.takeWhile_cons_of_pos (by simpa using other), lstrip,
        List.dropWhile_cons_of_neg (by simp [visible])]
  rw [strip, front]

theorem strip_sublist (text : List Char) : List.Sublist (strip text) text :=
  (List.rdropWhile_prefix isSpace _).sublist.trans (List.dropWhile_sublist isSpace)

/-- A shot is read again as it is if and only if it has no other breaks than `\n` and no blank at
the end of its first line. -/
theorem reread_iff {text : List Char} (stripped : Stripped text) :
    shotOf (rereadLines text) = text ↔ OnlyNewlines text ∧ FirstTidy text := by
  have whole : OnlyNewlines text → joinLines (splitlines text) = text := fun only =>
    joinLines_splitlines only stripped.endsVisibly
  have parts : text ≠ [] → splitlines text = (splitlines text).headD [] :: (splitlines text).tail := by
    intro something
    cases lines : splitlines text with
    | nil => exact absurd lines (splitlines_ne_nil something)
    | cons line later => rfl
  by_cases empty : text = []
  · rw [empty]
    exact ⟨fun _ => ⟨fun c member => absurd member (by simp), rfl⟩, fun _ => rfl⟩
  constructor
  · intro same
    have only : OnlyNewlines text := by
      rw [← same]
      apply onlyNewlines_shotOf
      intro line member
      apply OnlyNewlines.of_plain
      intro c inside
      rw [rereadLines] at member
      rcases List.mem_cons.mp member with first | later
      · rw [first] at inside
        exact @plain_of_mem_splitlines text _ (by rw [parts empty]; simp) c (mem_of_mem_strip inside)
      · exact plain_of_mem_splitlines (List.mem_of_mem_tail later) c inside
    refine ⟨only, ?_⟩
    have longer : text.length ≤ (joinLines (rereadLines text)).length := by
      conv_lhs => rw [← same]
      exact (strip_sublist _).length_le
    have size : ∀ first : List Char, (joinLines (first :: (splitlines text).tail)).length =
        first.length + (joinLines ([] :: (splitlines text).tail)).length := by
      intro first
      have moved := append_joinLines first [] (splitlines text).tail
      rw [List.append_nil] at moved
      rw [← moved, List.length_append]
    have sizeText : text.length = (firstLine text).length +
        (joinLines ([] :: (splitlines text).tail)).length := by
      rw [← size, ← headD_splitlines only, ← parts empty, whole only]
    rw [rereadLines, size, headD_splitlines only, sizeText] at longer
    have kept := (strip_sublist (firstLine text)).eq_of_length_le (by omega)
    rw [strip_firstLine stripped] at kept
    exact kept
  · rintro ⟨only, tidy⟩
    rw [rereadLines, headD_splitlines only, strip_firstLine stripped, tidy, ← headD_splitlines only,
      ← parts empty, shotOf, whole only]
    exact stripped

/-- A line that ends in no blank, unless no visible line is below it: the first visible one. -/
def TidyOpening (lines : List (List Char)) : Prop :=
  match lines.dropWhile isBlank with
  | [] => True
  | first :: later => later.all isBlank = true ∨ first.rdropWhile isSpace = first

theorem firstLine_append_newline (text after : List Char) :
    firstLine (text ++ '\n' :: after) = firstLine text := by
  unfold firstLine
  rw [List.takeWhile_append]
  split
  · next whole =>
    rw [List.takeWhile_cons_of_neg (by decide), List.append_nil,
      (List.takeWhile_prefix fun c => decide (c ≠ '\n')).eq_of_length whole]
  · rfl

theorem firstLine_plain {line : List Char} (plain : ∀ c ∈ line, isLineBreak c = false) :
    firstLine line = line := by
  apply List.takeWhile_eq_self_iff.mpr
  intro c member
  rw [decide_eq_true_eq]
  intro newline
  have unbroken := plain c member
  rw [newline] at unbroken
  exact absurd unbroken (by decide)

theorem isBlank_joinLines (lines : List (List Char)) :
    isBlank (joinLines lines) = lines.all isBlank := by
  induction lines with
  | nil => rfl
  | cons line lines ih =>
    cases lines with
    | nil => simp [joinLines]
    | cons next lines =>
      rw [joinLines_cons line (List.cons_ne_nil _ _), List.all_cons, ← ih]
      unfold isBlank
      rw [List.all_append, List.all_cons, show isSpace '\n' = true by decide, Bool.true_and]

theorem strip_blank {text : List Char} (blank : isBlank text = true) : strip text = [] := by
  have dropped : lstrip text = [] := List.dropWhile_eq_nil_iff.mpr (List.all_eq_true.mp blank)
  rw [strip, dropped]
  rfl

theorem strip_blank_append {before : List Char} (blank : isBlank before = true) (text : List Char) :
    strip (before ++ text) = strip text := by
  rw [strip, lstrip, List.dropWhile_append_of_pos (List.all_eq_true.mp blank)]
  rfl

theorem strip_append_blank (text : List Char) {after : List Char} (blank : isBlank after = true) :
    strip (text ++ after) = strip text := by
  induction after using List.reverseRecOn with
  | nil => rw [List.append_nil]
  | append_singleton after c ih =>
    unfold isBlank at ih blank
    rw [List.all_append, Bool.and_eq_true, List.all_cons, Bool.and_eq_true] at blank
    rw [← List.append_assoc, strip_snoc blank.2.1, ih blank.1]

theorem rdropWhile_append (text : List Char) {after : List Char} (visible : isBlank after = false) :
    (text ++ after).rdropWhile isSpace = text ++ after.rdropWhile isSpace := by
  induction after using List.reverseRecOn with
  | nil => cases visible
  | append_singleton after c ih =>
    rw [← List.append_assoc]
    by_cases space : isSpace c = true
    · rw [List.rdropWhile_concat_pos _ _ _ space, List.rdropWhile_concat_pos _ _ _ space]
      apply ih
      unfold isBlank at visible ⊢
      rwa [List.all_append, List.all_cons, space, List.all_nil, Bool.and_true, Bool.and_true] at visible
    · rw [List.rdropWhile_concat_neg _ _ _ space, List.rdropWhile_concat_neg _ _ _ space,
        List.append_assoc]

theorem lstrip_append {text : List Char} (visible : isBlank text = false) (after : List Char) :
    lstrip (text ++ after) = lstrip text ++ after := by
  unfold lstrip
  rw [List.dropWhile_append, if_neg]
  intro none
  have all := List.dropWhile_eq_nil_iff.mp (List.isEmpty_iff.mp none)
  rw [show isBlank text = true from List.all_eq_true.mpr all] at visible
  cases visible

theorem isBlank_lstrip (text : List Char) : isBlank (lstrip text) = isBlank text := by
  have split : text.takeWhile isSpace ++ lstrip text = text := List.takeWhile_append_dropWhile
  have front : (text.takeWhile isSpace).all isSpace = true :=
    List.all_eq_true.mpr fun c member => List.mem_takeWhile_imp member
  conv_rhs => rw [← split]
  unfold isBlank
  rw [List.all_append, front, Bool.true_and]

/-- The first line of a shot whose first part is visible. -/
theorem firstLine_shotOf {first : List Char} (visible : isBlank first = false)
    (later : List (List Char)) : firstLine (shotOf (first :: later)) =
      firstLine (if later.all isBlank then strip first else lstrip first) := by
  unfold shotOf
  cases later with
  | nil => simp [joinLines]
  | cons next later =>
    rw [joinLines_cons first (List.cons_ne_nil _ _), ← isBlank_joinLines]
    by_cases blank : isBlank (joinLines (next :: later)) = true
    · rw [if_pos blank, strip_append_blank first]
      unfold isBlank at blank ⊢
      rw [List.all_cons, blank]
      decide
    · rw [if_neg blank, strip, lstrip_append visible, rdropWhile_append, ← List.singleton_append,
        rdropWhile_append ['\n'] (eq_false_of_ne_true blank), List.singleton_append,
        firstLine_append_newline]
      unfold isBlank at blank ⊢
      rw [List.all_cons, eq_false_of_ne_true blank]
      decide

theorem firstTidy_shotOf {lines : List (List Char)}
    (plain : ∀ line ∈ lines, ∀ c ∈ line, isLineBreak c = false) :
    FirstTidy (shotOf lines) ↔ TidyOpening lines := by
  induction lines with
  | nil => exact ⟨fun _ => trivial, fun _ => rfl⟩
  | cons line lines ih =>
    unfold TidyOpening
    by_cases blank : isBlank line = true
    · have skipped : shotOf (line :: lines) = shotOf lines := by
        unfold shotOf
        cases lines with
        | nil =>
          change strip (joinLines [line]) = []
          apply strip_blank
          rw [isBlank_joinLines, List.all_cons, blank]
          rfl
        | cons next lines =>
          rw [joinLines_cons line (List.cons_ne_nil _ _), ← List.singleton_append, ← List.append_assoc]
          apply strip_blank_append
          unfold isBlank at blank ⊢
          rw [List.all_append, blank]
          decide
      rw [skipped, List.dropWhile_cons_of_pos blank]
      exact ih fun other member => plain other (List.mem_cons_of_mem _ member)
    · have visible := eq_false_of_ne_true blank
      have linePlain := plain line List.mem_cons_self
      have splitLine : line.takeWhile isSpace ++ lstrip line = line := List.takeWhile_append_dropWhile
      rw [List.dropWhile_cons_of_neg blank, FirstTidy, firstLine_shotOf visible]
      dsimp only
      by_cases below : lines.all isBlank = true
      · rw [if_pos below, firstLine_plain fun c member => linePlain c (mem_of_mem_strip member)]
        exact ⟨fun _ => .inl below, fun _ => List.rdropWhile_idempotent isSpace _⟩
      · have frontPlain : ∀ c ∈ lstrip line, isLineBreak c = false := fun c member =>
          linePlain c (List.dropWhile_subset _ member)
        have dropped : line.rdropWhile isSpace =
            line.takeWhile isSpace ++ (lstrip line).rdropWhile isSpace := by
          conv_lhs => rw [← splitLine]
          exact rdropWhile_append _ (by rw [isBlank_lstrip, visible])
        rw [if_neg below, firstLine_plain frontPlain, or_iff_right below, dropped]
        constructor
        · intro kept
          rw [kept, splitLine]
        · intro kept
          exact List.append_cancel_left (kept.trans splitLine.symm)

end Tidy

section Headers

variable {u : Unicode}

/-- The parts that the lines are cut into, each with the line that it comes from. -/
theorem blocks_spec (lines : List (List Char)) :
    (∀ line ∈ (blocks u lines).1, line ∈ lines ∧ shotHeader? u line = none) ∧
      ∀ block ∈ (blocks u lines).2, ∃ header rest following, block = rest :: following ∧
        header ∈ lines ∧ shotHeader? u header = some rest ∧
          ∀ line ∈ following, line ∈ lines ∧ shotHeader? u line = none := by
  induction lines with
  | nil => exact ⟨by simp [blocks], by simp [blocks]⟩
  | cons line lines ih =>
    obtain ⟨before, later⟩ := ih
    have raise : ∀ block ∈ (blocks u lines).2, ∃ header rest following, block = rest :: following ∧
        header ∈ line :: lines ∧ shotHeader? u header = some rest ∧
          ∀ other ∈ following, other ∈ line :: lines ∧ shotHeader? u other = none := by
      intro block member
      obtain ⟨header, rest, following, split, inside, found, plain⟩ := later block member
      exact ⟨header, rest, following, split, List.mem_cons_of_mem _ inside, found,
        fun other below => ⟨List.mem_cons_of_mem _ (plain other below).1, (plain other below).2⟩⟩
    have lower : ∀ other ∈ (blocks u lines).1, other ∈ line :: lines ∧ shotHeader? u other = none :=
      fun other member => ⟨List.mem_cons_of_mem _ (before other member).1, (before other member).2⟩
    rw [blocks]
    cases header : shotHeader? u line with
    | none =>
      refine ⟨fun other member => ?_, raise⟩
      rcases List.mem_cons.mp member with here | below
      · rw [here]
        exact ⟨List.mem_cons_self, header⟩
      · exact lower other below
    | some rest =>
      refine ⟨by simp, fun block member => ?_⟩
      rcases List.mem_cons.mp member with here | below
      · exact ⟨line, rest, _, here, List.mem_cons_self, header, lower⟩
      · exact raise block below

theorem stripped_header {line rest : List Char} (found : shotHeader? u line = some rest) :
    Stripped rest := by
  rw [shotHeader?_eq, Option.map_eq_some_iff] at found
  obtain ⟨body, kept, same⟩ := found
  rw [Option.filter_eq_some_iff] at kept
  obtain ⟨before, c, split, _⟩ := headerBody_split kept.1
  have ends : (strip line).rdropWhile isSpace = strip line := List.rdropWhile_idempotent isSpace _
  have bodyEnds : body.rdropWhile isSpace = body := by
    rw [List.rdropWhile_eq_self_iff] at ends ⊢
    intro something
    have last := ends (by rw [split]; simp)
    simp only [split] at last
    rwa [List.getLast_append_of_ne_nil _ (List.cons_ne_nil _ _), List.getLast_cons something] at last
  rw [Stripped, ← same, ← lstrip_rdropWhile, ← bodyEnds, lstrip_rdropWhile, lstrip_rdropWhile]
  exact strip_strip body

variable (u)

/-- The mark of a header line. -/
def headed (line : List Char) : List Unit := if (shotHeader? u line).isSome then [()] else []

variable {u}

theorem headed_eq_nil {line : List Char} : headed u line = [] ↔ shotHeader? u line = none := by
  unfold headed
  cases shotHeader? u line <;> simp

theorem headed_nil : headed u [] = [] := by
  rw [headed_eq_nil, shotHeader?_eq]
  rfl

theorem headed_core {line : List Char} (normalized : Normalized u line) :
    headed u (core u line) = headed u line := by
  rw [core, normalized, headed, headed, shotHeader?_strip]

/-- The headers of a text are those on its first line and those below. -/
theorem hear_headed {text : List Char} (normalized : Normalized u text) :
    hear u (headed u) text =
      headed u ((splitlines text).headD []) ++ (splitlines text).tail.flatMap (headed u) := by
  have lines : hear u (headed u) text = (splitlines text).flatMap (headed u) := by
    rw [hear, perLine]
    apply List.flatMap_congr
    intro line member
    exact headed_core (normalized_of_mem_splitlines normalized member)
  rw [lines]
  cases splitlines text with
  | nil => rw [List.headD_nil, headed_nil]; rfl
  | cons line later => rfl

theorem headless_iff {text : List Char} :
    Headless u text ↔ (splitlines text).tail.flatMap (headed u) = [] := by
  rw [List.flatMap_eq_nil_iff]
  exact forall₂_congr fun line _ => headed_eq_nil.symm

theorem hear_shotOf (lines : List (List Char)) :
    hear u (headed u) (shotOf lines) = lines.flatMap (hear u (headed u)) := by
  rw [shotOf, hear_strip u headed_nil, hear_joinLines u headed_nil]

theorem Normalized.shotOf {lines : List (List Char)} (each : ∀ line ∈ lines, Normalized u line) :
    Normalized u (shotOf lines) := (Normalized.join each).strip

/-- A part of a text that is one line or a shot of lines. -/
structure Part (u : Unicode) (text : List Char) : Prop where
  normalized : Normalized u text
  stripped : Stripped text
  only : OnlyNewlines text

theorem firstLine_shotOf_part {first : List Char} (stripped : Stripped first) (something : first ≠ [])
    (later : List (List Char)) : firstLine (shotOf (first :: later)) = firstLine first := by
  have visible : isBlank first = false := by
    by_contra blank
    have none := strip_blank (eq_true_of_ne_false blank)
    rw [show strip first = first from stripped] at none
    exact something none
  have front : lstrip first = first := by
    conv_lhs => rw [← show strip first = first from stripped]
    rw [lstrip_strip]
    exact stripped
  rw [firstLine_shotOf visible, front, show strip first = first from stripped, ite_self]

/-- Below its first line a shot has the headers that are below the first line of its first part and
those of its other parts. -/
theorem headers_below {first : List Char} (part : Part u first) (something : first ≠ [])
    {later : List (List Char)} (only : ∀ line ∈ later, OnlyNewlines line)
    (normalized : ∀ line ∈ later, Normalized u line) :
    (splitlines (shotOf (first :: later))).tail.flatMap (headed u) =
      (splitlines first).tail.flatMap (headed u) ++ later.flatMap (hear u (headed u)) := by
  have all : OnlyNewlines (shotOf (first :: later)) :=
    onlyNewlines_shotOf (List.forall_mem_cons.mpr ⟨part.only, only⟩)
  have whole := hear_headed (Normalized.shotOf (List.forall_mem_cons.mpr ⟨part.normalized, normalized⟩))
  rw [hear_shotOf, List.flatMap_cons, hear_headed part.normalized, headD_splitlines all,
    headD_splitlines part.only, firstLine_shotOf_part part.stripped something,
    List.append_assoc] at whole
  exact (List.append_cancel_left whole).symm

/-- A line of a normalized text. -/
def Line (u : Unicode) (line : List Char) : Prop :=
  Normalized u line ∧ ∀ c ∈ line, isLineBreak c = false

theorem hear_headed_line {line : List Char} (isLine : Line u line) :
    hear u (headed u) line = headed u line := by
  rw [hear_plain u headed_nil isLine.2, headed_core isLine.1]

theorem hear_headed_lines {lines : List (List Char)} (each : ∀ line ∈ lines, Line u line)
    (unheaded : ∀ line ∈ lines, shotHeader? u line = none) :
    lines.flatMap (hear u (headed u)) = [] := by
  rw [List.flatMap_eq_nil_iff]
  intro line member
  rw [hear_headed_line (each line member), headed_eq_nil]
  exact unheaded line member

theorem Line.only {line : List Char} (isLine : Line u line) : OnlyNewlines line := .of_plain isLine.2

theorem Line.header {line rest : List Char} (isLine : Line u line)
    (found : shotHeader? u line = some rest) : Line u rest :=
  ⟨isLine.1.header found, plain_header isLine.1 isLine.2 found⟩

/-- Without text before it a shot has no header below its first line. -/
theorem headless_block {rest : List Char} {following : List (List Char)} (restLine : Line u rest)
    (stripped : Stripped rest) (each : ∀ line ∈ following, Line u line)
    (unheaded : ∀ line ∈ following, shotHeader? u line = none) :
    Headless u (shotOf (rest :: following)) := by
  rw [headless_iff]
  have below := hear_headed_lines each unheaded
  by_cases empty : rest = []
  · have normalized : ∀ line ∈ rest :: following, Normalized u line :=
      List.forall_mem_cons.mpr ⟨restLine.1, fun line member => (each line member).1⟩
    have whole := hear_headed (Normalized.shotOf normalized)
    rw [hear_shotOf, List.flatMap_cons, below, empty, hear_nil, List.nil_append] at whole
    rw [empty]
    exact (List.append_eq_nil_iff.mp whole.symm).2
  · have single := splitlines_append_plain restLine.2 empty []
    rw [List.append_nil] at single
    rw [headers_below ⟨restLine.1, stripped, restLine.only⟩ empty (fun line member => (each line member).only)
      (fun line member => (each line member).1), below, single]
    rfl

/-- With text before it a shot has a header below its first line if another one follows its own. -/
theorem headless_opened {before following : List (List Char)} {rest : List Char}
    (some : strip (joinLines before) ≠ []) (beforeLines : ∀ line ∈ before, Line u line)
    (beforeUnheaded : ∀ line ∈ before, shotHeader? u line = none) (restLine : Line u rest)
    (each : ∀ line ∈ following, Line u line)
    (unheaded : ∀ line ∈ following, shotHeader? u line = none) :
    Headless u (shotOf (shotOf before :: rest :: following)) ↔ shotHeader? u rest = none := by
  have normalized := Normalized.shotOf fun line member => (beforeLines line member).1
  have part : Part u (shotOf before) :=
    ⟨normalized, stripped_shotOf before, onlyNewlines_shotOf fun line member => (beforeLines line member).only⟩
  have none := hear_headed normalized
  rw [hear_shotOf, hear_headed_lines beforeLines beforeUnheaded] at none
  rw [headless_iff, headers_below part some, (List.append_eq_nil_iff.mp none.symm).2, List.flatMap_cons,
    hear_headed_lines each unheaded, hear_headed_line restLine, List.nil_append, List.append_nil,
    headed_eq_nil]
  · exact List.forall_mem_cons.mpr ⟨restLine.only, fun line member => (each line member).only⟩
  · exact List.forall_mem_cons.mpr ⟨restLine.1, fun line member => (each line member).1⟩

end Headers

section RoundTrip

variable (u : Unicode)

/-- Every shot of the text starts with a line that ends in no blank or is its only visible one; a text
without headers has no line break but `\n`, and the first header does not go before another one where
text is before it. -/
def RendersBack (text : List Char) : Prop :=
  match blocks u (splitlines (normalizeSource u text)) with
  | (_, []) => OnlyNewlines (strip (normalizeSource u text)) ∧
      TidyOpening (splitlines (strip (normalizeSource u text)))
  | (before, block :: later) =>
      (if before.all isBlank then TidyOpening block
        else TidyOpening before ∧ shotHeader? u (block.headD []) = none) ∧
      ∀ block ∈ later, TidyOpening block

theorem stripped_parseShots (text : List Char) : ∀ shot ∈ parseShots u text, Stripped shot := by
  rw [parseShots_blocks]
  split
  · intro shot member
    rw [List.mem_singleton.mp member]
    exact strip_strip _
  · intro shot member
    rcases List.mem_cons.mp member with first | later
    · rw [first]
      exact stripped_shotOf _
    · obtain ⟨block, _, same⟩ := List.mem_map.mp later
      rw [← same]
      exact stripped_shotOf block

theorem parseShots_ne_nil (text : List Char) : parseShots u text ≠ [] := by
  rw [parseShots_blocks]
  split <;> exact List.cons_ne_nil _ _

/-- A shot that is read again as it is. -/
def Rereads (shot : List Char) : Prop := Headless u shot ∧ OnlyNewlines shot ∧ FirstTidy shot

variable {u}

theorem rereads_whole {text : List Char} (normalized : Normalized u text)
    (unheaded : ∀ line ∈ splitlines text, shotHeader? u line = none) :
    Rereads u (strip text) ↔
      OnlyNewlines (strip text) ∧ TidyOpening (splitlines (strip text)) := by
  have stripped : Stripped (strip text) := strip_strip text
  have headless : Headless u (strip text) := by
    have whole := hear_headed normalized.strip
    have none := hear_headed normalized
    rw [hear_strip u headed_nil] at whole
    have quiet : (splitlines text).flatMap (headed u) = [] :=
      List.flatMap_eq_nil_iff.mpr fun line member => headed_eq_nil.mpr (unheaded line member)
    have heard : hear u (headed u) text = [] := by
      rw [none]
      cases lines : splitlines text with
      | nil => rw [List.headD_nil, headed_nil]; rfl
      | cons line later => rwa [lines] at quiet
    rw [heard] at whole
    exact headless_iff.mpr (List.append_eq_nil_iff.mp whole.symm).2
  unfold Rereads
  rw [and_iff_right headless]
  apply and_congr_right
  intro only
  have joined := joinLines_splitlines only stripped.endsVisibly
  rw [← firstTidy_shotOf fun line member => plain_of_mem_splitlines member, shotOf, joined,
    show strip (strip text) = strip text from stripped]

theorem rereads_block {rest : List Char} {following : List (List Char)} (restLine : Line u rest)
    (stripped : Stripped rest) (each : ∀ line ∈ following, Line u line)
    (unheaded : ∀ line ∈ following, shotHeader? u line = none) :
    Rereads u (shotOf (rest :: following)) ↔ TidyOpening (rest :: following) := by
  have only : OnlyNewlines (shotOf (rest :: following)) :=
    onlyNewlines_shotOf (List.forall_mem_cons.mpr ⟨restLine.only, fun line member => (each line member).only⟩)
  unfold Rereads
  rw [and_iff_right (headless_block restLine stripped each unheaded), and_iff_right only]
  exact firstTidy_shotOf (List.forall_mem_cons.mpr ⟨restLine.2, fun line member => (each line member).2⟩)

theorem rereads_opened {before following : List (List Char)} {rest : List Char}
    (some : strip (joinLines before) ≠ []) (beforeLines : ∀ line ∈ before, Line u line)
    (beforeUnheaded : ∀ line ∈ before, shotHeader? u line = none) (restLine : Line u rest)
    (each : ∀ line ∈ following, Line u line)
    (unheaded : ∀ line ∈ following, shotHeader? u line = none) :
    Rereads u (shotOf (shotOf before :: rest :: following)) ↔
      TidyOpening before ∧ shotHeader? u rest = none := by
  have beforeOnly : OnlyNewlines (shotOf before) :=
    onlyNewlines_shotOf fun line member => (beforeLines line member).only
  have only : OnlyNewlines (shotOf (shotOf before :: rest :: following)) :=
    onlyNewlines_shotOf (List.forall_mem_cons.mpr ⟨beforeOnly, List.forall_mem_cons.mpr
      ⟨restLine.only, fun line member => (each line member).only⟩⟩)
  unfold Rereads
  rw [headless_opened some beforeLines beforeUnheaded restLine each unheaded, and_iff_right only, FirstTidy,
    firstLine_shotOf_part (stripped_shotOf before) some,
    ← firstTidy_shotOf fun line member => (beforeLines line member).2, FirstTidy, and_comm]

variable (u)

/-- The shots of a prompt are parsed again as they are if and only if it renders back. -/
theorem shots_round_trip_iff (text : List Char) :
    (parsePrompt u (renderShotsText (parsePrompt u text).1)).1 = (parsePrompt u text).1 ↔
      RendersBack u text := by
  change (parsePrompt u (renderShotsText (parseShots u (normalizeSource u text)))).1 =
    parseShots u (normalizeSource u text) ↔ _
  have stripped := stripped_parseShots u (normalizeSource u text)
  rw [parse_rendered_iff u (parseShots_ne_nil u _) stripped (normalized_parsePrompt text)]
  have each : (∀ shot ∈ parseShots u (normalizeSource u text),
      Headless u shot ∧ shotOf (rereadLines shot) = shot) ↔
        ∀ shot ∈ parseShots u (normalizeSource u text), Rereads u shot := by
    apply forall₂_congr
    intro shot member
    rw [reread_iff (stripped shot member), Rereads]
  have normalized := normalizeSource_idem u text
  have isLine : ∀ line ∈ splitlines (normalizeSource u text), Line u line := fun line member =>
    ⟨normalized_of_mem_splitlines normalized member, plain_of_mem_splitlines member⟩
  obtain ⟨beforeSpec, blockSpec⟩ := @blocks_spec u (splitlines (normalizeSource u text))
  have count := length_blocks u (splitlines (normalizeSource u text))
  rw [each, parseShots_blocks, RendersBack]
  cases cut : blocks u (splitlines (normalizeSource u text)) with
  | mk before shots =>
    rw [cut] at beforeSpec blockSpec count
    dsimp only at beforeSpec blockSpec count
    cases shots with
    | nil =>
      have unheaded : ∀ line ∈ splitlines (normalizeSource u text), shotHeader? u line = none := by
        intro line member
        have none := List.countP_eq_zero.mp count.symm line member
        simpa using none
      dsimp only
      rw [List.forall_mem_singleton]
      exact rereads_whole normalized unheaded
    | cons block later =>
      have blockIff : ∀ part ∈ block :: later, Rereads u (shotOf part) ↔ TidyOpening part := by
        intro part member
        obtain ⟨header, rest, following, split, inside, found, below⟩ := blockSpec part member
        rw [split]
        exact rereads_block ((isLine header inside).header found) (stripped_header found)
          (fun line member => isLine line (below line member).1) fun line member => (below line member).2
      have laterIff : (∀ shot ∈ later.map shotOf, Rereads u shot) ↔ ∀ block ∈ later, TidyOpening block := by
        rw [List.forall_mem_map]
        exact forall₂_congr fun block member => blockIff block (List.mem_cons_of_mem _ member)
      dsimp only
      rw [List.forall_mem_cons, laterIff]
      apply and_congr_left'
      rw [opened, ← isBlank_joinLines]
      by_cases blank : isBlank (joinLines before) = true
      · rw [if_pos (List.isEmpty_iff.mpr (strip_blank blank)), if_pos blank]
        exact blockIff block List.mem_cons_self
      · have some : strip (joinLines before) ≠ [] := by
          intro none
          obtain ⟨front, rear, split, frontBlank, rearBlank⟩ := strip_split (joinLines before)
          apply blank
          rw [split, none, List.append_nil]
          apply List.all_eq_true.mpr
          intro c member
          rcases List.mem_append.mp member with inFront | inRear
          · exact frontBlank c inFront
          · exact rearBlank c inRear
        obtain ⟨header, rest, following, split, inside, found, below⟩ :=
          blockSpec block List.mem_cons_self
        rw [if_neg fun none => some (List.isEmpty_iff.mp none), if_neg blank, split]
        exact rereads_opened some (fun line member => isLine line (beforeSpec line member).1)
          (fun line member => (beforeSpec line member).2) ((isLine header inside).header found)
          (fun line member => isLine line (below line member).1) fun line member => (below line member).2

/-- Text before two headers on one line: one shot is parsed again as two. -/
theorem two_headers_are_parsed_apart :
    ¬∀ text, (parsePrompt plainUnicode (renderShotsText (parsePrompt plainUnicode text).1)).1 =
      (parsePrompt plainUnicode text).1 := by
  intro same
  have apart := same "雨夜\n镜头1：镜头2：追逐".toList
  revert apart
  decide

end RoundTrip

end ArcReel.Speech
