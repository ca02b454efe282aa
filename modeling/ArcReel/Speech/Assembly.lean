import ArcReel.Speech.Hearing

/-! Assembling the shots of an admitted unit to one text and cutting it apart again loses and adds
nothing that is heard. -/

namespace ArcReel.Speech
open Lib PyText Mention Prompt

variable (u : Unicode)

/-- A line with braces that is no utterance. -/
def stray (line : List Char) : List Unit :=
  if said u line = none ∧ ('\x7b' ∈ line ∨ '\x7d' ∈ line) then [()] else []

/-- Braces are in utterances only. -/
def Clean (text : List Char) : Prop := hear u (stray u) text = []

/-- Nothing is read off a line without braces. -/
def Quiet {α : Type} (f : List Char → List α) : Prop := ∀ line, BraceFree line → f line = []

theorem quiet_stray : Quiet (stray u) := by
  intro line free
  rw [stray, if_neg]
  rintro ⟨_, opened | closed⟩
  · exact free.1 opened
  · exact free.2 closed

variable {u} {α : Type} {f : List Char → List α}

theorem Quiet.empty (quiet : Quiet f) : f [] = [] := quiet [] ⟨by simp, by simp⟩

theorem mem_of_mem_splitlines {text line : List Char} (member : line ∈ splitlines text) :
    line ⊆ text := by
  induction text using splitlines.induct generalizing line with
  | case1 => cases member
  | case2 rest ih =>
    rw [splitlines] at member
    cases List.mem_cons.mp member with
    | inl same => simp [same]
    | inr later => exact fun c inside => List.mem_cons_of_mem _ (List.mem_cons_of_mem _ (ih later inside))
  | case3 c rest notPair isBreak ih =>
    rw [splitlines, if_pos isBreak] at member
    · cases List.mem_cons.mp member with
      | inl same => simp [same]
      | inr later => exact fun c inside => List.mem_cons_of_mem _ (ih later inside)
    · exact notPair
  | case4 c rest notPair plain ih =>
    rw [splitlines, if_neg plain] at member
    · rcases mem_consLine member with same | ⟨tail, old, same⟩ | old
      · simp [same]
      · rw [same]
        exact List.cons_subset_cons c (ih old)
      · exact fun d inside => List.mem_cons_of_mem _ (ih old inside)
    · exact notPair

theorem hear_braceFree (quiet : Quiet f) {text : List Char} (free : BraceFree text) :
    hear u f text = [] := by
  rw [hear, perLine, List.flatMap_eq_nil_iff]
  intro line member
  exact quiet _ ((free.mono (mem_of_mem_splitlines member)).core u)

theorem clean_lines {text : List Char} (clean : Clean u text) {line : List Char}
    (member : line ∈ splitlines text) : stray u (core u line) = [] :=
  List.flatMap_eq_nil_iff.mp clean line member

theorem braceFree_of_stray {line : List Char} (clean : stray u (core u line) = [])
    (silent : said u line = none) : BraceFree (core u line) := by
  rw [stray, said_core] at clean
  constructor
  · intro opened
    rw [if_pos ⟨silent, .inl opened⟩] at clean
    cases clean
  · intro closed
    rw [if_pos ⟨silent, .inr closed⟩] at clean
    cases clean

theorem afterColon_split {text body : List Char} (found : afterColon text = some body) :
    ∃ c, isColon c = true ∧ text = c :: body := by
  cases text with
  | nil => cases found
  | cons c rest =>
    rw [afterColon] at found
    split_ifs at found with colon
    rw [Option.some.injEq] at found
    exact ⟨c, colon, by rw [found]⟩

theorem plain_space {c : Char} (space : isSpace c = true) :
    c ≠ '@' ∧ c ≠ '\x7b' ∧ c ≠ '\x7d' := by
  refine ⟨?_, ?_, ?_⟩
  all_goals
    intro same
    rw [same] at space
    revert space
    decide

/-- What comes before the body of a header ends in a colon and has no mention or brace in it. -/
theorem headerBody_split {text body : List Char} (found : headerBody isSpace u.decimal text = some body) :
    ∃ before c, text = '镜' :: before ++ c :: body ∧ isColon c = true ∧
      ∀ d ∈ before, d ≠ '@' ∧ d ≠ '\x7b' ∧ d ≠ '\x7d' := by
  unfold headerBody at found
  split at found
  · next rest =>
    rw [Option.bind_eq_some_iff] at found
    obtain ⟨after, number, colon⟩ := found
    obtain ⟨c, isColonChar, split⟩ := afterColon_split colon
    rw [afterNumber] at number
    split_ifs at number with none
    rw [Option.some.injEq] at number
    refine ⟨'头' :: (rest.takeWhile isSpace ++ ((rest.dropWhile isSpace).takeWhile u.decimal ++
      ((rest.dropWhile isSpace).dropWhile u.decimal).takeWhile isSpace)), c, ?_, isColonChar, ?_⟩
    · rw [← split, ← number, List.cons_append, List.cons_append, List.append_assoc, List.append_assoc,
        List.takeWhile_append_dropWhile, List.takeWhile_append_dropWhile,
        List.takeWhile_append_dropWhile]
    · intro d member
      simp only [List.mem_cons, List.mem_append] at member
      rcases member with same | space | digit | space
      · rw [same]
        decide
      · exact plain_space (List.mem_takeWhile_imp space)
      · have plain := u.decimal_plain d (List.mem_takeWhile_imp digit)
        exact ⟨plain.2.2, plain.1, plain.2.1⟩
      · exact plain_space (List.mem_takeWhile_imp space)
  · cases found

theorem colon_plain {c : Char} (colon : isColon c = true) :
    c ≠ '@' ∧ c ≠ '\x7b' ∧ c ≠ '\x7d' ∧ isSpace c = false ∧ isLineBreak c = false := by
  have either : c = ':' ∨ c = '：' := by simpa [isColon] using colon
  rcases either with same | same <;> rw [same] <;> decide

theorem header_split {line rest : List Char} (found : shotHeader? u (normalizeSource u line) = some rest) :
    ∃ body before c, core u line = '镜' :: before ++ c :: body ∧ rest = lstrip body ∧
      isColon c = true ∧ ∀ d ∈ before, d ≠ '@' ∧ d ≠ '\x7b' ∧ d ≠ '\x7d' := by
  rw [shotHeader?_eq, Option.map_eq_some_iff] at found
  obtain ⟨body, kept, same⟩ := found
  rw [Option.filter_eq_some_iff] at kept
  obtain ⟨before, c, split, colon, plain⟩ := headerBody_split kept.1
  exact ⟨body, before, c, split, same.symm, colon, plain⟩

theorem said_of_header {line before : List Char} (split : core u line = '镜' :: before) :
    said u line = none := by
  by_contra some
  rcases head_of_said u some with mention | brace
  · rw [split] at mention
    revert mention
    simp
  · rw [split] at brace
    revert brace
    simp

/-- A line of a clean text is heard the same without its header. -/
theorem hear_stripShotHeader_line (quiet : Quiet f) {line : List Char}
    (clean : stray u (core u line) = []) (plain : ∀ c ∈ line, isLineBreak c = false) :
    hear u f (stripShotHeader u line) = hear u f line := by
  unfold stripShotHeader
  dsimp only
  cases header : shotHeader? u (normalizeSource u line) with
  | none => rw [Option.getD_none, hear_normalizeSource u quiet.empty]
  | some rest =>
    obtain ⟨body, before, c, split, same, _⟩ := header_split header
    have free := braceFree_of_stray clean (said_of_header split)
    have bodyFree : BraceFree body := free.mono fun d inside => by
      rw [split]
      exact List.mem_append_right _ (List.mem_cons_of_mem _ inside)
    rw [Option.getD_some, same, hear_lstrip u quiet.empty, hear_braceFree quiet bodyFree,
      hear_plain u quiet.empty plain, quiet _ free]

/-- What is heard of a text at execution, line by line without headers. -/
def execute (u : Unicode) (f : List Char → List α) (text : List Char) : List α :=
  perLine (fun line => hear u f (stripShotHeader u line)) text

theorem stripShotHeader_nil : stripShotHeader u [] = [] := by
  unfold stripShotHeader
  rw [normalizeSource_nil]
  dsimp only
  rw [shotHeader?_eq]
  rfl

theorem execute_empty : hear u f (stripShotHeader u []) = [] := by
  rw [stripShotHeader_nil, hear_nil]

theorem execute_parsePrompt (empty : f [] = []) (text : List Char) :
    (parsePrompt u text).1.flatMap (hear u f) = execute u f text := by
  have emptyLine : hear u f (headerless u []) = [] := by
    rw [headerless, shotHeader?_eq]
    rfl
  have dropEmpty := @flatMap_filled α (fun line => hear u f (headerless u line)) emptyLine
  change (parseShots u (normalizeSource u text)).flatMap (hear u f) = _
  rw [hear_parseShots u empty, ← dropEmpty, splitlines_filled, dropEmpty, splitOnP_normalizeSource, List.flatMap_map, execute,
    perLine_eq execute_empty]
  rfl

/-- A clean text is heard at execution as it is. -/
theorem execute_clean (quiet : Quiet f) {text : List Char} (clean : Clean u text) :
    execute u f text = hear u f text := by
  rw [execute, perLine, hear, perLine]
  apply List.flatMap_congr
  intro line member
  have plain := plain_of_mem_splitlines member
  rw [hear_stripShotHeader_line quiet (clean_lines clean member) plain,
    hear_plain u quiet.empty plain]

/-- The pieces of two texts, one right after the other. -/
theorem splitOnP_append {init later : List (List Char)} {before after last first : List Char}
    (left : before.splitOnP isLineBreak = init ++ [last])
    (right : after.splitOnP isLineBreak = first :: later) :
    (before ++ after).splitOnP isLineBreak = init ++ (last ++ first) :: later := by
  induction before generalizing init last with
  | nil =>
    have single : [([] : List Char)] = init ++ [last] := left
    cases init with
    | nil =>
      rw [List.nil_append, List.cons.injEq] at single
      rw [← single.1]
      exact right
    | cons line init => simp at single
  | cons c before ih =>
    by_cases isBreak : isLineBreak c = true
    · rw [splitOnP_cons_of_break isBreak] at left
      cases init with
      | nil =>
        rw [List.nil_append, List.cons.injEq] at left
        exact absurd left.2 (List.splitOnP_ne_nil _ _)
      | cons line init =>
        rw [List.cons_append, List.cons.injEq] at left
        rw [List.cons_append, splitOnP_cons_of_break isBreak, ih left.2, left.1]
        rfl
    · have plain := eq_false_of_ne_true isBreak
      obtain ⟨inits, lastOne, pieces⟩ : ∃ inits lastOne,
          before.splitOnP isLineBreak = inits ++ [lastOne] :=
        ⟨_, _, (List.dropLast_append_getLast (List.splitOnP_ne_nil _ _)).symm⟩
      rw [splitOnP_cons_of_plain plain, pieces] at left
      rw [List.cons_append, splitOnP_cons_of_plain plain, ih pieces]
      cases inits with
      | nil =>
        have single : [c :: lastOne] = init ++ [last] := left
        cases init with
        | nil =>
          rw [List.nil_append, List.cons.injEq] at single
          rw [← single.1]
          rfl
        | cons line init => simp at single
      | cons line inits =>
        have several : (c :: line) :: (inits ++ [lastOne]) = init ++ [last] := left
        rw [← List.cons_append] at several
        have parts := List.append_inj' several rfl
        rw [List.cons.injEq] at parts
        rw [← parts.1, ← parts.2.1]
        rfl

theorem splitOnP_plain_append {before after first : List Char} {later : List (List Char)}
    (plain : ∀ c ∈ before, isLineBreak c = false)
    (right : after.splitOnP isLineBreak = first :: later) :
    (before ++ after).splitOnP isLineBreak = (before ++ first) :: later :=
  @splitOnP_append [] later before after before first (List.splitOnP_eq_singleton plain) right

theorem normalized_pieces {text : List Char} (normalized : normalizeSource u text = text)
    {line : List Char} (member : line ∈ text.splitOnP isLineBreak) : normalizeSource u line = line := by
  have mapped := splitOnP_normalizeSource u text
  rw [normalized] at mapped
  exact List.map_inj_left.mp (mapped.symm.trans (List.map_id _).symm) line member

theorem mem_splitlines {text line : List Char} (member : line ∈ text.splitOnP isLineBreak)
    (something : line ≠ []) : line ∈ splitlines text := by
  have kept : line ∈ (text.splitOnP isLineBreak).filter filled :=
    List.mem_filter.mpr ⟨member, by simpa [filled] using something⟩
  rw [← splitlines_filled] at kept
  exact List.mem_of_mem_filter kept

theorem mem_of_mem_splitOnP {text line : List Char} (member : line ∈ text.splitOnP isLineBreak) :
    line ⊆ text := by
  intro c inside
  exact mem_of_mem_splitlines (mem_splitlines member (List.ne_nil_of_mem inside)) inside

theorem plain_of_mem_splitOnP {text line : List Char} (member : line ∈ text.splitOnP isLineBreak) :
    ∀ c ∈ line, isLineBreak c = false := by
  intro c inside
  exact plain_of_mem_splitlines (mem_splitlines member (List.ne_nil_of_mem inside)) c inside

theorem head_strip {text : List Char} {c : Char} (found : (strip text).head? = some c) :
    ∃ before after, text = before ++ c :: after ∧ ∀ d ∈ before, isSpace d = true := by
  obtain ⟨tail, first⟩ := List.head?_eq_some_iff.mp found
  obtain ⟨rear, split⟩ := List.rdropWhile_prefix isSpace (lstrip text)
  refine ⟨text.takeWhile isSpace, tail ++ rear, ?_, fun d member => List.mem_takeWhile_imp member⟩
  calc
    text = text.takeWhile isSpace ++ lstrip text := List.takeWhile_append_dropWhile.symm
    _ = text.takeWhile isSpace ++ (strip text ++ rear) := by rw [← split]; rfl
    _ = text.takeWhile isSpace ++ c :: (tail ++ rear) := by rw [first]; rfl

/-- A normalized line that starts with plain text up to a visible character is no utterance. -/
theorem said_of_plain_start {before after : List Char} {c : Char}
    (normalized : normalizeSource u (before ++ c :: after) = before ++ c :: after)
    (plain : ∀ d ∈ before, d ≠ '@' ∧ d ≠ '\x7b' ∧ d ≠ '\x7d') (mark : isColon c = true) :
    said u (before ++ c :: after) = none := by
  by_contra some
  have visible := colon_plain mark
  have notFirst : ∀ d, (core u (before ++ c :: after)).head? = .some d → d ∈ before ∨ d = c := by
    intro d found
    rw [core, normalized] at found
    obtain ⟨spaces, rest, split, blank⟩ := head_strip found
    rcases List.append_eq_append_iff.mp split with ⟨middle, left, right⟩ | ⟨middle, left, right⟩
    · cases middle with
      | nil =>
        rw [List.nil_append, List.cons.injEq] at right
        exact .inr right.1.symm
      | cons e middle =>
        rw [List.cons_append, List.cons.injEq] at right
        have space := blank c (by rw [left, right.1]; simp)
        rw [visible.2.2.2.1] at space
        cases space
    · cases middle with
      | nil =>
        rw [List.nil_append, List.cons.injEq] at right
        exact .inr right.1
      | cons e middle =>
        rw [List.cons_append, List.cons.injEq] at right
        exact .inl (by rw [left, right.1]; simp)
  rcases head_of_said u some with mention | brace
  · rcases notFirst _ mention with inside | same
    · exact (plain _ inside).1 rfl
    · exact visible.1 same.symm
  · rcases notFirst _ brace with inside | same
    · exact (plain _ inside).2.1 rfl
    · exact visible.2.1 same.symm

/-- Plain text that ends in a colon takes nothing from a clean text. -/
theorem hear_after_colon (quiet : Quiet f) {before body : List Char} {c : Char}
    (normalized : normalizeSource u (before ++ c :: body) = before ++ c :: body)
    (plain : ∀ d ∈ before, d ≠ '@' ∧ d ≠ '\x7b' ∧ d ≠ '\x7d') (colon : isColon c = true)
    (clean : Clean u (before ++ c :: body)) : hear u f (before ++ c :: body) = hear u f body := by
  have visible := colon_plain colon
  obtain ⟨init, last, pieces, longer⟩ := splitOnP_snoc visible.2.2.2.2 before
  obtain ⟨first, later, bodyPieces⟩ : ∃ first later, body.splitOnP isLineBreak = first :: later :=
    List.exists_cons_of_ne_nil (List.splitOnP_ne_nil _ _)
  have all := splitOnP_append longer bodyPieces
  rw [show before ++ [c] ++ body = before ++ c :: body by simp,
    show last ++ [c] ++ first = last ++ c :: first by simp] at all
  have lastPlain : ∀ d ∈ last, d ≠ '@' ∧ d ≠ '\x7b' ∧ d ≠ '\x7d' := fun d inside =>
    plain d (mem_of_mem_splitOnP (by rw [pieces]; simp) inside)
  have lineNormalized : normalizeSource u (last ++ c :: first) = last ++ c :: first :=
    normalized_pieces normalized (by rw [all]; simp)
  have silent := said_of_plain_start lineNormalized lastPlain colon
  have tidy : stray u (core u (last ++ c :: first)) = [] := by
    rw [Clean, hear, perLine_eq (core_empty u (quiet_stray u).empty), all] at clean
    exact List.flatMap_eq_nil_iff.mp clean _ (by simp)
  have lineFree := braceFree_of_stray tidy silent
  have firstFree : BraceFree first := by
    have whole := lineFree.of_core u
    rw [lineNormalized] at whole
    exact whole.mono (by simp)
  have initFree : init.flatMap (fun line => f (core u line)) = [] := by
    rw [List.flatMap_eq_nil_iff]
    intro line member
    have inside : line ⊆ before := mem_of_mem_splitOnP (by rw [pieces]; simp [member])
    have free : BraceFree line :=
      ⟨fun opened => (plain _ (inside opened)).2.1 rfl, fun closed => (plain _ (inside closed)).2.2 rfl⟩
    exact quiet _ (free.core u)
  rw [hear, hear, perLine_eq (core_empty u quiet.empty), perLine_eq (core_empty u quiet.empty), all,
    bodyPieces, List.flatMap_append, List.flatMap_cons, List.flatMap_cons, initFree, quiet _ lineFree,
    quiet _ (firstFree.core u), List.nil_append]

theorem Clean.normalizeSource {text : List Char} (clean : Clean u text) :
    Clean u (normalizeSource u text) := by
  rw [Clean, hear_normalizeSource u (quiet_stray u).empty]
  exact clean

/-- The first part of a clean shot is heard the same without its header. -/
theorem hear_stripShotHeader (quiet : Quiet f) {text : List Char} (clean : Clean u text) :
    hear u f (stripShotHeader u text) = hear u f text := by
  unfold stripShotHeader
  dsimp only
  cases header : shotHeader? u (Mention.normalizeSource u text) with
  | none => rw [Option.getD_none, hear_normalizeSource u quiet.empty]
  | some rest =>
    obtain ⟨body, before, c, split, same, colon, plain⟩ := header_split header
    have cleanCore : Clean u (core u text) := by
      rw [core, Clean, hear_strip u (quiet_stray u).empty]
      exact clean.normalizeSource
    rw [Option.getD_some, same, hear_lstrip u quiet.empty]
    calc
      hear u f body = hear u f (core u text) := by
        rw [split] at cleanCore ⊢
        apply (hear_after_colon quiet _ _ colon cleanCore).symm
        · rw [← split, normalizeSource_core]
        · intro d member
          cases List.mem_cons.mp member with
          | inl same =>
            rw [same]
            decide
          | inr inside => exact plain d inside
      _ = hear u f text := by rw [core, hear_strip u quiet.empty, hear_normalizeSource u quiet.empty]

theorem Clean.stripShotHeader {text : List Char} (clean : Clean u text) :
    Clean u (stripShotHeader u text) := by
  rw [Clean, hear_stripShotHeader (quiet_stray u) clean]
  exact clean

theorem digit_numeral {n : Nat} {c : Char} (member : c ∈ numeral n) : c.isDigit = true := by
  apply Nat.isDigit_of_mem_toDigits (b := 10) (n := n) (by decide) (by decide)
  simpa [numeral, Nat.toString_eq_repr, Nat.repr] using member

theorem numeral_ne_nil (n : Nat) : numeral n ≠ [] := by
  have digits : numeral n = Nat.toDigits 10 n := by simp [numeral, Nat.toString_eq_repr, Nat.repr]
  rw [digits]
  exact Nat.toDigits_ne_nil

/-- A digit of a position is no whitespace, no mark and no brace. -/
theorem plain_digit (u : Unicode) {c : Char} (digit : c.isDigit = true) :
    isSpace c = false ∧ u.decimal c = true ∧ c ≠ bom ∧ c ≠ '\x7b' ∧ c ≠ '\x7d' := by
  have decimal := u.decimal_digit c digit
  have plain := u.decimal_plain c decimal
  refine ⟨(u.decimal_ne c decimal).1, decimal, ?_, plain.1, plain.2.1⟩
  intro same
  rw [same] at digit
  revert digit
  decide

theorem space_of_break {c : Char} (isBreak : isLineBreak c = true) : isSpace c = true := by
  simp only [isLineBreak, isSpace, Bool.or_eq_true, Bool.and_eq_true, decide_eq_true_eq,
    beq_iff_eq] at isBreak ⊢
  omega

theorem plain_of_visible {c : Char} (visible : isSpace c = false) : isLineBreak c = false := by
  by_contra isBreak
  rw [space_of_break (eq_true_of_ne_false isBreak)] at visible
  cases visible

/-- The generated header of a shot. -/
def shotHead (n : Nat) : List Char := "镜头".toList ++ numeral n ++ ['：']

theorem shotHead_append (n : Nat) (rest : List Char) :
    shotHead n ++ rest = '镜' :: '头' :: (numeral n ++ '：' :: rest) := by
  unfold shotHead
  generalize numeral n = digits
  simp

theorem mem_shotHead {n : Nat} {c : Char} (member : c ∈ shotHead n) :
    isSpace c = false ∧ c ≠ bom ∧ c ≠ '\x7b' ∧ c ≠ '\x7d' := by
  have parts := shotHead_append n []
  rw [List.append_nil] at parts
  rw [parts] at member
  rcases List.mem_cons.mp member with same | member
  · rw [same]
    decide
  · rcases List.mem_cons.mp member with same | member
    · rw [same]
      decide
    · rcases List.mem_append.mp member with digit | colon
      · have plain := plain_digit plainUnicode (digit_numeral digit)
        exact ⟨plain.1, plain.2.2⟩
      · rw [List.mem_singleton.mp colon]
        decide

theorem normalizeSource_shotHead (n : Nat) (rest : List Char) :
    normalizeSource u (shotHead n ++ rest) = shotHead n ++ normalizeSource u rest := by
  unfold normalizeSource
  have kept : (shotHead n).filter (· ≠ bom) = shotHead n :=
    List.filter_eq_self.mpr fun c member => by simpa using (mem_shotHead member).2.1
  rw [List.filter_append, kept, shotHead_append, shotHead_append,
    u.nfc_header _ _ fun c member => digit_numeral member]

theorem strip_shotHead (n : Nat) (rest : List Char) :
    strip (shotHead n ++ rest) = shotHead n ++ rest.rdropWhile isSpace := by
  have front : lstrip (shotHead n ++ rest) = shotHead n ++ rest := by
    rw [lstrip, shotHead_append, List.dropWhile_cons_of_neg (by decide)]
  rw [strip, front]
  induction rest using List.reverseRecOn with
  | nil =>
    rw [List.append_nil, List.rdropWhile_nil, List.append_nil, shotHead,
      List.rdropWhile_concat_neg _ _ _ (by decide)]
  | append_singleton rest c ih =>
    rw [← List.append_assoc]
    by_cases space : isSpace c = true
    · rw [List.rdropWhile_concat_pos _ _ _ space, List.rdropWhile_concat_pos _ _ _ space]
      apply ih
      rw [lstrip, shotHead_append, List.dropWhile_cons_of_neg (by decide)]
    · rw [List.rdropWhile_concat_neg _ _ _ space, List.rdropWhile_concat_neg _ _ _ space,
        List.append_assoc]

theorem headerBody_shotHead (n : Nat) (rest : List Char) :
    headerBody isSpace u.decimal (shotHead n ++ rest) = some rest := by
  rw [shotHead_append, headerBody]
  have digits : ∀ c ∈ numeral n, u.decimal c = true := fun c member =>
    (plain_digit u (digit_numeral member)).2.1
  have colon : u.decimal '：' = false := (@colon_apart u '：' (by decide)).2
  have start : (numeral n ++ '：' :: rest).dropWhile isSpace = numeral n ++ '：' :: rest := by
    have filledDigits := numeral_ne_nil n
    cases number : numeral n with
    | nil => exact absurd number filledDigits
    | cons d later =>
      have visible := (plain_digit u (digit_numeral (n := n) (c := d) (by simp [number]))).1
      rw [List.cons_append, List.dropWhile_cons_of_neg (by simp [visible])]
  have taken : (numeral n ++ '：' :: rest).takeWhile u.decimal = numeral n := by
    rw [List.takeWhile_append_of_pos digits, List.takeWhile_cons_of_neg (by simp [colon]),
      List.append_nil]
  have dropped : (numeral n ++ '：' :: rest).dropWhile u.decimal = '：' :: rest := by
    rw [List.dropWhile_append_of_pos digits, List.dropWhile_cons_of_neg (by simp [colon])]
  rw [afterNumber, start, taken, dropped, if_neg (numeral_ne_nil n),
    List.dropWhile_cons_of_neg (by decide)]
  rfl

theorem hear_shotHead_line (empty : f [] = []) (n : Nat) {line : List Char}
    (plain : ∀ c ∈ line, isLineBreak c = false) :
    hear u f (stripShotHeader u (shotHead n ++ line)) = hear u f line := by
  have noBreak : '\n' ∉ (normalizeSource u line).rdropWhile isSpace := fun member =>
    absurd (plain_normalizeSource u plain _ ((List.rdropWhile_prefix isSpace _).subset member))
      (by decide)
  unfold stripShotHeader
  dsimp only
  rw [normalizeSource_shotHead, shotHeader?_eq, strip_shotHead, headerBody_shotHead, Option.filter,
    if_pos (by simpa using noBreak), Option.map_some, Option.getD_some, hear_lstrip u empty,
    hear_rstrip u empty, hear_normalizeSource u empty]

/-- A clean text behind a generated header is heard as it is. -/
theorem execute_shotHead (quiet : Quiet f) (n : Nat) {text : List Char} (clean : Clean u text) :
    execute u f (shotHead n ++ text) = hear u f text := by
  obtain ⟨first, later, pieces⟩ : ∃ first later, text.splitOnP isLineBreak = first :: later :=
    List.exists_cons_of_ne_nil (List.splitOnP_ne_nil _ _)
  have headPlain : ∀ c ∈ shotHead n, isLineBreak c = false := fun c member =>
    plain_of_visible (mem_shotHead member).1
  have firstPlain := @plain_of_mem_splitOnP text first (by rw [pieces]; simp)
  have tidy : stray u (core u first) = [] := by
    rw [Clean, hear, perLine_eq (core_empty u (quiet_stray u).empty), pieces] at clean
    exact List.flatMap_eq_nil_iff.mp clean _ (by simp)
  rw [← execute_clean quiet clean, execute, execute, perLine_eq execute_empty,
    perLine_eq execute_empty, splitOnP_plain_append headPlain pieces, pieces, List.flatMap_cons,
    List.flatMap_cons, hear_shotHead_line quiet.empty n firstPlain,
    hear_stripShotHeader_line quiet tidy firstPlain]

theorem splitNewlines_ne_nil (text : List Char) : splitNewlines text ≠ [] := by
  cases text with
  | nil => decide
  | cons c text =>
    rw [splitNewlines]
    split
    · simp
    · cases splitNewlines text with
      | nil => simp [consLine]
      | cons first later => simp [consLine]

theorem joinLines_splitNewlines (text : List Char) : joinLines (splitNewlines text) = text := by
  induction text with
  | nil => rfl
  | cons c text ih =>
    rw [splitNewlines]
    cases pieces : splitNewlines text with
    | nil => exact absurd pieces (splitNewlines_ne_nil text)
    | cons first later =>
      rw [pieces] at ih
      split
      · next same =>
        rw [same, ← ih]
        simp [joinLines, List.intercalate_cons_cons]
      · rw [← ih]
        cases later with
        | nil => simp [joinLines, consLine]
        | cons next later => simp [joinLines, consLine, List.intercalate_cons_cons]

theorem append_joinLines (before first : List Char) (later : List (List Char)) :
    before ++ joinLines (first :: later) = joinLines ((before ++ first) :: later) := by
  cases later with
  | nil => simp [joinLines]
  | cons next later => simp [joinLines, List.intercalate_cons_cons]

theorem execute_joinLines (lines : List (List Char)) :
    execute u f (joinLines lines) = lines.flatMap (execute u f) :=
  perLine_joinLines execute_empty lines

theorem clean_joinLines {lines : List (List Char)} (clean : Clean u (joinLines lines)) :
    ∀ line ∈ lines, Clean u line := by
  rw [Clean, hear_joinLines u (quiet_stray u).empty] at clean
  exact fun line member => List.flatMap_eq_nil_iff.mp clean line member

/-- A shot behind its generated header, without a header of its own. -/
theorem execute_part (quiet : Quiet f) (n : Nat) {text first : List Char} {later : List (List Char)}
    (split : splitNewlines text = first :: later) (clean : Clean u text) :
    execute u f (shotHead n ++ joinLines (stripShotHeader u first :: later)) = hear u f text := by
  have whole := joinLines_splitNewlines text
  rw [split] at whole
  rw [← whole] at clean ⊢
  have lines := clean_joinLines clean
  have firstClean := lines first List.mem_cons_self
  rw [append_joinLines, execute_joinLines, hear_joinLines u quiet.empty, List.flatMap_cons,
    List.flatMap_cons, execute_shotHead quiet n firstClean.stripShotHeader,
    hear_stripShotHeader quiet firstClean]
  apply (List.append_right_inj _).mpr
  apply List.flatMap_congr
  intro line member
  exact execute_clean quiet (lines line (List.mem_cons_of_mem _ member))

/-- The text of one shot in an assembled text. -/
def renderedShot (u : Unicode) (shot : Nat × Json) : Option (List Char) :=
  if shot.2.isObj then
    let lines := match splitNewlines (shotText shot.2) with
      | first :: rest => stripShotHeader u first :: rest
      | [] => []
    some (shotHead shot.1 ++ joinLines lines)
  else none

/-- The shots that execution parses are heard as the shots of the unit are. -/
theorem hear_assembled (quiet : Quiet f) {shots : List Json}
    (objects : ∀ shot ∈ shots, shot.isObj = true) (clean : ∀ shot ∈ shots, Clean u (shotText shot)) :
    (parsePrompt u (assembleShotsTextForRender u shots)).1.flatMap (hear u f) =
      shots.flatMap fun shot => hear u f (shotText shot) := by
  have parts : ∀ (shots : List Json) (start : Nat), (∀ shot ∈ shots, shot.isObj = true) →
      (∀ shot ∈ shots, Clean u (shotText shot)) →
      (((List.range' start shots.length).zip shots).filterMap (renderedShot u)).flatMap (execute u f) =
        shots.flatMap fun shot => hear u f (shotText shot) := by
    intro shots
    induction shots with
    | nil => intros; rfl
    | cons shot shots ih =>
      intro start objects clean
      have object := objects shot List.mem_cons_self
      have shotClean := clean shot List.mem_cons_self
      rw [List.length_cons, List.range'_succ, List.zip_cons_cons, List.filterMap_cons_some
        (by rw [renderedShot, if_pos object]), List.flatMap_cons, List.flatMap_cons,
        ih (start + 1) (fun other member => objects other (List.mem_cons_of_mem _ member))
          fun other member => clean other (List.mem_cons_of_mem _ member)]
      apply (List.append_left_inj _).mpr
      cases split : splitNewlines (shotText shot) with
      | nil => exact absurd split (splitNewlines_ne_nil _)
      | cons first later => exact execute_part quiet start split shotClean
  rw [execute_parsePrompt quiet.empty, assembleShotsTextForRender, execute_joinLines]
  exact parts shots 1 objects clean

end ArcReel.Speech
