import Mathlib
import ArcReel.Speech.Spoken

/-! The lines of the second segment of a prompt in which someone speaks. -/

namespace ArcReel.Speech
open Lib PyText Mention Prompt

/-- Membership in lists of texts is decided with one proof here. -/
local instance lawfulShown : LawfulBEq (List Char) := inferInstance

section Inversion

theorem unwrapBraces_split {text spoken : List Char} (found : unwrapBraces text = some spoken) :
    ∃ before after, text = before ++ '\x7b' :: (spoken ++ '\x7d' :: after) ∧
      (∀ c ∈ before, isSpace c = true) ∧ BraceFree spoken ∧ ∀ c ∈ after, isSpace c = true := by
  unfold unwrapBraces at found
  dsimp only at found
  split at found
  · cases found
  · next outer =>
    split at found
    · cases found
    · next inner =>
      simp only [Bool.or_eq_true, not_or, bne_iff_ne, ne_eq, not_not, decide_eq_true_eq] at outer
      obtain ⟨⟨long, first⟩, last⟩ := outer
      obtain ⟨tail, split⟩ := List.head?_eq_some_iff.mp first
      rw [split] at found inner last long
      rw [Option.some.injEq, List.tail_cons] at found
      rw [List.tail_cons, found] at inner
      have whole : tail = spoken ++ ['\x7d'] := by
        have nonempty : tail ≠ [] := by
          intro none
          rw [none] at long
          simp at long
        rw [← found, ← List.dropLast_append_getLast nonempty]
        congr 1
        · simp
        · rw [List.getLast?_cons_of_ne_nil nonempty, List.getLast?_eq_some_getLast nonempty,
            Option.some.injEq] at last
          simp [last]
      obtain ⟨before, after, parts, front, rear⟩ := strip_split text
      refine ⟨before, after, ?_, front, ?_, rear⟩
      · rw [split, whole] at parts
        simpa using parts
      · simp only [Bool.or_eq_true, not_or, List.contains_iff_mem] at inner
        exact ⟨inner.1.1, inner.1.2⟩

theorem start_of_iterFrom {previous : Option Char} {position skip : Nat} {text : List Char}
    {mention : MentionSpan} (member : mention ∈ iterFrom previous position skip text) :
    position ≤ mention.start := by
  induction text generalizing previous position skip with
  | nil =>
    rw [iterFrom] at member
    cases member
  | cons c text ih =>
    cases skip with
    | succ skip =>
      rw [iterFrom] at member
      exact (Nat.le_succ position).trans (ih member)
    | zero =>
      rw [iterFrom] at member
      split at member
      · rcases List.mem_cons.mp member with same | later
        · rw [same]
        · exact (Nat.le_succ position).trans (ih later)
      · exact (Nat.le_succ position).trans (ih member)

/-- A text that starts with a mention. -/
theorem mentionAt_of_head {tail : List Char} {first : MentionSpan}
    (found : (iterMentions ('@' :: tail)).head? = some first) (start : first.start = 0) :
    mentionAt tail = some (first.stop - 1, first.name) ∧ first.stop ≠ 0 := by
  rw [iterMentions, iterFrom, if_pos ⟨rfl, rfl⟩] at found
  cases mention : mentionAt tail with
  | none =>
    simp only [mention] at found
    have later := start_of_iterFrom (List.mem_of_mem_head? found)
    omega
  | some pair =>
    simp only [mention, List.head?_cons, Option.some.injEq] at found
    rw [← found]
    constructor
    · simp
    · simp

theorem mentionAt_legacy {c : Char} (plain : c ≠ '[') (text : List Char) :
    mentionAt (c :: text) = if (c :: text).takeWhile isLegacyMentionChar ≠ [] then
      some (((c :: text).takeWhile isLegacyMentionChar).length,
        (c :: text).takeWhile isLegacyMentionChar) else none := by
  unfold mentionAt
  split
  · next inner same =>
    rw [List.cons.injEq] at same
    exact absurd same.1 plain
  · rfl

/-- A mention that ends within the text is the same however the text goes on. -/
theorem mentionAt_append {text after name : List Char} {length : Nat}
    (found : mentionAt text = some (length, name)) (inside : length < text.length) :
    mentionAt (text ++ after) = some (length, name) ∧ name ⊆ text := by
  cases text with
  | nil => simp at inside
  | cons c text =>
    rw [List.cons_append]
    by_cases bracket : c = '['
    · subst bracket
      unfold mentionAt at found ⊢
      simp only at found ⊢
      split_ifs at found with closed
      rw [Option.some.injEq, Prod.mk.injEq] at found
      have taken : (text ++ after).takeWhile (fun d => decide (d ≠ ']')) =
          text.takeWhile fun d => decide (d ≠ ']') := by
        rw [List.takeWhile_append, if_neg]
        omega
      rw [taken, if_pos ⟨closed.1, by rw [List.length_append]; omega, closed.2.2⟩, found.1, found.2]
      refine ⟨rfl, fun d member => ?_⟩
      rw [← found.2] at member
      exact List.mem_cons_of_mem _ (List.takeWhile_subset _ member)
    · rw [mentionAt_legacy bracket] at found ⊢
      split_ifs at found with some
      rw [Option.some.injEq, Prod.mk.injEq] at found
      have taken : (c :: (text ++ after)).takeWhile isLegacyMentionChar =
          (c :: text).takeWhile isLegacyMentionChar := by
        rw [← List.cons_append, List.takeWhile_append, if_neg]
        omega
      rw [taken, if_pos some, found.1, found.2]
      refine ⟨rfl, fun d member => ?_⟩
      rw [← found.2] at member
      exact List.takeWhile_subset _ member

/-- A dialogue line: a mention, a colon and the words in braces, with nothing but whitespace
between them. -/
theorem matchDialogueLine_split {u : Unicode} {line speaker spoken : List Char}
    (found : matchDialogueLine u line = some (speaker, spoken)) :
    ∃ tail length name before c between after, core u line = '@' :: tail ∧
      mentionAt tail = some (length, name) ∧ speaker = assetNameComparisonKey u name ∧
      tail.drop length = before ++ c :: (between ++ '\x7b' :: (spoken ++ '\x7d' :: after)) ∧
      isColon c = true ∧ (∀ d ∈ before, isSpace d = true) ∧ (∀ d ∈ between, isSpace d = true) ∧
      BraceFree spoken ∧ ∀ d ∈ after, isSpace d = true := by
  unfold matchDialogueLine at found
  rw [show strip (normalizeSource u line) = core u line from rfl] at found
  dsimp only at found
  split at found
  · cases found
  · next atSign =>
    split at found
    · cases found
    · next first head =>
      split at found
      · cases found
      · next start =>
        split at found
        · cases found
        · next colon =>
          split at found
          · cases found
          · next text braces =>
            split at found
            · cases found
            · rw [Option.some.injEq, Prod.mk.injEq] at found
              have mark : (core u line).head? = some '@' := by simpa using atSign
              obtain ⟨tail, split⟩ := List.head?_eq_some_iff.mp mark
              rw [split] at head
              have mention := mentionAt_of_head head (by simpa using start)
              obtain ⟨between, after, parts, spaces, free, rear⟩ := unwrapBraces_split braces
              have rest : lstrip (tail.drop (first.stop - 1)) =
                  lstrip ((core u line).drop first.stop) := by
                rw [split]
                conv_rhs => rw [show first.stop = first.stop - 1 + 1 by omega, List.drop_succ_cons]
              cases behind : lstrip ((core u line).drop first.stop) with
              | nil =>
                rw [behind] at colon
                simp at colon
              | cons c body =>
                rw [behind] at colon parts
                refine ⟨tail, _, _, (tail.drop (first.stop - 1)).takeWhile isSpace, c, between, after,
                  split, mention.1, found.1.symm, ?_, by simpa using colon,
                  fun d member => List.mem_takeWhile_imp member, spaces, ?_, rear⟩
                · rw [← found.2, ← parts, List.tail_cons, ← behind, ← rest]
                  exact List.takeWhile_append_dropWhile.symm
                · rw [← found.2]
                  exact free

end Inversion

section Subjects

variable (u : Unicode) (names : List (List Char))

/-- A mention as it is rendered; `raw` is how it is written. -/
def shown (raw name : List Char) : List Char :=
  if assetNameComparisonKey u name ∈ names.map (assetNameComparisonKey u) then
    ['<'] ++ assetNameComparisonKey u name ++ ['>'] else raw

/-- The rendering of the mentions as one pass over the text. -/
def substitute (previous : Option Char) : Nat → List Char → List Char
  | _, [] => []
  | skip + 1, c :: rest => substitute (some c) skip rest
  | 0, c :: rest =>
      match if c = '@' ∧ previous.any isAsciiWordChar = false then mentionAt rest else none with
      | some (length, name) =>
        shown u names (c :: rest.take length) name ++ substitute (some c) length rest
      | none => c :: substitute (some c) 0 rest

theorem go_eq_substitute (text : List Char) (previous : Option Char) (last position skip : Nat)
    (suffix : List Char) (rest : text.drop position = suffix)
    (place : (skip = 0 ∧ last ≤ position) ∨ last = position + skip) :
    renderMentionsAsSubjects.go u names text last (iterFrom previous position skip suffix) =
      (text.take position).drop last ++ substitute u names previous skip suffix := by
  induction suffix generalizing previous last position skip with
  | nil =>
    have short : text.length ≤ position := List.drop_eq_nil_iff.mp rest
    rw [iterFrom, renderMentionsAsSubjects.go, substitute, List.take_of_length_le short,
      List.append_nil]
  | cons c suffix ih =>
    have next : text.drop (position + 1) = suffix := by
      rw [← List.drop_drop, rest]
      rfl
    have inside : position < text.length := by
      by_contra beyond
      rw [List.drop_of_length_le (by omega)] at rest
      cases rest
    have here : text.take (position + 1) = text.take position ++ [c] := by
      have same : text[position]? = some c := by
        rw [← List.head?_drop, rest]
        rfl
      rw [List.take_add_one, same]
      rfl
    cases skip with
    | succ skip =>
      rw [iterFrom, substitute, ih _ _ _ _ next (.inr (by omega)),
        List.drop_of_length_le (by rw [List.length_take]; omega),
        List.drop_of_length_le (by rw [List.length_take]; omega)]
    | zero =>
      have before : last ≤ position := by omega
      rw [iterFrom, substitute]
      generalize (if c = '@' ∧ previous.any isAsciiWordChar = false then mentionAt suffix
        else none) = found
      cases found with
      | some pair =>
        have raw : (text.take (position + 1 + pair.1)).drop position = c :: suffix.take pair.1 := by
          rw [List.drop_take, rest, show position + 1 + pair.1 - position = pair.1 + 1 by omega,
            List.take_succ_cons]
        change (text.take position).drop last ++
          shown u names ((text.take (position + 1 + pair.1)).drop position) pair.2 ++
            renderMentionsAsSubjects.go u names text (position + 1 + pair.1)
              (iterFrom (some c) (position + 1) pair.1 suffix) =
          (text.take position).drop last ++
            (shown u names (c :: suffix.take pair.1) pair.2 ++
              substitute u names (some c) pair.1 suffix)
        rw [ih _ _ _ _ next (.inr rfl), raw,
          List.drop_of_length_le (l := text.take (position + 1)) (by rw [List.length_take]; omega),
          List.nil_append, List.append_assoc]
      | none =>
        change renderMentionsAsSubjects.go u names text last
            (iterFrom (some c) (position + 1) 0 suffix) =
          (text.take position).drop last ++ c :: substitute u names (some c) 0 suffix
        rw [ih _ _ _ _ next (.inl ⟨rfl, by omega⟩), here, List.drop_append_of_le_length,
          List.append_assoc]
        · rfl
        · rw [List.length_take]
          omega

theorem renderMentionsAsSubjects_eq (text : List Char) :
    renderMentionsAsSubjects u names text = substitute u names none 0 (normalizeSource u text) :=
  go_eq_substitute u names _ none 0 0 0 _ rfl (.inl ⟨rfl, le_rfl⟩)

theorem name_of_mentionAt {text name : List Char} {length : Nat}
    (found : mentionAt text = some (length, name)) : name ⊆ text := by
  unfold mentionAt at found
  split at found
  · next inner =>
    dsimp only at found
    split_ifs at found
    rw [Option.some.injEq, Prod.mk.injEq] at found
    rw [← found.2]
    exact fun d member => List.mem_cons_of_mem _ (List.takeWhile_subset _ member)
  · dsimp only at found
    split_ifs at found
    rw [Option.some.injEq, Prod.mk.injEq] at found
    rw [← found.2]
    exact List.takeWhile_subset _

/-- A line break or a brace in a compared name is in the name. -/
theorem mem_of_mem_key {c : Char} (mark : isLineBreak c = true ∨ c = '\x7b' ∨ c = '\x7d')
    {name : List Char} (member : c ∈ assetNameComparisonKey u name) : c ∈ name := by
  apply mem_of_mem_strip
  apply u.mem_of_mem_nfc c _ _ member
  rcases mark with isBreak | opened | closed
  · exact .inl isBreak
  · exact .inr (.inr (.inl opened))
  · exact .inr (.inr (.inr closed))

/-- Line breaks and braces of a rendering are those of the text. -/
theorem mem_of_mem_substitute {c : Char} (mark : isLineBreak c = true ∨ c = '\x7b' ∨ c = '\x7d')
    {previous : Option Char} {skip : Nat} {text : List Char}
    (member : c ∈ substitute u names previous skip text) : c ∈ text := by
  induction text generalizing previous skip with
  | nil =>
    rw [substitute] at member
    exact member
  | cons d text ih =>
    cases skip with
    | succ skip =>
      rw [substitute] at member
      exact List.mem_cons_of_mem _ (ih member)
    | zero =>
      rw [substitute] at member
      split at member
      · next length name found =>
        split_ifs at found
        rcases List.mem_append.mp member with inside | later
        · rw [shown] at inside
          split_ifs at inside
          · have notMark : ∀ bracket : Char, bracket = '<' ∨ bracket = '>' → c ≠ bracket := by
              rintro bracket either rfl
              rcases either with rfl | rfl <;> revert mark <;> decide
            simp only [List.mem_append, List.mem_singleton] at inside
            rcases inside with (opening | inside) | closing
            · exact absurd opening (notMark _ (.inl rfl))
            · exact List.mem_cons_of_mem _ (name_of_mentionAt found (mem_of_mem_key u mark inside))
            · exact absurd closing (notMark _ (.inr rfl))
          · exact List.cons_subset_cons d (List.take_subset _ _) inside
        · exact List.mem_cons_of_mem _ (ih later)
      · rcases List.mem_cons.mp member with same | later
        · rw [same]
          exact List.mem_cons_self
        · exact List.mem_cons_of_mem _ (ih later)

/-- Text without mentions goes through as it is. -/
theorem substitute_plain (previous : Option Char) {before : List Char} (plain : '@' ∉ before)
    (rest : List Char) : ∃ last, (last = previous ∨ ∃ c ∈ before, last = some c) ∧
      substitute u names previous 0 (before ++ rest) = before ++ substitute u names last 0 rest := by
  induction before generalizing previous with
  | nil => exact ⟨previous, .inl rfl, rfl⟩
  | cons c before ih =>
    rw [List.mem_cons, not_or] at plain
    obtain ⟨last, origin, same⟩ := ih (some c) plain.2
    refine ⟨last, .inr ?_, ?_⟩
    · rcases origin with here | ⟨d, member, later⟩
      · exact ⟨c, List.mem_cons_self, here⟩
      · exact ⟨d, List.mem_cons_of_mem _ member, later⟩
    · rw [List.cons_append, substitute, if_neg fun found => plain.1 found.1.symm, same]
      rfl

theorem substitute_skip (previous : Option Char) (skip : Nat) (text : List Char) :
    ∃ last, substitute u names previous skip text = substitute u names last 0 (text.drop skip) := by
  induction skip generalizing previous text with
  | zero => exact ⟨previous, rfl⟩
  | succ skip ih =>
    cases text with
    | nil => exact ⟨previous, rfl⟩
    | cons c text =>
      rw [substitute, List.drop_succ_cons]
      exact ih (some c) text

end Subjects

section Speaking

/-- `who说 {text}`. -/
def spokenLine (who text : List Char) : List Char := who ++ "说 \x7b".toList ++ text ++ ['\x7d']

/-- Someone speaks in the line. -/
def SpokenForm (line : List Char) : Prop := ∃ who text, BraceFree text ∧ line = spokenLine who text

/-- The line of an utterance; a speaker who is not registered has none. -/
def utteranceLine (characters : Dict (List Char) Json) : Utterance → Option (List Char)
  | .dialogue speaker text =>
    if (characters.get? speaker).isSome then some (spokenLine (['<'] ++ speaker ++ ['>']) text) else none
  | .voiceover text => some (spokenLine "画外音".toList text)

open Classical in
/-- The line itself, if someone speaks in it. -/
noncomputable def spokenOf (line : List Char) : List (List Char) := if SpokenForm line then [line] else []

theorem brace_of_spokenForm {line : List Char} (spoken : SpokenForm line) : '\x7d' ∈ line := by
  obtain ⟨who, text, _, same⟩ := spoken
  rw [same, spokenLine]
  simp

theorem spokenOf_braceFree {line : List Char} (free : '\x7d' ∉ line) : spokenOf line = [] := by
  rw [spokenOf, if_neg fun spoken => free (brace_of_spokenForm spoken)]

theorem spokenOf_nil : spokenOf [] = [] := spokenOf_braceFree (by simp)

theorem perLine_spokenOf_free {text : List Char} (free : '\x7d' ∉ text) : perLine spokenOf text = [] := by
  rw [perLine, List.flatMap_eq_nil_iff]
  intro line member
  exact spokenOf_braceFree fun closed => free (mem_of_mem_splitlines member closed)

theorem perLine_spokenLine {who text : List Char} (free : BraceFree text)
    (plain : ∀ c ∈ who ++ text, isLineBreak c = false) :
    perLine spokenOf (spokenLine who text) = [spokenLine who text] := by
  rw [perLine_plain spokenOf_nil, spokenOf, if_pos ⟨who, text, free, rfl⟩]
  intro c member
  simp only [spokenLine, List.mem_append, List.mem_singleton] at member
  rcases member with ((who | mark) | text) | closing
  · exact plain c (List.mem_append_left _ who)
  · have marks : c = '说' ∨ c = ' ' ∨ c = '\x7b' := by simpa using mark
    rcases marks with same | same | same <;> rw [same] <;> decide
  · exact plain c (List.mem_append_right _ text)
  · rw [closing]
    decide

/-- Before the last opening brace of a spoken line stands `说 `. -/
theorem not_spokenForm {before spaces after : List Char} {c : Char} (colon : isColon c = true)
    (blank : ∀ d ∈ spaces, isSpace d = true) (last : '\x7b' ∉ after) :
    ¬SpokenForm (before ++ c :: (spaces ++ '\x7b' :: after)) := by
  rintro ⟨who, text, free, same⟩
  have lastText : '\x7b' ∉ text ++ ['\x7d'] := by
    simpa using free.1
  have parts : (before ++ c :: spaces) ++ '\x7b' :: after =
      (who ++ ['说', ' ']) ++ '\x7b' :: (text ++ ['\x7d']) := by
    have shape := same
    rw [spokenLine, show "说 \x7b".toList = ['说', ' ', '\x7b'] by decide] at shape
    simpa using shape
  have left : before ++ c :: spaces = who ++ ['说', ' '] := by
    rcases List.append_eq_append_iff.mp parts with ⟨middle, first, second⟩ | ⟨middle, first, second⟩
    · cases middle with
      | nil => simpa using first.symm
      | cons d middle =>
        rw [List.cons_append, List.cons.injEq] at second
        exact absurd (by rw [second.2]; simp) last
    · cases middle with
      | nil => simpa using first
      | cons d middle =>
        rw [List.cons_append, List.cons.injEq] at second
        exact absurd (by rw [second.2]; simp) lastText
  have visible := colon_plain colon
  rcases List.eq_nil_or_concat spaces with none | ⟨front, d, snoc⟩
  · rw [none, show who ++ ['说', ' '] = (who ++ ['说']) ++ [' '] by simp] at left
    have tails := (List.append_inj' left rfl).2
    rw [List.cons.injEq] at tails
    rw [tails.1] at colon
    revert colon
    decide
  · rw [snoc, List.concat_eq_append, show before ++ c :: (front ++ [d]) = (before ++ c :: front) ++ [d] by simp,
      show who ++ ['说', ' '] = (who ++ ['说']) ++ [' '] by simp] at left
    have rest := (List.append_inj' left rfl).1
    have inside : '说' ∈ c :: front := by
      rcases List.eq_nil_or_concat front with none | ⟨first, e, more⟩
      · rw [none] at rest ⊢
        have tails := (List.append_inj' rest rfl).2
        rw [tails]
        simp
      · rw [more, List.concat_eq_append,
          show before ++ c :: (first ++ [e]) = (before ++ c :: first) ++ [e] by simp] at rest
        have tails := (List.append_inj' rest rfl).2
        rw [List.cons.injEq] at tails
        rw [more, ← tails.1]
        simp
    rcases List.mem_cons.mp inside with same | space
    · rw [← same] at colon
      revert colon
      decide
    · have blankMark := blank '说' (by rw [snoc]; simp [space])
      revert blankMark
      decide

theorem range_of_word {c : Char} (word : isAsciiWordChar c = true) : 48 ≤ c.toNat ∧ c.toNat ≤ 122 := by
  simp only [isAsciiWordChar, Char.isAlphanum, Char.isAlpha, Char.isUpper, Char.isLower, Char.isDigit,
    Bool.or_eq_true, Bool.and_eq_true, decide_eq_true_eq, beq_iff_eq, ge_iff_le,
    UInt32.le_iff_toNat_le] at word
  rcases word with same | (⟨low, high⟩ | ⟨low, high⟩) | ⟨low, high⟩
  · rw [same]
    decide
  · exact ⟨le_trans (by decide) low, le_trans high (by decide)⟩
  · exact ⟨le_trans (by decide) low, le_trans high (by decide)⟩
  · exact ⟨le_trans (by decide) low, le_trans high (by decide)⟩

theorem not_word_of_space {c : Char} (space : isSpace c = true) : isAsciiWordChar c = false := by
  by_contra word
  have range := range_of_word (eq_true_of_ne_false word)
  simp only [isSpace, Bool.or_eq_true, Bool.and_eq_true, decide_eq_true_eq, beq_iff_eq] at space
  omega
variable {u : Unicode} {subjects : List (List Char)} {characters : Dict (List Char) Json}

theorem head_of_voiceover {line text : List Char} (found : matchVoiceoverLine u line = some text) :
    (core u line).head? = some '\x7b' := by
  unfold matchVoiceoverLine unwrapBraces at found
  rw [show strip (normalizeSource u line) = core u line from rfl] at found
  by_contra other
  rw [if_pos (by simp [other])] at found
  cases found

theorem mem_of_mem_core {line : List Char} (normalized : Normalized u line) :
    core u line ⊆ line := by
  rw [core_of_normalized u normalized]
  exact fun c member => mem_of_mem_strip member

/-- A dialogue line whose mentions are rendered is no spoken line. -/
theorem not_spoken_of_dialogue {line speaker text : List Char} (normalized : Normalized u line)
    (found : matchDialogueLine u line = some (speaker, text)) :
    ¬SpokenForm (substitute u subjects none 0 line) := by
  obtain ⟨tail, length, name, before, c, between, after, split, mention, _, rest, colon, front,
    spaces, free, rear⟩ := matchDialogueLine_split found
  obtain ⟨lead, trail, whole, leadBlank, trailBlank⟩ := strip_split line
  rw [← core_of_normalized u normalized, split] at whole
  have noMark : ∀ {blanks : List Char}, (∀ d ∈ blanks, isSpace d = true) → '@' ∉ blanks := by
    intro blanks blank member
    exact absurd (blank _ member) (by decide)
  have inside : length < tail.length := by
    by_contra beyond
    rw [List.drop_of_length_le (by omega)] at rest
    simp at rest
  have line_eq : line = lead ++ '@' :: (tail ++ trail) := by
    rw [whole]
    simp
  obtain ⟨previous, origin, first⟩ := substitute_plain u subjects none (noMark leadBlank)
    ('@' :: (tail ++ trail))
  have apart : previous.any isAsciiWordChar = false := by
    rcases origin with none | ⟨d, member, same⟩
    · rw [none]
      rfl
    · rw [same, Option.any_some]
      exact not_word_of_space (leadBlank d member)
  obtain ⟨later, skipped⟩ := substitute_skip u subjects (some '@') length (tail ++ trail)
  have remaining : (tail ++ trail).drop length =
      (before ++ c :: (between ++ ['\x7b'])) ++ (text ++ '\x7d' :: after ++ trail) := by
    rw [List.drop_append_of_le_length (by omega), rest]
    simp
  have noMention : '@' ∉ before ++ c :: (between ++ ['\x7b']) := by
    simp only [List.mem_append, List.mem_cons, List.not_mem_nil, or_false, not_or]
    exact ⟨noMark front, fun same => (colon_plain colon).1 same.symm, noMark spaces, by decide⟩
  obtain ⟨last, _, final⟩ := substitute_plain u subjects later noMention
    (text ++ '\x7d' :: after ++ trail)
  have tailFree : '\x7b' ∉ substitute u subjects last 0 (text ++ '\x7d' :: after ++ trail) := by
    intro member
    have opened := mem_of_mem_substitute u subjects (.inr (.inl rfl)) member
    simp only [List.mem_append, List.mem_cons] at opened
    rcases opened with (inText | brace | inAfter) | inTrail
    · exact free.1 inText
    · revert brace
      decide
    · exact absurd (rear _ inAfter) (by decide)
    · exact absurd (trailBlank _ inTrail) (by decide)
  have rendered : substitute u subjects none 0 line =
      (lead ++ shown u subjects ('@' :: (tail ++ trail).take length) name ++ before) ++
        c :: (between ++ '\x7b' :: substitute u subjects last 0 (text ++ '\x7d' :: after ++ trail)) := by
    have mentioned := (@mentionAt_append tail trail name length mention inside).1
    rw [line_eq, first, substitute, if_pos ⟨rfl, apart⟩, mentioned]
    dsimp only
    rw [skipped, remaining, final]
    simp
  rw [rendered]
  exact not_spokenForm colon spaces tailFree

/-- A clean line of a shot is spoken in the segment as it is said, if the speaker is registered. -/
theorem perLine_renderLine {line : List Char} (normalized : Normalized u line)
    (plain : ∀ c ∈ line, isLineBreak c = false) (tidy : stray u (core u line) = []) :
    perLine spokenOf (renderLine u subjects characters line) =
      (admitted u (core u line)).filterMap (utteranceLine characters) := by
  have noBreak : ∀ c ∈ substitute u subjects none 0 line, isLineBreak c = false := by
    intro c member
    by_contra isBreak
    have inside := mem_of_mem_substitute u subjects (.inl (eq_true_of_ne_false isBreak)) member
    exact isBreak (plain c inside)
  have mentions : renderMentionsAsSubjects u subjects line = substitute u subjects none 0 line := by
    rw [renderMentionsAsSubjects_eq, normalized]
  rw [admitted, said_core, renderLine, said]
  cases dialogue : matchDialogueLine u line with
  | some pair =>
    obtain ⟨speaker, text⟩ := pair
    obtain ⟨tail, length, name, before, c, between, after, split, mention, key, rest, _, _, _, free, _⟩ :=
      matchDialogueLine_split dialogue
    by_cases registered : (characters.get? speaker).isSome = true
    · have tailPlain : ∀ d ∈ tail, isLineBreak d = false := fun d member =>
        plain d (mem_of_mem_core normalized (by rw [split]; exact List.mem_cons_of_mem _ member))
      have parts : ∀ d ∈ ['<'] ++ speaker ++ ['>'] ++ text, isLineBreak d = false := by
        intro d member
        simp only [List.mem_append, List.mem_singleton] at member
        rcases member with ((opening | inSpeaker) | closing) | inText
        · rw [opening]
          decide
        · by_contra isBreak
          rw [key] at inSpeaker
          have inName := mem_of_mem_key u (.inl (eq_true_of_ne_false isBreak)) inSpeaker
          exact isBreak (tailPlain d (name_of_mentionAt mention inName))
        · rw [closing]
          decide
        · apply tailPlain
          apply List.drop_subset length
          rw [rest]
          simp [inText]
      simp only [registered, if_true, Option.toList_some, List.filterMap_cons, List.filterMap_nil,
        utteranceLine]
      exact perLine_spokenLine free parts
    · have noVoiceover : matchVoiceoverLine u line = none := by
        rw [Option.eq_none_iff_forall_ne_some]
        intro spoken found
        have head := head_of_voiceover found
        rw [split] at head
        revert head
        simp
      simp only [registered, Bool.false_eq_true, if_false, Option.toList_some, List.filterMap_cons,
        List.filterMap_nil, utteranceLine, noVoiceover, mentions]
      rw [perLine_plain spokenOf_nil noBreak, spokenOf,
        if_neg (not_spoken_of_dialogue normalized dialogue)]
  | none =>
    cases voiceover : matchVoiceoverLine u line with
    | some text =>
      obtain ⟨before, after, split, _, free, _⟩ := unwrapBraces_split voiceover
      rw [normalized] at split
      simp only [Option.map_some, Option.toList_some, List.filterMap_cons, List.filterMap_nil,
        utteranceLine]
      apply perLine_spokenLine free
      intro d member
      rcases List.mem_append.mp member with mark | inText
      · have marks : d = '画' ∨ d = '外' ∨ d = '音' := by simpa using mark
        rcases marks with same | same | same <;> rw [same] <;> decide
      · apply plain
        rw [split]
        simp [inText]
    | none =>
      have silent : said u line = none := by rw [said, dialogue, voiceover]; rfl
      have free := (braceFree_of_stray tidy silent).of_core u
      rw [normalized] at free
      simp only [Option.map_none, Option.toList_none, List.filterMap_nil, mentions]
      apply perLine_spokenOf_free
      intro closed
      exact free.2 (mem_of_mem_substitute u subjects (.inr (.inr rfl)) closed)

theorem perLine_joinBlank (empty : spokenOf [] = []) (lines : List (List Char)) :
    perLine spokenOf (joinLines (lines.filter fun line => !isBlank line)) =
      lines.flatMap (perLine spokenOf) := by
  rw [perLine_joinLines empty]
  induction lines with
  | nil => rfl
  | cons line lines ih =>
    rw [List.flatMap_cons, ← ih]
    by_cases blank : isBlank line = true
    · have nothing : perLine spokenOf line = [] := by
        apply perLine_spokenOf_free
        intro closed
        exact absurd (List.all_eq_true.mp blank _ closed) (by decide)
      rw [List.filter_cons_of_neg (by simp [blank]), nothing]
      rfl
    · rw [List.filter_cons_of_pos (by simp [blank]), List.flatMap_cons]

theorem perLine_intercalate (parts : List (List Char)) :
    perLine spokenOf (List.intercalate "\n\n".toList parts) = parts.flatMap (perLine spokenOf) := by
  induction parts with
  | nil => rfl
  | cons part parts ih =>
    cases parts with
    | nil => simp
    | cons next parts =>
      have unfolded : List.intercalate "\n\n".toList (part :: next :: parts) =
          part ++ '\n' :: ([] ++ '\n' :: List.intercalate "\n\n".toList (next :: parts)) := by
        simp [List.intercalate_cons_cons]
      rw [unfolded, perLine_break spokenOf_nil (by decide), perLine_break spokenOf_nil (by decide), ih]
      rfl

/-- The spoken lines of the segment are those of the lines of the shots. -/
theorem perLine_renderSegmentTwo {shots : List (List Char)}
    (normalized : ∀ shot ∈ shots, Normalized u shot) (clean : ∀ shot ∈ shots, Clean u shot) :
    perLine spokenOf (renderSegmentTwo u shots subjects characters) =
      (shots.flatMap (hear u (admitted u))).filterMap (utteranceLine characters) := by
  have body : ∀ shot ∈ shots, perLine spokenOf (joinLines (renderBody u subjects characters shot)) =
      (hear u (admitted u) shot).filterMap (utteranceLine characters) := by
    intro shot member
    rw [renderBody, perLine_joinBlank spokenOf_nil, List.flatMap_map, hear, perLine,
      List.filterMap_flatMap]
    apply List.flatMap_congr
    intro line inside
    exact perLine_renderLine (normalized_of_mem_splitlines (normalized shot member) inside)
      (plain_of_mem_splitlines inside) (clean_lines (clean shot member) inside)
  have part : ∀ n : Nat, ∀ text : List Char,
      perLine spokenOf (if text.isEmpty then shotHead n else shotHead n ++ ['\n'] ++ text) =
        perLine spokenOf text := by
    intro n text
    have head : perLine spokenOf (shotHead n) = [] :=
      perLine_spokenOf_free fun closed => (mem_shotHead closed).2.2.2 rfl
    split
    · next none =>
      rw [head, List.isEmpty_iff.mp none]
      rfl
    · rw [List.append_assoc, List.singleton_append, perLine_break spokenOf_nil (by decide), head,
        List.nil_append]
  have all : ∀ (some : List (List Char)) (start : Nat), (∀ shot ∈ some, shot ∈ shots) →
      (((List.range' start some.length).zip some).map fun shot =>
        let text := joinLines (renderBody u subjects characters shot.2)
        let header := shotHead shot.1
        if text.isEmpty then header else header ++ ['\n'] ++ text).flatMap (perLine spokenOf) =
        (some.flatMap (hear u (admitted u))).filterMap (utteranceLine characters) := by
    intro some
    induction some with
    | nil => intros; rfl
    | cons shot later ih =>
      intro start inside
      rw [List.length_cons, List.range'_succ, List.zip_cons_cons, List.map_cons, List.flatMap_cons,
        List.flatMap_cons, List.filterMap_append,
        ih (start + 1) fun other member => inside other (List.mem_cons_of_mem _ member)]
      congr 1
      exact (part start _).trans (body shot (inside shot List.mem_cons_self))
  rw [renderSegmentTwo, perLine_intercalate]
  exact all shots 1 fun _ member => member

end Speaking

section Unit

variable (u : Unicode)

/-- The second segment of the prompt. -/
def segmentTwo (text : List Char) (project : Json) : List Char :=
  renderSegmentTwo u (parsePrompt u text).1
    ((resolveReferences u (parsePrompt u text).2 project).1.map Reference.name)
    (bucket u project .character)

theorem renderUnitPrompt_segmentTwo (text : List Char) (project : Json) (references : List Reference)
    (settings : VoiceRenderSettings) (style : Option (List Char)) :
    ∃ one three, (renderUnitPrompt u text project references settings style).prompt =
      List.intercalate "\n\n".toList
        ([one, segmentTwo u text project, three].filter fun segment => !segment.isEmpty) :=
  ⟨_, _, rfl⟩

open Classical in
/-- Admission, execution and the prompt have the same speech: the utterances derived at execution
are the admitted ones, and the spoken lines of the second segment are theirs. -/
def HearsTheSame (unit project : Json) : Prop :=
  let text := assembleShotsTextForRender u (unitShots unit)
  let utterances := (admitVideoUnit u unit).utterances.map SpeechUtterance.spoken
  (deriveUtterances u (parsePrompt u text).1).1.map ShotUtterance.utterance = utterances ∧
    (splitlines (segmentTwo u text project)).filter (fun line => decide (SpokenForm line)) =
      utterances.filterMap (utteranceLine (bucket u project .character))

/-- No dialogue line has more braces of one kind than of the other. -/
def DialogueBalanced (unit : Json) : Prop :=
  ∀ shot ∈ unitShots unit, ∀ line ∈ splitlines (shotText shot),
    (matchDialogueLine u line).isSome = true → Balanced (normalizeSource u line)

variable {u}

theorem quiet_admitted : Quiet (admitted u) := by
  intro line free
  rw [admitted, said_of_braceFree u (free.core u)]
  rfl

theorem quiet_heard : Quiet (heard u) := by
  intro line free
  rw [heard, said_of_braceFree u (free.core u)]
  split <;> rfl

theorem count_spaces {c : Char} (visible : isSpace c = false) {spaces : List Char}
    (blank : ∀ d ∈ spaces, isSpace d = true) : spaces.count c = 0 := by
  rw [List.count_eq_zero]
  intro member
  rw [blank c member] at visible
  cases visible

theorem balanced_of_voiceover {line text : List Char} (found : matchVoiceoverLine u line = some text) :
    Balanced (normalizeSource u line) := by
  obtain ⟨before, after, split, front, free, rear⟩ := unwrapBraces_split found
  have opened : text.count '\x7b' = 0 := List.count_eq_zero.mpr free.1
  have closed : text.count '\x7d' = 0 := List.count_eq_zero.mpr free.2
  rw [Balanced, split]
  simp [List.count_append, opened, closed,
    @count_spaces '\x7b' (by decide) _ front, @count_spaces '\x7d' (by decide) _ front,
    @count_spaces '\x7b' (by decide) _ rear, @count_spaces '\x7d' (by decide) _ rear]

/-- A line is heard as admitted unless it is a dialogue line with braces left over. -/
theorem heard_eq_iff (line : List Char) : heard u (core u line) = admitted u (core u line) ↔
    ((matchDialogueLine u line).isSome = true → Balanced (normalizeSource u line)) := by
  rw [heard, admitted, said_core]
  by_cases balanced : Balanced (normalizeSource u line)
  · rw [if_pos ((balanced_core u line).mpr balanced)]
    exact ⟨fun _ _ => balanced, fun _ => rfl⟩
  · rw [if_neg fun core => balanced ((balanced_core u line).mp core), said]
    cases dialogue : matchDialogueLine u line with
    | some pair => simp [balanced]
    | none =>
      cases voiceover : matchVoiceoverLine u line with
      | some text => exact absurd (balanced_of_voiceover voiceover) balanced
      | none => simp

theorem length_heard_le (line : List Char) : (heard u line).length ≤ (admitted u line).length := by
  rw [heard]
  split
  · exact le_rfl
  · exact Nat.zero_le _

/-- Lists that are nowhere longer and the same as a whole are everywhere the same. -/
theorem flatMap_eq_iff {α β : Type} {f g : α → List β} {items : List α}
    (shorter : ∀ item ∈ items, (f item).length ≤ (g item).length) :
    items.flatMap f = items.flatMap g ↔ ∀ item ∈ items, f item = g item := by
  constructor
  · induction items with
    | nil => simp
    | cons first items ih =>
      intro same
      have rest : ∀ item ∈ items, (f item).length ≤ (g item).length := fun item member =>
        shorter item (List.mem_cons_of_mem _ member)
      have total : (items.flatMap f).length ≤ (items.flatMap g).length := by
        rw [List.length_flatMap, List.length_flatMap]
        exact List.sum_le_sum rest
      have here := shorter first List.mem_cons_self
      rw [List.flatMap_cons, List.flatMap_cons] at same
      have lengths := congrArg List.length same
      rw [List.length_append, List.length_append] at lengths
      have parts := List.append_inj same (by omega)
      intro item member
      rcases List.mem_cons.mp member with head | tail
      · rw [head]
        exact parts.1
      · exact ih rest parts.2 item tail
  · exact List.flatMap_congr

theorem length_hear_le (text : List Char) :
    (hear u (heard u) text).length ≤ (hear u (admitted u) text).length := by
  rw [hear, hear, perLine, perLine, List.length_flatMap, List.length_flatMap]
  exact List.sum_le_sum fun line _ => length_heard_le _

theorem filter_spokenForm (text : List Char) :
    open Classical in (splitlines text).filter (fun line => decide (SpokenForm line)) =
      perLine spokenOf text := by
  classical
  rw [perLine]
  induction splitlines text with
  | nil => rfl
  | cons line lines ih =>
    rw [List.flatMap_cons, List.filter_cons, ih, spokenOf]
    by_cases spoken : SpokenForm line <;> simp [spoken]

/-- For an admitted unit, the same speech is heard at admission, at execution and in the prompt
if and only if its dialogue lines are balanced. -/
theorem hears_the_same_iff (unit project : Json) (allowed : (admitVideoUnit u unit).allowed = true) :
    HearsTheSame u unit project ↔ DialogueBalanced u unit := by
  obtain ⟨objects, clean, utterances⟩ := shots_of_allowed allowed
  have normalized := @normalized_parsePrompt u (assembleShotsTextForRender u (unitShots unit))
  have derived := (deriveUtterances_eq normalized).trans (hear_assembled quiet_heard objects clean)
  have parsedClean : ∀ shot ∈ (parsePrompt u (assembleShotsTextForRender u (unitShots unit))).1,
      Clean u shot := by
    apply List.flatMap_eq_nil_iff.mp
    rw [hear_assembled (quiet_stray u) objects clean, List.flatMap_eq_nil_iff]
    exact clean
  have segment : perLine spokenOf (segmentTwo u (assembleShotsTextForRender u (unitShots unit)) project) =
      ((admitVideoUnit u unit).utterances.map SpeechUtterance.spoken).filterMap
        (utteranceLine (bucket u project .character)) := by
    rw [segmentTwo, perLine_renderSegmentTwo normalized parsedClean,
      hear_assembled quiet_admitted objects clean, utterances]
  unfold HearsTheSame
  dsimp only
  rw [filter_spokenForm, segment, derived, utterances, and_iff_left rfl,
    flatMap_eq_iff fun shot _ => length_hear_le _]
  apply forall₂_congr
  intro shot _
  rw [hear, hear, perLine, perLine, flatMap_eq_iff fun line _ => length_heard_le _]
  apply forall₂_congr
  intro line _
  exact heard_eq_iff line

private def oneShot (text : String) : Json :=
  .obj [("unit_id", .str "U1"), ("shots", .arr [.obj [("text", .str text)]])]

private def shopProject : Json := .obj [("characters", .obj [("甲", .obj [])])]

private theorem balanced_oneShot : DialogueBalanced plainUnicode (oneShot "@[甲]：\x7b你好\x7d") := by
  unfold DialogueBalanced
  decide

theorem hears_the_same_greeting :
    (admitVideoUnit plainUnicode (oneShot "@[甲]：\x7b你好\x7d")).allowed = true ∧
      HearsTheSame plainUnicode (oneShot "@[甲]：\x7b你好\x7d") shopProject :=
  ⟨by decide,
    (hears_the_same_iff (oneShot "@[甲]：\x7b你好\x7d") shopProject (by decide)).mpr
      balanced_oneShot⟩

/-- A brace in the name of the speaker: the line is admitted and not heard at execution. -/
theorem admitted_and_not_heard :
    ∃ unit project, (admitVideoUnit plainUnicode unit).allowed = true ∧
      ¬HearsTheSame plainUnicode unit project := by
  refine ⟨oneShot "@[甲\x7b]：\x7b你好\x7d", shopProject, by decide, fun same => ?_⟩
  have differs : (deriveUtterances plainUnicode (parsePrompt plainUnicode
      (assembleShotsTextForRender plainUnicode (unitShots (oneShot "@[甲\x7b]：\x7b你好\x7d")))).1).1.map
        ShotUtterance.utterance ≠
      (admitVideoUnit plainUnicode (oneShot "@[甲\x7b]：\x7b你好\x7d")).utterances.map
        SpeechUtterance.spoken := by
    decide
  exact differs same.1

end Unit

end ArcReel.Speech
