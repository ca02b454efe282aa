import ArcReel.Access.Traversal

/-! When the words that a shell makes of an accepted command are those that the whitelist saw. -/

namespace ArcReel.Access
open Lib PyText

section Normalized

/-- The command as it is compared with the whitelist. -/
def normalized (command : List Char) : List Char := slashed (unquote command)

theorem normalized_append (left right : List Char) :
    normalized (left ++ right) = normalized left ++ normalized right := by
  simp [normalized, unquote, slashed]

theorem normalized_spaces {blank : List Char} (spaces : ∀ c ∈ blank, isSpace c = true) :
    normalized blank = blank := by
  rw [normalized, unquote_spaces spaces, slashed_spaces spaces]

theorem isSpace_slash (c : Char) : isSpace (slash c) = isSpace c := by
  unfold slash
  split
  · next same => rw [same]; decide
  · rfl

theorem normalized_visible {part : List Char} (visible : ∀ c ∈ part, isSpace c = false) :
    ∀ c ∈ normalized part, isSpace c = false := by
  intro c member
  obtain ⟨d, inside, same⟩ := List.mem_map.mp member
  rw [← same, isSpace_slash]
  exact visible d (List.mem_of_mem_filter inside)

/-- A part that starts with white space, or is empty, does so without its quotes. -/
theorem normalized_head {part : List Char} (space : ∀ c ∈ part.head?, isSpace c = true) :
    ∀ c ∈ (normalized part).head?, isSpace c = true := by
  cases part with
  | nil => exact fun c impossible => nomatch impossible
  | cons c part =>
    have first := space c rfl
    have alone : normalized [c] = [c] := normalized_spaces (by simpa using first)
    rw [show c :: part = [c] ++ part from rfl, normalized_append, alone]
    intro d isHead
    rwa [← Option.some.inj (Option.mem_def.mp isHead)]

/-- What a backslash has become. -/
theorem slash_mem_normalized {part : List Char} (member : '\\' ∈ part) : '/' ∈ normalized part :=
  List.mem_map.mpr ⟨'\\', List.mem_filter.mpr ⟨member, by decide⟩, rfl⟩

end Normalized

section Entries

/-- The entry that has admitted a command, and what is behind its name. -/
inductive Entry : List Char → List Char → Prop
  | tool (name rest : List Char) (named : name = "ffmpeg".toList ∨ name = "ffprobe".toList)
      (space : ∀ c ∈ rest.head?, isSpace c = true) : Entry name rest
  | skill (script tail : List Char) (visible : ∀ c ∈ script, isSpace c = false)
      (space : ∀ c ∈ tail.head?, isSpace c = true) (filled : script ≠ [])
      (named : matchesSkillScript script = true) : Entry "python".toList (' ' :: (script ++ tail))

theorem Entry.visible {name rest : List Char} (entry : Entry name rest) : ∀ c ∈ name, isSpace c = false := by
  cases entry with
  | tool name rest named space => rcases named with same | same <;> rw [same] <;> exact forall_mem_of_all (by decide)
  | skill script tail visible space filled named => exact forall_mem_of_all (by decide)

theorem Entry.slashless {name rest : List Char} (entry : Entry name rest) : '/' ∉ name := by
  cases entry with
  | tool name rest named space => rcases named with same | same <;> rw [same] <;> decide
  | skill script tail visible space filled named => decide

theorem Entry.space {name rest : List Char} (entry : Entry name rest) : ∀ c ∈ rest.head?, isSpace c = true := by
  cases entry with
  | tool name rest named space => exact space
  | skill script tail visible space filled named =>
    intro c isHead
    rw [← Option.some.inj (Option.mem_def.mp isHead)]
    decide

theorem entry_of_tool {normalized name : List Char} (named : name = "ffmpeg".toList ∨ name = "ffprobe".toList)
    (admitted : admittedBy normalized name = true) : ∃ rest, normalized = name ++ rest ∧ Entry name rest := by
  have plain : name ≠ pythonSkillsPrefix ∧ name.contains ' ' = false := by
    rcases named with same | same <;> rw [same] <;> decide
  rw [admittedBy, if_neg plain.1, plain.2, if_neg (by simp), Bool.or_eq_true] at admitted
  cases admitted with
  | inl whole =>
    refine ⟨[], by rw [List.append_nil]; exact beq_iff_eq.mp whole, .tool _ _ named ?_⟩
    exact fun c impossible => nomatch impossible
  | inr front =>
    obtain ⟨rest, split⟩ := List.isPrefixOf_iff_prefix.mp front
    refine ⟨' ' :: rest, by rw [← split]; simp, .tool _ _ named ?_⟩
    intro c isHead
    rw [← Option.some.inj (Option.mem_def.mp isHead)]
    decide

theorem visible_of_pieces {piece : List Char} (plain : ∀ c ∈ piece, isSpace c = false) (filled : piece ≠ [])
    (rest : List Char) : ∀ c ∈ (piece ++ rest).head?, isSpace c = false := by
  cases piece with
  | nil => exact absurd rfl filled
  | cons d piece =>
    intro c isHead
    rw [← Option.some.inj (Option.mem_def.mp isHead)]
    exact plain d List.mem_cons_self

theorem cut_word {first rest first' rest' : List Char} (same : first ++ rest = first' ++ rest')
    (visible : ∀ c ∈ first, isSpace c = false) (visible' : ∀ c ∈ first', isSpace c = false)
    (space : ∀ c ∈ rest.head?, isSpace c = true) (space' : ∀ c ∈ rest'.head?, isSpace c = true) :
    first = first' ∧ rest = rest' := by
  apply @cut_unique _ (fun c => !isSpace c) _ _ _ _ same
  · exact fun c member => by simp [visible c member]
  · exact fun c member => by simp [visible' c member]
  · exact fun c member => by simp [space c member]
  · exact fun c member => by simp [space' c member]

theorem entry_of_skill {normalized : List Char} (admitted : admittedBy normalized pythonSkillsPrefix = true) :
    ∃ rest, normalized = "python".toList ++ rest ∧ Entry "python".toList rest := by
  rw [admittedBy, if_pos rfl, Bool.and_eq_true] at admitted
  obtain ⟨behind, split⟩ := List.isPrefixOf_iff_prefix.mp admitted.1
  have script := admitted.2
  have shape : normalized = "python".toList ++ ' ' :: ('.' :: ("claude/skills/".toList ++ behind)) := by
    rw [← split]
    rfl
  unfold isAllowedPythonSkillCommand at script
  split at script
  · next first script' more words =>
    obtain ⟨lead, tail, whole, leads, filled, visible, space, rest⟩ := pieces_eq_cons words
    obtain ⟨lead', tail', whole', leads', filled', visible', space', _⟩ := pieces_eq_cons rest
    -- the first piece starts the command and is the name
    have start : lead = [] ∧ first ++ tail = normalized := by
      have cut := @cut_unique _ isSpace lead (first ++ tail) [] normalized (by rw [whole]; simp) leads
        (by simp) (visible_of_pieces visible filled tail) (by
          rw [shape]
          intro c isHead
          rw [← Option.some.inj (Option.mem_def.mp isHead)]
          decide)
      exact cut
    have named := cut_word (start.2.trans shape) visible (forall_mem_of_all (by decide)) space (by
      intro c isHead
      rw [← Option.some.inj (Option.mem_def.mp isHead)]
      decide)
    -- one space separates it from the script
    have gap := @cut_unique _ isSpace lead' (script' ++ tail') [' '] ('.' :: ("claude/skills/".toList ++ behind))
      (by rw [← List.append_assoc, ← whole', named.2]; rfl) leads'
      (forall_mem_of_all (by decide))
      (visible_of_pieces visible' filled' tail') (by
        intro c isHead
        rw [← Option.some.inj (Option.mem_def.mp isHead)]
        decide)
    refine ⟨' ' :: (script' ++ tail'), ?_, .skill script' tail' visible' space' filled' script⟩
    rw [shape, gap.2]
  · cases script

theorem Checked.entry {command before after : List Char} (checked : Checked command before after) :
    ∃ name rest, normalized (strip command) = name ++ rest ∧ Entry name rest := by
  have admitted := checked.admitted
  simp only [windowsBashPrefixWhitelist, List.any_cons, List.any_nil, Bool.or_false, Bool.or_eq_true] at admitted
  rcases admitted with skill | tool | tool
  · obtain ⟨rest, split, entry⟩ := entry_of_skill skill
    exact ⟨_, rest, split, entry⟩
  · obtain ⟨rest, split, entry⟩ := entry_of_tool (.inl rfl) tool
    exact ⟨_, rest, split, entry⟩
  · obtain ⟨rest, split, entry⟩ := entry_of_tool (.inr rfl) tool
    exact ⟨_, rest, split, entry⟩

end Entries

section Heads

variable {command before after name rest : List Char}

theorem head_append_space {part later : List Char} (space : ∀ c ∈ part.head?, isSpace c = true)
    (spaces : ∀ c ∈ later, isSpace c = true) : ∀ c ∈ (part ++ later).head?, isSpace c = true := by
  cases part with
  | nil => exact fun c isHead => spaces c (List.mem_of_mem_head? isHead)
  | cons d part => exact space

/-- The first word of the command, its quotes away and its backslashes turned, is the admitted name. -/
theorem Checked.first_word (checked : Checked command before after)
    (split : normalized (strip command) = name ++ rest) (entry : Entry name rest)
    {lead word tail : List Char} (whole : command = lead ++ word ++ tail)
    (blank : ∀ c ∈ lead, isSpace c = true) (visible : ∀ c ∈ word, isSpace c = false) (filled : word ≠ [])
    (space : ∀ c ∈ tail.head?, isSpace c = true) : normalized word = name ∧ normalized tail = rest ++ after := by
  have nonempty : strip command ≠ [] := by
    intro empty
    rw [empty] at split
    cases entry with
    | tool name rest named _ => rcases named with same | same <;> rw [same] at split <;> cases split
    | skill script tail _ _ _ _ => cases split
  have start : ∀ c ∈ (strip command ++ after).head?, isSpace c = false := by
    cases stripped : strip command with
    | nil => exact absurd stripped nonempty
    | cons d others =>
      intro c isHead
      have first := @head_strip_visible command
      rw [stripped] at first
      exact first c isHead
  have same := @cut_unique _ isSpace before (strip command ++ after) lead (word ++ tail)
    (by rw [← List.append_assoc, ← List.append_assoc, ← whole, ← checked.whole]) checked.front blank start
    (visible_of_pieces visible filled tail)
  have both := congrArg normalized same.2
  rw [normalized_append, normalized_append, split, normalized_spaces checked.back, List.append_assoc] at both
  obtain ⟨names, rests⟩ := cut_word both entry.visible (normalized_visible visible)
    (head_append_space entry.space checked.back) (normalized_head space)
  exact ⟨names.symm, rests.symm⟩

/-- And the second word is the admitted script. -/
theorem second_word {script others : List Char} (spaces : ∀ c ∈ after, isSpace c = true)
    (visible' : ∀ c ∈ script, isSpace c = false) (filled' : script ≠ [])
    (space' : ∀ c ∈ others.head?, isSpace c = true) {lead word tail later : List Char}
    (split : normalized tail = (' ' :: (script ++ others)) ++ after)
    (whole : tail = lead ++ word ++ later) (blank : ∀ c ∈ lead, isSpace c = true) (led : lead ≠ [])
    (visible : ∀ c ∈ word, isSpace c = false) (space : ∀ c ∈ later.head?, isSpace c = true) :
    normalized word = script := by
  rw [whole, normalized_append, normalized_append, normalized_spaces blank] at split
  cases lead with
  | nil => exact absurd rfl led
  | cons c lead =>
    cases lead with
    | nil =>
      have behind : normalized word ++ normalized later = script ++ (others ++ after) := by
        rw [← List.append_assoc]
        exact (List.cons.inj split).2
      exact (cut_word behind (normalized_visible visible) visible' (normalized_head space)
        (head_append_space space' spaces)).1
    | cons d lead =>
      have behind := (List.cons.inj split).2
      have seen := visible_of_pieces visible' filled' (others ++ after) d (by
        rw [← List.append_assoc]
        exact (congrArg List.head? behind).symm)
      rw [blank d (by simp)] at seen
      cases seen

end Heads

section Runs

variable {run : List Mark}

/-- A run without white space, backslash or quote that stands for itself is what it is without quotes. -/
theorem text_eq_normalized (fits : ∀ mark ∈ run, mark.Fits ∧ mark.isSep = false)
    (unescaped : '\\' ∉ source run) (plain : ∀ c ∈ text run, isQuote c = false) :
    text run = normalized (source run) := by
  induction run with
  | nil => rfl
  | cons mark run ih =>
    rw [source_cons, List.mem_append, not_or] at unescaped
    rw [source_cons, normalized_append]
    have here := fits mark List.mem_cons_self
    have later := fun other member => fits other (List.mem_cons_of_mem _ member)
    cases mark with
    | sep c => cases here.2
    | lit c =>
      have apart : c ≠ '\\' := fun same => unescaped.1 (by rw [same]; exact List.mem_singleton_self _)
      have unquoted : isQuote c = false := plain c List.mem_cons_self
      rw [← ih later unescaped.2 fun d member => plain d (List.mem_cons_of_mem _ member)]
      simp [Mark.chars, normalized, unquote, slashed, slash, unquoted, apart]
    | drop c =>
      have quote : isQuote c = true := by
        cases here.1 with
        | inl quote => exact quote
        | inr same => exact absurd (by rw [same]; exact List.mem_singleton_self _) unescaped.1
      rw [text_drop, ← ih later unescaped.2 plain]
      simp [Mark.chars, normalized, unquote, slashed, quote]
    | join => exact absurd (by simp [Mark.chars]) unescaped.1

/-- Where nothing but quotes is taken away, backslashes may stay. -/
theorem slashed_text_eq_normalized (fits : ∀ mark ∈ run, mark.Quotes ∧ mark.isSep = false)
    (plain : ∀ c ∈ text run, isQuote c = false) : slashed (text run) = normalized (source run) := by
  induction run with
  | nil => rfl
  | cons mark run ih =>
    rw [source_cons, normalized_append]
    have here := fits mark List.mem_cons_self
    have later := fun other member => fits other (List.mem_cons_of_mem _ member)
    cases mark with
    | sep c => cases here.2
    | lit c =>
      have unquoted : isQuote c = false := plain c List.mem_cons_self
      rw [← ih later fun d member => plain d (List.mem_cons_of_mem _ member)]
      simp [Mark.chars, normalized, unquote, slashed, unquoted]
    | drop c =>
      have quote : isQuote c = true := here.1
      rw [text_drop, ← ih later plain]
      simp [Mark.chars, normalized, unquote, slashed, quote]
    | join => exact absurd here.1 id

/-- White space that a run takes away stands behind a backslash. -/
theorem visible_or_escaped (fits : ∀ mark ∈ run, mark.Fits ∧ mark.isSep = false)
    (plain : ∀ c ∈ text run, isSpace c = false) :
    (∀ c ∈ source run, isSpace c = false) ∨ ∃ word later, source run = (word ++ ['\\']) ++ '\n' :: later ∧
      ∀ c ∈ word, isSpace c = false := by
  induction run with
  | nil => exact .inl fun c member => nomatch member
  | cons mark run ih =>
    have here := fits mark List.mem_cons_self
    have later := fun other member => fits other (List.mem_cons_of_mem _ member)
    have behind (c : Char) (alone : mark.chars = [c]) (seen : isSpace c = false)
        (rest : ∀ d ∈ text run, isSpace d = false) :
        (∀ c ∈ source (mark :: run), isSpace c = false) ∨ ∃ word later,
          source (mark :: run) = (word ++ ['\\']) ++ '\n' :: later ∧ ∀ c ∈ word, isSpace c = false := by
      rw [source_cons, alone]
      cases ih later rest with
      | inl visible =>
        refine .inl fun d member => ?_
        cases List.mem_cons.mp member with
        | inl same => rw [same, seen]
        | inr inside => exact visible d inside
      | inr escaped =>
        obtain ⟨word, others, split, visible⟩ := escaped
        refine .inr ⟨c :: word, others, by rw [split]; rfl, fun d member => ?_⟩
        cases List.mem_cons.mp member with
        | inl same => rw [same, seen]
        | inr inside => exact visible d inside
    cases mark with
    | sep c => cases here.2
    | lit c =>
      exact behind c rfl (plain c List.mem_cons_self) fun d member => plain d (List.mem_cons_of_mem _ member)
    | drop c =>
      refine behind c rfl ?_ plain
      cases here.1 with
      | inl quote => exact isSpace_of_isQuote quote
      | inr same => rw [same]; decide
    | join => exact .inr ⟨[], source run, rfl, fun c member => nomatch member⟩

end Runs

section Parts

variable {marks run : List Mark} {more : List (List Mark)}

/-- The first word of a command, what stands before it and what follows. -/
structure Parts (marks run lead tail : List Mark) : Prop where
  whole : marks = lead ++ run ++ tail
  blank : ∀ c ∈ source lead, isSpace c = true
  filled : source run ≠ []
  apart : ∀ mark ∈ run, mark.Fits ∧ mark.isSep = false
  space : ∀ c ∈ (source tail).head?, isSpace c = true
  ends : ∀ mark ∈ tail.head?, mark.isSep = true

theorem chars_of_sep {mark : Mark} (fits : mark.Fits) (isSep : mark.isSep = true) :
    ∃ c, mark.chars = [c] ∧ isSpace c = true := by
  cases mark with
  | sep c => exact ⟨c, rfl, isSpace_of_isBlank fits⟩
  | lit c => cases isSep
  | drop c => cases isSep
  | join => cases isSep

theorem parts_of_runs (fits : ∀ mark ∈ marks, mark.Fits) (split : runs marks = run :: more) :
    ∃ lead tail, Parts marks run lead tail ∧ runs tail = more := by
  obtain ⟨lead, tail, whole, leads, filled, plain, ends, rest⟩ := pieces_eq_cons split
  refine ⟨lead, tail, ⟨whole, ?_, ?_, ?_, ?_, ends⟩, rest⟩
  · intro c member
    obtain ⟨mark, listed, found⟩ := List.mem_flatMap.mp member
    obtain ⟨d, alone, space⟩ := chars_of_sep (fits mark (by rw [whole]; simp [listed])) (leads mark listed)
    rw [alone] at found
    rwa [List.mem_singleton.mp found]
  · cases run with
    | nil => exact absurd rfl filled
    | cons mark run => cases mark <;> simp [source, Mark.chars]
  · exact fun mark member => ⟨fits mark (by rw [whole]; simp [member]), plain mark member⟩
  · cases tail with
    | nil => 
      intro c impossible
      cases impossible
    | cons mark tail =>
      obtain ⟨d, alone, space⟩ := chars_of_sep (fits mark (by rw [whole]; simp)) (ends mark rfl)
      intro c isHead
      rw [source_cons, alone] at isHead
      rwa [← Option.some.inj (Option.mem_def.mp isHead)]

/-- A word behind another has white space before it. -/
theorem Parts.led {tail lead later : List Mark} (parts : Parts tail run lead later)
    (ends : ∀ mark ∈ tail.head?, mark.isSep = true) : source lead ≠ [] := by
  cases lead with
  | nil =>
    cases run with
    | nil => exact absurd rfl parts.filled
    | cons mark run =>
      have isSep := ends mark (by rw [parts.whole]; rfl)
      rw [(parts.apart mark List.mem_cons_self).2] at isSep
      cases isSep
  | cons mark lead => cases mark <;> simp [source, Mark.chars]

end Parts

section Script

theorem normalized_plain {part : List Char} : ∀ c ∈ normalized part, isQuote c = false ∧ c ≠ '\\' := by
  intro c member
  obtain ⟨d, inside, same⟩ := List.mem_map.mp member
  have unquoted : isQuote d = false := by simpa using List.of_mem_filter inside
  rw [← same]
  unfold slash
  split
  · exact ⟨by decide, by decide⟩
  · next apart => exact ⟨unquoted, apart⟩

/-- The path of a script that the pattern matches. -/
theorem path_of_match {script : List Char} (named : matchesSkillScript script = true)
    (visible : ∀ c ∈ script, isSpace c = false) (plain : ∀ c ∈ script, isQuote c = false ∧ c ≠ '\\') :
    DenotesSkillScript posixSeparator script := by
  unfold matchesSkillScript at named
  split at named
  · next root skills skill scripts file split =>
    simp only [Bool.and_eq_true, beq_iff_eq, Bool.not_eq_true', decide_eq_true_eq] at named
    obtain ⟨⟨⟨⟨⟨isRoot, isSkills⟩, filled⟩, isScripts⟩, suffix⟩, long⟩ := named
    obtain ⟨name, whole⟩ := List.isSuffixOf_iff_suffix.mp suffix
    have inside {piece : List Char} (member : piece ∈ script.splitOnP fun c => c == '/') :
        ∀ c ∈ piece, isSpace c = false ∧ isQuote c = false ∧ c ≠ '/' ∧ c ≠ '\\' := by
      obtain ⟨before, after, parts, _, _, apart⟩ := mem_splitOnP member
      intro c found
      have listed : c ∈ script := by rw [parts]; simp [found]
      exact ⟨visible c listed, (plain c listed).1, by simpa using apart c found, (plain c listed).2⟩
    refine ⟨skill, name, ⟨?_, inside (by rw [split]; simp)⟩, ⟨?_, ?_⟩, ?_⟩
    · intro empty
      rw [empty] at filled
      cases filled
    · intro empty
      rw [empty] at whole
      rw [← whole] at long
      revert long
      decide
    · intro c found
      have listed : file ∈ script.splitOnP fun c => c == '/' := by rw [split]; simp
      exact inside listed c (by rw [← whole]; exact List.mem_append_left _ found)
    · rw [whole, ← isRoot, ← isSkills, ← isScripts]
      exact split
  · cases named

theorem splitOnP_map {α β : Type} {p : α → Bool} {q : β → Bool} {f : α → β} (same : ∀ x, q (f x) = p x)
    (l : List α) : (l.map f).splitOnP q = (l.splitOnP p).map (List.map f) := by
  induction l with
  | nil => rfl
  | cons x l ih =>
    rw [List.map_cons, List.splitOnP_cons_eq_if_modifyHead, List.splitOnP_cons_eq_if_modifyHead, same, ih]
    cases p x with
    | true => rfl
    | false =>
      obtain ⟨head, tail, split⟩ := List.exists_cons_of_ne_nil (List.splitOnP_ne_nil p l)
      rw [split]
      rfl

/-- A path whose backslashes are separators. -/
theorem windows_path {path : List Char} (denotes : DenotesSkillScript posixSeparator (slashed path)) :
    DenotesSkillScript windowsSeparator path := by
  obtain ⟨skill, name, plain, plain', split⟩ := denotes
  refine ⟨skill, name, plain, plain', ?_⟩
  have turned : ∀ c, posixSeparator (slash c) = windowsSeparator c := by
    intro c
    unfold slash windowsSeparator posixSeparator
    by_cases same : c = '\\'
    · rw [if_pos same, same]
      rfl
    · rw [if_neg same]
      simp [same]
  rw [slashed, splitOnP_map turned] at split
  rw [← split]
  conv_lhs => rw [← List.map_id (path.splitOnP windowsSeparator)]
  apply List.map_congr_left
  intro piece member
  obtain ⟨_, _, _, _, _, apart⟩ := mem_splitOnP member
  conv_lhs => rw [id, ← List.map_id piece]
  apply List.map_congr_left
  intro c found
  have other := apart c found
  simp only [windowsSeparator, Bool.or_eq_false_iff, beq_eq_false_iff_ne] at other
  exact (if_neg other.2).symm

/-- The characters of such a path. -/
theorem DenotesSkillScript.chars {separates : Char → Bool} {path : List Char}
    (denotes : DenotesSkillScript separates path) (plain : ∀ c, separates c = true →
      isSpace c = false ∧ isQuote c = false) : ∀ c ∈ path, isSpace c = false ∧ isQuote c = false := by
  obtain ⟨skill, name, plainSkill, plainName, split⟩ := denotes
  intro c member
  cases sep : separates c with
  | true => exact plain c sep
  | false =>
    obtain ⟨piece, listed, found⟩ := mem_of_splitOnP member sep
    rw [split] at listed
    simp only [List.mem_cons, List.not_mem_nil, or_false] at listed
    have fixed (word : List Char) (same : piece = word)
        (good : ∀ d ∈ word, isSpace d = false ∧ isQuote d = false) : isSpace c = false ∧ isQuote c = false :=
      good c (same ▸ found)
    rcases listed with same | same | same | same | same
    · exact fixed _ same (forall_mem_of_all (by decide))
    · exact fixed _ same (forall_mem_of_all (by decide))
    · exact fixed _ same fun d inside => ⟨(plainSkill.2 d inside).1, (plainSkill.2 d inside).2.1⟩
    · exact fixed _ same (forall_mem_of_all (by decide))
    · refine fixed _ same fun d inside => ?_
      cases List.mem_append.mp inside with
      | inl front => exact ⟨(plainName.2 d front).1, (plainName.2 d front).2.1⟩
      | inr back =>
        have plain : ∀ d ∈ ".py".toList, isSpace d = false ∧ isQuote d = false :=
          forall_mem_of_all (by decide)
        exact plain d back

end Script

section Readings

variable {command before after name rest : List Char} {marks first : List Mark} {more : List (List Mark)}

/-- What a reading has made of the command, and what the check has seen of it. -/
structure Read (command : List Char) (marks : List Mark) (before after name rest : List Char) : Prop where
  whole : source marks = command
  fits : ∀ mark ∈ marks, mark.Fits
  checked : Checked command before after
  admitted : normalized (strip command) = name ++ rest
  entry : Entry name rest

theorem Read.word_first (read : Read command marks before after name rest) {lead tail : List Mark}
    (parts : Parts marks first lead tail) {word later : List Char} (split : source first = word ++ later)
    (visible : ∀ c ∈ word, isSpace c = false) (filled : word ≠ [])
    (space : ∀ c ∈ (later ++ source tail).head?, isSpace c = true) :
    normalized word = name ∧ normalized (later ++ source tail) = rest ++ after := by
  refine read.checked.first_word read.admitted read.entry ?_ parts.blank visible filled space
  rw [← read.whole, parts.whole, source_append, source_append, split]
  simp

/-- A plain first word is the admitted name. -/
theorem Read.plain_first (read : Read command marks before after name rest) {lead tail : List Mark}
    (parts : Parts marks first lead tail) (plain : PlainRun first) :
    text first = name ∧ normalized (source tail) = rest ++ after := by
  have alone : source first = source first ++ [] := (List.append_nil _).symm
  obtain ⟨named, behind⟩ := read.word_first parts alone plain.1 parts.filled parts.space
  refine ⟨?_, behind⟩
  rw [← named]
  apply text_eq_normalized parts.apart _ plain.2
  intro member
  exact read.entry.slashless (named ▸ slash_mem_normalized member)

/-- A first word whose text is plain has no white space that was taken away. -/
theorem Read.first_plain (read : Read command marks before after name rest) {lead tail : List Mark}
    (parts : Parts marks first lead tail)
    (plain : ∀ c ∈ text first, isSpace c = false ∧ isQuote c = false) : PlainRun first := by
  refine ⟨?_, fun c member => (plain c member).2⟩
  cases visible_or_escaped parts.apart fun c member => (plain c member).1 with
  | inl visible => exact visible
  | inr escaped =>
    obtain ⟨word, later, split, visible⟩ := escaped
    have seen : ∀ c ∈ word ++ ['\\'], isSpace c = false := by
      intro c member
      cases List.mem_append.mp member with
      | inl inside => exact visible c inside
      | inr last => rw [List.mem_singleton.mp last]; decide
    have named := (read.word_first parts split seen (by simp) (by
      intro c isHead
      rw [← Option.some.inj (Option.mem_def.mp isHead)]
      decide)).1
    exact absurd (named ▸ slash_mem_normalized (by simp)) read.entry.slashless

theorem plain_of_name (named : text first = "ffmpeg".toList ∨ text first = "ffprobe".toList ∨
    text first = "python".toList) : ∀ c ∈ text first, isSpace c = false ∧ isQuote c = false := by
  rcases named with same | same | same <;> rw [same] <;> exact forall_mem_of_all (by decide)

/-- The script that has admitted a command whose name is `python`. -/
theorem Entry.python {name rest : List Char} (entry : Entry name rest) (named : name = "python".toList) :
    ∃ script tail, rest = ' ' :: (script ++ tail) ∧ (∀ c ∈ script, isSpace c = false) ∧
      (∀ c ∈ tail.head?, isSpace c = true) ∧ script ≠ [] ∧ matchesSkillScript script = true := by
  cases entry with
  | tool name rest tool space =>
    rw [named] at tool
    cases tool with
    | inl same => exact absurd same (by decide)
    | inr same => exact absurd same (by decide)
  | skill script tail visible space filled matched => exact ⟨script, tail, rfl, visible, space, filled, matched⟩

/-- The words of a plain command that stand where the whitelist has looked. -/
theorem Read.plain_script (read : Read command marks before after name rest) {lead tail : List Mark}
    (parts : Parts marks first lead tail) (plain : PlainRun first) (named : name = "python".toList)
    {script : List Mark} (split : runs tail = script :: more) (visible : ∀ c ∈ source script, isSpace c = false) :
    matchesSkillScript (normalized (source script)) = true := by
  obtain ⟨_, behind⟩ := read.plain_first parts plain
  obtain ⟨path, others, same, seen, space, filled, matched⟩ := read.entry.python named
  have fits : ∀ mark ∈ tail, mark.Fits := fun mark member => read.fits mark (by rw [parts.whole]; simp [member])
  obtain ⟨lead', tail', parts', _⟩ := parts_of_runs fits split
  rw [same] at behind
  have whole : source tail = source lead' ++ source script ++ source tail' := by
    rw [parts'.whole, source_append, source_append]
  rw [second_word read.checked.back seen filled space behind whole parts'.blank (parts'.led parts.ends) visible
    parts'.space]
  exact matched

theorem Read.script_plain (read : Read command marks before after name rest) {lead tail : List Mark}
    (parts : Parts marks first lead tail) (plain : PlainRun first) (named : name = "python".toList)
    {script : List Mark} (split : runs tail = script :: more)
    (seen : ∀ c ∈ text script, isSpace c = false ∧ isQuote c = false) : PlainRun script := by
  refine ⟨?_, fun c member => (seen c member).2⟩
  have fits : ∀ mark ∈ tail, mark.Fits := fun mark member => read.fits mark (by rw [parts.whole]; simp [member])
  obtain ⟨lead', tail', parts', _⟩ := parts_of_runs fits split
  cases visible_or_escaped parts'.apart fun c member => (seen c member).1 with
  | inl visible => exact visible
  | inr escaped =>
    obtain ⟨word, later, halves, visible⟩ := escaped
    obtain ⟨_, behind⟩ := read.plain_first parts plain
    obtain ⟨path, others, same, pathVisible, space, filled, matched⟩ := read.entry.python named
    rw [same] at behind
    have whole : source tail = source lead' ++ (word ++ ['\\']) ++ ('\n' :: later ++ source tail') := by
      rw [parts'.whole, source_append, source_append, halves]
      simp
    have turned := second_word read.checked.back pathVisible filled space behind whole parts'.blank
      (parts'.led parts.ends) (by
        intro c member
        cases List.mem_append.mp member with
        | inl inside => exact visible c inside
        | inr last => rw [List.mem_singleton.mp last]; decide) (by
        intro c isHead
        rw [← Option.some.inj (Option.mem_def.mp isHead)]
        decide)
    -- the script would end in the separator that the backslash became
    obtain ⟨skill, file, _, _, pieces⟩ := path_of_match matched pathVisible (by
      rw [← turned]
      exact normalized_plain)
    rw [← turned, normalized_append, show normalized ['\\'] = ['/'] from by decide,
      List.splitOnP_append_cons _ _ (by decide : posixSeparator '/' = true), List.splitOnP_nil] at pieces
    have last := congrArg List.getLast? pieces
    rw [List.getLast?_concat] at last
    have empty : [] = file ++ ".py".toList := Option.some.inj last
    exact absurd (List.append_eq_nil_iff.mp empty.symm).2 (by decide)

theorem countP_normalized (part : List Char) : (normalized part).countP posixSeparator =
    part.countP posixSeparator + part.countP fun c => c == '\\' := by
  induction part with
  | nil => rfl
  | cons c part ih =>
    rw [show c :: part = [c] ++ part from rfl, normalized_append, List.countP_append, List.countP_append,
      List.countP_append, ih]
    have alone : (normalized [c]).countP posixSeparator =
        [c].countP posixSeparator + [c].countP fun c => c == '\\' := by
      by_cases quote : isQuote c = true
      · have none : normalized [c] = [] := by simp [normalized, unquote, slashed, quote]
        simp only [isQuote, Bool.or_eq_true, beq_iff_eq] at quote
        rw [none]
        cases quote with
        | inl same => rw [same]; rfl
        | inr same => rw [same]; rfl
      · have turned : normalized [c] = [slash c] := by simp [normalized, unquote, slashed, quote]
        rw [turned]
        by_cases same : c = '\\'
        · rw [same]
          rfl
        · rw [slash, if_neg same]
          simp [same]
    omega

theorem countP_text {run : List Mark} (fits : ∀ mark ∈ run, mark.Fits ∧ mark.isSep = false) :
    (text run).countP posixSeparator = (source run).countP posixSeparator := by
  induction run with
  | nil => rfl
  | cons mark run ih =>
    have here := fits mark List.mem_cons_self
    have later := ih fun other member => fits other (List.mem_cons_of_mem _ member)
    rw [source_cons, List.countP_append]
    cases mark with
    | sep c => cases here.2
    | lit c =>
      rw [text_lit, show c :: text run = [c] ++ text run from rfl, List.countP_append, later]
      rfl
    | drop c =>
      have other : [c].countP posixSeparator = 0 := by
        cases here.1 with
        | inl quote =>
          simp only [isQuote, Bool.or_eq_true, beq_iff_eq] at quote
          cases quote with
          | inl same => rw [same]; rfl
          | inr same => rw [same]; rfl
        | inr same => rw [same]; rfl
      rw [text_drop, later, Mark.chars, other, Nat.zero_add]
    | join =>
      rw [text_join, later, show Mark.join.chars.countP posixSeparator = 0 from rfl, Nat.zero_add]

/-- The words of a command, in terms of its runs. -/
theorem sound_runs {separates : Char → Bool} {runs : List (List Mark)} (sound : Sound separates (runs.map text)) :
    ∃ first more, runs = first :: more ∧ (text first = "ffmpeg".toList ∨ text first = "ffprobe".toList ∨
      text first = "python".toList) ∧ (text first = "python".toList → ∃ script rest, more = script :: rest ∧
        DenotesSkillScript separates (text script)) := by
  cases runs with
  | nil => exact absurd sound id
  | cons first more =>
    refine ⟨first, more, rfl, ?_, ?_⟩
    · rcases sound with tool | tool | script
      · exact .inl tool
      · exact .inr (.inl tool)
      · exact .inr (.inr script.1)
    · intro named
      rcases sound with tool | tool | script
      · exact absurd (named.symm.trans tool) (by decide)
      · exact absurd (named.symm.trans tool) (by decide)
      · obtain ⟨_, ⟨path, rest, split, denotes⟩, _⟩ := script
        cases more with
        | nil => cases split
        | cons script rest' =>
          obtain ⟨same, _⟩ := List.cons.inj split
          exact ⟨script, rest', rfl, same ▸ denotes⟩

/-- A reading is sound exactly when the words that the whitelist has looked at are plain. -/
theorem Read.sound_iff (read : Read command marks before after name rest) {separates : Char → Bool}
    {keeps : List Char → Prop} (plainSeparators : ∀ c, separates c = true → isSpace c = false ∧ isQuote c = false)
    (noDots : ∀ word ∈ words marks, "..".toList ∉ word.splitOnP separates)
    (denotes : ∀ script ∈ runs marks, PlainRun script → keeps (source script) →
      matchesSkillScript (normalized (source script)) = true → DenotesSkillScript separates (text script))
    (kept : ∀ script ∈ runs marks, matchesSkillScript (normalized (source script)) = true →
      DenotesSkillScript separates (text script) → keeps (source script)) :
    Sound separates (words marks) ↔ HeadPlain keeps (runs marks) := by
  constructor
  · intro sound
    obtain ⟨first, more, split, named, script⟩ := sound_runs sound
    obtain ⟨lead, tail, parts, later⟩ := parts_of_runs read.fits split
    have plain := read.first_plain parts (plain_of_name named)
    rw [split]
    refine ⟨plain, fun isPython => ?_⟩
    obtain ⟨path, others, follows, path_denotes⟩ := script isPython
    have isName : name = "python".toList := (read.plain_first parts plain).1 ▸ isPython
    have split' : runs tail = path :: others := later.trans follows
    have plain' := read.script_plain parts plain isName split' (path_denotes.chars plainSeparators)
    have matched := read.plain_script parts plain isName split' plain'.1
    have listed : path ∈ runs marks := by rw [split, follows]; simp
    exact ⟨path, others, follows, plain', kept path listed matched path_denotes⟩
  · intro heads
    cases split : runs marks with
    | nil =>
      rw [split] at heads
      exact absurd heads id
    | cons first more =>
      rw [split] at heads
      obtain ⟨lead, tail, parts, later⟩ := parts_of_runs read.fits split
      obtain ⟨isName, behind⟩ := read.plain_first parts heads.1
      have listed : words marks = text first :: more.map text := by rw [words, split]; rfl
      rw [listed] at noDots ⊢
      cases entry : read.entry with
      | tool _ _ tool _ =>
        cases tool with
        | inl same => exact .inl (isName.trans same)
        | inr same => exact .inr (.inl (isName.trans same))
      | skill path others visible space filled matched =>
        obtain ⟨script, others', follows, plain', keep⟩ := heads.2 isName
        have split' : runs tail = script :: others' := later.trans follows
        have member : script ∈ runs marks := by rw [split, follows]; simp
        refine .inr (.inr ⟨isName, ⟨text script, others'.map text, by rw [follows]; rfl, ?_⟩, ?_⟩)
        · exact denotes script member plain' keep (read.plain_script parts heads.1 rfl split' plain'.1)
        · exact fun word inside => noDots word (List.mem_cons_of_mem _ inside)

end Readings

section Whitelist

variable {command : List Char}

theorem read_of_accepted (accepted : isBashCommandWhitelisted command = true) {marks : List Mark}
    (whole : source marks = command) (fits : ∀ mark ∈ marks, mark.Fits) :
    ∃ before after name rest, Read command marks before after name rest := by
  obtain ⟨before, after, checked⟩ := checked_of_accepted accepted
  obtain ⟨name, rest, split, entry⟩ := checked.entry
  exact ⟨before, after, name, rest, whole, fits, checked, split, entry⟩

theorem plain_of_match {run : List Mark} (plain : PlainRun run)
    (matched : matchesSkillScript (normalized (source run)) = true) :
    DenotesSkillScript posixSeparator (normalized (source run)) :=
  path_of_match matched (normalized_visible plain.1) normalized_plain

/-- The marks of a run are those of its command. -/
theorem fits_of_run {marks run : List Mark} {Fits : Mark → Prop} (fits : ∀ mark ∈ marks, Fits mark)
    (member : run ∈ runs marks) : ∀ mark ∈ run, Fits mark ∧ mark.isSep = false := by
  obtain ⟨before, after, whole, _, _, apart⟩ := mem_runs member
  exact fun mark inside => ⟨fits mark (by rw [whole]; simp [inside]), apart mark inside⟩

theorem count_of_match {script : List Char} (matched : matchesSkillScript script = true) :
    script.countP posixSeparator = 4 := by
  have pieces := @length_splitOnP _ posixSeparator script
  unfold matchesSkillScript at matched
  split at matched
  · next split =>
    have five : (script.splitOnP posixSeparator).length = 5 := congrArg List.length split
    omega
  · cases matched

theorem posix_sound_iff (accepted : isBashCommandWhitelisted command = true) {marks : List Mark}
    (reading : posixMarks .none command = some marks) :
    Sound posixSeparator (words marks) ↔ HeadPlain (fun script => '\\' ∉ script) (runs marks) := by
  obtain ⟨whole, fits⟩ := posixMarks_source reading
  obtain ⟨before, after, name, rest, read⟩ := read_of_accepted accepted whole fits
  apply read.sound_iff
  · intro c separates
    rw [beq_iff_eq.mp separates]
    decide
  · exact posix_no_dots accepted reading
  · intro script member plain unescaped matched
    rw [text_eq_normalized (fits_of_run fits member) unescaped plain.2]
    exact plain_of_match plain matched
  · -- a backslash in the script would be one separator more than the pattern has
    intro script member matched denotes escaped
    have here := fits_of_run fits member
    obtain ⟨skill, file, _, _, split⟩ := denotes
    have four := @length_splitOnP _ posixSeparator (text script)
    rw [split, countP_text here] at four
    have separators := count_of_match matched
    rw [countP_normalized] at separators
    have some : 0 < (source script).countP fun c => c == '\\' := List.countP_pos_iff.mpr ⟨_, escaped, by decide⟩
    simp only [List.length_cons, List.length_nil] at four
    omega

theorem windows_sound_iff (accepted : isBashCommandWhitelisted command = true) :
    Sound windowsSeparator (words (windowsMarks .none command)) ↔
      HeadPlain (fun _ => True) (runs (windowsMarks .none command)) := by
  obtain ⟨whole, quotes⟩ := windowsMarks_source .none command
  obtain ⟨before, after, name, rest, read⟩ := read_of_accepted accepted whole fun mark member => (quotes mark member).fits
  apply read.sound_iff
  · intro c separates
    simp only [windowsSeparator, Bool.or_eq_true, beq_iff_eq] at separates
    cases separates with
    | inl same => rw [same]; decide
    | inr same => rw [same]; decide
  · exact windows_no_dots accepted
  · intro script member plain _ matched
    apply windows_path
    rw [slashed_text_eq_normalized (fits_of_run quotes member) plain.2]
    exact plain_of_match plain matched
  · exact fun _ _ _ _ => trivial

end Whitelist

end ArcReel.Access
