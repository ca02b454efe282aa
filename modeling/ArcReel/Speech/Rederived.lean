import ArcReel.Speech.Segment

/-! The mentions of a prompt and the mentions of the shots it is cut into, from which the references
of a saved unit are derived again. -/

namespace ArcReel.Speech
open Lib PyText Mention Prompt

section FirstMet

variable {α : Type} [DecidableEq α]

/-- One step of `firstSeen`. -/
def meet (seen : List α) (name : α) : List α := if name ∈ seen then seen else seen ++ [name]

theorem firstSeen_eq (names : List α) : firstSeen names = names.foldl meet [] := rfl

theorem mem_meet {seen : List α} {name other : α} :
    other ∈ meet seen name ↔ other = name ∨ other ∈ seen := by
  unfold meet
  split
  · next known =>
    constructor
    · exact .inr
    · rintro (same | old)
      · rw [same]
        exact known
      · exact old
  · simp [or_comm]

theorem foldl_meet_known {early : List α} (later seen : List α) (known : early ⊆ seen) :
    (early ++ later).foldl meet seen = later.foldl meet seen := by
  induction early with
  | nil => rfl
  | cons name early ih =>
    rw [List.cons_append, List.foldl_cons, meet, if_pos (known List.mem_cons_self)]
    exact ih fun other member => known (List.mem_cons_of_mem _ member)

theorem foldl_meet_grows (names seen : List α) : ∃ new, names.foldl meet seen = seen ++ new := by
  induction names generalizing seen with
  | nil => exact ⟨[], (List.append_nil _).symm⟩
  | cons name names ih =>
    obtain ⟨new, grown⟩ := ih (meet seen name)
    rw [List.foldl_cons, grown, meet]
    split
    · exact ⟨new, rfl⟩
    · exact ⟨name :: new, by rw [List.append_assoc]; rfl⟩

/-- The name that is added first comes after known names only. -/
theorem first_added {names seen new : List α} {name : α}
    (added : names.foldl meet seen = seen ++ name :: new) :
    ∃ early late, names = early ++ name :: late ∧ early ⊆ seen := by
  induction names with
  | nil => simp at added
  | cons first names ih =>
    rw [List.foldl_cons, meet] at added
    split at added
    · next known =>
      obtain ⟨early, late, split, old⟩ := ih added
      exact ⟨first :: early, late, by rw [split]; rfl, List.cons_subset.mpr ⟨known, old⟩⟩
    · obtain ⟨more, grown⟩ := foldl_meet_grows names (seen ++ [first])
      rw [grown, List.append_assoc] at added
      have same := List.append_cancel_left added
      rw [List.singleton_append, List.cons.injEq] at same
      exact ⟨[], names, by rw [same.1]; rfl, List.nil_subset _⟩

/-- The names that are not marked. -/
def unmarked (events : List (α × Bool)) : List α :=
  (events.filter fun event => !event.2).map Prod.fst

/-- A name that is first met where it is marked is met unmarked before any further new name is. -/
def MetAgain (seen : List α) (events : List (α × Bool)) : Prop :=
  ∀ before name after, events = before ++ (name, true) :: after → name ∉ seen →
    name ∉ before.map Prod.fst → ∃ early late, unmarked after = early ++ name :: late ∧
      ∀ other ∈ early, other ∈ seen ∨ other ∈ before.map Prod.fst

/-- Only what follows matters once the first name is known. -/
theorem metAgain_cons {seen : List α} {name : α} {marked : Bool} {events : List (α × Bool)} :
    MetAgain seen ((name, marked) :: events) ↔
      (marked = true → name ∉ seen →
        ∃ early late, unmarked events = early ++ name :: late ∧ early ⊆ seen) ∧
      MetAgain (meet seen name) events := by
  constructor
  · intro again
    constructor
    · intro mark new
      obtain ⟨early, late, split, old⟩ := again [] name events (by rw [mark]; rfl) new (by simp)
      exact ⟨early, late, split, fun other member => (old other member).resolve_right (by simp)⟩
    · intro before other after split new unmet
      rw [mem_meet, not_or] at new
      obtain ⟨early, late, found, old⟩ := again ((name, marked) :: before) other after
        (by rw [split]; rfl) new.2 (by simp [new.1, unmet])
      refine ⟨early, late, found, fun known member => ?_⟩
      rw [mem_meet]
      rcases old known member with inSeen | inBefore
      · exact .inl (.inr inSeen)
      · rcases List.mem_cons.mp inBefore with same | later
        · exact .inl (.inl same)
        · exact .inr later
  · rintro ⟨here, later⟩ before other after split new unmet
    cases before with
    | nil =>
      rw [List.nil_append, List.cons.injEq, Prod.mk.injEq] at split
      obtain ⟨early, late, found, old⟩ := here split.1.2 (by rw [split.1.1]; exact new)
      rw [split.2, split.1.1] at found
      exact ⟨early, late, found, fun known member => .inl (old member)⟩
    | cons first before =>
      rw [List.cons_append, List.cons.injEq] at split
      rw [List.map_cons, List.mem_cons, not_or, ← split.1] at unmet
      obtain ⟨early, late, found, old⟩ := later before other after split.2
        (by rw [mem_meet, not_or]; exact ⟨unmet.1, new⟩) unmet.2
      refine ⟨early, late, found, fun known member => ?_⟩
      rcases old known member with inSeen | inBefore
      · rcases mem_meet.mp inSeen with same | inSeen
        · rw [List.map_cons, ← split.1, same]
          exact .inr List.mem_cons_self
        · exact .inl inSeen
      · exact .inr (List.mem_cons_of_mem _ inBefore)

/-- Leaving the marked names out changes nothing if and only if every one of them is met again. -/
theorem foldl_unmarked_iff (events : List (α × Bool)) (seen : List α) :
    (events.map Prod.fst).foldl meet seen = (unmarked events).foldl meet seen ↔
      MetAgain seen events := by
  induction events generalizing seen with
  | nil =>
    constructor
    · intro _ before name after split
      simp at split
    · intro _
      rfl
  | cons event events ih =>
    obtain ⟨name, marked⟩ := event
    rw [metAgain_cons, ← ih, List.map_cons, List.foldl_cons]
    cases marked with
    | false =>
      rw [show unmarked ((name, false) :: events) = name :: unmarked events from rfl, List.foldl_cons]
      simp
    | true =>
      rw [show unmarked ((name, true) :: events) = unmarked events from rfl]
      by_cases known : name ∈ seen
      · rw [meet, if_pos known]
        simp [known]
      · have caught : ∀ early late, unmarked events = early ++ name :: late → early ⊆ seen →
            (unmarked events).foldl meet seen = (unmarked events).foldl meet (meet seen name) := by
          intro early late split old
          have met : early ++ [name] ⊆ meet seen name := by
            intro other member
            rw [mem_meet]
            rcases List.mem_append.mp member with inEarly | last
            · exact .inr (old inEarly)
            · exact .inl (List.mem_singleton.mp last)
          calc
            (unmarked events).foldl meet seen = (name :: late).foldl meet seen := by
              rw [split, foldl_meet_known _ _ old]
            _ = late.foldl meet (meet seen name) := List.foldl_cons ..
            _ = (early ++ [name] ++ late).foldl meet (meet seen name) :=
              (foldl_meet_known _ _ met).symm
            _ = (unmarked events).foldl meet (meet seen name) := by simp [split]
        constructor
        · intro same
          obtain ⟨new, grown⟩ := foldl_meet_grows (events.map Prod.fst) (meet seen name)
          have added : (unmarked events).foldl meet seen = seen ++ name :: new := by
            rw [← same, grown, meet, if_neg known, List.append_assoc]
            rfl
          obtain ⟨early, late, split, old⟩ := first_added added
          exact ⟨fun _ _ => ⟨early, late, split, old⟩, same.trans (caught early late split old)⟩
        · rintro ⟨here, same⟩
          obtain ⟨early, late, split, old⟩ := here rfl known
          exact same.trans (caught early late split old).symm

end FirstMet

section Names

/-- The names in a text from a position on. -/
def namesFrom (previous : Option Char) (skip : Nat) (text : List Char) : List (List Char) :=
  (iterFrom previous 0 skip text).map MentionSpan.name

theorem names_iterFrom (previous : Option Char) (position skip : Nat) (text : List Char) :
    (iterFrom previous position skip text).map MentionSpan.name = namesFrom previous skip text := by
  unfold namesFrom
  generalize 0 = start
  induction text generalizing previous position skip start with
  | nil => rw [iterFrom, iterFrom]
  | cons c text ih =>
    cases skip with
    | succ skip =>
      rw [iterFrom, iterFrom]
      exact ih (some c) (position + 1) skip (start + 1)
    | zero =>
      rw [iterFrom, iterFrom]
      split
      · next length name _ =>
        rw [List.map_cons, List.map_cons, ih (some c) (position + 1) length (start + 1)]
      · exact ih (some c) (position + 1) 0 (start + 1)

theorem namesFrom_skip (previous : Option Char) (skip : Nat) (c : Char) (text : List Char) :
    namesFrom previous (skip + 1) (c :: text) = namesFrom (some c) skip text := by
  rw [namesFrom, iterFrom]
  exact names_iterFrom ..

theorem namesFrom_plain (previous : Option Char) {c : Char} (plain : c ≠ '@') (text : List Char) :
    namesFrom previous 0 (c :: text) = namesFrom (some c) 0 text := by
  rw [namesFrom, iterFrom, if_neg fun mark => plain mark.1]
  exact names_iterFrom ..

/-- Of what stands before a text only a word character matters. -/
theorem namesFrom_apart {previous : Option Char} (apart : previous.any isAsciiWordChar = false)
    (text : List Char) : namesFrom previous 0 text = namesFrom none 0 text := by
  cases text with
  | nil => rfl
  | cons c text =>
    rw [namesFrom, namesFrom, iterFrom, iterFrom, apart]
    rfl

theorem not_legacy_of_space {c : Char} (space : isSpace c = true) : isLegacyMentionChar c = false := by
  have notWord := not_word_of_space space
  have range : ¬(0x4E00 ≤ c.toNat ∧ c.toNat ≤ 0x9FFF) := by
    simp only [isSpace, Bool.or_eq_true, Bool.and_eq_true, decide_eq_true_eq, beq_iff_eq] at space
    omega
  unfold isLegacyMentionChar
  unfold isAsciiWordChar at notWord
  rw [notWord, Bool.false_or]
  simpa using range

theorem mentionAt_wrapped (inner : List Char) : mentionAt ('[' :: inner) =
    if inner.takeWhile (· ≠ ']') ≠ [] ∧ (inner.takeWhile (· ≠ ']')).length < inner.length ∧
        ((inner.takeWhile (· ≠ ']')).all fun c => c ≠ '\r' && c ≠ '\n') then
      some ((inner.takeWhile (· ≠ ']')).length + 2, inner.takeWhile (· ≠ ']'))
    else none := rfl

theorem mentionAt_snoc {c : Char} (space : isSpace c = true) (text : List Char) :
    mentionAt (text ++ [c]) = mentionAt text := by
  have notLegacy := not_legacy_of_space space
  have noBracket : ∀ d : Char, isSpace d = false → c ≠ d := by
    intro d visible same
    rw [← same, space] at visible
    cases visible
  cases text with
  | nil =>
    rw [List.nil_append, mentionAt_legacy (noBracket '[' (by decide)), List.takeWhile_cons_of_neg
      (by simp [notLegacy])]
    rfl
  | cons d text =>
    by_cases bracket : d = '['
    · subst bracket
      rw [List.cons_append, mentionAt_wrapped, mentionAt_wrapped, List.takeWhile_append]
      split
      · next whole =>
        rw [List.takeWhile_cons_of_pos (by simpa using noBracket ']' (by decide)), List.takeWhile_nil,
          if_neg (by simp), if_neg (by rw [whole]; simp)]
      · next partly =>
        have shorter := (List.takeWhile_prefix (l := text) fun d => decide (d ≠ ']')).length_le
        have inside : (text.takeWhile fun d => decide (d ≠ ']')).length < text.length :=
          lt_of_le_of_ne shorter partly
        have longer : (text.takeWhile fun d => decide (d ≠ ']')).length < (text ++ [c]).length := by
          rw [List.length_append]
          exact Nat.lt_succ_of_lt inside
        simp only [longer, inside]
    · rw [List.cons_append, mentionAt_legacy bracket, mentionAt_legacy bracket, ← List.cons_append,
        List.takeWhile_append]
      split
      · next whole =>
        rw [List.takeWhile_cons_of_neg (by simp [notLegacy]), List.append_nil,
          (List.takeWhile_prefix isLegacyMentionChar).eq_of_length whole]
      · rfl

theorem namesFrom_lstrip (text : List Char) :
    namesFrom none 0 (lstrip text) = namesFrom none 0 text := by
  induction text with
  | nil => rfl
  | cons c text ih =>
    unfold lstrip at ih ⊢
    by_cases space : isSpace c = true
    · have plain : c ≠ '@' := by
        intro same
        rw [same] at space
        revert space
        decide
      rw [List.dropWhile_cons_of_pos space, ih, namesFrom_plain none plain,
        @namesFrom_apart (some c) (not_word_of_space space) text]
    · rw [List.dropWhile_cons_of_neg space]

theorem namesFrom_snoc {c : Char} (space : isSpace c = true) (previous : Option Char) (skip : Nat)
    (text : List Char) : namesFrom previous skip (text ++ [c]) = namesFrom previous skip text := by
  induction text generalizing previous skip with
  | nil =>
    have plain : c ≠ '@' := by
      intro same
      rw [same] at space
      revert space
      decide
    cases skip with
    | zero =>
      rw [List.nil_append, namesFrom_plain previous plain]
      rfl
    | succ skip =>
      rw [List.nil_append, namesFrom_skip]
      cases skip <;> rfl
  | cons d text ih =>
    cases skip with
    | succ skip =>
      rw [List.cons_append, namesFrom_skip, namesFrom_skip]
      exact ih (some d) skip
    | zero =>
      rw [List.cons_append, namesFrom, namesFrom, iterFrom, iterFrom, mentionAt_snoc space]
      split
      · next length name _ =>
        rw [List.map_cons, List.map_cons, names_iterFrom, names_iterFrom, ih (some d) length]
      · rw [names_iterFrom, names_iterFrom, ih (some d) 0]

theorem namesFrom_strip (text : List Char) :
    namesFrom none 0 (strip text) = namesFrom none 0 text := by
  rw [← namesFrom_lstrip text, strip]
  generalize lstrip text = body
  induction body using List.reverseRecOn with
  | nil => rfl
  | append_singleton body c ih =>
    by_cases space : isSpace c = true
    · rw [List.rdropWhile_concat_pos _ _ _ space, ih, namesFrom_snoc space]
    · rw [List.rdropWhile_concat_neg _ _ _ space]

/-- Nothing is found in text without a mention mark. -/
theorem namesFrom_append (previous : Option Char) {before : List Char} (plain : '@' ∉ before)
    (c : Char) (text : List Char) (other : c ≠ '@') :
    namesFrom previous 0 (before ++ c :: text) = namesFrom (some c) 0 text := by
  induction before generalizing previous with
  | nil => exact namesFrom_plain previous other text
  | cons d before ih =>
    rw [List.mem_cons, not_or] at plain
    rw [List.cons_append, namesFrom_plain previous (Ne.symm plain.1)]
    exact ih (some d) plain.2

end Names

section Shots

variable (u : Unicode)

/-- The names of a line, whether or not it is one of dialogue. -/
def lineNames (line : List Char) : List (List Char) :=
  (namesFrom none 0 line).map (assetNameComparisonKey u)

theorem lineMentions_eq {line : List Char} (normalized : Normalized u line) :
    lineMentions u line = if (matchDialogueLine u (headerless u line)).isSome then []
      else lineNames u line := by
  unfold lineMentions stripShotHeader lineNames namesFrom headerless
  rw [normalized, List.map_map]
  rfl

theorem shotHeader?_strip (line : List Char) : shotHeader? u (strip line) = shotHeader? u line := by
  rw [shotHeader?_eq, shotHeader?_eq, strip_strip]

theorem lineMentions_core {line : List Char} (normalized : Normalized u line) :
    lineMentions u (core u line) = lineMentions u line := by
  have stripped : core u line = strip line := by rw [core, normalized]
  have dialogue : (matchDialogueLine u (headerless u (core u line))).isSome =
      (matchDialogueLine u (headerless u line)).isSome := by
    unfold headerless
    rw [stripped, shotHeader?_strip]
    cases shotHeader? u line with
    | none =>
      rw [Option.getD_none, Option.getD_none, ← stripped, matchDialogueLine_core]
    | some rest => rfl
  rw [lineMentions_eq u (normalizeSource_core u line), lineMentions_eq u normalized, dialogue,
    lineNames, lineNames, stripped, namesFrom_strip]

/-- The mentions of a text are heard of its lines. -/
theorem extractMentions_hear (text : List Char) :
    extractMentions u text = firstSeen (hear u (lineMentions u) text) := by
  rw [extractMentions_eq, hear, perLine]
  congr 2
  funext line
  rw [← core_normalizeSource]
  exact (lineMentions_core u (normalizeSource_idem u line)).symm

variable {u}

theorem plain_header {line rest : List Char} (normalized : Normalized u line)
    (plain : ∀ c ∈ line, isLineBreak c = false) (header : shotHeader? u line = some rest) :
    ∀ c ∈ rest, isLineBreak c = false := by
  rw [← normalized] at header
  obtain ⟨body, before, c, split, same, _⟩ := header_split header
  intro d member
  apply plain
  rw [← normalized]
  apply @mem_of_mem_strip d
  change d ∈ core u line
  rw [same] at member
  rw [split]
  exact List.mem_append_right _ (List.mem_cons_of_mem _ (List.dropWhile_subset _ member))

/-- A header has no name in it. -/
theorem lineNames_header {line rest : List Char} (normalized : Normalized u line)
    (header : shotHeader? u line = some rest) : lineNames u line = lineNames u rest := by
  have stripped : core u line = strip line := by rw [core, normalized]
  rw [← normalized] at header
  obtain ⟨body, before, c, split, same, colon, plain⟩ := header_split header
  have visible := colon_plain colon
  have apart : (some c).any isAsciiWordChar = false := by
    have either : c = ':' ∨ c = '：' := by simpa [isColon] using colon
    rcases either with same | same <;> rw [same] <;> decide
  have noMark : '@' ∉ '镜' :: before := by
    rw [List.mem_cons, not_or]
    exact ⟨by decide, fun member => (plain _ member).1 rfl⟩
  rw [lineNames, lineNames, ← namesFrom_strip line, ← stripped, split, same, namesFrom_lstrip,
    namesFrom_append none noMark c body visible.1, namesFrom_apart apart]

variable (u)

/-- A line of dialogue behind two shot headers. -/
def doublyHeaded (line : List Char) : Bool :=
  ((shotHeader? u line).bind (shotHeader? u)).any fun inner => (matchDialogueLine u inner).isSome

variable {u}

/-- A line in a shot has the names that it has in the prompt, but for dialogue behind two headers. -/
theorem lineMentions_headerless {line : List Char} (normalized : Normalized u line) :
    lineMentions u (headerless u line) = if doublyHeaded u line then [] else lineMentions u line := by
  rw [lineMentions_eq u normalized]
  unfold headerless doublyHeaded
  cases header : shotHeader? u line with
  | none =>
    rw [Option.getD_none, lineMentions_eq u normalized, headerless, header]
    rfl
  | some rest =>
    have restNormalized := normalized.header header
    rw [Option.getD_some, Option.bind_some, lineMentions_eq u restNormalized, headerless,
      lineNames_header normalized header]
    cases again : shotHeader? u rest with
    | none => rfl
    | some inner =>
      have silent : matchDialogueLine u rest = none := by
        rw [← restNormalized] at again
        obtain ⟨body, before, c, split, _⟩ := header_split again
        have unsaid := @said_of_header u rest (before ++ c :: body) split
        rw [said] at unsaid
        split at unsaid
        · cases unsaid
        · assumption
      rw [silent]
      rfl

theorem hear_headerless {line : List Char} (normalized : Normalized u line)
    (plain : ∀ c ∈ line, isLineBreak c = false) :
    hear u (lineMentions u) (headerless u line) =
      if doublyHeaded u line then [] else lineMentions u line := by
  rw [← lineMentions_headerless normalized]
  unfold headerless
  cases header : shotHeader? u line with
  | none =>
    rw [Option.getD_none, hear_plain u (lineMentions_nil u) plain, lineMentions_core u normalized]
  | some rest =>
    rw [Option.getD_some, hear_plain u (lineMentions_nil u) (plain_header normalized plain header),
      lineMentions_core u (normalized.header header)]

variable (u)

/-- The names from which `rederive_unit_references` derives the references of a unit. -/
def rederivedMentions (shots : List (List Char)) : List (List Char) :=
  extractMentions u (joinLines shots)

/-- The names of the lines of a prompt, marked where the line is dialogue behind two headers. -/
def headedMentions (text : List Char) : List (List Char × Bool) :=
  (splitlines (normalizeSource u text)).flatMap fun line =>
    (lineMentions u line).map fun name => (name, doublyHeaded u line)

theorem parsePrompt_mentions (text : List Char) :
    (parsePrompt u text).2 = firstSeen ((headedMentions u text).map Prod.fst) := by
  change extractMentions u (normalizeSource u text) = _
  rw [extractMentions_hear, hear, perLine, headedMentions, List.map_flatMap]
  congr 1
  apply List.flatMap_congr
  intro line member
  have normalized := normalized_of_mem_splitlines (normalizeSource_idem u text) member
  rw [lineMentions_core u normalized, List.map_map]
  exact (List.map_id _).symm

theorem rederivedMentions_parsePrompt (text : List Char) :
    rederivedMentions u (parsePrompt u text).1 = firstSeen (unmarked (headedMentions u text)) := by
  change extractMentions u (joinLines (parseShots u (normalizeSource u text))) = _
  rw [extractMentions_hear, hear_joinLines u (lineMentions_nil u),
    hear_parseShots u (lineMentions_nil u), unmarked, headedMentions, List.filter_flatMap,
    List.map_flatMap]
  congr 1
  apply List.flatMap_congr
  intro line member
  have normalized := normalized_of_mem_splitlines (normalizeSource_idem u text) member
  rw [hear_headerless normalized (plain_of_mem_splitlines member), List.filter_map, List.map_map]
  cases doublyHeaded u line with
  | true => simp
  | false => simp [Function.comp_def]

/-- The names of the prompt and of its shots are the same if and only if every name that is first
met in dialogue behind two headers is met again elsewhere before any further new name is. -/
theorem rederived_mentions_iff (text : List Char) :
    (parsePrompt u text).2 = rederivedMentions u (parsePrompt u text).1 ↔
      MetAgain [] (headedMentions u text) := by
  rw [parsePrompt_mentions, rederivedMentions_parsePrompt, firstSeen_eq, firstSeen_eq]
  exact foldl_unmarked_iff (headedMentions u text) []

/-- Dialogue behind two headers: a name in the prompt and none in its shot. -/
theorem twice_headed_name_is_lost :
    ¬∀ text, (parsePrompt plainUnicode text).2 =
      rederivedMentions plainUnicode (parsePrompt plainUnicode text).1 := by
  intro same
  have lost := same "镜头1：镜头2：@[甲]：\x7b你好\x7d".toList
  revert lost
  decide

end Shots

end ArcReel.Speech
