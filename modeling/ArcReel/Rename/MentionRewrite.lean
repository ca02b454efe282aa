import ArcReel.Rename.MentionTokens

/-! The mentions of a text after a rename are those before it under the new name, where the rename makes
no mention of what was none. -/

namespace ArcReel.Rename
open Lib PyText Mention Speech

section Reading

/-- A character that ends no wrapped name. -/
def Inner (c : Char) : Prop := c ≠ ']' ∧ c ≠ '\r' ∧ c ≠ '\n'

/-- A name that can be read back from between brackets. -/
def Wrappable (name : List Char) : Prop := name ≠ [] ∧ ∀ c ∈ name, Inner c

/-- A name without brackets and what comes after it. -/
def Bare (name after : List Char) : Prop :=
  name ≠ [] ∧ (∀ c ∈ name, isLegacyMentionChar c = true) ∧
    ∀ c ∈ after.head?, isLegacyMentionChar c = false

theorem takeWhile_stop {α : Type} {p : α → Bool} {before after : List α}
    (all : ∀ c ∈ before, p c = true) (stop : ∀ c ∈ after.head?, p c = false) :
    (before ++ after).takeWhile p = before := by
  rw [List.takeWhile_append_of_pos all]
  cases after with
  | nil => rw [List.takeWhile_nil, List.append_nil]
  | cons c after =>
    rw [List.takeWhile_cons_of_neg (by simp [stop c rfl]), List.append_nil]

theorem mentionAt_of_wrapped {name : List Char} (wrappable : Wrappable name) (after : List Char) :
    mentionAt ('[' :: (name ++ ']' :: after)) = some (name.length + 2, name) := by
  have taken : (name ++ ']' :: after).takeWhile (· ≠ ']') = name := by
    apply takeWhile_stop
    · exact fun c member => decide_eq_true (wrappable.2 c member).1
    · intro c head
      rw [List.head?_cons, Option.mem_some_iff] at head
      rw [← head]
      rfl
  rw [mentionAt_wrapped, taken, if_pos]
  refine ⟨wrappable.1, by simp, List.all_eq_true.mpr fun c member => ?_⟩
  simpa using (wrappable.2 c member).2

theorem not_legacy_bracket : isLegacyMentionChar '[' = false := by decide

theorem not_legacy_mark : isLegacyMentionChar '@' = false := by decide

theorem mentionAt_of_bare {name after : List Char} (bare : Bare name after) :
    mentionAt (name ++ after) = some (name.length, name) := by
  obtain ⟨nonempty, all, stop⟩ := bare
  have taken := takeWhile_stop all stop
  cases name with
  | nil => exact absurd rfl nonempty
  | cons c name =>
    have plain : c ≠ '[' := by
      intro bracket
      have legacy := all c List.mem_cons_self
      rw [bracket, not_legacy_bracket] at legacy
      cases legacy
    rw [List.cons_append, mentionAt_legacy plain, ← List.cons_append, taken, if_pos nonempty]

theorem mentionAt_cases {text name : List Char} {length : Nat}
    (found : mentionAt text = some (length, name)) : ∃ after,
      (text = '[' :: (name ++ ']' :: after) ∧ length = name.length + 2 ∧ Wrappable name) ∨
        (text = name ++ after ∧ length = name.length ∧ Bare name after) := by
  cases text with
  | nil => cases found
  | cons c text =>
    by_cases bracket : c = '['
    · rw [bracket, mentionAt_wrapped] at found
      split_ifs at found with closed
      rw [Option.some.injEq, Prod.mk.injEq] at found
      obtain ⟨nonempty, shorter, free⟩ := closed
      have split : text.takeWhile (· ≠ ']') ++ text.dropWhile (· ≠ ']') = text :=
        List.takeWhile_append_dropWhile
      have stops := List.head?_dropWhile_not (fun c => decide (c ≠ ']')) text
      cases rest : text.dropWhile (· ≠ ']') with
      | nil =>
        rw [rest, List.append_nil] at split
        rw [split] at shorter
        exact absurd shorter (lt_irrefl _)
      | cons d after =>
        rw [rest] at stops split
        have square : d = ']' := by simpa using stops
        rw [found.2, square] at split
        refine ⟨after, .inl ⟨by rw [bracket, split], by rw [← found.1, found.2], by rw [← found.2]; exact nonempty, ?_⟩⟩
        intro e member
        rw [← found.2] at member
        have inside := List.all_eq_true.mp free e member
        have square := List.mem_takeWhile_imp member
        exact ⟨of_decide_eq_true square, by simpa using inside⟩
    · rw [mentionAt_legacy bracket] at found
      split_ifs at found with nonempty
      rw [Option.some.injEq, Prod.mk.injEq] at found
      have split : (c :: text).takeWhile isLegacyMentionChar ++ (c :: text).dropWhile isLegacyMentionChar =
          c :: text := List.takeWhile_append_dropWhile
      have stops := List.head?_dropWhile_not isLegacyMentionChar (c :: text)
      refine ⟨_, .inr ⟨by rw [← found.2, split], by rw [← found.1, found.2], by rw [← found.2]; exact nonempty, ?_, ?_⟩⟩
      · intro d member
        rw [← found.2] at member
        exact List.mem_takeWhile_imp member
      · intro d head
        rw [Option.mem_def.mp head] at stops
        exact stops

theorem mentionAt_ne_none {c : Char} (plain : c ≠ '[') (text : List Char) :
    mentionAt (c :: text) ≠ none ↔ isLegacyMentionChar c = true := by
  rw [mentionAt_legacy plain]
  by_cases legacy : isLegacyMentionChar c = true
  · simp [List.takeWhile_cons_of_pos, legacy]
  · simp [legacy]

/-- A bracket comes before any line break. -/
def Closes (text : List Char) : Prop :=
  ∃ name after, text = name ++ ']' :: after ∧ ∀ c ∈ name, Inner c

theorem mentionAt_bracket {inner : List Char} :
    mentionAt ('[' :: inner) ≠ none ↔ Closes inner ∧ inner.head? ≠ some ']' := by
  constructor
  · intro something
    obtain ⟨pair, found⟩ := Option.ne_none_iff_exists'.mp something
    obtain ⟨after, wrapped | bare⟩ := mentionAt_cases found
    · obtain ⟨same, _, nonempty, all⟩ := wrapped
      rw [List.cons.injEq] at same
      refine ⟨⟨pair.2, after, same.2, all⟩, ?_⟩
      rw [same.2]
      cases name : pair.2 with
      | nil => exact absurd name nonempty
      | cons c rest =>
        have first := (all c (by rw [name]; exact List.mem_cons_self)).1
        simpa using first
    · obtain ⟨same, _, nonempty, all, _⟩ := bare
      cases name : pair.2 with
      | nil => exact absurd name nonempty
      | cons c rest =>
        rw [name, List.cons_append, List.cons.injEq] at same
        have legacy := all c (by rw [name]; exact List.mem_cons_self)
        rw [← same.1, not_legacy_bracket] at legacy
        cases legacy
  · rintro ⟨⟨name, after, same, all⟩, first⟩
    have nonempty : name ≠ [] := by
      intro none
      rw [same, none] at first
      exact first rfl
    rw [same, mentionAt_of_wrapped ⟨nonempty, all⟩]
    exact Option.some_ne_none _

theorem closes_append {before : List Char} (all : ∀ c ∈ before, Inner c) (after : List Char) :
    Closes (before ++ after) ↔ Closes after := by
  constructor
  · rintro ⟨name, rest, same, free⟩
    rcases List.append_eq_append_iff.mp same with ⟨middle, left, right⟩ | ⟨middle, left, right⟩
    · exact ⟨middle, rest, right, fun c member => free c (by rw [left]; exact List.mem_append_right _ member)⟩
    · cases middle with
      | nil =>
        rw [List.nil_append] at right
        exact ⟨[], rest, right.symm, by simp⟩
      | cons c middle =>
        rw [List.cons_append, List.cons.injEq] at right
        have inner := all c (by rw [left]; simp)
        rw [← right.1] at inner
        exact absurd rfl inner.1
  · rintro ⟨name, rest, same, free⟩
    refine ⟨before ++ name, rest, by rw [same, List.append_assoc], fun c member => ?_⟩
    rcases List.mem_append.mp member with inBefore | inName
    · exact all c inBefore
    · exact free c inName

theorem closes_here {before : List Char} (all : ∀ c ∈ before, Inner c) (after : List Char) :
    Closes (before ++ ']' :: after) := ⟨before, after, rfl, all⟩

/-- The two ways to write a mention. -/
theorem raw_of_valid {previous : Option Char} {raw name : List Char} {rest : List Token}
    (valid : Valid previous (.mention raw name :: rest)) :
    (raw = '@' :: '[' :: (name ++ [']']) ∧ Wrappable name) ∨
      (raw = '@' :: name ∧ Bare name (written rest)) := by
  obtain ⟨_, ⟨body, same, found⟩, _⟩ := valid
  obtain ⟨after, wrapped | bare⟩ := mentionAt_cases found
  · obtain ⟨split, length, wrappable⟩ := wrapped
    have shape : body ++ written rest = '[' :: (name ++ [']']) ++ after := by rw [split]; simp
    have body_eq := (List.append_inj shape (by rw [length]; simp)).1
    exact .inl ⟨by rw [same, body_eq], wrappable⟩
  · obtain ⟨split, length, bareName⟩ := bare
    obtain ⟨body_eq, rest_eq⟩ := List.append_inj split length
    exact .inr ⟨by rw [same, body_eq], by rw [rest_eq]; exact bareName⟩

theorem inner_of_legacy {c : Char} (legacy : isLegacyMentionChar c = true) : Inner c := by
  refine ⟨?_, ?_, ?_⟩
  all_goals
    intro same
    rw [same] at legacy
    revert legacy
    decide

theorem inner_mark : Inner '@' := ⟨by decide, by decide, by decide⟩

/-- Nothing ends a name before the bracket of a wrapped one. -/
theorem inner_opened {name : List Char} (all : ∀ c ∈ name, Inner c) :
    ∀ c ∈ '@' :: '[' :: name, Inner c :=
  List.forall_mem_cons.mpr ⟨inner_mark, List.forall_mem_cons.mpr
    ⟨⟨by decide, by decide, by decide⟩, all⟩⟩

end Reading

section Rewriting

/-- A mention under the new name, if its name is renamed. -/
def Token.rewrite (renamed : List Char → Bool) (new : List Char) : Token → Token
  | .plain c => .plain c
  | .mention raw name =>
      if renamed name then .mention ('@' :: '[' :: (new ++ [']'])) new else .mention raw name

variable (renamed : List Char → Bool) (new : List Char)

/-- The text of the tokens under the new name. -/
def rewrittenText (tokens : List Token) : List Char := written (tokens.map (Token.rewrite renamed new))

/-- A mention can be read behind an `@` as soon as the renamed ones are rewritten: it can be read
already, or an open bracket is closed by the first of them. -/
def Opens (rest : List Token) : Prop :=
  mentionAt (written rest) ≠ none ∨
    ∃ early raw name late, rest = .plain '[' :: (early ++ .mention raw name :: late) ∧
      renamed name = true ∧ ∀ c ∈ written early, Inner c

/-- Where a mention could be read and is none, a word character is to the left that is in no renamed
mention. -/
def Stable : Option Char → List Token → Prop
  | _, [] => True
  | left, .plain c :: rest =>
      (c = '@' → Opens renamed rest → left.any isAsciiWordChar = true) ∧ Stable (some c) rest
  | _, .mention raw name :: rest => Stable (if renamed name then none else raw.getLast?) rest

variable {renamed new}

@[simp] theorem rewritten_plain (c : Char) (tokens : List Token) :
    rewrittenText renamed new (.plain c :: tokens) = c :: rewrittenText renamed new tokens := rfl

theorem rewritten_kept {raw name : List Char} (kept : renamed name = false) (tokens : List Token) :
    rewrittenText renamed new (.mention raw name :: tokens) = raw ++ rewrittenText renamed new tokens := by
  rw [rewrittenText, List.map_cons, Token.rewrite, kept]
  rfl

theorem rewritten_renamed {raw name : List Char} (change : renamed name = true) (tokens : List Token) :
    rewrittenText renamed new (.mention raw name :: tokens) =
      '@' :: '[' :: (new ++ ']' :: rewrittenText renamed new tokens) := by
  rw [rewrittenText, List.map_cons, Token.rewrite, change]
  simp [rewrittenText]

theorem rewritten_append (first second : List Token) : rewrittenText renamed new (first ++ second) =
    rewrittenText renamed new first ++ rewrittenText renamed new second := by
  rw [rewrittenText, List.map_append, written_append]
  rfl

theorem head_rewritten {previous : Option Char} {tokens : List Token} (valid : Valid previous tokens) :
    (rewrittenText renamed new tokens).head? = (written tokens).head? := by
  cases tokens with
  | nil => rfl
  | cons token tokens =>
    cases token with
    | plain c => rfl
    | mention raw name =>
      obtain ⟨body, same, _⟩ := valid.2.1
      by_cases change : renamed name = true
      · rw [rewritten_renamed change, written_mention, same]
        rfl
      · rw [rewritten_kept (eq_false_of_ne_true change), written_mention, same]
        rfl

theorem stable_congr {left other : Option Char}
    (same : left.any isAsciiWordChar = other.any isAsciiWordChar) (tokens : List Token) :
    Stable renamed left tokens ↔ Stable renamed other tokens := by
  cases tokens with
  | nil => exact Iff.rfl
  | cons token tokens =>
    cases token with
    | plain c => rw [Stable, Stable, same]
    | mention raw name => exact Iff.rfl

/-- What closes a bracket under the new name. -/
theorem closes_rewritten (wrappable : Wrappable new) {previous : Option Char} {tokens : List Token}
    (valid : Valid previous tokens) : Closes (rewrittenText renamed new tokens) ↔
      Closes (written tokens) ∨ ∃ early raw name late,
        tokens = early ++ .mention raw name :: late ∧ renamed name = true ∧
          ∀ c ∈ written early, Inner c := by
  have later : ∀ (token : Token) (tokens : List Token), (∀ c ∈ token.text, Inner c) →
      (∀ raw name, token = .mention raw name → renamed name = false) →
        ((∃ early raw name late, token :: tokens = early ++ .mention raw name :: late ∧
            renamed name = true ∧ ∀ c ∈ written early, Inner c) ↔
          ∃ early raw name late, tokens = early ++ .mention raw name :: late ∧
            renamed name = true ∧ ∀ c ∈ written early, Inner c) := by
    intro token tokens inner kept
    constructor
    · rintro ⟨early, raw, name, late, split, change, free⟩
      cases early with
      | nil =>
        rw [List.nil_append, List.cons.injEq] at split
        rw [kept raw name split.1] at change
        cases change
      | cons first early =>
        rw [List.cons_append, List.cons.injEq] at split
        exact ⟨early, raw, name, late, split.2, change, fun c member => free c (List.mem_append_right _ member)⟩
    · rintro ⟨early, raw, name, late, split, change, free⟩
      refine ⟨token :: early, raw, name, late, by rw [split]; rfl, change, fun c member => ?_⟩
      rcases List.mem_append.mp member with here | there
      · exact inner c here
      · exact free c there
  induction tokens generalizing previous with
  | nil =>
    constructor
    · exact .inl
    · rintro (closes | ⟨early, raw, name, late, split, _⟩)
      · exact closes
      · simp at split
  | cons token tokens ih =>
    cases token with
    | plain c =>
      by_cases inner : Inner c
      · have single : ∀ d ∈ [c], Inner d := by simpa using inner
        have textual : ∀ text : List Char, Closes (c :: text) ↔ Closes text := closes_append single
        rw [rewritten_plain, written_plain, textual, textual, later (.plain c) tokens single (by simp)]
        exact ih valid.2
      · by_cases square : c = ']'
        · rw [rewritten_plain, written_plain, square]
          have closed : ∀ text : List Char, Closes (']' :: text) := @closes_here [] (by simp)
          exact ⟨fun _ => .inl (closed _), fun _ => closed _⟩
        · have unclosed : ∀ text : List Char, ¬Closes (c :: text) := by
            rintro text ⟨name, after, same, free⟩
            cases name with
            | nil =>
              rw [List.nil_append, List.cons.injEq] at same
              exact square same.1
            | cons d name =>
              rw [List.cons_append, List.cons.injEq] at same
              exact inner (same.1 ▸ free d List.mem_cons_self)
          constructor
          · intro closes
            exact absurd closes (unclosed _)
          · rintro (closes | ⟨early, raw, name, late, split, change, free⟩)
            · exact absurd closes (unclosed _)
            · cases early with
              | nil => simp at split
              | cons first early =>
                rw [List.cons_append, List.cons.injEq] at split
                rw [← split.1] at free
                exact absurd (free c List.mem_cons_self) inner
    | mention raw name =>
      by_cases change : renamed name = true
      · constructor
        · intro _
          exact .inr ⟨[], raw, name, tokens, rfl, change, by simp⟩
        · intro _
          rw [rewritten_renamed change]
          exact @closes_here ('@' :: '[' :: new) (inner_opened wrappable.2) _
      · have kept := eq_false_of_ne_true change
        rw [rewritten_kept kept, written_mention]
        rcases raw_of_valid valid with ⟨shape, wrapped⟩ | ⟨shape, bare⟩
        · have closed : ∀ text : List Char, Closes (raw ++ text) := by
            intro text
            rw [shape]
            have here := closes_here (inner_opened wrapped.2) text
            simpa using here
          exact ⟨fun _ => .inl (closed _), fun _ => closed _⟩
        · have inner : ∀ c ∈ raw, Inner c := by
            rw [shape]
            exact List.forall_mem_cons.mpr ⟨inner_mark, fun c member => inner_of_legacy (bare.2.1 c member)⟩
          have unchanged : ∀ text other, Token.mention raw name = .mention text other →
              renamed other = false := by
            intro text other same
            rw [Token.mention.injEq] at same
            rw [← same.2, kept]
          rw [closes_append inner, closes_append inner, later (.mention raw name) tokens inner unchanged]
          exact ih valid.2.2

/-- A mention can be read behind an `@` of the new text where one opens. -/
theorem opens_iff (wrappable : Wrappable new) {previous : Option Char} {rest : List Token}
    (valid : Valid previous rest) :
    Opens renamed rest ↔ mentionAt (rewrittenText renamed new rest) ≠ none := by
  cases rest with
  | nil =>
    constructor
    · rintro (something | ⟨early, raw, name, late, split, _⟩)
      · exact something
      · cases split
    · exact .inl
  | cons token rest =>
    cases token with
    | plain c =>
      rw [Opens, written_plain, rewritten_plain]
      by_cases bracket : c = '['
      · have head := @head_rewritten renamed new _ _ valid.2
        rw [bracket, mentionAt_bracket, mentionAt_bracket, closes_rewritten wrappable valid.2, head]
        constructor
        · rintro (⟨closes, first⟩ | ⟨early, raw, name, late, split, change, free⟩)
          · exact ⟨.inl closes, first⟩
          · rw [List.cons.injEq] at split
            refine ⟨.inr ⟨early, raw, name, late, split.2, change, free⟩, ?_⟩
            rw [split.2]
            cases early with
            | nil =>
              rw [split.2] at valid
              obtain ⟨body, same, _⟩ := valid.2.2.1
              rw [List.nil_append, written_mention, same]
              simp
            | cons first early =>
              intro square
              rw [List.cons_append] at square split
              cases first with
              | plain d =>
                rw [written_plain, List.head?_cons, Option.some.injEq] at square
                exact (free d List.mem_cons_self).1 square
              | mention raw name =>
                rw [split.2] at valid
                obtain ⟨body, same, _⟩ := valid.2.2.1
                rw [written_mention, same] at square
                simp at square
        · rintro ⟨closes | ⟨early, raw, name, late, split, change, free⟩, first⟩
          · exact .inl ⟨closes, first⟩
          · exact .inr ⟨early, raw, name, late, by rw [split], change, free⟩
      · rw [mentionAt_ne_none bracket, mentionAt_ne_none bracket]
        constructor
        · rintro (legacy | ⟨early, raw, name, late, split, _⟩)
          · exact legacy
          · rw [List.cons.injEq, Token.plain.injEq] at split
            exact absurd split.1 bracket
        · exact .inl
    | mention raw name =>
      obtain ⟨body, same, _⟩ := valid.2.1
      have hidden : ∀ text : List Char, ¬mentionAt ('@' :: text) ≠ none := by
        intro text something
        rw [mentionAt_ne_none (by decide), not_legacy_mark] at something
        cases something
      constructor
      · rintro (something | ⟨early, other, label, late, split, _⟩)
        · rw [written_mention, same] at something
          exact absurd something (hidden _)
        · cases split
      · intro something
        by_cases change : renamed name = true
        · rw [rewritten_renamed change] at something
          exact absurd something (hidden _)
        · rw [rewritten_kept (eq_false_of_ne_true change), same] at something
          exact absurd something (hidden _)

/-- Of a mention that is kept as much is read in the new text. -/
theorem mention_kept {previous : Option Char} {raw name : List Char} {rest : List Token}
    (valid : Valid previous (.mention raw name :: rest)) : ∃ body, raw = '@' :: body ∧
      mentionAt (body ++ rewrittenText renamed new rest) = some (body.length, name) := by
  rcases raw_of_valid valid with ⟨shape, wrapped⟩ | ⟨shape, bare⟩
  · refine ⟨_, shape, ?_⟩
    have found := mentionAt_of_wrapped wrapped (rewrittenText renamed new rest)
    simpa using found
  · refine ⟨_, shape, mentionAt_of_bare ⟨bare.1, bare.2.1, ?_⟩⟩
    rw [head_rewritten valid.2.2]
    exact bare.2.2

theorem mention_renamed (wrappable : Wrappable new) (after : List Char) :
    mentionAt ('[' :: (new ++ [']']) ++ after) = some (('[' :: (new ++ [']'])).length, new) := by
  have found := mentionAt_of_wrapped wrappable after
  simpa using found

theorem last_renamed (new : List Char) :
    ('@' :: '[' :: (new ++ [']'])).getLast? = some ']' := by
  rw [← List.cons_append, ← List.cons_append, List.getLast?_append]
  rfl

/-- In a stable text the mentions are read again after the rename, one for one. -/
theorem valid_rewritten (wrappable : Wrappable new) {previous left left' : Option Char}
    {tokens : List Token} (valid : Valid previous tokens) (stable : Stable renamed left tokens)
    (fewer : left.any isAsciiWordChar = true → previous.any isAsciiWordChar = true)
    (same : left'.any isAsciiWordChar = left.any isAsciiWordChar) :
    Valid left' (tokens.map (Token.rewrite renamed new)) := by
  induction tokens generalizing previous left left' with
  | nil => exact trivial
  | cons token tokens ih =>
    cases token with
    | plain c =>
      refine ⟨fun mark apart => ?_, ih valid.2 stable.2 id rfl⟩
      by_contra something
      have opens := (opens_iff wrappable valid.2).mpr something
      rw [same, stable.1 mark opens] at apart
      cases apart
    | mention raw name =>
      have apart : left'.any isAsciiWordChar = false := by
        rw [same]
        by_contra word
        have before := fewer (eq_true_of_ne_false word)
        rw [valid.1] at before
        cases before
      rw [List.map_cons, Token.rewrite]
      by_cases change : renamed name = true
      · rw [Stable, if_pos change] at stable
        rw [if_pos change]
        refine ⟨apart, ⟨_, rfl, mention_renamed wrappable _⟩, ?_⟩
        apply ih valid.2.2 stable
        · intro word
          cases word
        · rw [last_renamed]
          rfl
      · rw [Stable, if_neg change] at stable
        rw [if_neg change]
        exact ⟨apart, mention_kept valid, ih valid.2.2 stable id rfl⟩

end Rewriting

section Strays

variable {renamed : List Char → Bool} {new : List Char}

/-- The `@` that start no mention. -/
def strays (tokens : List Token) : Nat := tokens.countP fun token => token = .plain '@'

theorem strays_append (first second : List Token) :
    strays (first ++ second) = strays first + strays second := List.countP_append ..

theorem append_square {before name text after : List Char} (free : ']' ∉ before)
    (same : before ++ text = name ++ ']' :: after) :
    ∃ middle, name = before ++ middle ∧ text = middle ++ ']' :: after := by
  rcases List.append_eq_append_iff.mp same with ⟨middle, left, right⟩ | ⟨middle, left, right⟩
  · exact ⟨middle, left, right⟩
  · cases middle with
    | nil => exact ⟨[], by rw [left]; simp, right.symm⟩
    | cons c middle =>
      rw [List.cons_append, List.cons.injEq] at right
      rw [left, ← right.1] at free
      exact absurd (by simp) free

theorem first_square {before name text after : List Char} (free : ']' ∉ before) (closed : ']' ∉ name)
    (same : before ++ ']' :: text = name ++ ']' :: after) : text = after := by
  obtain ⟨middle, left, right⟩ := append_square free same
  cases middle with
  | nil =>
    rw [List.nil_append, List.cons.injEq] at right
    exact right.2
  | cons c middle =>
    rw [List.cons_append, List.cons.injEq] at right
    rw [left, ← right.1] at closed
    exact absurd (by simp) closed

theorem no_square {name : List Char} (all : ∀ c ∈ name, Inner c) : ']' ∉ name :=
  fun member => (all _ member).1 rfl

/-- A wrapped name of the new text ends where a token ends. -/
theorem tokens_of_wrapped (wrappable : Wrappable new) {previous : Option Char} {tokens : List Token}
    (valid : Valid previous tokens) {name after : List Char} (closed : ']' ∉ name)
    (same : rewrittenText renamed new tokens = name ++ ']' :: after) :
    ∃ taken rest, tokens = taken ++ rest ∧ rewrittenText renamed new rest = after ∧
      ∃ before, Valid before rest := by
  induction tokens generalizing previous name with
  | nil => cases name <;> cases same
  | cons token tokens ih =>
    have here : ∀ before, Valid before tokens → rewrittenText renamed new tokens = after →
        ∃ taken rest, token :: tokens = taken ++ rest ∧ rewrittenText renamed new rest = after ∧
          ∃ before, Valid before rest := fun before later rest => ⟨[token], tokens, rfl, rest, before, later⟩
    have below : ∀ {before : Option Char} {name : List Char}, Valid before tokens → ']' ∉ name →
        rewrittenText renamed new tokens = name ++ ']' :: after →
          ∃ taken rest, token :: tokens = taken ++ rest ∧ rewrittenText renamed new rest = after ∧
            ∃ before, Valid before rest := by
      intro before name later closed same
      obtain ⟨taken, rest, split, text, nonempty⟩ := ih later closed same
      exact ⟨token :: taken, rest, by rw [split]; rfl, text, nonempty⟩
    cases token with
    | plain c =>
      rw [rewritten_plain] at same
      cases name with
      | nil =>
        rw [List.nil_append, List.cons.injEq] at same
        exact here _ valid.2 same.2
      | cons d name =>
        rw [List.cons_append, List.cons.injEq] at same
        exact below valid.2 (fun member => closed (List.mem_cons_of_mem _ member)) same.2
    | mention raw label =>
      by_cases change : renamed label = true
      · rw [rewritten_renamed change] at same
        exact here _ valid.2.2 (first_square (no_square (inner_opened wrappable.2)) closed same)
      · rw [rewritten_kept (eq_false_of_ne_true change)] at same
        rcases raw_of_valid valid with ⟨shape, wrapped⟩ | ⟨shape, bare⟩
        · have split : ('@' :: '[' :: label) ++ ']' :: rewrittenText renamed new tokens =
              name ++ ']' :: after := by
            rw [← same, shape]
            simp
          exact here _ valid.2.2 (first_square (no_square (inner_opened wrapped.2)) closed split)
        · have inner : ∀ c ∈ raw, Inner c := by
            rw [shape]
            exact List.forall_mem_cons.mpr ⟨inner_mark, fun c member => inner_of_legacy (bare.2.1 c member)⟩
          obtain ⟨middle, left, right⟩ := append_square (no_square inner) same
          exact below valid.2.2 (fun member => closed (by rw [left]; exact List.mem_append_right _ member)) right

/-- A bare name of the new text is one of characters outside of mentions. -/
theorem tokens_of_bare {previous : Option Char} {tokens : List Token} (valid : Valid previous tokens)
    {name after : List Char} (nonempty : name ≠ []) (all : ∀ c ∈ name, isLegacyMentionChar c = true)
    (same : rewrittenText renamed new tokens = name ++ after) :
    ∃ taken rest, tokens = taken ++ rest ∧ rewrittenText renamed new rest = after ∧
      Valid name.getLast? rest := by
  induction name generalizing previous tokens with
  | nil => exact absurd rfl nonempty
  | cons c name ih =>
    cases tokens with
    | nil => cases same
    | cons token tokens =>
      cases token with
      | plain d =>
        rw [rewritten_plain, List.cons_append, List.cons.injEq] at same
        cases name with
        | nil =>
          have later := valid.2
          rw [same.1] at later
          exact ⟨[.plain d], tokens, rfl, same.2, later⟩
        | cons e name =>
          obtain ⟨taken, rest, split, text, later⟩ := ih valid.2 (List.cons_ne_nil _ _)
            (fun c member => all c (List.mem_cons_of_mem _ member)) same.2
          refine ⟨.plain d :: taken, rest, by rw [split]; rfl, text, ?_⟩
          rw [List.getLast?_cons_cons]
          exact later
      | mention raw label =>
        have head := @head_rewritten renamed new _ _ valid
        obtain ⟨body, shape, _⟩ := valid.2.1
        rw [same, written_mention, shape, List.cons_append, List.head?_cons, List.cons_append,
          List.head?_cons, Option.some.injEq] at head
        have legacy := all c List.mem_cons_self
        rw [head, not_legacy_mark] at legacy
        cases legacy

/-- The new text has no stray `@` that the text has not, and as many only if the text is stable. -/
theorem strays_rewritten (wrappable : Wrappable new) {previous left : Option Char} {tokens : List Token}
    (valid : Valid previous tokens)
    (fewer : left.any isAsciiWordChar = true → previous.any isAsciiWordChar = true) :
    strays (tokensFrom left 0 (rewrittenText renamed new tokens)) ≤ strays tokens ∧
      (strays (tokensFrom left 0 (rewrittenText renamed new tokens)) = strays tokens →
        Stable renamed left tokens) := by
  induction total : tokens.length using Nat.strong_induction_on generalizing previous left tokens with
  | _ size ih =>
    cases tokens with
    | nil => exact ⟨le_rfl, fun _ => trivial⟩
    | cons token tokens =>
      have shorter : tokens.length < size := by
        rw [← total, List.length_cons]
        exact Nat.lt_succ_self _
      cases token with
      | plain c =>
        rw [rewritten_plain]
        by_cases starts : c = '@' ∧ left.any isAsciiWordChar = false ∧
            mentionAt (rewrittenText renamed new tokens) ≠ none
        · obtain ⟨mark, apart, something⟩ := starts
          obtain ⟨pair, found⟩ := Option.ne_none_iff_exists'.mp something
          have fewerStrays : ∃ before taken rest body, tokens = taken ++ rest ∧ Valid before rest ∧
              rewrittenText renamed new tokens = body ++ rewrittenText renamed new rest ∧
              pair.1 = body.length ∧ ((('@' :: body).getLast?).any isAsciiWordChar = true →
                before.any isAsciiWordChar = true) := by
            obtain ⟨after, ⟨split, length, wrapped⟩ | ⟨split, length, bare⟩⟩ := mentionAt_cases found
            · cases tokens with
              | nil => cases split
              | cons first tokens =>
                cases first with
                | mention raw name =>
                  have head := @head_rewritten renamed new _ _ valid.2
                  obtain ⟨body, shape, _⟩ := valid.2.2.1
                  rw [split, written_mention, shape] at head
                  simp at head
                | plain d =>
                  rw [rewritten_plain, List.cons.injEq] at split
                  obtain ⟨taken, rest, parts, text, before, later⟩ :=
                    tokens_of_wrapped wrappable valid.2.2 (no_square wrapped.2) split.2
                  refine ⟨before, .plain d :: taken, rest, '[' :: (pair.2 ++ [']']), by rw [parts]; rfl,
                    later, ?_, by rw [length]; simp, ?_⟩
                  · rw [rewritten_plain, split.1, split.2, text]
                    simp
                  · rw [last_renamed]
                    intro word
                    cases word
            · obtain ⟨taken, rest, parts, text, later⟩ :=
                tokens_of_bare valid.2 bare.1 bare.2.1 split
              refine ⟨_, taken, rest, pair.2, parts, later, by rw [split, text], length, ?_⟩
              cases name : pair.2 with
              | nil => exact absurd name bare.1
              | cons d name =>
                rw [List.getLast?_cons_cons]
                exact id
          obtain ⟨before, taken, rest, body, parts, later, text, length, fewerWords⟩ := fewerStrays
          have whole : mentionAt (body ++ rewrittenText renamed new rest) = some (body.length, pair.2) := by
            rw [← text, found, ← length]
          have shorterRest : rest.length < size := by
            rw [parts, List.length_append] at shorter
            omega
          have bound := (ih rest.length shorterRest later fewerWords rfl).1
          have count : strays (tokensFrom left 0 (c :: rewrittenText renamed new tokens)) <
              strays (.plain c :: tokens) := by
            rw [text, mark, tokensFrom_mention apart whole]
            have skipped : strays (.mention ('@' :: body) pair.2 ::
                tokensFrom ('@' :: body).getLast? 0 (rewrittenText renamed new rest)) =
                  strays (tokensFrom ('@' :: body).getLast? 0 (rewrittenText renamed new rest)) :=
              List.countP_cons_of_neg (by simp)
            have counted : strays (.plain '@' :: tokens) = strays tokens + 1 :=
              List.countP_cons_of_pos (by simp)
            rw [skipped, counted, parts, strays_append]
            omega
          exact ⟨le_of_lt count, fun same => absurd same (ne_of_lt count)⟩
        · have none : c = '@' → left.any isAsciiWordChar = false →
              mentionAt (rewrittenText renamed new tokens) = .none := by
            intro mark apart
            by_contra something
            exact starts ⟨mark, apart, something⟩
          obtain ⟨bound, stable⟩ := @ih tokens.length shorter (some c) (some c) tokens valid.2 id rfl
          have counted : ∀ list : List Token, strays (.plain c :: list) =
              strays list + if c = '@' then 1 else 0 := by
            intro list
            rw [strays, List.countP_cons]
            simp [strays]
          rw [tokensFrom_plain none, counted, counted]
          refine ⟨by omega, fun same => ⟨fun mark opens => ?_, stable (by omega)⟩⟩
          by_contra word
          exact (opens_iff wrappable valid.2).mp opens (none mark (eq_false_of_ne_true word))
      | mention raw name =>
        have apart : left.any isAsciiWordChar = false := by
          by_contra word
          have before := fewer (eq_true_of_ne_false word)
          rw [valid.1] at before
          cases before
        have counted : ∀ (raw name : List Char) (list : List Token),
            strays (.mention raw name :: list) = strays list :=
          fun raw name list => List.countP_cons_of_neg (by simp)
        by_cases change : renamed name = true
        · obtain ⟨bound, stable⟩ := @ih tokens.length shorter raw.getLast?
            ('@' :: '[' :: (new ++ [']'])).getLast? tokens valid.2.2 (by
              rw [last_renamed]
              intro word
              cases word) rfl
          have text : rewrittenText renamed new (.mention raw name :: tokens) =
              '@' :: (('[' :: (new ++ [']'])) ++ rewrittenText renamed new tokens) := by
            rw [rewritten_renamed change]
            simp
          rw [text, tokensFrom_mention apart (mention_renamed wrappable _), counted, counted, Stable,
            if_pos change]
          refine ⟨bound, fun same => (stable_congr ?_ tokens).mp (stable same)⟩
          rw [last_renamed]
          rfl
        · obtain ⟨bound, stable⟩ := @ih tokens.length shorter raw.getLast? raw.getLast? tokens valid.2.2
            id rfl
          obtain ⟨body, shape, found⟩ := @mention_kept renamed new _ _ _ _ valid
          rw [shape] at bound stable
          rw [rewritten_kept (eq_false_of_ne_true change), shape, List.cons_append,
            tokensFrom_mention apart found, counted, counted, Stable, if_neg change]
          exact ⟨bound, stable⟩

end Strays

end ArcReel.Rename
