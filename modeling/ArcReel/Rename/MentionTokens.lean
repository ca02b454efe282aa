import ArcReel.Rename.Checks
import ArcReel.Speech.Rederived

/-! A text as the mentions in it and the characters between them. -/

namespace ArcReel.Rename
open Lib PyText Mention Speech

/-- A mention with all of its characters, or a character outside of mentions. -/
inductive Token where
  | plain (c : Char)
  | mention (raw name : List Char)
  deriving DecidableEq, Repr

namespace Token

def text : Token → List Char
  | plain c => [c]
  | mention raw _ => raw

def name? : Token → Option (List Char)
  | plain _ => none
  | mention _ name => some name

/-- The last character. -/
def last : Token → Option Char
  | plain c => some c
  | mention raw _ => raw.getLast?

end Token

section Scanning

/-- The text of a list of tokens. -/
def written (tokens : List Token) : List Char := tokens.flatMap Token.text

@[simp] theorem written_nil : written [] = [] := rfl

@[simp] theorem written_plain (c : Char) (tokens : List Token) :
    written (.plain c :: tokens) = c :: written tokens := rfl

@[simp] theorem written_mention (raw name : List Char) (tokens : List Token) :
    written (.mention raw name :: tokens) = raw ++ written tokens := rfl

theorem written_append (first second : List Token) :
    written (first ++ second) = written first ++ written second := List.flatMap_append ..

/-- The tokens of a text; `skip` characters belong to the mention before. -/
def tokensFrom (previous : Option Char) : Nat → List Char → List Token
  | _, [] => []
  | skip + 1, c :: rest => tokensFrom (some c) skip rest
  | 0, c :: rest =>
      match if c = '@' ∧ previous.any isAsciiWordChar = false then mentionAt rest else none with
      | some (length, name) => .mention (c :: rest.take length) name :: tokensFrom (some c) length rest
      | none => .plain c :: tokensFrom (some c) 0 rest

def tokensOf (text : List Char) : List Token := tokensFrom none 0 text

theorem written_tokensFrom (previous : Option Char) (skip : Nat) (text : List Char) :
    written (tokensFrom previous skip text) = text.drop skip := by
  induction text generalizing previous skip with
  | nil => rw [tokensFrom, List.drop_nil]; rfl
  | cons c text ih =>
    cases skip with
    | succ skip =>
      rw [tokensFrom, ih]
      rfl
    | zero =>
      rw [tokensFrom]
      split
      · next length name _ =>
        rw [written_mention, ih, List.cons_append, List.take_append_drop]
        rfl
      · rw [written_plain, ih]
        rfl

theorem written_tokensOf (text : List Char) : written (tokensOf text) = text :=
  written_tokensFrom none 0 text

/-- The names of the tokens are those that are iterated over. -/
theorem names_tokensFrom (previous : Option Char) (skip : Nat) (text : List Char) :
    (tokensFrom previous skip text).filterMap Token.name? = namesFrom previous skip text := by
  induction text generalizing previous skip with
  | nil => rfl
  | cons c text ih =>
    cases skip with
    | succ skip => rw [tokensFrom, ih, namesFrom_skip]
    | zero =>
      rw [tokensFrom, namesFrom, iterFrom]
      generalize (if c = '@' ∧ previous.any isAsciiWordChar = false then mentionAt text
        else none) = found
      cases found with
      | some pair =>
        dsimp only
        rw [List.map_cons, names_iterFrom, ← ih]
        rfl
      | none =>
        dsimp only
        rw [names_iterFrom, ← ih]
        rfl

/-- Tokens that are read off their text, after a character. -/
def Valid : Option Char → List Token → Prop
  | _, [] => True
  | previous, .plain c :: rest =>
      (c = '@' → previous.any isAsciiWordChar = false → mentionAt (written rest) = none) ∧
        Valid (some c) rest
  | previous, .mention raw name :: rest =>
      previous.any isAsciiWordChar = false ∧
        (∃ body, raw = '@' :: body ∧ mentionAt (body ++ written rest) = some (body.length, name)) ∧
          Valid raw.getLast? rest

/-- Where a mention is skipped the scan goes on after its last character. -/
theorem tokensFrom_skip (previous : Option Char) (before after : List Char) :
    tokensFrom previous before.length (before ++ after) =
      tokensFrom (before.getLast?.or previous) 0 after := by
  induction before generalizing previous with
  | nil => rfl
  | cons c before ih =>
    rw [List.length_cons, List.cons_append, tokensFrom, ih]
    cases before with
    | nil => rfl
    | cons d before => rw [List.getLast?_cons_cons, List.getLast?_cons, Option.some_or, Option.some_or]

theorem length_of_mentionAt {text name : List Char} {length : Nat}
    (found : mentionAt text = some (length, name)) : length ≤ text.length := by
  cases text with
  | nil => cases found
  | cons c text =>
    by_cases bracket : c = '['
    · rw [bracket, mentionAt_wrapped] at found
      split_ifs at found with closed
      rw [Option.some.injEq, Prod.mk.injEq] at found
      rw [← found.1, List.length_cons]
      omega
    · rw [mentionAt_legacy bracket] at found
      split_ifs at found
      rw [Option.some.injEq, Prod.mk.injEq] at found
      rw [← found.1]
      exact (List.takeWhile_prefix isLegacyMentionChar).length_le

theorem tokensFrom_plain {previous : Option Char} {c : Char} {rest : List Char}
    (none : c = '@' → previous.any isAsciiWordChar = false → mentionAt rest = .none) :
    tokensFrom previous 0 (c :: rest) = .plain c :: tokensFrom (some c) 0 rest := by
  have nothing : (if c = '@' ∧ previous.any isAsciiWordChar = false then mentionAt rest
      else .none) = .none := by
    split
    · next mark => exact none mark.1 mark.2
    · rfl
  rw [tokensFrom, nothing]

theorem tokensFrom_mention {previous : Option Char} {body name after : List Char}
    (apart : previous.any isAsciiWordChar = false)
    (found : mentionAt (body ++ after) = some (body.length, name)) :
    tokensFrom previous 0 ('@' :: (body ++ after)) =
      .mention ('@' :: body) name :: tokensFrom ('@' :: body).getLast? 0 after := by
  rw [tokensFrom, if_pos ⟨rfl, apart⟩, found]
  dsimp only
  rw [List.take_left', tokensFrom_skip, List.getLast?_cons]
  · cases body.getLast? <;> rfl
  · rfl

theorem valid_tokensFrom (previous : Option Char) (text : List Char) :
    Valid previous (tokensFrom previous 0 text) := by
  induction length : text.length using Nat.strong_induction_on generalizing previous text with
  | _ size ih =>
    cases text with
    | nil => exact trivial
    | cons c text =>
      by_cases starts : c = '@' ∧ previous.any isAsciiWordChar = false ∧ mentionAt text ≠ none
      · obtain ⟨mark, apart, some⟩ := starts
        cases found : mentionAt text with
        | none => exact absurd found some
        | some pair =>
          obtain ⟨size', name⟩ := pair
          have inside := length_of_mentionAt found
          have split : text.take size' ++ text.drop size' = text := List.take_append_drop ..
          have count : (text.take size').length = size' := by rw [List.length_take]; omega
          have whole : mentionAt (text.take size' ++ text.drop size') =
              .some ((text.take size').length, name) := by rw [split, count, found]
          rw [mark, ← split, tokensFrom_mention apart whole]
          refine ⟨apart, ⟨_, rfl, ?_⟩, ?_⟩
          · rw [written_tokensFrom]
            exact whole
          · apply ih _ _ _ _ rfl
            rw [← length, List.length_cons, List.length_drop]
            omega
      · have none : c = '@' → previous.any isAsciiWordChar = false → mentionAt text = .none := by
          intro mark apart
          by_contra some
          exact starts ⟨mark, apart, some⟩
        rw [tokensFrom_plain none]
        refine ⟨?_, ih _ (by rw [← length]; simp) _ _ rfl⟩
        rw [written_tokensFrom]
        exact none

/-- Valid tokens are the tokens of their text. -/
theorem tokensFrom_written {previous : Option Char} {tokens : List Token}
    (valid : Valid previous tokens) : tokensFrom previous 0 (written tokens) = tokens := by
  induction tokens generalizing previous with
  | nil => rfl
  | cons token tokens ih =>
    cases token with
    | plain c =>
      rw [written_plain, tokensFrom_plain valid.1, ih valid.2]
    | mention raw name =>
      obtain ⟨apart, ⟨body, same, found⟩, later⟩ := valid
      rw [same] at later
      rw [written_mention, same, List.cons_append, tokensFrom_mention apart found, ih later]

end Scanning

end ArcReel.Rename
