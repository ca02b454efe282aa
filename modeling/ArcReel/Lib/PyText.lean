import Mathlib.Data.List.DropRight
import Mathlib.Tactic

/-! Python text: code points, slices, whitespace, lines, substring search and the parts of
Unicode that are data outside of a program. -/

namespace ArcReel.Lib.PyText

/-- `str.isspace` of one character. -/
def isSpace (c : Char) : Bool :=
  let n := c.toNat
  (0x9 ≤ n && n ≤ 0xD) || (0x1C ≤ n && n ≤ 0x20) || n == 0x85 || n == 0xA0 || n == 0x1680 ||
    (0x2000 ≤ n && n ≤ 0x200A) || n == 0x2028 || n == 0x2029 || n == 0x202F || n == 0x205F ||
    n == 0x3000

/-- `not text.strip()`. -/
def isBlank (text : List Char) : Bool := text.all isSpace

def lstrip (text : List Char) : List Char := text.dropWhile isSpace

def strip (text : List Char) : List Char := (lstrip text).rdropWhile isSpace

/-- A character at which `str.splitlines` ends a line. -/
def isLineBreak (c : Char) : Bool :=
  let n := c.toNat
  (0xA ≤ n && n ≤ 0xD) || (0x1C ≤ n && n ≤ 0x1E) || n == 0x85 || n == 0x2028 || n == 0x2029

/-- A character in front of the first line. -/
def consLine (c : Char) : List (List Char) → List (List Char)
  | [] => [[c]]
  | line :: later => (c :: line) :: later

def splitlines : List Char → List (List Char)
  | [] => []
  | '\r' :: '\n' :: rest => [] :: splitlines rest
  | c :: rest => if isLineBreak c then [] :: splitlines rest else consLine c (splitlines rest)

theorem lstrip_strip (text : List Char) : lstrip (strip text) = strip text := by
  unfold strip lstrip
  cases head : text.dropWhile isSpace with
  | nil => rfl
  | cons c rest =>
    have notSpace : isSpace c = false := by
      have stops := @List.head_dropWhile_not _ isSpace text (by rw [head]; simp)
      simpa [head] using stops
    have nonempty : (c :: rest).rdropWhile isSpace ≠ [] := by
      rw [Ne, List.rdropWhile_eq_nil_iff]
      intro all
      rw [all c List.mem_cons_self] at notSpace
      cases notSpace
    obtain ⟨last, split⟩ := List.rdropWhile_prefix isSpace (l := c :: rest)
    cases kept : (c :: rest).rdropWhile isSpace with
    | nil => exact absurd kept nonempty
    | cons d later =>
      rw [kept, List.cons_append, List.cons.injEq] at split
      rw [List.dropWhile_cons_of_neg (by rw [split.1, notSpace]; decide)]

theorem strip_strip (text : List Char) : strip (strip text) = strip text := by
  conv_lhs => rw [strip, lstrip_strip]
  exact List.rdropWhile_idempotent isSpace _

/-- A text is what is left of it by `strip`, between whitespace. -/
theorem strip_split (text : List Char) : ∃ before after, text = before ++ strip text ++ after ∧
    (∀ c ∈ before, isSpace c = true) ∧ ∀ c ∈ after, isSpace c = true := by
  refine ⟨text.takeWhile isSpace, (lstrip text).rtakeWhile isSpace, ?_,
    fun c member => List.mem_takeWhile_imp member, fun c member => List.mem_rtakeWhile_imp member⟩
  calc
    text = text.takeWhile isSpace ++ lstrip text := List.takeWhile_append_dropWhile.symm
    _ = text.takeWhile isSpace ++ (strip text ++ (lstrip text).rtakeWhile isSpace) := by
      rw [strip, List.rdropWhile_append_rtakeWhile]
    _ = _ := (List.append_assoc _ _ _).symm

theorem head_strip_visible {text : List Char} : ∀ c ∈ (strip text).head?, isSpace c = false := by
  intro c first
  have stops := List.head?_dropWhile_not isSpace (strip text)
  rw [show (strip text).dropWhile isSpace = strip text from lstrip_strip text, Option.mem_def.mp first] at stops
  exact stops

/-- The byte order mark. -/
def bom : Char := Char.ofNat 0xFEFF

/-- Normalization to NFC and the decimal digits. NFC leaves a part of a normalized text as it is, a
line break separates what is normalized and so does a shot header, no line break, byte order mark
or brace comes from anything else, and outer whitespace stays outer whitespace. -/
structure Unicode where
  nfc : List Char → List Char
  decimal : Char → Bool
  nfc_part : ∀ text before part after, nfc text = before ++ part ++ after → nfc part = part
  nfc_break : ∀ before c after, isLineBreak c = true →
    nfc (before ++ c :: after) = nfc before ++ c :: nfc after
  nfc_header : ∀ digits rest, (∀ c ∈ digits, c.isDigit = true) →
    nfc ('镜' :: '头' :: (digits ++ '：' :: rest)) = '镜' :: '头' :: (digits ++ '：' :: nfc rest)
  mem_of_mem_nfc : ∀ c text, isLineBreak c = true ∨ c = bom ∨ c = '\x7b' ∨ c = '\x7d' →
    c ∈ nfc text → c ∈ text
  nfc_strip : ∀ text, strip (nfc text) = nfc (strip text)
  decimal_ne : ∀ c, decimal c = true → isSpace c = false ∧ c ≠ ':' ∧ c ≠ '：'
  decimal_plain : ∀ c, decimal c = true → c ≠ '\x7b' ∧ c ≠ '\x7d' ∧ c ≠ '@'
  decimal_digit : ∀ c, c.isDigit = true → decimal c = true

/-- The position that a slice bound stands for. -/
def bound (length : Nat) (i : Int) : Nat :=
  if i < 0 then (length + i).toNat else min i.toNat length

/-- `text[start:stop]`. -/
def slice {α : Type} (text : List α) (start stop : Int) : List α :=
  (text.take (bound text.length stop)).drop (bound text.length start)

/-- `text[start:]`. -/
def sliceFrom {α : Type} (text : List α) (start : Int) : List α :=
  text.drop (bound text.length start)

/-- Carriage returns, alone or before a line feed, become line feeds. -/
def unifyNewlines : List Char → List Char
  | '\r' :: '\n' :: rest => '\n' :: unifyNewlines rest
  | '\r' :: rest => '\n' :: unifyNewlines rest
  | c :: rest => c :: unifyNewlines rest
  | [] => []

/-- The positions from `i` on at which the needle occurs, overlaps included. -/
def occurrences (needle : List Char) : Nat → List Char → List Nat
  | _, [] => []
  | i, c :: rest =>
      if needle.isPrefixOf (c :: rest) then i :: occurrences needle (i + 1) rest
      else occurrences needle (i + 1) rest

theorem occurrence_fits {needle haystack : List Char} {i k : Nat}
    (found : k ∈ occurrences needle i haystack) : i ≤ k ∧ k + needle.length ≤ i + haystack.length := by
  induction haystack generalizing i with
  | nil => cases found
  | cons c rest ih =>
    simp only [occurrences] at found
    split_ifs at found with here
    · cases List.mem_cons.mp found with
      | inl same =>
        have shorter := (List.isPrefixOf_iff_prefix.mp here).length_le
        omega
      | inr later =>
        have deeper := ih later
        simp only [List.length_cons]
        omega
    · have deeper := ih found
      simp only [List.length_cons]
      omega

/-- The positions of the occurrences are those at which the needle is a prefix of the rest. -/
theorem mem_occurrences {needle haystack : List Char} {i k : Nat} :
    k ∈ occurrences needle i haystack ↔
      i ≤ k ∧ k < i + haystack.length ∧ needle <+: haystack.drop (k - i) := by
  induction haystack generalizing i with
  | nil =>
    simp only [occurrences, List.not_mem_nil, List.length_nil, false_iff]
    omega
  | cons c rest ih =>
    have later : k ∈ occurrences needle (i + 1) rest ↔
        i < k ∧ k < i + (c :: rest).length ∧ needle <+: (c :: rest).drop (k - i) := by
      rw [ih, List.length_cons]
      constructor
      · rintro ⟨low, high, here⟩
        refine ⟨by omega, by omega, ?_⟩
        rwa [show k - i = (k - (i + 1)) + 1 by omega, List.drop_succ_cons]
      · rintro ⟨low, high, here⟩
        refine ⟨by omega, by omega, ?_⟩
        rwa [show k - i = (k - (i + 1)) + 1 by omega, List.drop_succ_cons] at here
    simp only [occurrences]
    split_ifs with here
    · rw [List.mem_cons, later]
      constructor
      · rintro (same | further)
        · subst same
          refine ⟨le_refl k, by simp, ?_⟩
          rw [Nat.sub_self]
          exact List.isPrefixOf_iff_prefix.mp here
        · exact ⟨by omega, further.2⟩
      · rintro ⟨low, rest'⟩
        by_cases same : k = i
        · exact .inl same
        · exact .inr ⟨by omega, rest'⟩
    · rw [later]
      constructor
      · rintro ⟨low, rest'⟩
        exact ⟨by omega, rest'⟩
      · rintro ⟨low, high, starts⟩
        refine ⟨?_, high, starts⟩
        by_contra same
        have equal : k = i := by omega
        subst equal
        rw [Nat.sub_self] at starts
        exact here (List.isPrefixOf_iff_prefix.mpr starts)

theorem nodup_occurrences (needle haystack : List Char) (i : Nat) :
    (occurrences needle i haystack).Nodup := by
  induction haystack generalizing i with
  | nil => exact List.nodup_nil
  | cons c rest ih =>
    simp only [occurrences]
    split_ifs
    · rw [List.nodup_cons]
      refine ⟨?_, ih (i + 1)⟩
      intro again
      have low := (mem_occurrences.mp again).1
      omega
    · exact ih (i + 1)

theorem bound_of_nat (length n : Nat) : bound length n = min n length := by
  simp [bound]

theorem sliceFrom_of_nat {α : Type} (text : List α) (n : Nat) : sliceFrom text n = text.drop n := by
  rw [sliceFrom, bound_of_nat]
  by_cases inside : n ≤ text.length
  · rw [Nat.min_eq_left inside]
  · rw [Nat.min_eq_right (by omega), List.drop_length, List.drop_of_length_le (by omega)]

end ArcReel.Lib.PyText
