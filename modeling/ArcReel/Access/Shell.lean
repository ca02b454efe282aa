import ArcReel.Lib.Pieces
import ArcReel.Lib.PyText

/-! How a shell splits a command into words: a POSIX shell, and one for which the backslash is an
ordinary character. -/

namespace ArcReel.Access
open Lib PyText

def isQuote (c : Char) : Bool := c == '"' || c == '\''

def isBlank (c : Char) : Bool := c == ' ' || c == '\t' || c == '\n'

/-- What a shell makes of a character: it ends words, stands for itself, or is taken away. A
backslash before a newline goes with it. -/
inductive Mark where
  | sep (c : Char)
  | lit (c : Char)
  | drop (c : Char)
  | join
  deriving DecidableEq, Repr

namespace Mark

/-- A character outside quotes that is neither a quote nor a backslash. -/
def ordinary (c : Char) : Mark := if isBlank c then sep c else lit c

def chars : Mark → List Char
  | sep c | lit c | drop c => [c]
  | join => ['\\', '\n']

def isSep : Mark → Bool
  | sep _ => true
  | _ => false

def lit? : Mark → Option Char
  | lit c => some c
  | _ => none

end Mark

def source (marks : List Mark) : List Char := marks.flatMap Mark.chars

def text (run : List Mark) : List Char := run.filterMap Mark.lit?

@[simp] theorem text_lit (c : Char) (run : List Mark) : text (.lit c :: run) = c :: text run := rfl
@[simp] theorem text_drop (c : Char) (run : List Mark) : text (.drop c :: run) = text run := rfl
@[simp] theorem text_join (run : List Mark) : text (.join :: run) = text run := rfl

/-- The words of a command, as runs of marks; a pair of quotes makes an empty one. -/
def runs (marks : List Mark) : List (List Mark) := pieces Mark.isSep marks

def words (marks : List Mark) : List (List Char) := (runs marks).map text

inductive Quote where
  | none
  | single
  | double
  deriving DecidableEq, Repr

/-- The POSIX reading; a quote that is left open is an error. -/
def posixMarks : Quote → List Char → Option (List Mark)
  | .none, [] => some []
  | .single, [] | .double, [] => none
  | .none, '\\' :: [] => some [.lit '\\']
  | .none, '\\' :: '\n' :: rest => (posixMarks .none rest).map (.join :: ·)
  | .none, '\\' :: c :: rest => (posixMarks .none rest).map fun later => .drop '\\' :: .lit c :: later
  | .none, '\'' :: rest => (posixMarks .single rest).map (.drop '\'' :: ·)
  | .none, '"' :: rest => (posixMarks .double rest).map (.drop '"' :: ·)
  | .none, c :: rest => (posixMarks .none rest).map (.ordinary c :: ·)
  | .single, '\'' :: rest => (posixMarks .none rest).map (.drop '\'' :: ·)
  | .single, c :: rest => (posixMarks .single rest).map (.lit c :: ·)
  | .double, '"' :: rest => (posixMarks .none rest).map (.drop '"' :: ·)
  | .double, '\\' :: '\n' :: rest => (posixMarks .double rest).map (.join :: ·)
  | .double, '\\' :: '\\' :: rest =>
    (posixMarks .double rest).map fun later => .drop '\\' :: .lit '\\' :: later
  | .double, '\\' :: '"' :: rest =>
    (posixMarks .double rest).map fun later => .drop '\\' :: .lit '"' :: later
  | .double, c :: rest => (posixMarks .double rest).map (.lit c :: ·)

/-- The reading in which a backslash separates the parts of a path. -/
def windowsMarks : Quote → List Char → List Mark
  | _, [] => []
  | .none, c :: rest =>
    if c = '\'' then .drop c :: windowsMarks .single rest
    else if c = '"' then .drop c :: windowsMarks .double rest
    else .ordinary c :: windowsMarks .none rest
  | .single, c :: rest =>
    if c = '\'' then .drop c :: windowsMarks .none rest else .lit c :: windowsMarks .single rest
  | .double, c :: rest =>
    if c = '"' then .drop c :: windowsMarks .none rest else .lit c :: windowsMarks .double rest

example : (posixMarks .none "a\"b c\"\\ d '' e".toList).map words =
    some ["ab c d".toList, [], "e".toList] := by decide

/-- Only blanks end words, and only quotes and backslashes are taken away. -/
def Mark.Fits : Mark → Prop
  | sep c => isBlank c = true
  | lit _ => True
  | drop c => isQuote c = true ∨ c = '\\'
  | join => True

/-- Nothing but quotes is taken away. -/
def Mark.Quotes : Mark → Prop
  | sep c => isBlank c = true
  | lit _ => True
  | drop c => isQuote c = true
  | join => False

@[simp] theorem Mark.fits_lit (c : Char) : (lit c).Fits := trivial
@[simp] theorem Mark.fits_join : join.Fits := trivial
@[simp] theorem Mark.fits_drop (c : Char) : (drop c).Fits ↔ isQuote c = true ∨ c = '\\' := Iff.rfl
@[simp] theorem Mark.quotes_lit (c : Char) : (lit c).Quotes := trivial
@[simp] theorem Mark.quotes_drop (c : Char) : (drop c).Quotes ↔ isQuote c = true := Iff.rfl

theorem Mark.Quotes.fits {mark : Mark} (quotes : mark.Quotes) : mark.Fits := by
  cases mark with
  | sep c => exact quotes
  | lit c => trivial
  | drop c => exact .inl quotes
  | join => trivial

@[simp] theorem Mark.quotes_ordinary (c : Char) : (ordinary c).Quotes := by
  unfold ordinary
  by_cases blank : isBlank c = true
  · rw [if_pos blank]
    exact blank
  · rw [if_neg blank]
    trivial

@[simp] theorem Mark.fits_ordinary (c : Char) : (ordinary c).Fits := (quotes_ordinary c).fits

@[simp] theorem Mark.chars_ordinary (c : Char) : (ordinary c).chars = [c] := by
  unfold ordinary
  split <;> rfl

theorem source_cons (mark : Mark) (marks : List Mark) : source (mark :: marks) = mark.chars ++ source marks := rfl

theorem posixMarks_source {quote : Quote} {command : List Char} {marks : List Mark}
    (read : posixMarks quote command = some marks) :
    source marks = command ∧ ∀ mark ∈ marks, mark.Fits := by
  -- every branch puts marks that fit before those of the rest
  fun_induction posixMarks quote command generalizing marks with
  | case1 =>
    cases read
    exact ⟨rfl, by simp⟩
  | case2 => cases read
  | case3 => cases read
  | case4 =>
    cases read
    exact ⟨rfl, by simp⟩
  | _ =>
    rename_i ih
    obtain ⟨later, found, same⟩ := Option.map_eq_some_iff.mp read
    obtain ⟨whole, fits⟩ := ih found
    subst same
    constructor
    · simp only [source_cons, whole, Mark.chars_ordinary]
      rfl
    · simpa [isQuote] using fits

theorem windowsMarks_source (quote : Quote) (command : List Char) :
    source (windowsMarks quote command) = command ∧
      ∀ mark ∈ windowsMarks quote command, mark.Quotes := by
  fun_induction windowsMarks quote command with
  | case1 => exact ⟨rfl, by simp⟩
  | _ =>
    rename_i ih
    constructor
    · simp only [source_cons, ih.1, Mark.chars_ordinary]
      rfl
    · simpa [isQuote] using ih.2

/-- A run stands between separators or ends. -/
theorem mem_runs {marks run : List Mark} (member : run ∈ runs marks) :
    ∃ before after, marks = before ++ run ++ after ∧ (∀ mark ∈ before.getLast?, mark.isSep = true) ∧
      (∀ mark ∈ after.head?, mark.isSep = true) ∧ ∀ mark ∈ run, mark.isSep = false :=
  mem_splitOnP (List.mem_of_mem_filter member)

theorem source_append (first rest : List Mark) : source (first ++ rest) = source first ++ source rest :=
  List.flatMap_append

end ArcReel.Access
