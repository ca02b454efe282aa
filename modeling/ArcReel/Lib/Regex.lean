import Mathlib.Tactic

/-! Regular expressions with backtracking: a pattern gives its matches in the order in
which a backtracking engine tries them, so that the first one is the match. -/

namespace ArcReel.Lib

inductive Regex where
  /-- One character of a class. -/
  | char (accepts : Char → Bool)
  /-- As many characters of a class as possible, then fewer. -/
  | star (accepts : Char → Bool)
  /-- The same with at least one character. -/
  | plus (accepts : Char → Bool)
  | seq (first second : Regex)
  | either (first second : Regex)
  | group (index : Nat) (inner : Regex)
  /-- `^` -/
  | atStart
  /-- `$` -/
  | atEnd
  /-- `(?<!…)` with one class. -/
  | notAfter (accepts : Char → Bool)

namespace Regex

/-- The text behind a position, the last character first, the text from it on, and the groups. -/
structure State where
  behind : List Char
  rest : List Char
  groups : List (Nat × List Char)

/-- The matches of a greedy repetition, the longest first. -/
def repeats (accepts : Char → Bool) (groups : List (Nat × List Char)) (behind : List Char) :
    List Char → List State
  | [] => [⟨behind, [], groups⟩]
  | c :: rest =>
      (if accepts c then repeats accepts groups (c :: behind) rest else []) ++ [⟨behind, c :: rest, groups⟩]

/-- The text between two positions. -/
def between (first last : State) : List Char :=
  (last.behind.take (last.behind.length - first.behind.length)).reverse

def run : Regex → State → List State
  | char accepts, ⟨behind, c :: rest, groups⟩ => if accepts c then [⟨c :: behind, rest, groups⟩] else []
  | char _, ⟨_, [], _⟩ => []
  | star accepts, ⟨behind, rest, groups⟩ => repeats accepts groups behind rest
  | plus accepts, ⟨behind, c :: rest, groups⟩ =>
      if accepts c then repeats accepts groups (c :: behind) rest else []
  | plus _, ⟨_, [], _⟩ => []
  | seq first second, state => (first.run state).flatMap second.run
  | either first second, state => first.run state ++ second.run state
  | group index inner, state => (inner.run state).map fun last =>
      { last with groups := (index, between state last) :: last.groups }
  | atStart, state => if state.behind.isEmpty then [state] else []
  | atEnd, state => if state.rest.isEmpty then [state] else []
  | notAfter accepts, state => if state.behind.head?.any accepts then [] else [state]

/-- The first match at or after a position, with its start. -/
def find? (regex : Regex) (behind : List Char) : List Char → Option (State × State)
  | [] => (regex.run ⟨behind, [], []⟩).head?.map fun last => (⟨behind, [], []⟩, last)
  | c :: rest => match (regex.run ⟨behind, c :: rest, []⟩).head? with
      | some last => some (⟨behind, c :: rest, []⟩, last)
      | none => regex.find? (c :: behind) rest

/-- `regex.exec(text)`: the groups of the first match. -/
def exec? (regex : Regex) (text : List Char) : Option State := (regex.find? [] text).map Prod.snd

/-- `text.replace(regex, "")`. -/
def remove (regex : Regex) (text : List Char) : List Char :=
  match regex.find? [] text with
  | some (first, last) => first.behind.reverse ++ last.rest
  | none => text

/-- `text.matchAll(regex)`; `skip` characters are still part of the last match. -/
def matchAll (regex : Regex) : Nat → List Char → List Char → List State
  | skip + 1, behind, c :: rest => regex.matchAll skip (c :: behind) rest
  | 0, behind, c :: rest => match (regex.run ⟨behind, c :: rest, []⟩).head? with
      | some last => last :: regex.matchAll (last.behind.length - behind.length - 1) (c :: behind) rest
      | none => regex.matchAll 0 (c :: behind) rest
  | 0, behind, [] => (regex.run ⟨behind, [], []⟩).head?.toList
  | _ + 1, _, [] => []

def State.group? (state : State) (index : Nat) : Option (List Char) := state.groups.lookup index

section Runs

variable {accepts : Char → Bool} {next : State → List State}

/-- A continuation that cannot start with a character of the class. -/
def Blocked (accepts : Char → Bool) (next : State → List State) : Prop :=
  ∀ behind c rest groups, accepts c = true → next ⟨behind, c :: rest, groups⟩ = []

theorem flatMap_repeats (blocked : Blocked accepts next) (groups : List (Nat × List Char))
    (behind rest : List Char) :
    (repeats accepts groups behind rest).flatMap next =
      next ⟨(rest.takeWhile accepts).reverse ++ behind, rest.dropWhile accepts, groups⟩ := by
  induction rest generalizing behind with
  | nil => simp [repeats]
  | cons c rest ih =>
    cases accepted : accepts c with
    | false => simp [repeats, accepted]
    | true => simp [repeats, accepted, ih, blocked behind c rest groups accepted]

theorem flatMap_star (blocked : Blocked accepts next) (behind rest : List Char)
    (groups : List (Nat × List Char)) :
    ((star accepts).run ⟨behind, rest, groups⟩).flatMap next =
      next ⟨(rest.takeWhile accepts).reverse ++ behind, rest.dropWhile accepts, groups⟩ :=
  flatMap_repeats blocked groups behind rest

theorem flatMap_char (accepts : Char → Bool) (next : State → List State) (behind : List Char) (c : Char)
    (rest : List Char) (groups : List (Nat × List Char)) :
    ((char accepts).run ⟨behind, c :: rest, groups⟩).flatMap next =
      if accepts c then next ⟨c :: behind, rest, groups⟩ else [] := by
  cases accepted : accepts c <;> simp [run, accepted]

theorem flatMap_char_nil (accepts : Char → Bool) (next : State → List State) (behind : List Char)
    (groups : List (Nat × List Char)) : ((char accepts).run ⟨behind, [], groups⟩).flatMap next = [] := rfl

theorem flatMap_plus (blocked : Blocked accepts next) (behind rest : List Char)
    (groups : List (Nat × List Char)) :
    ((plus accepts).run ⟨behind, rest, groups⟩).flatMap next =
      if rest.takeWhile accepts = [] then [] else
        next ⟨(rest.takeWhile accepts).reverse ++ behind, rest.dropWhile accepts, groups⟩ := by
  cases rest with
  | nil => rfl
  | cons c rest =>
    cases accepted : accepts c with
    | false => simp [run, accepted]
    | true => simp [run, accepted, flatMap_repeats blocked]

theorem between_reverse (behind taken rest rest' : List Char) (groups groups' : List (Nat × List Char)) :
    between ⟨behind, rest, groups⟩ ⟨taken.reverse ++ behind, rest', groups'⟩ = taken := by
  simp [between]

/-- A greedy repetition as a group. -/
theorem flatMap_group_plus (blocked : Blocked accepts next) (index : Nat) (behind rest : List Char)
    (groups : List (Nat × List Char)) :
    ((group index (plus accepts)).run ⟨behind, rest, groups⟩).flatMap next =
      if rest.takeWhile accepts = [] then [] else
        next ⟨(rest.takeWhile accepts).reverse ++ behind, rest.dropWhile accepts,
          (index, rest.takeWhile accepts) :: groups⟩ := by
  have captured : Blocked accepts fun last =>
      next { last with groups := (index, between ⟨behind, rest, groups⟩ last) :: last.groups } :=
    fun behind' c rest' groups' accepted => blocked behind' c rest' _ accepted
  rw [run, List.flatMap_map, flatMap_plus captured]
  simp only [between_reverse]

theorem flatMap_group_star (blocked : Blocked accepts next) (index : Nat) (behind rest : List Char)
    (groups : List (Nat × List Char)) :
    ((group index (star accepts)).run ⟨behind, rest, groups⟩).flatMap next =
      next ⟨(rest.takeWhile accepts).reverse ++ behind, rest.dropWhile accepts,
        (index, rest.takeWhile accepts) :: groups⟩ := by
  have captured : Blocked accepts fun last =>
      next { last with groups := (index, between ⟨behind, rest, groups⟩ last) :: last.groups } :=
    fun behind' c rest' groups' accepted => blocked behind' c rest' _ accepted
  rw [run, List.flatMap_map, flatMap_star captured]
  simp only [between_reverse]

/-- A pattern with `^` matches at the start only. -/
theorem find?_atStart (regex : Regex) (text : List Char) :
    (seq atStart regex).find? [] text =
      (regex.run ⟨[], text, []⟩).head?.map fun last => (⟨[], text, []⟩, last) := by
  have later : ∀ (text : List Char) (c : Char) (behind : List Char),
      (seq atStart regex).find? (c :: behind) text = none := by
    intro text
    induction text with
    | nil => intro c behind; simp [find?, run]
    | cons first rest ih => intro c behind; simp [find?, run, ih]
  have here : ∀ text, (seq atStart regex).run ⟨[], text, []⟩ = regex.run ⟨[], text, []⟩ := by
    intro text
    simp [run]
  cases text with
  | nil => rw [find?, here]
  | cons c rest =>
    rw [find?, here]
    cases (regex.run ⟨[], c :: rest, []⟩).head? with
    | none => exact later rest c []
    | some last => rfl

end Runs

end Regex

end ArcReel.Lib
