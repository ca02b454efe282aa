import Mathlib.Tactic
import Mathlib.Data.List.TakeWhile

/-! The pieces of a list between separators. -/

namespace ArcReel.Lib

variable {α : Type} (p : α → Bool)

/-- The pieces that are not empty. -/
def pieces (l : List α) : List (List α) := (l.splitOnP p).filter fun piece => !piece.isEmpty

variable {p}

theorem forall_mem_of_all {P : α → Prop} [DecidablePred P] {l : List α}
    (all : l.all (fun x => decide (P x)) = true) : ∀ x ∈ l, P x := by
  intro x member
  exact of_decide_eq_true (List.all_eq_true.mp all x member)

theorem splitOnP_of_sep {x : α} (sep : p x = true) (l : List α) :
    (x :: l).splitOnP p = [] :: l.splitOnP p := by
  rw [List.splitOnP_cons_eq_if_modifyHead, if_pos sep]

/-- Up to the first separator, and then what follows it. -/
theorem splitOnP_eq (l : List α) : l.splitOnP p = l.takeWhile (fun x => !p x) ::
    match l.dropWhile fun x => !p x with
    | [] => []
    | _ :: rest => rest.splitOnP p := by
  induction l with
  | nil => rfl
  | cons x l ih =>
    cases sep : p x with
    | true => rw [splitOnP_of_sep sep, List.takeWhile_cons, List.dropWhile_cons, sep]; rfl
    | false =>
      rw [List.splitOnP_cons_eq_if_modifyHead, if_neg (by simp [sep]), ih, List.takeWhile_cons,
        List.dropWhile_cons, sep]
      rfl

theorem takeWhile_plain (l : List α) : ∀ x ∈ l.takeWhile fun x => !p x, p x = false := by
  intro x member
  simpa using List.mem_takeWhile_imp member

/-- A piece stands between separators or ends and has none itself. -/
theorem mem_splitOnP {l piece : List α} (member : piece ∈ l.splitOnP p) :
    ∃ before after, l = before ++ piece ++ after ∧ (∀ x ∈ before.getLast?, p x = true) ∧
      (∀ x ∈ after.head?, p x = true) ∧ ∀ x ∈ piece, p x = false := by
  induction size : l.length using Nat.strong_induction_on generalizing l with
  | _ count ih =>
    have parts : l.takeWhile (fun x => !p x) ++ l.dropWhile (fun x => !p x) = l :=
      List.takeWhile_append_dropWhile
    have stops : ∀ x ∈ (l.dropWhile fun x => !p x).head?, p x = true := by
      intro x isHead
      have here := List.head?_dropWhile_not (fun x => !p x) l
      rw [Option.mem_def.mp isHead] at here
      simpa using here
    rw [splitOnP_eq, List.mem_cons] at member
    cases member with
    | inl first =>
      rw [first]
      exact ⟨[], _, parts.symm, by simp, stops, takeWhile_plain l⟩
    | inr later =>
      cases dropped : l.dropWhile fun x => !p x with
      | nil =>
        rw [dropped] at later
        cases later
      | cons x rest =>
        rw [dropped] at later parts stops
        have shorter : rest.length < count := by
          rw [← size, ← parts, List.length_append, List.length_cons]
          omega
        obtain ⟨before, after, whole, first, last, plain⟩ := ih _ shorter later rfl
        refine ⟨l.takeWhile (fun x => !p x) ++ x :: before, after, ?_, ?_, last, plain⟩
        · conv_lhs => rw [← parts, whole]
          simp
        · intro y isLast
          rw [List.getLast?_append, List.getLast?_cons] at isLast
          cases found : before.getLast? with
          | none =>
            simp only [found, Option.getD_none, Option.some_or, Option.mem_some_iff] at isLast
            rw [← isLast]
            exact stops x rfl
          | some last =>
            simp only [found, Option.getD_some, Option.some_or, Option.mem_some_iff] at isLast
            exact first y (by rw [found, isLast]; rfl)

theorem pieces_of_sep {x : α} (sep : p x = true) (l : List α) : pieces p (x :: l) = pieces p l := by
  rw [pieces, splitOnP_of_sep sep, List.filter_cons_of_neg (by simp)]
  rfl

/-- The first piece of a list that does not start with a separator. -/
theorem pieces_of_plain {x : α} (plain : p x = false) (l : List α) :
    pieces p (x :: l) = (x :: l.takeWhile fun x => !p x) :: pieces p (l.dropWhile fun x => !p x) := by
  rw [pieces, splitOnP_eq, List.takeWhile_cons_of_pos (by simp [plain]),
    List.dropWhile_cons_of_pos (by simp [plain]), List.filter_cons_of_pos (by simp)]
  congr 1
  cases dropped : l.dropWhile fun x => !p x with
  | nil => rfl
  | cons y rest =>
    have stops := List.head?_dropWhile_not (fun x => !p x) l
    rw [dropped] at stops
    rw [pieces_of_sep (by simpa using stops)]
    rfl

/-- The first piece, what stands before it and what follows it. -/
theorem pieces_eq_cons {l piece : List α} {more : List (List α)} (split : pieces p l = piece :: more) :
    ∃ lead tail, l = lead ++ piece ++ tail ∧ (∀ x ∈ lead, p x = true) ∧ piece ≠ [] ∧
      (∀ x ∈ piece, p x = false) ∧ (∀ x ∈ tail.head?, p x = true) ∧ pieces p tail = more := by
  induction l with
  | nil => cases split
  | cons x l ih =>
    cases sep : p x with
    | true =>
      rw [pieces_of_sep sep] at split
      obtain ⟨lead, tail, whole, leads, filled, plain, stops, rest⟩ := ih split
      refine ⟨x :: lead, tail, by rw [whole]; rfl, ?_, filled, plain, stops, rest⟩
      intro y member
      cases List.mem_cons.mp member with
      | inl same => rw [same, sep]
      | inr inside => exact leads y inside
    | false =>
      rw [pieces_of_plain sep] at split
      obtain ⟨here, rest⟩ := List.cons.inj split
      refine ⟨[], l.dropWhile fun x => !p x, ?_, by simp, ?_, ?_, ?_, rest⟩
      · rw [← here, List.nil_append, List.cons_append, List.takeWhile_append_dropWhile]
      · rw [← here]
        exact List.cons_ne_nil _ _
      · intro y member
        rw [← here] at member
        cases List.mem_cons.mp member with
        | inl same => rw [same, sep]
        | inr inside => exact takeWhile_plain l y inside
      · intro y isHead
        have stops := List.head?_dropWhile_not (fun x => !p x) l
        rw [Option.mem_def.mp isHead] at stops
        simpa using stops

theorem pieces_eq_nil {l : List α} : pieces p l = [] ↔ ∀ x ∈ l, p x = true := by
  induction l with
  | nil => simp [pieces]
  | cons x l ih =>
    cases sep : p x with
    | true => rw [pieces_of_sep sep, ih]; simp [sep]
    | false => rw [pieces_of_plain sep]; simp [sep]

/-- A list has one longest front of elements with `p`. -/
theorem cut_unique {first rest first' rest' : List α} (same : first ++ rest = first' ++ rest')
    (front : ∀ x ∈ first, p x = true) (front' : ∀ x ∈ first', p x = true)
    (stop : ∀ x ∈ rest.head?, p x = false) (stop' : ∀ x ∈ rest'.head?, p x = false) :
    first = first' ∧ rest = rest' := by
  induction first generalizing first' with
  | nil =>
    cases first' with
    | nil => exact ⟨rfl, same⟩
    | cons x first' =>
      rw [List.nil_append] at same
      have blocked := stop x (by rw [same]; rfl)
      rw [front' x List.mem_cons_self] at blocked
      cases blocked
  | cons x first ih =>
    cases first' with
    | nil =>
      rw [List.nil_append] at same
      have blocked := stop' x (by rw [← same]; rfl)
      rw [front x List.mem_cons_self] at blocked
      cases blocked
    | cons y first' =>
      obtain ⟨heads, tails⟩ := List.cons.inj same
      obtain ⟨fronts, rests⟩ := ih tails (fun z member => front z (List.mem_cons_of_mem _ member))
        fun z member => front' z (List.mem_cons_of_mem _ member)
      exact ⟨by rw [heads, fronts], rests⟩

theorem length_splitOnP (l : List α) : (l.splitOnP p).length = l.countP p + 1 := by
  induction l with
  | nil => rfl
  | cons x l ih =>
    cases sep : p x with
    | true => rw [splitOnP_of_sep sep, List.length_cons, ih, List.countP_cons_of_pos sep]
    | false =>
      rw [List.splitOnP_cons_eq_if_modifyHead, if_neg (by simp [sep]), List.length_modifyHead, ih,
        List.countP_cons_of_neg (by simp [sep])]

/-- What is no separator is in a piece. -/
theorem mem_of_splitOnP {l : List α} {x : α} (member : x ∈ l) (plain : p x = false) :
    ∃ piece ∈ l.splitOnP p, x ∈ piece := by
  induction l with
  | nil => cases member
  | cons y l ih =>
    cases sep : p y with
    | true =>
      rw [splitOnP_of_sep sep]
      cases List.mem_cons.mp member with
      | inl same => rw [same, sep] at plain; cases plain
      | inr inside =>
        obtain ⟨piece, listed, found⟩ := ih inside
        exact ⟨piece, List.mem_cons_of_mem _ listed, found⟩
    | false =>
      obtain ⟨head, tail, split⟩ := List.exists_cons_of_ne_nil (List.splitOnP_ne_nil p l)
      rw [List.splitOnP_cons_eq_if_modifyHead, if_neg (by simp [sep]), split, List.modifyHead_cons]
      cases List.mem_cons.mp member with
      | inl same => exact ⟨y :: head, List.mem_cons_self, by rw [same]; exact List.mem_cons_self⟩
      | inr inside =>
        obtain ⟨piece, listed, found⟩ := ih inside
        rw [split] at listed
        cases List.mem_cons.mp listed with
        | inl first => exact ⟨y :: head, List.mem_cons_self, List.mem_cons_of_mem _ (first ▸ found)⟩
        | inr later => exact ⟨piece, List.mem_cons_of_mem _ later, found⟩

end ArcReel.Lib
