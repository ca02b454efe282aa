import Mathlib.Tactic

/-! Programs that write one thing after the other and may stop between two writes. -/

namespace ArcReel.Lib.Crash

variable {σ τ α β : Type}

/-- A program: the states after each of its writes. -/
def Prog (σ : Type) : Type := σ → List σ

namespace Prog

/-- The state at the end. -/
def final (p : Prog σ) (s : σ) : σ := (p s).getLastD s

def skip : Prog σ := fun _ => []

def write (f : σ → σ) : Prog σ := fun s => [f s]

def seq (p q : Prog σ) : Prog σ := fun s => p s ++ q (p.final s)

/-- The program that `choose` picks from the state at its start. -/
def reading (choose : σ → Prog σ) : Prog σ := fun s => choose s s

def each (items : List α) (body : α → Prog σ) : Prog σ :=
  items.foldr (fun item rest => (body item).seq rest) skip

/-- A program on a part of the state. -/
def within (get : σ → τ) (put : σ → τ → σ) (p : Prog τ) : Prog σ := fun s => (p (get s)).map (put s)

/-- A stop is possible at the start and after each write. -/
def stops (p : Prog σ) (s : σ) : List σ := s :: p s

@[simp] theorem final_skip (s : σ) : final skip s = s := rfl

@[simp] theorem final_write (f : σ → σ) (s : σ) : final (write f) s = f s := rfl

theorem getLastD_append (first second : List σ) (s : σ) :
    (first ++ second).getLastD s = second.getLastD (first.getLastD s) := by
  cases second with
  | nil => simp
  | cons t second => simp [List.getLastD_eq_getLast?, List.getLast?_append]

@[simp] theorem final_seq (p q : Prog σ) (s : σ) : (p.seq q).final s = q.final (p.final s) :=
  getLastD_append _ _ _

theorem final_reading (choose : σ → Prog σ) (s : σ) : (reading choose).final s = (choose s).final s := rfl

@[simp] theorem final_each_nil (body : α → Prog σ) (s : σ) : (each [] body).final s = s := rfl

@[simp] theorem final_each_cons (item : α) (items : List α) (body : α → Prog σ) (s : σ) :
    (each (item :: items) body).final s = (each items body).final ((body item).final s) :=
  final_seq _ _ _

theorem mem_seq {p q : Prog σ} {s t : σ} : t ∈ p.seq q s ↔ t ∈ p s ∨ t ∈ q (p.final s) :=
  List.mem_append

theorem final_of_nil {p : Prog σ} {s : σ} (none : p s = []) : p.final s = s := by
  rw [final, none]
  rfl

theorem final_mem_stops (p : Prog σ) (s : σ) : p.final s ∈ p.stops s := by
  rw [final, stops]
  cases writes : p s with
  | nil => exact List.mem_cons_self
  | cons first rest =>
    rw [List.getLastD_eq_getLast?, List.getLast?_eq_some_getLast (by simp), Option.getD_some]
    exact List.mem_cons_of_mem _ (List.getLast_mem _)

theorem stops_seq {p q : Prog σ} {s t : σ} :
    t ∈ (p.seq q).stops s ↔ t ∈ p.stops s ∨ t ∈ q.stops (p.final s) := by
  simp only [stops, List.mem_cons, mem_seq]
  constructor
  · rintro (same | first | second)
    · exact .inl (.inl same)
    · exact .inl (.inr first)
    · exact .inr (.inr second)
  · rintro ((same | first) | (same | second))
    · exact .inl same
    · exact .inr (.inl first)
    · rw [same]
      rcases List.mem_cons.mp (final_mem_stops p s) with start | later
      · exact .inl start
      · exact .inr (.inl later)
    · exact .inr (.inr second)

section Within

variable {get : σ → τ} {put : σ → τ → σ}

theorem final_within (p : Prog τ) (s : σ) (same : put s (get s) = s) :
    (within get put p).final s = put s (p.final (get s)) := by
  rw [final, final, within]
  cases writes : p (get s) with
  | nil => exact same.symm
  | cons first rest =>
    simp only [List.getLastD_eq_getLast?, List.getLast?_map]
    rw [List.getLast?_eq_some_getLast (by simp)]
    rfl

theorem stops_within {p : Prog τ} {s t : σ} (same : put s (get s) = s) :
    t ∈ (within get put p).stops s ↔ ∃ part ∈ p.stops (get s), t = put s part := by
  simp only [stops, within, List.mem_cons, List.mem_map]
  constructor
  · rintro (here | ⟨part, member, rest⟩)
    · exact ⟨get s, .inl rfl, by rw [same, here]⟩
    · exact ⟨part, .inr member, rest.symm⟩
  · rintro ⟨part, here | member, rest⟩
    · exact .inl (by rw [rest, here, same])
    · exact .inr ⟨part, member, rest.symm⟩

end Within

/-- From a state with `before`, every write keeps `goal` and `during`, and the end has `after`. -/
structure Keeps (before : σ → Prop) (p : Prog σ) (during : σ → Prop) (after : σ → Prop)
    (goal : σ → β) : Prop where
  during : ∀ s, before s → ∀ t ∈ p s, during t ∧ goal t = goal s
  after : ∀ s, before s → after (p.final s)

variable {before during after middle : σ → Prop} {goal : σ → β} {p q : Prog σ}

theorem Keeps.final_goal (keeps : Keeps before p during after goal) {s : σ} (start : before s) :
    goal (p.final s) = goal s := by
  rcases List.mem_cons.mp (final_mem_stops p s) with same | later
  · rw [same]
  · exact (keeps.during s start _ later).2

theorem Keeps.skip (weaker : ∀ s, before s → after s) : Keeps before skip during after goal := by
  constructor
  · intro s _ t none
    cases none
  · exact weaker

theorem Keeps.seq (first : Keeps before p during middle goal) (second : Keeps middle q during after goal) :
    Keeps before (p.seq q) during after goal := by
  constructor
  · intro s start t member
    rcases mem_seq.mp member with early | late
    · exact first.during s start t early
    · have rest := second.during _ (first.after s start) t late
      exact ⟨rest.1, rest.2.trans (first.final_goal start)⟩
  · intro s start
    rw [final_seq]
    exact second.after _ (first.after s start)

/-- The rule for a loop; `inv done todo` holds between the rounds. -/
theorem Keeps.each {items : List α} {body : α → Prog σ} {inv : List α → σ → Prop}
    (round : ∀ done item todo, items = done ++ item :: todo →
      Keeps (inv done) (body item) during (inv (done ++ [item])) goal) :
    Keeps (inv []) (each items body) during (inv items) goal := by
  have suffix : ∀ done todo, items = done ++ todo →
      Keeps (inv done) (Prog.each todo body) during (inv items) goal := by
    intro done todo
    induction todo generalizing done with
    | nil =>
      intro split
      rw [split, List.append_nil]
      exact Keeps.skip fun _ start => start
    | cons item todo ih =>
      intro split
      exact (round done item todo split).seq (ih (done ++ [item]) (by simpa using split))
  exact suffix [] items rfl

end Prog

end ArcReel.Lib.Crash
