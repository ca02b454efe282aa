import Mathlib.Tactic

/-! Computations that may stop with an error: when they succeed. -/

namespace ArcReel.Lib

variable {ε α β : Type}

theorem bind_eq_ok {x : Except ε α} {f : α → Except ε β} {b : β} :
    (x >>= f) = .ok b ↔ ∃ a, x = .ok a ∧ f a = .ok b := by
  cases x with
  | error e => simp [bind, Except.bind]
  | ok a => simp [bind, Except.bind]

/-- A check that throws has passed. -/
theorem throwIf_eq_ok {c : Prop} [Decidable c] {e : ε} {f : α → Except ε β} {x : Except ε β} {b : β} :
    (if c then (throw e : Except ε α) >>= f else x) = .ok b ↔ ¬c ∧ x = .ok b := by
  by_cases holds : c
  · simp [holds, bind, Except.bind, throw, throwThe, MonadExceptOf.throw]
  · simp [holds]

/-- A list of computations succeeds if each one does. -/
theorem mapM_eq_ok {f : α → Except ε β} {items : List α} {results : List β} :
    items.mapM f = .ok results ↔ List.Forall₂ (fun item result => f item = .ok result) items results := by
  induction items generalizing results with
  | nil =>
    rw [List.mapM_nil, List.forall₂_nil_left_iff]
    exact ⟨fun done => (Except.ok.inj done).symm, fun empty => by rw [empty]; rfl⟩
  | cons item items ih =>
    rw [List.mapM_cons, bind_eq_ok, List.forall₂_cons_left_iff]
    constructor
    · intro found
      obtain ⟨result, first, later⟩ := found
      obtain ⟨rest, mapped, both⟩ := bind_eq_ok.mp later
      exact ⟨result, rest, first, ih.mp mapped, (Except.ok.inj both).symm⟩
    · intro found
      obtain ⟨result, rest, first, mapped, both⟩ := found
      exact ⟨result, first, bind_eq_ok.mpr ⟨rest, ih.mpr mapped, by rw [both]; rfl⟩⟩

theorem ok_of_mapM_eq_ok {f : α → Except ε β} {items : List α} {results : List β}
    (mapped : items.mapM f = .ok results) : ∀ item ∈ items, ∃ result, f item = .ok result := by
  intro item member
  obtain ⟨index, within, rfl⟩ := List.mem_iff_getElem.mp member
  have each := List.forall₂_iff_get.mp (mapM_eq_ok.mp mapped)
  exact ⟨_, each.2 index within (each.1 ▸ within)⟩

theorem mem_of_mapM_eq_ok {f : α → Except ε β} {items : List α} {results : List β}
    (mapped : items.mapM f = .ok results) (result : β) :
    result ∈ results ↔ ∃ item ∈ items, f item = .ok result := by
  induction mapM_eq_ok.mp mapped with
  | nil => simp
  | cons first later ih =>
    rw [List.mem_cons, List.exists_mem_cons_iff, first, Except.ok.injEq, eq_comm,
      ih (mapM_eq_ok.mpr later)]

/-- A list of computations that give `g` where `P` holds. -/
theorem mapM_eq_ok_map {f : α → Except ε β} {P : α → Prop} {g : α → β}
    (spec : ∀ item result, f item = .ok result ↔ P item ∧ result = g item) {items : List α}
    {results : List β} :
    items.mapM f = .ok results ↔ (∀ item ∈ items, P item) ∧ results = items.map g := by
  induction items generalizing results with
  | nil =>
    rw [List.mapM_nil, List.map_nil]
    exact ⟨fun done => ⟨fun _ member => (nomatch member), (Except.ok.inj done).symm⟩,
      fun empty => by rw [empty.2]; rfl⟩
  | cons item items ih =>
    rw [List.mapM_cons, bind_eq_ok, List.forall_mem_cons, List.map_cons]
    constructor
    · rintro ⟨result, first, later⟩
      obtain ⟨rest, mapped, both⟩ := bind_eq_ok.mp later
      obtain ⟨holds, rfl⟩ := (spec item result).mp first
      obtain ⟨all, rfl⟩ := ih.mp mapped
      exact ⟨⟨holds, all⟩, (Except.ok.inj both).symm⟩
    · rintro ⟨⟨holds, all⟩, rfl⟩
      exact ⟨g item, (spec item _).mpr ⟨holds, rfl⟩, bind_eq_ok.mpr ⟨_, ih.mpr ⟨all, rfl⟩, rfl⟩⟩

/-- The first computation that fails, after those before it. -/
theorem mapM_eq_error {f : α → Except ε β} {items : List α} {e : ε} :
    items.mapM f = .error e ↔ ∃ front item back, items = front ++ item :: back ∧
      (∀ other ∈ front, ∃ result, f other = .ok result) ∧ f item = .error e := by
  induction items with
  | nil => simp [List.mapM_nil, pure, Except.pure]
  | cons item items ih =>
    rw [List.mapM_cons]
    cases first : f item with
    | error e' =>
      constructor
      · intro failed
        have same : e' = e := Except.error.inj failed
        exact ⟨[], item, items, rfl, by simp, by rw [first, same]⟩
      · rintro ⟨front, other, back, whole, fine, failed⟩
        cases front with
        | nil =>
          rw [← (List.cons.inj whole).1, first] at failed
          rw [Except.error.inj failed]
          rfl
        | cons head front =>
          obtain ⟨result, passed⟩ := fine head List.mem_cons_self
          rw [← (List.cons.inj whole).1, first] at passed
          cases passed
    | ok result =>
      have later : ((Except.ok result : Except ε β) >>= fun x => items.mapM f >>= fun xs =>
          pure (x :: xs)) = .error e ↔ items.mapM f = .error e := by
        cases items.mapM f <;> simp [bind, Except.bind, pure, Except.pure]
      rw [later, ih]
      constructor
      · rintro ⟨front, other, back, rfl, fine, failed⟩
        refine ⟨item :: front, other, back, rfl, ?_, failed⟩
        exact List.forall_mem_cons.mpr ⟨⟨result, first⟩, fine⟩
      · rintro ⟨front, other, back, whole, fine, failed⟩
        cases front with
        | nil =>
          rw [← (List.cons.inj whole).1, first] at failed
          cases failed
        | cons head front =>
          exact ⟨front, other, back, (List.cons.inj whole).2, (List.forall_mem_cons.mp fine).2, failed⟩

end ArcReel.Lib
