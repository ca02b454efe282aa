import Mathlib.Tactic

/-! Runs of a partial step function, and invariants of such runs. -/

namespace ArcReel.Lib

section Run

variable {σ ι : Type} (step : σ → ι → Option σ)

/-- The steps in order; `none` if one of them is not possible. -/
def runSteps : List ι → σ → Option σ
  | [], s => some s
  | next :: later, s => (step s next).bind (runSteps later)

/-- Every step of the run meets the condition in the state in which it is taken. -/
def allSteps (condition : σ → ι → Bool) : List ι → σ → Bool
  | [], _ => true
  | next :: later, s => condition s next && (step s next).all (allSteps condition later)

variable {step}

theorem runSteps_cons {next : ι} {later : List ι} {s t : σ} :
    runSteps step (next :: later) s = some t ↔
      ∃ between, step s next = some between ∧ runSteps step later between = some t :=
  Option.bind_eq_some_iff

theorem runSteps_append {first second : List ι} {s t : σ} :
    runSteps step (first ++ second) s = some t ↔
      ∃ between, runSteps step first s = some between ∧ runSteps step second between = some t := by
  induction first generalizing s with
  | nil => simp [runSteps]
  | cons next first ih =>
    simp only [List.cons_append, runSteps_cons, ih]
    constructor
    · intro found
      obtain ⟨mid, stepped, between, ran, rest⟩ := found
      exact ⟨between, ⟨mid, stepped, ran⟩, rest⟩
    · intro found
      obtain ⟨between, ⟨mid, stepped, ran⟩, rest⟩ := found
      exact ⟨mid, stepped, between, ran, rest⟩

theorem allSteps_append {condition : σ → ι → Bool} {first second : List ι} {s t : σ}
    (ran : runSteps step first s = some t) :
    allSteps step condition (first ++ second) s =
      (allSteps step condition first s && allSteps step condition second t) := by
  induction first generalizing s with
  | nil =>
    rw [← Option.some.inj ran]
    rfl
  | cons next first ih =>
    obtain ⟨between, stepped, rest⟩ := runSteps_cons.mp ran
    simp only [List.cons_append, allSteps, stepped, Option.all_some, ih rest, Bool.and_assoc]

/-- What every step that meets the condition preserves, a run of such steps preserves. -/
theorem runSteps_induct_of {condition : σ → ι → Bool} {inv : σ → Prop}
    (preserved : ∀ s next t, inv s → condition s next = true → step s next = some t → inv t)
    {steps : List ι} {s t : σ} (start : inv s) (all : allSteps step condition steps s = true)
    (ran : runSteps step steps s = some t) : inv t := by
  induction steps generalizing s with
  | nil =>
    rw [← Option.some.inj ran]
    exact start
  | cons next later ih =>
    obtain ⟨between, stepped, rest⟩ := runSteps_cons.mp ran
    rw [allSteps, Bool.and_eq_true, stepped] at all
    exact ih (preserved s next between start all.1 stepped) all.2 rest

theorem runSteps_induct {inv : σ → Prop}
    (preserved : ∀ s next t, inv s → step s next = some t → inv t)
    {steps : List ι} {s t : σ} (start : inv s) (ran : runSteps step steps s = some t) : inv t := by
  induction steps generalizing s with
  | nil =>
    rw [← Option.some.inj ran]
    exact start
  | cons next later ih =>
    obtain ⟨between, stepped, rest⟩ := runSteps_cons.mp ran
    exact ih (preserved s next between start stepped) rest

/-- An invariant that also speaks of the steps taken so far. -/
theorem runSteps_induct_history {inv : List ι → σ → Prop}
    (preserved : ∀ done s next t, inv done s → step s next = some t → inv (done ++ [next]) t)
    {done steps : List ι} {s t : σ} (start : inv done s) (ran : runSteps step steps s = some t) :
    inv (done ++ steps) t := by
  induction steps generalizing done s with
  | nil =>
    rw [← Option.some.inj ran, List.append_nil]
    exact start
  | cons next later ih =>
    obtain ⟨between, stepped, rest⟩ := runSteps_cons.mp ran
    rw [List.append_cons]
    exact ih (preserved done s next between start stepped) rest

/-- Where one step keeps a property exactly if it meets the condition, all steps of a run meet it
exactly if the property holds in every state of the run. -/
theorem allSteps_iff {condition : σ → ι → Bool} {inv fine : σ → Prop}
    (preserved : ∀ s next t, inv s → step s next = some t → inv t)
    (exact_ : ∀ s next t, inv s → fine s → step s next = some t →
      (fine t ↔ condition s next = true))
    {steps : List ι} {s t : σ} (start : inv s) (holds : fine s)
    (ran : runSteps step steps s = some t) :
    allSteps step condition steps s = true ↔
      ∀ front back u, steps = front ++ back → runSteps step front s = some u → fine u := by
  induction steps generalizing s with
  | nil =>
    refine ⟨fun _ front back u split reached => ?_, fun _ => rfl⟩
    rw [(List.append_eq_nil_iff.mp split.symm).1] at reached
    rw [← Option.some.inj reached]
    exact holds
  | cons next later ih =>
    obtain ⟨between, stepped, rest⟩ := runSteps_cons.mp ran
    have once := exact_ s next between start holds stepped
    rw [allSteps, Bool.and_eq_true, stepped, Option.all_some, ← once]
    constructor
    · rintro ⟨fineNext, all⟩ front back u split reached
      cases front with
      | nil =>
        rw [← Option.some.inj reached]
        exact holds
      | cons first front =>
        obtain ⟨rfl, parted⟩ := List.cons_eq_cons.mp split
        obtain ⟨mid, taken, reached⟩ := runSteps_cons.mp reached
        rw [stepped] at taken
        cases taken
        exact (ih (preserved s next between start stepped) fineNext rest).mp all front back u parted
          reached
    · intro every
      have fineNext : fine between := by
        refine every [next] later between rfl (runSteps_cons.mpr ⟨between, stepped, rfl⟩)
      refine ⟨fineNext, (ih (preserved s next between start stepped) fineNext rest).mpr ?_⟩
      intro front back u split reached
      refine every (next :: front) back u (by rw [split, List.cons_append]) ?_
      exact runSteps_cons.mpr ⟨between, stepped, reached⟩

end Run

end ArcReel.Lib
