import ArcReel.Media.ReferenceCompression

/-! What a run with reference compression does: the provider calls and their steps, the hook before
the first of them, and the temporary copies. -/

namespace ArcReel.Media

section Payload

variable {W E B R : Type} {env : Environment W E B R}

/-- One reference for each spec, in order, within the limits as far as the bytes are known. -/
structure Fits (env : Environment W E B R) (specs : List ReferenceSpec) (limits : PayloadLimits)
    (refs : List (CompressedRef B)) : Prop where
  same : refs.map (fun ref => (ref.label, ref.role)) = specs.map fun spec => (spec.label, spec.role)
  total : (((refs.filterMap CompressedRef.data).map env.size).sum : Int) ≤ limits.totalMaxBytes
  single : ∀ ref ∈ refs, ref.role = .array → ∀ data ∈ ref.data,
    (env.size data : Int) ≤ min limits.singleMaxBytes limits.totalMaxBytes

theorem length_compressAll {raws : List (B × RefRole)} {step : Nat} {single : Int}
    {compressed : List (B × Bool)} (done : compressAll env raws step single = .ok compressed) :
    compressed.length = raws.length := by
  unfold compressAll at done
  induction raws generalizing compressed with
  | nil =>
    rw [List.mapM_nil] at done
    cases done
    rfl
  | cons raw raws ih =>
    rw [List.mapM_cons] at done
    cases first : compressSingleAtStep env raw.1 raw.2 step single with
    | error e =>
      rw [first] at done
      cases done
    | ok data =>
      cases others : raws.mapM (fun raw => compressSingleAtStep env raw.1 raw.2 step single) with
      | error e =>
        rw [first, others] at done
        cases done
      | ok rest =>
        rw [first, others] at done
        cases done
        rw [List.length_cons, List.length_cons, ih others]

/-- The step on which the ladder lands, and what has been compressed there. -/
theorem selectFrom_ok {raws : List (B × RefRole)} {limits : PayloadLimits} (remaining : Nat) {step : Nat}
    {landed : Nat} {compressed : List (B × Bool)}
    (found : selectFrom env raws limits remaining step = .ok (landed, compressed)) :
    step ≤ landed ∧ landed ≤ step + remaining ∧ compressed.length = raws.length ∧
      (totalSize env compressed : Int) ≤ limits.totalMaxBytes ∧
      singleOk env raws compressed (effectiveSingle limits) = true := by
  induction remaining generalizing step with
  | zero =>
    unfold selectFrom at found
    cases done : compressAll env raws step (effectiveSingle limits) with
    | error e =>
      simp only [done] at found
      cases found
    | ok compressed' =>
      simp only [done] at found
      split_ifs at found with fits
      cases found
      exact ⟨le_refl _, le_refl _, length_compressAll done, fits⟩
  | succ remaining ih =>
    unfold selectFrom at found
    cases done : compressAll env raws step (effectiveSingle limits) with
    | error e =>
      simp only [done] at found
      cases found
    | ok compressed' =>
      simp only [done] at found
      split_ifs at found with fits
      · cases found
        exact ⟨le_refl _, Nat.le_add_right _ _, length_compressAll done, fits⟩
      · obtain ⟨low, high, rest⟩ := ih found
        exact ⟨by omega, by omega, rest⟩

/-- What could be read, with its role. -/
def readable (read : List (ReferenceSpec × Option B)) : List (B × RefRole) :=
  read.filterMap fun spec => spec.2.map fun raw => (raw, spec.1.role)

variable (env) in
theorem mergeRefs_spec (i : Nat) (read : List (ReferenceSpec × Option B)) (compressed : List (B × Bool))
    (lengths : compressed.length = (readable read).length) :
    ((mergeRefs env i read compressed).map fun ref => (ref.label, ref.role)) =
        read.map (fun spec => (spec.1.label, spec.1.role)) ∧
      (mergeRefs env i read compressed).filterMap CompressedRef.data = compressed.map Prod.fst ∧
      ∀ single, singleOk env (readable read) compressed single = true →
        ∀ ref ∈ mergeRefs env i read compressed, ref.role = .array → ∀ data ∈ ref.data,
          (env.size data : Int) ≤ single := by
  induction read generalizing i compressed with
  | nil =>
    have none : compressed = [] := List.length_eq_zero_iff.mp lengths
    rw [none]
    exact ⟨rfl, rfl, fun _ _ => nofun⟩
  | cons spec read ih =>
    obtain ⟨spec, raw⟩ := spec
    cases raw with
    | none =>
      obtain ⟨labels, data, bounds⟩ := ih (i + 1) compressed lengths
      refine ⟨by rw [mergeRefs, List.map_cons, List.map_cons, labels], ?_, ?_⟩
      · rw [mergeRefs, List.filterMap_cons_none rfl, data]
      · intro single within ref member isArray bytes has
        rw [mergeRefs] at member
        cases List.mem_cons.mp member with
        | inl first =>
          rw [first] at has
          cases has
        | inr later => exact bounds single within ref later isArray bytes has
    | some raw =>
      cases compressed with
      | nil => cases lengths
      | cons first compressed =>
        obtain ⟨bytes, encoded⟩ := first
        obtain ⟨labels, data, bounds⟩ := ih (i + 1) compressed (Nat.succ.inj lengths)
        refine ⟨by rw [mergeRefs, List.map_cons, List.map_cons, labels], ?_, ?_⟩
        · rw [mergeRefs, List.filterMap_cons]
          simp only [data, List.map_cons]
        · intro single within ref member isArray bytes' has
          have split : singleOk env (readable ((spec, some raw) :: read)) ((bytes, encoded) :: compressed)
              single = ((spec.role ≠ .array || (env.size bytes : Int) ≤ single) &&
                singleOk env (readable read) compressed single) := rfl
          rw [split, Bool.and_eq_true] at within
          rw [mergeRefs] at member
          cases List.mem_cons.mp member with
          | inl first =>
            subst first
            cases has
            have here := within.1
            have array : spec.role = .array := isArray
            simpa [array] using here
          | inr later => exact bounds single within.2 ref later isArray bytes' has

theorem enterPayload_ok {world : W} {specs : List ReferenceSpec} {limits : PayloadLimits}
    {startStep landed : Nat} {refs : List (CompressedRef B)} {temporary : Bool}
    (entered : enterPayload env world specs limits startStep = .ok (landed, refs, temporary)) :
    startStep ≤ landed ∧ (startStep ≤ ladderSteps → landed ≤ ladderSteps) ∧ Fits env specs limits refs := by
  unfold enterPayload at entered
  cases selected : selectLadderStep env (readable (specs.map fun spec =>
      (spec, env.tryReadImage world spec.source))) limits startStep with
  | error failure =>
    rw [readable] at selected
    simp only [selected] at entered
    cases entered
  | ok found =>
    obtain ⟨step, compressed⟩ := found
    obtain ⟨low, high, lengths, total, single⟩ := selectFrom_ok _ selected
    obtain ⟨labels, data, bounds⟩ := mergeRefs_spec env 0 _ compressed lengths
    rw [readable] at selected
    simp only [selected] at entered
    cases failed : (temporaryIndexes (mergeRefs env 0 (specs.map fun spec =>
        (spec, env.tryReadImage world spec.source)) compressed)).findSome? (env.writeError world) with
    | some e =>
      simp only [failed] at entered
      cases entered
    | none =>
      simp only [failed, Except.ok.injEq, Prod.mk.injEq] at entered
      obtain ⟨rfl, rfl, -⟩ := entered
      refine ⟨low, fun within => by omega, ?_, ?_, ?_⟩
      · rw [labels, List.map_map]
        rfl
      · rw [data, List.map_map]
        exact total
      · exact bounds _ single

end Payload

namespace Event

variable {B : Type}

def isCall : Event B → Bool
  | called _ _ => true
  | _ => false

def isAwaited : Event B → Bool
  | awaited _ => true
  | _ => false

/-- The step on which the ladder had landed for a provider call. -/
def step : Event B → Option Nat
  | called landed _ => landed
  | _ => none

end Event

section Loop

variable {W E B R : Type} {env : Environment W E B R} {specs : List ReferenceSpec}
  {limits : PayloadLimits}

/-- What the claim asks of a run. -/
structure Upheld (env : Environment W E B R) (specs : List ReferenceSpec) (limits : PayloadLimits)
    (run : Run W B) : Prop where
  few : run.trace.countP Event.isCall ≤ ladderSteps + 1
  increasing : (run.trace.filterMap Event.step).Pairwise (· < ·)
  once : run.trace.countP Event.isAwaited ≤ 1
  admitted : env.beforeSubmit ≠ none → ∀ before landed refs after,
    run.trace = before ++ .called landed refs :: after → .awaited true ∈ before
  stops : ∀ before after, run.trace = before ++ .failed true :: after →
    ∀ event ∈ after, event.isCall = false
  fits : ∀ landed refs, .called landed refs ∈ run.trace →
    specs = [] ∧ refs = [] ∨ specs ≠ [] ∧ landed ≠ none ∧ Fits env specs limits refs
  clean : run.live = 0

/-- The part of a trace after the submit boundary, from a step of the ladder on. -/
structure Tail (env : Environment W E B R) (specs : List ReferenceSpec) (limits : PayloadLimits)
    (step : Nat) (more : List (Event B)) : Prop where
  few : more.countP Event.isCall + step ≤ ladderSteps + 1
  above : ∀ landed ∈ more.filterMap Event.step, step ≤ landed
  increasing : (more.filterMap Event.step).Pairwise (· < ·)
  silent : more.countP Event.isAwaited = 0
  stops : ∀ before after, more = before ++ .failed true :: after → ∀ event ∈ after, event.isCall = false
  fits : ∀ landed refs, .called landed refs ∈ more → landed ≠ none ∧ Fits env specs limits refs

theorem tail_nil {step : Nat} (within : step ≤ ladderSteps + 1) : Tail env specs limits step [] where
  few := by simpa using within
  above := nofun
  increasing := .nil
  silent := rfl
  stops before after split := by simp at split
  fits := nofun

/-- An error whose flag is set ends the trace; one whose flag is not set goes on. -/
theorem tail_failed {step : Nat} {flag : Bool} {more : List (Event B)}
    (tail : Tail env specs limits step more) (ends : flag = true → more = []) :
    Tail env specs limits step (.failed flag :: more) where
  few := tail.few
  above := tail.above
  increasing := tail.increasing
  silent := tail.silent
  stops := by
    intro before after split
    cases before with
    | nil =>
      obtain ⟨isFlag, rest⟩ := List.cons.inj split
      rw [← rest, ends (Event.failed.inj isFlag)]
      exact nofun
    | cons _ before => exact tail.stops before after (List.cons.inj split).2
  fits := by
    intro landed refs member
    cases List.mem_cons.mp member with
    | inl same => cases same
    | inr later => exact tail.fits landed refs later

theorem tail_called {step landed : Nat} {refs : List (CompressedRef B)} {more : List (Event B)}
    (low : step ≤ landed) (fits : Fits env specs limits refs)
    (tail : Tail env specs limits (landed + 1) more) :
    Tail env specs limits step (.called (some landed) refs :: more) where
  few := by
    have counted : (Event.called (some landed) refs :: more).countP Event.isCall =
        more.countP Event.isCall + 1 := List.countP_cons_of_pos rfl
    have few := tail.few
    omega
  above := by
    intro other member
    cases List.mem_cons.mp member with
    | inl same => exact same ▸ low
    | inr later => exact le_trans low (Nat.le_of_lt (tail.above other later))
  increasing := List.pairwise_cons.mpr ⟨fun other member => tail.above other member, tail.increasing⟩
  silent := tail.silent
  stops := by
    intro before after split
    cases before with
    | nil => cases (List.cons.inj split).1
    | cons _ before => exact tail.stops before after (List.cons.inj split).2
  fits := by
    intro landed' refs' member
    cases List.mem_cons.mp member with
    | inl same =>
      obtain ⟨rfl, rfl⟩ := Event.called.inj same
      exact ⟨nofun, fits⟩
    | inr later => exact tail.fits landed' refs' later

/-- What an iteration of the loop does with the answer of `_call_once`. -/
def settleAttempt (env : Environment W E B R) (specs : List ReferenceSpec) (limits : PayloadLimits)
    (fuel landed : Nat) (temporary : Bool) (later : Run W B) :
    Except E R → Option (Run W B × Except (Failure E) R)
  | .ok result => some ({ later with live := if temporary then later.live - 1 else later.live }, .ok result)
  | .error e =>
      let flag := isUnsafe env later.world
      let handled := { later.log (.failed flag) with
        live := if temporary then later.live - 1 else later.live }
      if env.is413 e = false ∨ flag = true then some (handled, .error (.error e))
      else if landed < ladderSteps then attempts env specs limits fuel (landed + 1) handled
      else some (handled, .error (.floor (some e)))

/-- The run once the references of an iteration have been compressed. -/
def entering (env : Environment W E B R) (temporary : Bool) (run : Run W B) : Run W B :=
  { run with
    world := env.compressing run.world
    live := if temporary then run.live + 1 else run.live }

theorem attempts_of_entered {fuel step landed : Nat} {run : Run W B} {refs : List (CompressedRef B)}
    {temporary : Bool} (entered : enterPayload env (env.compressing run.world) specs limits step =
      .ok (landed, refs, temporary)) :
    attempts env specs limits (fuel + 1) step run =
      let once := callOnce env (entering env temporary run) (some landed) refs
      settleAttempt env specs limits fuel landed temporary once.1 once.2 := by
  unfold attempts
  simp only [entered]
  rfl

/-- How a run goes on from a state in which the boundary has been crossed. -/
def Continues (env : Environment W E B R) (specs : List ReferenceSpec) (limits : PayloadLimits)
    (step : Nat) (trace : List (Event B)) (live : Nat)
    (ended : Option (Run W B × Except (Failure E) R)) : Prop :=
  ∃ run result more, ended = some (run, result) ∧ run.trace = trace ++ more ∧ run.live = live ∧
    Tail env specs limits step more

theorem settleAttempt_continues {fuel landed live : Nat} {temporary : Bool} {later : Run W B}
    (within : landed ≤ ladderSteps) (crossed : later.submitBoundaryCrossed = true)
    (opened : later.live = if temporary then live + 1 else live)
    (ih : landed < ladderSteps → ∀ run : Run W B, run.submitBoundaryCrossed = true →
      Continues env specs limits (landed + 1) run.trace run.live
        (attempts env specs limits fuel (landed + 1) run)) (result : Except E R) :
    Continues env specs limits (landed + 1) later.trace live
      (settleAttempt env specs limits fuel landed temporary later result) := by
  have closed : (if temporary then later.live - 1 else later.live) = live := by
    rw [opened]
    cases temporary <;> rfl
  have nothing : Tail env specs limits (landed + 1) [] := tail_nil (Nat.succ_le_succ within)
  cases result with
  | ok result => exact ⟨_, _, [], rfl, (List.append_nil _).symm, closed, nothing⟩
  | error e =>
    unfold settleAttempt
    simp only [closed]
    split_ifs with stops goes
    · exact ⟨_, _, [.failed (isUnsafe env later.world)], rfl, rfl, rfl,
        tail_failed nothing fun _ => rfl⟩
    · obtain ⟨run, ended, more, ends, trace, same, tail⟩ :=
        ih goes { later.log (.failed (isUnsafe env later.world)) with live := live } crossed
      refine ⟨run, ended, .failed (isUnsafe env later.world) :: more, ends, ?_, same,
        tail_failed tail fun flag => absurd (.inr flag) stops⟩
      rw [trace, Run.log, List.append_assoc]
      rfl
    · exact ⟨_, _, [.failed (isUnsafe env later.world)], rfl, rfl, rfl,
        tail_failed nothing fun _ => rfl⟩

/-- An iteration behind the boundary that gets its payload calls the provider first. -/
theorem attempts_calls {fuel step landed : Nat} {run : Run W B} {refs : List (CompressedRef B)}
    {temporary : Bool} (within : step ≤ ladderSteps) (crossed : run.submitBoundaryCrossed = true)
    (entered : enterPayload env (env.compressing run.world) specs limits step =
      .ok (landed, refs, temporary))
    (ih : landed < ladderSteps → ∀ run : Run W B, run.submitBoundaryCrossed = true →
      Continues env specs limits (landed + 1) run.trace run.live
        (attempts env specs limits fuel (landed + 1) run)) :
    Continues env specs limits (landed + 1) (run.trace ++ [.called (some landed) refs]) run.live
      (attempts env specs limits (fuel + 1) step run) := by
  obtain ⟨low, high, fits⟩ := enterPayload_ok entered
  have unfolded : callOnce env (entering env temporary run) (some landed) refs =
    call env (entering env temporary run) (some landed) refs := if_pos crossed
  rw [attempts_of_entered entered, unfolded]
  apply settleAttempt_continues (high within)
  · exact crossed
  · rfl
  · exact ih

/-- From a crossed boundary on, every iteration calls the provider on a later step. -/
theorem attempts_continues (fuel : Nat) {step : Nat} (within : step ≤ ladderSteps)
    (enough : ladderSteps < fuel + step) (run : Run W B) (crossed : run.submitBoundaryCrossed = true) :
    Continues env specs limits step run.trace run.live (attempts env specs limits fuel step run) := by
  induction fuel generalizing step run with
  | zero => omega
  | succ fuel ih =>
    cases entered : enterPayload env (env.compressing run.world) specs limits step with
    | error failure =>
      unfold attempts
      simp only [entered]
      exact ⟨_, _, [], rfl, (List.append_nil _).symm, rfl, tail_nil (by omega)⟩
    | ok payload =>
      obtain ⟨landed, refs, temporary⟩ := payload
      obtain ⟨low, -, fits⟩ := enterPayload_ok entered
      obtain ⟨run', result, more, ends, trace, same, tail⟩ :=
        attempts_calls within crossed entered fun below => ih (by omega) (by omega)
      refine ⟨run', result, .called (some landed) refs :: more, ends, ?_, same, tail_called low fits tail⟩
      rw [trace, List.append_assoc]
      rfl

/-- The hook raises an error that looks like a 413, and the loop goes on to a payload of a later
step. -/
def HookSlips (env : Environment W E B R) (specs : List ReferenceSpec) (limits : PayloadLimits)
    (world : W) : Prop :=
  specs ≠ [] ∧ ∃ hook, env.beforeSubmit = some hook ∧ ∃ landed refs temporary e,
    enterPayload env (env.compressing world) specs limits 0 = .ok (landed, refs, temporary) ∧
    (hook (env.compressing world)).2 = .error e ∧ env.is413 e = true ∧
    isUnsafe env (hook (env.compressing world)).1 = false ∧ landed < ladderSteps ∧
    ∃ payload, enterPayload env (env.compressing (hook (env.compressing world)).1) specs limits
      (landed + 1) = .ok payload

theorem upheld_of_tail {run : Run W B} {front more : List (Event B)} (nonempty : specs ≠ [])
    (trace : run.trace = front ++ more) (tail : Tail env specs limits 0 more)
    (opens : front = [] ∨ ∃ returned, front = [.awaited returned]) (clean : run.live = 0)
    (admitted : env.beforeSubmit ≠ none → front = [.awaited true] ∨ more.countP Event.isCall = 0) :
    Upheld env specs limits run where
  few := by
    have few := tail.few
    rw [trace]
    rcases opens with rfl | ⟨returned, rfl⟩
    · exact few
    · exact few
  increasing := by
    rw [trace]
    rcases opens with rfl | ⟨returned, rfl⟩
    · exact tail.increasing
    · exact tail.increasing
  once := by
    have silent := tail.silent
    rw [trace, List.countP_append, silent]
    rcases opens with rfl | ⟨returned, rfl⟩
    · exact Nat.zero_le 1
    · exact Nat.le_refl 1
  admitted := by
    intro hooked before landed refs after split
    rw [trace] at split
    cases admitted hooked with
    | inl front =>
      subst front
      cases before with
      | nil => cases (List.cons.inj split).1
      | cons first before =>
        rw [← (List.cons.inj split).1]
        exact List.mem_cons_self
    | inr none =>
      have member : Event.called landed refs ∈ front ++ more := by
        rw [split]
        exact List.mem_append_right _ List.mem_cons_self
      rcases opens with rfl | ⟨returned, rfl⟩
      · exact absurd rfl (List.countP_eq_zero.mp none _ member)
      · cases List.mem_cons.mp member with
        | inl same => cases same
        | inr later => exact absurd rfl (List.countP_eq_zero.mp none _ later)
  stops := by
    intro before after split
    rw [trace] at split
    rcases opens with rfl | ⟨returned, rfl⟩
    · exact tail.stops before after split
    · cases before with
      | nil => cases (List.cons.inj split).1
      | cons first before => exact tail.stops before after (List.cons.inj split).2
  fits := by
    intro landed refs member
    rw [trace] at member
    rcases opens with rfl | ⟨returned, rfl⟩
    · exact .inr ⟨nonempty, tail.fits landed refs member⟩
    · cases List.mem_cons.mp member with
      | inl same => cases same
      | inr later => exact .inr ⟨nonempty, tail.fits landed refs later⟩
  clean := clean

/-- A trace without references: the hook, if any, and then one call if it has returned. -/
theorem upheld_of_single {run : Run W B} {front back : List (Event B)}
    (trace : run.trace = front ++ back) (opens : front = [] ∨ ∃ returned, front = [.awaited returned])
    (once : back = [] ∨ back = [.called none []]) (clean : run.live = 0)
    (admitted : env.beforeSubmit ≠ none → front = [.awaited true] ∨ back = []) :
    Upheld env [] limits run where
  few := by
    rw [trace]
    rcases opens with rfl | ⟨returned, rfl⟩ <;> rcases once with rfl | rfl <;>
      simp [Event.isCall, ladderSteps]
  increasing := by
    rw [trace]
    rcases opens with rfl | ⟨returned, rfl⟩ <;> rcases once with rfl | rfl <;>
      exact List.Pairwise.nil
  once := by
    rw [trace]
    rcases opens with rfl | ⟨returned, rfl⟩
    · rcases once with rfl | rfl <;> exact Nat.zero_le 1
    · rcases once with rfl | rfl <;> exact Nat.le_refl 1
  admitted := by
    intro hooked before landed refs after split
    rw [trace] at split
    cases admitted hooked with
    | inl front =>
      subst front
      cases before with
      | nil => cases (List.cons.inj split).1
      | cons first before =>
        rw [← (List.cons.inj split).1]
        exact List.mem_cons_self
    | inr none =>
      have member : Event.called landed refs ∈ front ++ back := by
        rw [split]
        exact List.mem_append_right _ List.mem_cons_self
      rw [none] at member
      rcases opens with rfl | ⟨returned, rfl⟩ <;> simp at member
  stops := by
    intro before after split
    have member : Event.failed true ∈ front ++ back := by
      rw [← trace, split]
      exact List.mem_append_right _ List.mem_cons_self
    rcases opens with rfl | ⟨returned, rfl⟩ <;> rcases once with rfl | rfl <;> simp at member
  fits := by
    intro landed refs member
    rw [trace] at member
    left
    rcases opens with rfl | ⟨returned, rfl⟩ <;> rcases once with rfl | rfl <;> simp at member
    · exact ⟨rfl, member.2⟩
    · exact ⟨rfl, member.2⟩
  clean := clean

/-- Without references there is one call at most, and no retry. -/
theorem upheld_without_references (world : W) :
    ∃ run result, runWithReferenceCompression env [] limits world = some (run, result) ∧
      Upheld env [] limits run := by
  have opened : ∀ once : Run W B × Except E R,
      once = callOnce env (⟨world, false, 0, []⟩ : Run W B) none [] → Upheld env [] limits once.1 →
      ∃ run result, runWithReferenceCompression env [] limits world = some (run, result) ∧
        Upheld env [] limits run := by
    rintro ⟨run, result⟩ same upheld
    unfold runWithReferenceCompression
    simp only [List.isEmpty_nil, if_true, ← same]
    cases result with
    | ok result => exact ⟨run, .ok result, rfl, upheld⟩
    | error e => exact ⟨run, .error (.error e), rfl, upheld⟩
  apply opened _ rfl
  cases hooked : env.beforeSubmit with
  | none =>
    have called : callOnce env (⟨world, false, 0, []⟩ : Run W B) none [] =
        call env ⟨world, true, 0, []⟩ none [] := by simp [callOnce, hooked]
    rw [called]
    have trace : (call env (⟨world, true, 0, []⟩ : Run W B) none []).1.trace =
        [] ++ [.called none []] := rfl
    exact upheld_of_single trace (.inl rfl) (.inr rfl) rfl fun some_ => absurd hooked some_
  | some hook =>
    cases answer : hook world with
    | mk later outcome =>
      cases outcome with
      | error e =>
        have called : callOnce env (⟨world, false, 0, []⟩ : Run W B) none [] =
            (⟨later, true, 0, [.awaited false]⟩, .error e) := by
          simp [callOnce, hooked, answer, Run.log]
        rw [called]
        have trace : (⟨later, true, 0, [.awaited false]⟩ : Run W B).trace = [.awaited false] ++ [] := rfl
        exact upheld_of_single trace (.inr ⟨false, rfl⟩) (.inl rfl) rfl fun _ => .inr rfl
      | ok done =>
        have called : callOnce env (⟨world, false, 0, []⟩ : Run W B) none [] =
            call env ⟨later, true, 0, [.awaited true]⟩ none [] := by
          simp [callOnce, hooked, answer, Run.log]
        rw [called]
        have trace : (call env (⟨later, true, 0, [.awaited true]⟩ : Run W B) none []).1.trace =
            [.awaited true] ++ [.called none []] := rfl
        exact upheld_of_single trace (.inr ⟨true, rfl⟩) (.inr rfl) rfl fun _ => .inl rfl

/-- With references and without an error of the hook, the run is as the claim asks. -/
theorem upheld_of_admitted {world : W} {landed : Nat} {refs : List (CompressedRef B)}
    {temporary : Bool} (nonempty : specs ≠ [])
    (entered : enterPayload env (env.compressing world) specs limits 0 = .ok (landed, refs, temporary))
    {crossed : Run W B} {front : List (Event B)} (isCrossed : crossed.submitBoundaryCrossed = true)
    (trace : crossed.trace = front) (live : crossed.live = if temporary then 1 else 0)
    (opens : front = [] ∨ ∃ returned, front = [.awaited returned])
    (admitted : env.beforeSubmit ≠ none → front = [.awaited true])
    (once : callOnce env (entering env temporary (⟨world, false, 0, []⟩ : Run W B)) (some landed) refs =
      call env crossed (some landed) refs) :
    ∃ run result, attempts env specs limits (ladderSteps + 1) 0 (⟨world, false, 0, []⟩ : Run W B) =
      some (run, result) ∧ Upheld env specs limits run := by
  obtain ⟨low, high, fits⟩ := enterPayload_ok entered
  have high := high (Nat.zero_le _)
  have continues : Continues env specs limits (landed + 1) (front ++ [.called (some landed) refs]) 0
      (settleAttempt env specs limits ladderSteps landed temporary
        (call env crossed (some landed) refs).1 (call env crossed (some landed) refs).2) := by
    rw [← trace]
    apply settleAttempt_continues high
    · exact isCrossed
    · exact live.trans (by cases temporary <;> rfl)
    · exact fun below => attempts_continues ladderSteps below (by omega)
  obtain ⟨run, result, more, ends, spelled, clean, tail⟩ := continues
  refine ⟨run, result, ?_, ?_⟩
  · rw [attempts_of_entered entered, once]
    exact ends
  · rw [List.append_assoc] at spelled
    exact upheld_of_tail nonempty spelled (tail_called low fits tail) opens clean
      fun hooked => .inl (admitted hooked)

/-- The first answer of the loop when the hook raises. -/
theorem callOnce_raises {world later : W} {e : E} {hook : W → W × Except E Unit} {landed : Nat}
    {refs : List (CompressedRef B)} {temporary : Bool} (hooked : env.beforeSubmit = some hook)
    (answer : hook (env.compressing world) = (later, .error e)) :
    callOnce env (entering env temporary (⟨world, false, 0, []⟩ : Run W B)) (some landed) refs =
      (⟨later, true, if temporary then 1 else 0, [.awaited false]⟩, .error e) := by
  have fresh : (entering env temporary (⟨world, false, 0, []⟩ : Run W B)).submitBoundaryCrossed =
      false := rfl
  have here : (entering env temporary (⟨world, false, 0, []⟩ : Run W B)).world =
      env.compressing world := rfl
  unfold callOnce
  simp only [fresh, here, hooked, answer, Bool.false_eq_true, if_false]
  rfl

/-- What follows an error of the hook is as the claim asks exactly if the provider is not called. -/
theorem raised_iff {world later : W} {e : E} {hook : W → W × Except E Unit} {landed : Nat}
    {refs : List (CompressedRef B)} {temporary : Bool} (nonempty : specs ≠ [])
    (hooked : env.beforeSubmit = some hook)
    (entered : enterPayload env (env.compressing world) specs limits 0 = .ok (landed, refs, temporary))
    (answer : hook (env.compressing world) = (later, .error e)) :
    (∃ run result, attempts env specs limits (ladderSteps + 1) 0 (⟨world, false, 0, []⟩ : Run W B) =
        some (run, result) ∧ Upheld env specs limits run) ↔
      ¬(env.is413 e = true ∧ isUnsafe env later = false ∧ landed < ladderSteps ∧
        ∃ payload, enterPayload env (env.compressing later) specs limits (landed + 1) = .ok payload) := by
  have closed : (if temporary then (if temporary then 1 else 0) - 1 else (if temporary then 1 else 0)) =
      0 := by cases temporary <;> rfl
  have quiet : ∀ flag, Tail env specs limits 0 [Event.failed flag] :=
    fun flag => tail_failed (tail_nil (Nat.zero_le _)) fun _ => rfl
  have ends : ∀ flag, Upheld env specs limits
      (⟨later, true, 0, [.awaited false, .failed flag]⟩ : Run W B) := fun flag =>
    have trace : (⟨later, true, 0, [.awaited false, .failed flag]⟩ : Run W B).trace =
      [.awaited false] ++ [.failed flag] := rfl
    upheld_of_tail nonempty trace (quiet flag) (.inr ⟨false, rfl⟩) rfl fun _ => .inr rfl
  rw [attempts_of_entered entered, callOnce_raises hooked answer]
  simp only [settleAttempt, closed, Run.log, List.singleton_append]
  by_cases stops : env.is413 e = false ∨ isUnsafe env later = true
  · rw [if_pos stops]
    constructor
    · rintro - ⟨refused, isSafe, -⟩
      rcases stops with other | flag
      · rw [refused] at other
        cases other
      · rw [isSafe] at flag
        cases flag
    · exact fun _ => ⟨_, _, rfl, ends _⟩
  · rw [if_neg stops]
    obtain ⟨refused, isSafe⟩ := not_or.mp stops
    by_cases below : landed < ladderSteps
    · rw [if_pos below]
      cases again : enterPayload env (env.compressing later) specs limits (landed + 1) with
      | error failure =>
        have stopped : attempts env specs limits ladderSteps (landed + 1)
            (⟨later, true, 0, [.awaited false, .failed (isUnsafe env later)]⟩ : Run W B) =
          some (⟨env.compressing later, true, 0, [.awaited false, .failed (isUnsafe env later)]⟩,
            .error failure) := by
          simp only [ladderSteps, ladder, List.length_cons, List.length_nil, attempts, again]
        constructor
        · rintro - ⟨-, -, -, payload, found⟩
          cases found
        · intro _
          refine ⟨_, _, stopped, ?_⟩
          have trace : (⟨env.compressing later, true, 0,
              [.awaited false, .failed (isUnsafe env later)]⟩ : Run W B).trace =
            [.awaited false] ++ [.failed (isUnsafe env later)] := rfl
          exact upheld_of_tail nonempty trace (quiet _) (.inr ⟨false, rfl⟩) rfl fun _ => .inr rfl
      | ok payload =>
        obtain ⟨landed', refs', temporary'⟩ := payload
        have steps : ladderSteps = 3 + 1 := rfl
        obtain ⟨low, -, -⟩ := enterPayload_ok again
        have calls : Continues env specs limits (landed' + 1)
            ([.awaited false, .failed (isUnsafe env later)] ++ [.called (some landed') refs']) 0
            (attempts env specs limits (3 + 1) (landed + 1)
              (⟨later, true, 0, [.awaited false, .failed (isUnsafe env later)]⟩ : Run W B)) := by
          apply attempts_calls below
          · rfl
          · exact again
          · exact fun lower => attempts_continues 3 lower (by omega)
        obtain ⟨run, result, more, called, trace, -, -⟩ := calls
        constructor
        · rintro ⟨run', result', same, upheld⟩ -
          have equal : some (run', result') = some (run, result) := same.symm.trans called
          obtain ⟨rfl, -⟩ := Prod.mk.inj (Option.some.inj equal)
          have before := upheld.admitted (by rw [hooked]; nofun)
            [.awaited false, .failed (isUnsafe env later)] (some landed') refs' more
            (by rw [trace]; simp)
          simp at before
        · intro none
          exact absurd ⟨by simpa using refused, by simpa using isSafe, below, _, rfl⟩ none
    · rw [if_neg below]
      constructor
      · rintro - ⟨-, -, lower, -⟩
        exact below lower
      · exact fun _ => ⟨_, _, rfl, ends _⟩

/-- The run of the loop is as the claim asks, unless the hook's own error is taken for a refusal of
the payload. -/
theorem compression_loop_iff (env : Environment W E B R) (specs : List ReferenceSpec)
    (limits : PayloadLimits) (world : W) :
    (∃ run result, runWithReferenceCompression env specs limits world = some (run, result) ∧
      Upheld env specs limits run) ↔ ¬HookSlips env specs limits world := by
  by_cases empty : specs = []
  · subst empty
    exact ⟨fun _ slips => slips.1 rfl, fun _ => upheld_without_references world⟩
  have unfolded : runWithReferenceCompression env specs limits world =
      attempts env specs limits (ladderSteps + 1) 0 ⟨world, false, 0, []⟩ := by
    have some_ : specs.isEmpty = false := List.isEmpty_eq_false_iff.mpr empty
    simp only [runWithReferenceCompression, some_, Bool.false_eq_true, if_false]
  rw [unfolded]
  cases entered : enterPayload env (env.compressing world) specs limits 0 with
  | error failure =>
    have ends : attempts env specs limits (ladderSteps + 1) 0 (⟨world, false, 0, []⟩ : Run W B) =
        some (⟨env.compressing world, false, 0, []⟩, .error failure) := by
      unfold attempts
      simp only [entered]
    constructor
    · rintro - ⟨-, hook, -, landed, refs, temporary, e, again, -⟩
      rw [entered] at again
      cases again
    · intro _
      refine ⟨_, _, ends, ?_⟩
      exact upheld_of_tail empty rfl (tail_nil (Nat.zero_le _)) (.inl rfl) rfl fun _ => .inr rfl
  | ok payload =>
    obtain ⟨landed, refs, temporary⟩ := payload
    cases hooked : env.beforeSubmit with
    | none =>
      constructor
      · rintro - ⟨-, hook, some_, -⟩
        rw [hooked] at some_
        cases some_
      · intro _
        have once : callOnce env (entering env temporary (⟨world, false, 0, []⟩ : Run W B))
              (some landed) refs =
            call env ⟨env.compressing world, true, if temporary then 1 else 0, []⟩ (some landed) refs := by
          have fresh : (entering env temporary (⟨world, false, 0, []⟩ : Run W B)).submitBoundaryCrossed =
            false := rfl
          simp only [callOnce, fresh, hooked, Bool.false_eq_true, if_false]
          rfl
        exact upheld_of_admitted empty entered rfl rfl rfl (.inl rfl)
          (fun some_ => absurd hooked some_) once
    | some hook =>
      cases answer : hook (env.compressing world) with
      | mk later outcome =>
        cases outcome with
        | ok done =>
          constructor
          · rintro - ⟨-, hook', same, -, -, -, e, -, raises, -⟩
            rw [hooked, Option.some.injEq] at same
            subst same
            rw [answer] at raises
            cases raises
          · intro _
            have once : callOnce env (entering env temporary (⟨world, false, 0, []⟩ : Run W B))
                  (some landed) refs =
                call env ⟨later, true, if temporary then 1 else 0, [.awaited true]⟩ (some landed)
                  refs := by
              have fresh : (entering env temporary
                (⟨world, false, 0, []⟩ : Run W B)).submitBoundaryCrossed = false := rfl
              have here : (entering env temporary (⟨world, false, 0, []⟩ : Run W B)).world =
                env.compressing world := rfl
              unfold callOnce
              simp only [fresh, here, hooked, answer, Bool.false_eq_true, if_false]
              rfl
            exact upheld_of_admitted empty entered rfl rfl rfl (.inr ⟨true, rfl⟩) (fun _ => rfl) once
        | error e =>
          rw [raised_iff empty hooked entered answer]
          apply not_congr
          constructor
          · rintro ⟨refused, isSafe, below, again⟩
            refine ⟨empty, hook, hooked, landed, refs, temporary, e, entered, ?_, refused, ?_, below, ?_⟩
            · rw [answer]
            · rw [answer]
              exact isSafe
            · rw [answer]
              exact again
          · rintro ⟨-, hook', same, landed', refs', temporary', e', entered', raises, refused, isSafe,
              below, again⟩
            rw [hooked, Option.some.injEq] at same
            subst same
            rw [answer] at raises isSafe again
            cases raises
            rw [entered, Except.ok.injEq, Prod.mk.injEq] at entered'
            rw [← entered'.1] at below again
            exact ⟨refused, isSafe, below, again⟩

end Loop

/-- A hook that fails with a message that looks like a refusal of the payload, before a provider that
accepts everything; images are their sizes. -/
def refusingHook : Environment Unit String Nat Unit where
  size := id
  imageMeta _ := .ok ("JPEG", 1024)
  compressImageBytes raw _ _ := .ok raw
  stem := id
  tryReadImage _ _ := some 1000
  writeError _ _ := none
  compressing := id
  is413 e := e == "payload too large"
  beforeSubmit := some fun world => (world, .error "payload too large")
  buildAndCall world _ := (world, .ok ())
  providerResubmitIsUnsafe := none

def oneReference : List ReferenceSpec := [⟨"ref.jpg", "hero", .array⟩]

/-- The provider is called although the hook has failed. -/
theorem called_after_failed_hook :
    ∃ run, runWithReferenceCompression refusingHook oneReference ⟨8388608, 4194304⟩ () =
        some (run, .ok ()) ∧
      run.trace = [.awaited false, .failed false,
        .called (some 1) [⟨.temporary 0 "ref.jpg", "hero", .array, some 1000⟩]] ∧
      ¬Upheld refusingHook oneReference ⟨8388608, 4194304⟩ run := by
  refine ⟨_, rfl, rfl, ?_⟩
  intro upheld
  have before := upheld.admitted nofun [.awaited false, .failed false] (some 1)
    [⟨.temporary 0 "ref.jpg", "hero", .array, some 1000⟩] [] rfl
  simp at before

end ArcReel.Media
