import ArcReel.Worker.Dispatch

/-! The concurrency limit of a provider over whole runs. -/

namespace ArcReel.Worker
open ArcReel.Lib

/-- The dispatcher `d` of the provider has a sub-task alive on the task. -/
def State.live (s : State) (d : Nat) (provider taskId : String) : Prop :=
  ∃ dispatcher, s.dispatchers[d]? = some dispatcher ∧ dispatcher.provider = provider ∧
    ∃ task ∈ dispatcher.subTasks, task.taskId = taskId ∧ task.phase ≠ .ended

/-- The dispatcher `d` of the provider has a sub-task on the task that holds a permit. -/
def State.holds (s : State) (d : Nat) (provider taskId : String) : Prop :=
  ∃ dispatcher, s.dispatchers[d]? = some dispatcher ∧ dispatcher.provider = provider ∧
    ⟨taskId, .holding⟩ ∈ dispatcher.subTasks

/-- The bucket belongs to one dispatcher: its permits stand behind every occupant that is not
pending, and no other dispatcher is alive on a task of the bucket. -/
structure Owned (s : State) (provider : String) (d : Nat) : Prop where
  held : ∀ entry ∈ (s.slots.bucket provider "video").entries, entry.2.pending = false →
    s.holds d provider entry.1
  foreign : ∀ other, other ≠ d → ∀ taskId ∈ (s.slots.bucket provider "video").keys,
    ¬s.live other provider taskId

structure Limited (capacity : CapacityTable) (s : State) : Prop where
  throttled : ∀ dispatcher ∈ s.dispatchers,
    dispatcher.holders ≤ capacity.get dispatcher.provider "video"
  unstarted : ∀ dispatcher ∈ s.dispatchers, dispatcher.scheduled ≠ none → dispatcher.subTasks = []
  bounded : ∀ provider, (s.slots.bucket provider "video").size ≤ capacity.get provider "video" ∨
    ∃ d, Owned s provider d

theorem limited_start (capacity : CapacityTable) : Limited capacity .start where
  throttled := by simp [State.start]
  unstarted := by simp [State.start]
  bounded provider := .inl (by simp [State.start])

variable {capacity : CapacityTable} {s s' : State} {provider : String}

theorem inflight_le (limited : Limited capacity s) (provider : String) :
    inflight s provider ≤ capacity.get provider "video" := by
  cases limited.bounded provider with
  | inl small =>
    calc inflight s provider ≤ (s.slots.bucket provider "video").entries.length :=
          List.countP_le_length
      _ ≤ capacity.get provider "video" := small
  | inr owner =>
    obtain ⟨d, owned⟩ := owner
    by_cases none_ : inflight s provider = 0
    · omega
    · have some_ : 0 < inflight s provider := by omega
      obtain ⟨entry, member, running⟩ := List.countP_pos_iff.mp some_
      obtain ⟨dispatcher, here, named, -⟩ := owned.held entry member (by simpa using running)
      have inside : ∀ taskId ∈ ((s.slots.bucket provider "video").filter fun _ occupant =>
          !occupant.pending).keys, taskId ∈ (dispatcher.subTasks.filter fun task =>
            task.phase == .holding).map SubTask.taskId := by
        intro taskId listed
        obtain ⟨entry, member, same⟩ := List.mem_map.mp listed
        rw [Dict.mem_entries_filter] at member
        obtain ⟨other, there, -, holder⟩ := owned.held entry member.1 (by simpa using member.2)
        rw [here] at there
        rw [Option.some.inj there]
        exact List.mem_map.mpr ⟨_, List.mem_filter.mpr ⟨holder, rfl⟩, same⟩
      have fewer := (List.subperm_of_subset (Dict.keys_nodup _) inside).length_le
      rw [Dict.length_keys, List.length_map, ← List.countP_eq_length_filter] at fewer
      have throttled := limited.throttled dispatcher (List.mem_of_getElem? here)
      rw [named] at throttled
      calc inflight s provider = ((s.slots.bucket provider "video").filter fun _ occupant =>
            !occupant.pending).size := List.countP_eq_length_filter
        _ ≤ dispatcher.holders := fewer
        _ ≤ capacity.get provider "video" := throttled

/-- A step that adds no occupant and no live sub-task, and keeps the permits behind the
occupants, keeps the bound. -/
theorem bounded_of_no_more
    (smaller : (s'.slots.bucket provider "video").size ≤ (s.slots.bucket provider "video").size)
    (keys : ∀ taskId ∈ (s'.slots.bucket provider "video").keys,
      taskId ∈ (s.slots.bucket provider "video").keys)
    (live : ∀ d taskId, s'.live d provider taskId → s.live d provider taskId)
    (held : ∀ d, Owned s provider d → ∀ entry ∈ (s'.slots.bucket provider "video").entries,
      entry.2.pending = false → s'.holds d provider entry.1)
    (bounded : (s.slots.bucket provider "video").size ≤ capacity.get provider "video" ∨
      ∃ d, Owned s provider d) :
    (s'.slots.bucket provider "video").size ≤ capacity.get provider "video" ∨
      ∃ d, Owned s' provider d := by
  cases bounded with
  | inl small => exact .inl (smaller.trans small)
  | inr owner =>
    obtain ⟨d, owned⟩ := owner
    refine .inr ⟨d, held d owned, ?_⟩
    intro other apart taskId listed alive
    exact owned.foreign other apart taskId (keys taskId listed) (live other taskId alive)

/-- A step that only removes occupants, and leaves the dispatchers alone. -/
theorem limited_of_shrink (limited : Limited capacity s)
    (dispatchers : s'.dispatchers = s.dispatchers)
    (shrink : ∀ provider, (s'.slots.bucket provider "video").entries.Sublist
      (s.slots.bucket provider "video").entries) : Limited capacity s' where
  throttled := by
    rw [dispatchers]
    exact limited.throttled
  unstarted := by
    rw [dispatchers]
    exact limited.unstarted
  bounded provider := by
    apply bounded_of_no_more (shrink provider).length_le _ _ _ (limited.bounded provider)
    · exact fun taskId listed => ((shrink provider).map Prod.fst).subset listed
    · intro d taskId alive
      rwa [State.live, dispatchers] at alive
    · intro d owned entry member running
      have holder := owned.held entry ((shrink provider).subset member) running
      rwa [State.holds, ← dispatchers] at holder

theorem limited_of_same (limited : Limited capacity s)
    (dispatchers : s'.dispatchers = s.dispatchers) (slots : s'.slots = s.slots) :
    Limited capacity s' := by
  refine limited_of_shrink limited dispatchers fun provider => ?_
  rw [slots]

/-! The phase of one sub-task changes. -/

section SetPhase

variable {d n : Nat} {dispatcher : Dispatcher} {task : SubTask} {phase : Phase}
  (here : s.dispatchers[d]? = some dispatcher) (there : dispatcher.subTasks[n]? = some task)
  (dispatchers : s'.dispatchers = s.setPhase d n phase)

include dispatchers

theorem setPhase_other {other : Nat} (apart : other ≠ d) :
    s'.dispatchers[other]? = s.dispatchers[other]? := by
  rw [dispatchers, State.setPhase, List.getElem?_modify]
  simp [apart.symm]

include here

theorem setPhase_self : s'.dispatchers[d]? = some { dispatcher with
    subTasks := dispatcher.subTasks.modify n fun task => { task with phase } } := by
  rw [dispatchers, State.setPhase, List.getElem?_modify]
  simp [here]

include there

theorem setPhase_live (alive : task.phase ≠ .ended) (other : Nat) (provider taskId : String)
    (after : s'.live other provider taskId) : s.live other provider taskId := by
  by_cases same : other = d
  · subst same
    obtain ⟨found, located, named, changed, member, owner, live⟩ := after
    rw [setPhase_self here dispatchers] at located
    rw [← Option.some.inj located] at named member
    refine ⟨dispatcher, here, named, ?_⟩
    obtain ⟨i, position⟩ := List.mem_iff_getElem?.mp member
    rw [List.getElem?_modify] at position
    obtain ⟨old, before, changes⟩ := Option.map_eq_some_iff.mp position
    by_cases at_ : n = i
    · subst at_
      rw [there] at before
      obtain rfl := Option.some.inj before
      refine ⟨task, List.mem_of_getElem? there, ?_, alive⟩
      rw [if_pos rfl] at changes
      rw [← owner, ← changes]
    · rw [if_neg at_] at changes
      have same : old = changed := changes
      exact ⟨old, List.mem_of_getElem? before, same ▸ owner, same ▸ live⟩
  · obtain ⟨found, located, rest⟩ := after
    rw [setPhase_other dispatchers same] at located
    exact ⟨found, located, rest⟩

theorem setPhase_holds (safe : phase = .holding ∨ task.taskId ≠ taskId ∨ task.phase = .waiting)
    (other : Nat) (provider : String) (before : s.holds other provider taskId) :
    s'.holds other provider taskId := by
  by_cases same : other = d
  · subst same
    obtain ⟨found, located, named, member⟩ := before
    rw [here] at located
    obtain rfl := Option.some.inj located
    refine ⟨_, setPhase_self here dispatchers, named, ?_⟩
    obtain ⟨i, position⟩ := List.mem_iff_getElem?.mp member
    apply List.mem_iff_getElem?.mpr
    refine ⟨i, ?_⟩
    rw [List.getElem?_modify, position]
    by_cases at_ : n = i
    · subst at_
      rw [there] at position
      obtain rfl := Option.some.inj position
      simp only [if_true, Option.map_eq_map, Option.map_some]
      cases safe with
      | inl held => rw [held]
      | inr unheld =>
        cases unheld with
        | inl apart => exact absurd rfl apart
        | inr waits => cases waits
    · simp [at_]
  · obtain ⟨found, located, rest⟩ := before
    rw [← setPhase_other dispatchers same] at located
    exact ⟨found, located, rest⟩

end SetPhase

theorem countP_modify_le {α : Type} (counts : α → Bool) (f : α → α) (l : List α) (n : Nat) :
    (l.modify n f).countP counts ≤ l.countP counts + 1 := by
  induction l generalizing n with
  | nil => simp
  | cons head tail ih =>
    cases n with
    | zero =>
      simp only [List.modify_zero_cons, List.countP_cons]
      split_ifs <;> omega
    | succ n =>
      have deeper := ih n
      simp only [List.modify_succ_cons, List.countP_cons]
      omega

theorem countP_modify_of_not {α : Type} (counts : α → Bool) (f : α → α)
    (never : ∀ a, counts (f a) = false) (l : List α) (n : Nat) :
    (l.modify n f).countP counts ≤ l.countP counts := by
  induction l generalizing n with
  | nil => simp
  | cons head tail ih =>
    cases n with
    | zero => simp [List.countP_cons, never]
    | succ n =>
      have deeper := ih n
      simp only [List.modify_succ_cons, List.countP_cons]
      omega

/-- The permits that are taken stay within the capacity. -/
theorem throttled_setPhase {d n : Nat} {dispatcher : Dispatcher} {phase : Phase}
    (limited : Limited capacity s) (here : s.dispatchers[d]? = some dispatcher)
    (dispatchers : s'.dispatchers = s.setPhase d n phase)
    (permit : phase ≠ .holding ∨
      dispatcher.holders < capacity.get dispatcher.provider "video") :
    ∀ changed ∈ s'.dispatchers, changed.holders ≤ capacity.get changed.provider "video" := by
  intro changed member
  obtain ⟨i, located⟩ := List.mem_iff_getElem?.mp member
  by_cases same : i = d
  · subst same
    rw [setPhase_self here dispatchers] at located
    rw [← Option.some.inj located]
    have before := limited.throttled dispatcher (List.mem_of_getElem? here)
    cases permit with
    | inl unheld =>
      have fewer : _ ≤ dispatcher.holders := countP_modify_of_not
        (fun task : SubTask => task.phase == .holding) (fun task => { task with phase })
        (fun _ => by simpa using unheld) dispatcher.subTasks n
      exact fewer.trans before
    | inr free =>
      have one : _ ≤ dispatcher.holders + 1 := countP_modify_le
        (fun task : SubTask => task.phase == .holding) (fun task => { task with phase })
        dispatcher.subTasks n
      exact one.trans free
  · rw [setPhase_other dispatchers same] at located
    exact limited.throttled changed (List.mem_of_getElem? located)

theorem unstarted_setPhase {d n : Nat} {dispatcher : Dispatcher} {phase : Phase}
    (limited : Limited capacity s) (here : s.dispatchers[d]? = some dispatcher)
    (dispatchers : s'.dispatchers = s.setPhase d n phase) :
    ∀ changed ∈ s'.dispatchers, changed.scheduled ≠ none → changed.subTasks = [] := by
  intro changed member waits
  obtain ⟨i, located⟩ := List.mem_iff_getElem?.mp member
  by_cases same : i = d
  · subst same
    rw [setPhase_self here dispatchers] at located
    rw [← Option.some.inj located] at waits ⊢
    simp [limited.unstarted dispatcher (List.mem_of_getElem? here) waits]
  · rw [setPhase_other dispatchers same] at located
    exact limited.unstarted changed (List.mem_of_getElem? located) waits

theorem subTask_eq_some {d n : Nat} {dispatcher : Dispatcher} {task : SubTask}
    (here : s.dispatchers[d]? = some dispatcher) :
    s.subTask d n = some task ↔ dispatcher.subTasks[n]? = some task := by
  simp [State.subTask, here]

/-- A sub-task that gives its slot back, with or without a permit. -/
theorem limited_release {d n : Nat} {dispatcher : Dispatcher} {task : SubTask}
    (limited : Limited capacity s) (here : s.dispatchers[d]? = some dispatcher)
    (there : dispatcher.subTasks[n]? = some task) (alive : task.phase ≠ .ended) :
    Limited capacity { s with
      slots := s.slots.release dispatcher.provider "video" task.taskId
      dispatchers := s.setPhase d n .ended } where
  throttled := throttled_setPhase limited here rfl (.inl (by decide))
  unstarted := unstarted_setPhase limited here rfl
  bounded provider := by
    have released := s.slots.bucket_release dispatcher.provider "video" task.taskId provider "video"
    have shrink : ((s.slots.release dispatcher.provider "video" task.taskId).bucket provider
        "video").entries.Sublist (s.slots.bucket provider "video").entries := by
      rw [released]
      split_ifs
      · exact List.filter_sublist
      · exact .refl _
    refine bounded_of_no_more ?_ ?_ ?_ ?_ (limited.bounded provider)
    · exact shrink.length_le
    · exact fun taskId listed => (shrink.map Prod.fst).subset listed
    · exact fun other taskId => setPhase_live here there rfl alive other provider taskId
    · intro owner owned entry member running
      have holder := owned.held entry (shrink.subset member) running
      by_cases same : (provider, "video") = (dispatcher.provider, "video")
      · have member : entry ∈ ((s.slots.release dispatcher.provider "video" task.taskId).bucket
            provider "video").entries := member
        rw [released, if_pos same, Dict.erase, Dict.mem_entries_filter] at member
        have apart : entry.1 ≠ task.taskId := by simpa using member.2
        exact setPhase_holds here there rfl (.inr (.inl apart.symm)) owner provider holder
      · by_cases mine : owner = d
        · obtain ⟨found, located, named, -⟩ := holder
          rw [mine, here] at located
          rw [← Option.some.inj located] at named
          exact absurd (by rw [named]) same
        · obtain ⟨found, located, rest⟩ := holder
          exact ⟨found, by rw [setPhase_other rfl mine]; exact located, rest⟩

/-- A sub-task that has taken a permit takes over its slot. -/
theorem limited_promote {d n : Nat} {dispatcher : Dispatcher} {task : SubTask}
    (limited : Limited capacity s) (here : s.dispatchers[d]? = some dispatcher)
    (there : dispatcher.subTasks[n]? = some task) (waits : task.phase = .waiting)
    (free : dispatcher.holders < capacity.get dispatcher.provider "video") :
    Limited capacity { s with
      slots := s.slots.promote dispatcher.provider "video" task.taskId
      dispatchers := s.setPhase d n .holding } where
  throttled := throttled_setPhase limited here rfl (.inr free)
  unstarted := unstarted_setPhase limited here rfl
  bounded provider := by
    obtain ⟨keys, entries⟩ :=
      s.slots.bucket_promote dispatcher.provider "video" task.taskId provider "video"
    refine bounded_of_no_more ?_ ?_ ?_ ?_ (limited.bounded provider)
    · rw [← Dict.length_keys, ← Dict.length_keys, keys]
    · intro taskId listed
      rwa [keys] at listed
    · exact fun other taskId =>
        setPhase_live here there rfl (by rw [waits]; decide) other provider taskId
    · intro owner owned entry member running
      cases entries entry member with
      | inl old =>
        exact setPhase_holds here there rfl (.inl rfl) owner provider (owned.held entry old running)
      | inr new =>
        have named : provider = dispatcher.provider := congrArg Prod.fst new.1
        have listed : entry.1 ∈ (s.slots.bucket provider "video").keys := by
          rw [← keys]
          exact List.mem_map_of_mem member
        have mine : owner = d := by
          by_contra apart
          apply owned.foreign d (fun same => apart same.symm) entry.1 listed
          exact ⟨dispatcher, here, named.symm, task, List.mem_of_getElem? there, new.2.symm, by
            rw [waits]; decide⟩
        subst mine
        refine ⟨_, setPhase_self here rfl, named.symm, List.mem_iff_getElem?.mpr ⟨n, ?_⟩⟩
        rw [List.getElem?_modify, there]
        simp [new.2]

/-- A sub-task that never began leaves its slot as it is. -/
theorem limited_discard {d n : Nat} {dispatcher : Dispatcher} {task : SubTask}
    (limited : Limited capacity s) (here : s.dispatchers[d]? = some dispatcher)
    (there : dispatcher.subTasks[n]? = some task) (waits : task.phase = .waiting) :
    Limited capacity { s with dispatchers := s.setPhase d n .ended } where
  throttled := throttled_setPhase limited here rfl (.inl (by decide))
  unstarted := unstarted_setPhase limited here rfl
  bounded provider := by
    refine bounded_of_no_more ?_ ?_ ?_ ?_ (limited.bounded provider)
    · exact le_rfl
    · exact fun taskId listed => listed
    · exact fun other taskId =>
        setPhase_live here there rfl (by rw [waits]; decide) other provider taskId
    · exact fun owner owned entry member running =>
        setPhase_holds here there rfl (.inr (.inr waits)) owner provider
          (owned.held entry member running)

/-! A dispatcher starts. -/

theorem bucket_registerAll (d : Nat) (owner provider : String) (taskIds : List String) (n : Nat)
    (table : SlotTable) :
    (provider ≠ owner →
      (registerAll d owner taskIds n table).bucket provider "video" =
        table.bucket provider "video") ∧
    ((registerAll d owner taskIds n table).bucket provider "video").size ≤
      (table.bucket provider "video").size + taskIds.length ∧
    ∀ entry ∈ ((registerAll d owner taskIds n table).bucket provider "video").entries,
      entry ∈ (table.bucket provider "video").entries ∨
        entry.2.pending = true ∧ entry.1 ∈ taskIds := by
  induction taskIds generalizing n table with
  | nil => exact ⟨fun _ => rfl, by simp [registerAll], fun entry member => .inl member⟩
  | cons taskId later ih =>
    obtain ⟨others, size, entries⟩ :=
      ih (n + 1) (table.register owner "video" taskId (.resumed d n) true)
    have registered := table.bucket_register owner "video" taskId provider "video" (.resumed d n) true
    refine ⟨?_, ?_, ?_⟩
    · intro apart
      rw [registerAll, others apart, registered, if_neg (by simp [apart])]
    · rw [registerAll, List.length_cons]
      rw [registered] at size
      split_ifs at size
      · have one := (table.bucket provider "video").size_set_le taskId ⟨.resumed d n, true⟩
        omega
      · omega
    · intro entry member
      cases entries entry member with
      | inl before =>
        rw [registered] at before
        split_ifs at before
        · rw [Dict.mem_entries_set] at before
          cases before with
          | inl new => exact .inr (by simp [new])
          | inr old => exact .inl old.1
        · exact .inl before
      | inr new => exact .inr ⟨new.1, .tail _ new.2⟩

section Starting

variable {d : Nat} {owner : String} {taskIds : List String} {before : List SubTask}
  {started : Dispatcher} (here : s.dispatchers[d]? = some ⟨owner, some taskIds, before⟩)
  (dispatchers : s'.dispatchers = s.dispatchers.set d started) (same : started.provider = owner)

include here dispatchers

theorem started_self : s'.dispatchers[d]? = some started := by
  have inside : d < s.dispatchers.length := (List.getElem?_eq_some_iff.mp here).1
  rw [dispatchers, List.getElem?_set_self inside]

omit here in
theorem started_other {other : Nat} (apart : other ≠ d) :
    s'.dispatchers[other]? = s.dispatchers[other]? := by
  rw [dispatchers, List.getElem?_set_ne apart.symm]

/-- What holds of the new dispatcher and of the old ones holds after the start. -/
theorem started_all {holds : Dispatcher → Prop} (new : holds started)
    (old : ∀ dispatcher ∈ s.dispatchers, holds dispatcher) :
    ∀ dispatcher ∈ s'.dispatchers, holds dispatcher := by
  intro dispatcher member
  obtain ⟨i, located⟩ := List.mem_iff_getElem?.mp member
  by_cases at_ : i = d
  · rw [at_, started_self here dispatchers] at located
    rw [← Option.some.inj located]
    exact new
  · rw [started_other dispatchers at_] at located
    exact old dispatcher (List.mem_of_getElem? located)

include same

/-- The buckets of the other providers, and a start without sub-tasks, keep their bound. -/
theorem bounded_started (provider : String) (limited : Limited capacity s)
    (bucket : s'.slots.bucket provider "video" = s.slots.bucket provider "video")
    (quiet : provider ≠ owner ∨ started.subTasks = []) :
    (s'.slots.bucket provider "video").size ≤ capacity.get provider "video" ∨
      ∃ d, Owned s' provider d := by
  refine bounded_of_no_more ?_ ?_ ?_ ?_ (limited.bounded provider)
  · rw [bucket]
  · intro taskId listed
    rwa [bucket] at listed
  · intro other taskId alive
    obtain ⟨dispatcher, located, named, task, member, rest⟩ := alive
    by_cases at_ : other = d
    · rw [at_, started_self here dispatchers] at located
      rw [← Option.some.inj located] at named member
      cases quiet with
      | inl apart => exact absurd (named.symm.trans same) apart
      | inr none_ =>
        rw [none_] at member
        cases member
    · rw [started_other dispatchers at_] at located
      exact ⟨dispatcher, located, named, task, member, rest⟩
  · intro holder owned entry member running
    rw [bucket] at member
    obtain ⟨dispatcher, located, named, held⟩ := owned.held entry member running
    have apart : holder ≠ d := by
      intro at_
      rw [at_, here] at located
      have empty := limited.unstarted _ (List.mem_of_getElem? here) (by simp)
      rw [← Option.some.inj located, empty] at held
      cases held
    exact ⟨dispatcher, by rw [started_other dispatchers apart]; exact located, named, held⟩

end Starting

theorem limited_startDispatcher (limited : Limited capacity s) {d : Nat}
    (fits : fitsBucket capacity s (.startDispatcher d) = true)
    (starts : startDispatcher capacity s d = some s') : Limited capacity s' := by
  unfold startDispatcher at starts
  cases here : s.dispatchers[d]? with
  | none => simp [here] at starts
  | some dispatcher =>
    obtain ⟨owner, scheduled, before⟩ := dispatcher
    cases scheduled with
    | none => simp [here] at starts
    | some taskIds =>
      simp only [here] at starts
      simp only [fitsBucket, here, Bool.or_eq_true, Bool.and_eq_true, decide_eq_true_eq,
        beq_iff_eq] at fits
      split_ifs at starts with idle
      · obtain rfl := Option.some.inj starts
        refine ⟨?_, ?_, fun provider => ?_⟩
        · exact started_all here rfl (by simp [Dispatcher.holders]) limited.throttled
        · exact started_all here rfl (fun _ => rfl) limited.unstarted
        · exact bounded_started here rfl rfl provider limited rfl (.inr rfl)
      · obtain rfl := Option.some.inj starts
        refine ⟨?_, ?_, fun provider => ?_⟩
        · apply started_all here rfl _ limited.throttled
          have waiting : Dispatcher.holders
              ⟨owner, none, taskIds.map fun taskId => ⟨taskId, .waiting⟩⟩ = 0 := by
            simp [Dispatcher.holders, List.countP_eq_zero]
          omega
        · exact started_all here rfl (fun waits => absurd rfl waits) limited.unstarted
        · obtain ⟨others, size, entries⟩ := bucket_registerAll d owner provider taskIds 0 s.slots
          by_cases apart : provider = owner
          · subst apart
            cases fits with
            | inl within => exact .inl (size.trans within)
            | inr fresh =>
              have void : (s.slots.bucket provider "video").entries = [] :=
                List.length_eq_zero_iff.mp fresh.1
              rw [void] at entries
              refine .inr ⟨d, ?_, ?_⟩
              · intro entry member running
                cases entries entry member with
                | inl old => cases old
                | inr new =>
                  rw [new.1] at running
                  cases running
              · intro other away taskId listed alive
                obtain ⟨entry, member, named⟩ := List.mem_map.mp listed
                obtain ⟨dispatcher, located, owned, task, inside, on, live⟩ := alive
                rw [started_other rfl away] at located
                have calm := List.all_eq_true.mp fresh.2 dispatcher (List.mem_of_getElem? located)
                rw [owned, bne_self_eq_false, Bool.false_or, List.all_eq_true] at calm
                cases entries entry member with
                | inl old => cases old
                | inr new =>
                  have still := calm taskId (named ▸ new.2)
                  rw [Bool.not_eq_true', Dispatcher.live, List.any_eq_false] at still
                  exact still task inside (by simp [on, live])
          · exact bounded_started here rfl rfl provider limited (others apart) (.inl apart)

/-! Every step, and every run. -/

theorem limited_dispatchClaimed (limited : Limited capacity s) {provider : String}
    (dispatched : dispatchClaimed capacity s provider = some s') : Limited capacity s' := by
  unfold dispatchClaimed at dispatched
  cases loop : s.claimLoop with
  | idle => simp [loop] at dispatched
  | asking media poolFull => simp [loop] at dispatched
  | resolving media taskId =>
    simp only [loop] at dispatched
    split_ifs at dispatched with unsupported full
    · obtain rfl := Option.some.inj dispatched
      exact limited_of_same limited rfl rfl
    · obtain rfl := Option.some.inj dispatched
      exact limited_of_same limited rfl rfl
    · obtain rfl := Option.some.inj dispatched
      refine ⟨limited.throttled, limited.unstarted, fun p => ?_⟩
      have registered :=
        s.slots.bucket_register provider media taskId p "video" (.claimed s.claims) false
      by_cases same : (p, "video") = (provider, media)
      · rw [if_pos same] at registered
        have room : (s.slots.bucket p "video").size < capacity.get p "video" := by
          rw [Prod.mk.injEq] at same
          rw [same.1, same.2]
          simpa [SlotTable.hasRoom, Nat.pos_of_ne_zero unsupported] using full
        have one := (s.slots.bucket p "video").size_set_le taskId ⟨.claimed s.claims, false⟩
        left
        calc ((s.slots.register provider media taskId (.claimed s.claims) false).bucket p
              "video").size = ((s.slots.bucket p "video").set taskId
                ⟨.claimed s.claims, false⟩).size := by rw [registered]
          _ ≤ (s.slots.bucket p "video").size + 1 := one
          _ ≤ capacity.get p "video" := room
      · rw [if_neg same] at registered
        cases limited.bounded p with
        | inl small => exact .inl (by rw [registered]; exact small)
        | inr owner =>
          obtain ⟨d, owned⟩ := owner
          refine .inr ⟨d, ?_, ?_⟩
          · rw [registered]
            exact owned.held
          · rw [registered]
            exact owned.foreign

theorem limited_scan (limited : Limited capacity s) (provider : String) (taskIds : List String) :
    Limited capacity (scan s provider taskIds) := by
  have grown : ∀ {holds : Dispatcher → Prop}, (∀ scheduled, holds ⟨provider, scheduled, []⟩) →
      (∀ dispatcher ∈ s.dispatchers, holds dispatcher) →
      ∀ dispatcher ∈ (scan s provider taskIds).dispatchers, holds dispatcher := by
    intro holds new old dispatcher member
    cases List.mem_append.mp member with
    | inl before => exact old dispatcher before
    | inr last =>
      rw [List.mem_singleton.mp last]
      exact new _
  refine ⟨?_, ?_, fun p => ?_⟩
  · exact grown (fun _ => by simp [Dispatcher.holders]) limited.throttled
  · exact grown (fun _ _ => rfl) limited.unstarted
  · refine bounded_of_no_more ?_ ?_ ?_ ?_ (limited.bounded p)
    · exact le_rfl
    · exact fun taskId listed => listed
    · intro d taskId alive
      obtain ⟨dispatcher, located, named, task, inside, rest⟩ := alive
      cases before : s.dispatchers[d]? with
      | some old =>
        have same : (scan s provider taskIds).dispatchers[d]? = some old := by
          rw [scan, List.getElem?_append_left (List.getElem?_eq_some_iff.mp before).1, before]
        rw [located] at same
        exact ⟨dispatcher, before.trans same.symm, named, task, inside, rest⟩
      | none =>
        have new : dispatcher ∈ (scan s provider taskIds).dispatchers := List.mem_of_getElem? located
        rw [scan, List.getElem?_append_right (List.getElem?_eq_none_iff.mp before)] at located
        rw [List.mem_singleton.mp (List.mem_of_getElem? located)] at inside
        cases inside
    · intro d owned entry member running
      obtain ⟨dispatcher, located, rest⟩ := owned.held entry member running
      refine ⟨dispatcher, ?_, rest⟩
      rw [scan, List.getElem?_append_left (List.getElem?_eq_some_iff.mp located).1, located]

theorem limited_acquire (limited : Limited capacity s) {d n : Nat}
    (acquired : acquire capacity s d n = some s') : Limited capacity s' := by
  unfold acquire at acquired
  cases here : s.dispatchers[d]? with
  | none => simp [here] at acquired
  | some dispatcher =>
    cases there : s.subTask d n with
    | none => simp [here, there] at acquired
    | some task =>
      obtain ⟨taskId, phase⟩ := task
      have position := (subTask_eq_some here).mp there
      cases phase with
      | holding => simp [here, there] at acquired
      | ended => simp [here, there] at acquired
      | waiting =>
        simp only [here, there] at acquired
        split_ifs at acquired with free stopped
        · obtain rfl := Option.some.inj acquired
          exact limited_release limited here position fun ended => by cases ended
        · obtain rfl := Option.some.inj acquired
          exact limited_promote limited here position rfl free

theorem limited_finish (limited : Limited capacity s) {d n : Nat}
    (finished : finish s d n = some s') : Limited capacity s' := by
  unfold finish at finished
  cases here : s.dispatchers[d]? with
  | none => simp [here] at finished
  | some dispatcher =>
    cases there : s.subTask d n with
    | none => simp [here, there] at finished
    | some task =>
      obtain ⟨taskId, phase⟩ := task
      simp only [here, there] at finished
      split_ifs at finished with ended
      obtain rfl := Option.some.inj finished
      exact limited_release limited here ((subTask_eq_some here).mp there) ended

theorem limited_discarded (limited : Limited capacity s) {d n : Nat}
    (discarded : discard s d n = some s') : Limited capacity s' := by
  unfold discard at discarded
  cases there : s.subTask d n with
  | none => simp [there] at discarded
  | some task =>
    obtain ⟨taskId, phase⟩ := task
    obtain ⟨dispatcher, here, position⟩ := Option.bind_eq_some_iff.mp there
    cases phase with
    | holding => simp [there] at discarded
    | ended => simp [there] at discarded
    | waiting =>
      simp only [there] at discarded
      obtain rfl := Option.some.inj discarded
      exact limited_discard limited here position rfl

theorem limited_step (s : State) (next : Step) (t : State) (limited : Limited capacity s)
    (fits : fitsBucket capacity s next = true) (stepped : step capacity s next = some t) :
    Limited capacity t := by
  cases next with
  | askNext media =>
    simp only [step, askNext] at stepped
    split_ifs at stepped
    obtain rfl := Option.some.inj stepped
    exact limited_of_same limited rfl rfl
  | claimNext row =>
    simp only [step, claimNext] at stepped
    split at stepped
    · obtain rfl := Option.some.inj stepped
      exact limited_of_same limited rfl rfl
    · split_ifs at stepped
      obtain rfl := Option.some.inj stepped
      exact limited_of_same limited rfl rfl
    · cases stepped
  | dispatchClaimed provider => exact limited_dispatchClaimed limited stepped
  | finishClaimed n =>
    simp only [step, finishClaimed] at stepped
    split_ifs at stepped
    obtain rfl := Option.some.inj stepped
    exact limited_of_same limited rfl rfl
  | drain =>
    obtain rfl := Option.some.inj stepped
    refine limited_of_shrink limited rfl fun provider => ?_
    rw [drain, SlotTable.bucket_drainFinished]
    exact List.filter_sublist
  | scan provider taskIds =>
    obtain rfl := Option.some.inj stepped
    exact limited_scan limited provider taskIds
  | startDispatcher d => exact limited_startDispatcher limited fits stepped
  | acquire d n => exact limited_acquire limited stepped
  | finish d n => exact limited_finish limited stepped
  | discard d n => exact limited_discarded limited stepped
  | stop =>
    obtain rfl := Option.some.inj stepped
    exact limited_of_same limited rfl rfl

/-- In a run whose dispatchers all fit their bucket, a provider never has more running video
tasks than its capacity. -/
theorem inflight_within_capacity {capacity : CapacityTable} {steps : List Step} {s : State}
    (fits : allSteps (step capacity) (fitsBucket capacity) steps .start = true)
    (ran : runSteps (step capacity) steps .start = some s) (provider : String) :
    inflight s provider ≤ capacity.get provider "video" :=
  inflight_le (runSteps_induct_of limited_step (limited_start capacity) fits ran) provider

private def arkVideo (cap : Nat) : CapacityTable :=
  ⟨Dict.empty.set "ark" (Dict.empty.set "video" cap), .empty⟩

/-- A dispatcher with more tasks than permits, and a claim that has to wait. -/
private def throttledSteps : List Step :=
  [.scan "ark" ["t1", "t2", "t3"], .startDispatcher 0, .acquire 0 0, .acquire 0 1,
    .askNext "video", .claimNext (some ("t4", none)), .dispatchClaimed "ark",
    .finish 0 0, .acquire 0 2]

private theorem throttledSteps_run :
    (runSteps (step (arkVideo 2)) throttledSteps .start).isSome := by decide

theorem inflight_within_capacity_throttled :
    ∃ s, runSteps (step (arkVideo 2)) throttledSteps .start = some s ∧
      inflight s "ark" ≤ (arkVideo 2).get "ark" "video" :=
  ⟨_, (Option.some_get throttledSteps_run).symm,
    inflight_within_capacity (by decide) (Option.some_get throttledSteps_run).symm "ark"⟩

/-- After a rescan: one task of the first dispatcher is still running. -/
private def secondDispatcher : List Step :=
  [.scan "ark" ["t1"], .startDispatcher 0, .acquire 0 0,
    .scan "ark" ["t1", "t2"], .startDispatcher 1, .acquire 1 0]

/-- The same after a claim. -/
private def dispatcherAfterClaim : List Step :=
  [.askNext "video", .claimNext (some ("t1", none)), .dispatchClaimed "ark",
    .scan "ark" ["t1", "t2"], .startDispatcher 0, .acquire 0 0]

/-- A dispatcher that starts beside a running task exceeds the capacity. -/
theorem second_dispatcher_exceeds_capacity :
    (arkVideo 1).get "ark" "video" = 1 ∧
    (runSteps (step (arkVideo 1)) secondDispatcher .start).map (inflight · "ark") = some 2 ∧
    (runSteps (step (arkVideo 1)) dispatcherAfterClaim .start).map (inflight · "ark") = some 2 := by
  decide

end ArcReel.Worker
