import ArcReel.Agent.SessionRegistry

/-! One reachable actor per session, as long as no registration replaces or exceeds
what it has not checked, and no teardown removes the entry of another session. -/

namespace ArcReel.Agent.Registry
open ArcReel.Lib

section Condition

def Phase.tears (managed : Nat) : Phase → Bool
  | .evicting _ other _ => other == managed
  | _ => false

namespace State

/-- `_evict_one` is tearing the session down. -/
def torn (s : State) (managed : Nat) : Bool := s.tasks.values.any (Phase.tears managed)

/-- The actor of the session is live and not being torn down. -/
def exposed (s : State) (managed : Nat) : Bool := s.isLive managed && !s.torn managed

/-- Nobody but the session itself loses an exposed actor with the entry. -/
def mayRemove (s : State) (sessionId : String) (managed : Nat) : Bool :=
  (s.sessions.get? sessionId).all fun other => other == managed || !s.exposed other

/-- An entry may be added: it counts for nothing new, or there is a slot left. -/
def hasSlot (limit : Nat) (s : State) (sessionId : String) : Bool :=
  s.disconnecting.contains sessionId || decide (sessionId ∈ s.sessions.keys) ||
    decide (s.active.length < limit)

end State

/-- A session is registered in a free slot and over no exposed session; whoever removes the entry of
an id removes its own or that of a session without exposed actor; the clean-up of a failed new session
finds its actor ended; the shutdown does not cancel a patrol that waits for a disconnect. -/
def orderly (limit : Nat) (s : State) : Step → Bool
  | .register task managed _ _ =>
      match s.tasks.get? task with
      | some (.building target) =>
          s.mayRemove target.sessionId managed && s.hasSlot limit target.sessionId
      | _ => true
  | .resolve managed sdkId => (s.managed.get? managed).all fun m =>
      s.mayRemove m.sessionId managed && s.mayRemove sdkId managed &&
        (!s.disconnecting.contains m.sessionId || s.hasSlot limit sdkId)
  | .started task false =>
      match s.tasks.get? task with
      | some (.starting target managed) => s.mayRemove target.sessionId managed
      | _ => true
  | .answered task false =>
      match s.tasks.get? task with
      | some (.sending tempId managed) => !s.exposed managed && s.mayRemove tempId managed &&
          (s.managed.get? managed).all fun m => s.mayRemove m.sessionId managed
      | _ => true
  | .evicted task =>
      match s.tasks.get? task with
      | some (.evicting sessionId managed _) => s.mayRemove sessionId managed
      | _ => true
  | .cancelPatrol task =>
      match s.tasks.get? task with
      | some (.evicting _ _ _) => false
      | _ => true
  | _ => true

end Condition

section Invariant

/-- The ids of the sessions that count. -/
def openKeys (s : State) : List String :=
  s.sessions.keys.filter fun sessionId => !s.disconnecting.contains sessionId

structure Sound (limit : Nat) (s : State) : Prop where
  named : ∀ sessionId managed, s.sessions.get? sessionId = some managed →
    ∃ m, s.managed.get? managed = some m ∧ m.sessionId = sessionId
  registered : ∀ managed m, s.managed.get? managed = some m → s.exposed managed = true →
    s.sessions.get? m.sessionId = some managed
  bounded : (openKeys s).length ≤ limit

/-- The task tears no live session down. -/
def Calm (s : State) (task : Nat) : Prop :=
  ∀ sessionId managed next, s.tasks.get? task = some (.evicting sessionId managed next) →
    s.isLive managed = false

variable {limit : Nat} {s : State}

theorem length_active (sound : Sound limit s) : s.active.length = (openKeys s).length := by
  have entries : ∀ entry ∈ s.sessions.entries, ∃ m, s.managed.get? entry.2 = some m ∧
      m.sessionId = entry.1 := by
    intro entry member
    exact sound.named entry.1 entry.2 ((Dict.get?_eq_some_iff _ _ _).mpr member)
  unfold State.active openKeys Dict.values Dict.keys
  generalize s.sessions.entries = list at entries
  induction list with
  | nil => rfl
  | cons entry list ih =>
    obtain ⟨m, found, named⟩ := entries entry (List.mem_cons_self ..)
    have later := ih fun other member => entries other (List.mem_cons_of_mem _ member)
    simp only [List.map_cons, List.filterMap_cons, found, Option.map_some, List.filter_cons, named]
    split_ifs
    · rw [List.length_cons, List.length_cons, later]
    · exact later

theorem torn_iff {managed : Nat} : s.torn managed = true ↔
    ∃ task sessionId next, s.tasks.get? task = some (.evicting sessionId managed next) := by
  unfold State.torn Dict.values
  rw [List.any_eq_true]
  constructor
  · intro found
    obtain ⟨phase, member, tears⟩ := found
    obtain ⟨entry, listed, isPhase⟩ := List.mem_map.mp member
    rw [← isPhase] at tears
    unfold Phase.tears at tears
    split at tears
    · rename_i sessionId other next isEvicting
      rw [beq_iff_eq] at tears
      refine ⟨entry.1, sessionId, next, (Dict.get?_eq_some_iff _ _ _).mpr ?_⟩
      rw [← tears, ← isEvicting]
      exact listed
    · cases tears
  · intro found
    obtain ⟨task, sessionId, next, isEvicting⟩ := found
    have listed := (Dict.get?_eq_some_iff _ _ _).mp isEvicting
    exact ⟨_, List.mem_map_of_mem listed, beq_self_eq_true managed⟩

theorem exposed_iff {managed : Nat} : s.exposed managed = true ↔
    s.isLive managed = true ∧ s.torn managed = false := by
  rw [State.exposed, Bool.and_eq_true, Bool.not_eq_true']

theorem mayRemove_cases {sessionId : String} {managed other : Nat}
    (may : s.mayRemove sessionId managed = true) (found : s.sessions.get? sessionId = some other) :
    other = managed ∨ s.exposed other = false := by
  rw [State.mayRemove, found, Option.all_some, Bool.or_eq_true, beq_iff_eq, Bool.not_eq_true'] at may
  exact may

theorem sound_start : Sound limit .start :=
  ⟨(fun _ _ found => nomatch found), (fun _ _ found => nomatch found), Nat.zero_le _⟩

/-- Tasks move on; what is registered stays, and no live session loses its teardown. -/
theorem sound_move (sound : Sound limit s) {t : State} (sessions : t.sessions = s.sessions)
    (managed : t.managed = s.managed)
    (more : ∀ sessionId ∈ s.disconnecting, sessionId ∈ t.disconnecting)
    (torn : ∀ managed, s.isLive managed = true → s.torn managed = true → t.torn managed = true) :
    Sound limit t := by
  refine ⟨?_, ?_, ?_⟩
  · rw [sessions, managed]
    exact sound.named
  · intro number m found exposed
    rw [managed] at found
    rw [sessions]
    apply sound.registered number m found
    rw [exposed_iff] at exposed ⊢
    have live : s.isLive number = true := by
      rw [State.isLive, ← managed]
      exact exposed.1
    refine ⟨live, ?_⟩
    rw [Bool.eq_false_iff]
    intro wasTorn
    rw [torn number live wasTorn] at exposed
    cases exposed.2
  · refine le_trans ?_ sound.bounded
    unfold openKeys
    rw [sessions]
    apply List.Sublist.length_le
    apply List.monotone_filter_right
    intro sessionId free
    rw [Bool.not_eq_true', List.contains_eq_mem, decide_eq_false_iff_not] at free ⊢
    exact fun member => free (more sessionId member)

theorem torn_setPhase {task : Nat} (calm : Calm s task) {phase : Phase} {managed : Nat}
    (live : s.isLive managed = true) (torn : s.torn managed = true) :
    (s.setPhase task phase).torn managed = true := by
  obtain ⟨other, sessionId, next, found⟩ := torn_iff.mp torn
  refine torn_iff.mpr ⟨other, sessionId, next, ?_⟩
  have apart : other ≠ task := by
    intro same
    rw [same] at found
    rw [calm sessionId managed next found] at live
    cases live
  rw [State.setPhase, Dict.get?_set, if_neg apart]
  exact found

theorem sound_setPhase (sound : Sound limit s) {task : Nat} (calm : Calm s task) (phase : Phase) :
    Sound limit (s.setPhase task phase) :=
  sound_move sound rfl rfl (fun _ member => member) fun _ live torn => torn_setPhase calm live torn

theorem sound_leave (sound : Sound limit s) {task : Nat} (calm : Calm s task) (target : Target) :
    Sound limit (s.leave task target) := by
  cases target with
  | newSession tempId => exact sound_setPhase sound calm .finished
  | connect sessionId lock =>
    have released : Sound limit { s with held := s.held.erase lock } :=
      ⟨sound.named, sound.registered, sound.bounded⟩
    exact sound_setPhase released calm .finished

theorem sound_resume (sound : Sound limit s) {task : Nat} (calm : Calm s task) (next : Next) :
    Sound limit (s.resume task next) := by
  cases next with
  | done => exact sound_setPhase sound calm .finished
  | build target => exact sound_setPhase sound calm (.building target)
  | patrol now delay rest => exact sound_setPhase sound calm (.patrolling now delay rest)

theorem sound_beginEvict (sound : Sound limit s) {task : Nat} (calm : Calm s task) (managed : Nat)
    (next : Next) : Sound limit (s.beginEvict task managed next) := by
  unfold State.beginEvict
  split
  · exact sound_resume sound calm next
  · rename_i m found
    split_ifs
    · exact sound_resume sound calm next
    · refine sound_move sound rfl rfl (fun _ member => List.mem_cons_of_mem _ member) ?_
      intro other live torn
      exact torn_setPhase (s := { s with disconnecting := m.sessionId :: s.disconnecting }) calm live
        torn

theorem sound_enterLock (sound : Sound limit s) {task : Nat} (calm : Calm s task)
    (sessionId : String) (lock : Nat) (hasMeta : Bool) :
    Sound limit (s.enterLock task sessionId lock hasMeta) := by
  unfold State.enterLock
  split
  · exact sound_setPhase sound calm .finished
  · have locked : Sound limit { s with held := s.held.set lock task } :=
      ⟨sound.named, sound.registered, sound.bounded⟩
    exact sound_setPhase locked calm _

/-- A session object changes and keeps its id; its actor does not start again. -/
theorem sound_setManaged (sound : Sound limit s) {managed : Nat} {old new : Managed}
    (known : s.managed.get? managed = some old) (same : new.sessionId = old.sessionId)
    (live : new.actorLive = true → old.actorLive = true) :
    Sound limit (s.setManaged managed new) := by
  refine ⟨?_, ?_, sound.bounded⟩
  · intro sessionId number found
    obtain ⟨m, isManaged, named⟩ := sound.named sessionId number found
    simp only [State.setManaged, Dict.get?_set]
    split_ifs with isThis
    · rw [isThis, known] at isManaged
      exact ⟨new, rfl, by rw [same, Option.some.inj isManaged, named]⟩
    · exact ⟨m, isManaged, named⟩
  · intro number m found exposed
    rw [exposed_iff, State.isLive, found, Option.any_some] at exposed
    simp only [State.setManaged, Dict.get?_set] at found
    split_ifs at found with isThis
    · have isNew := Option.some.inj found
      rw [← isNew] at exposed
      rw [← isNew, same, isThis]
      apply sound.registered managed old known
      rw [isThis] at exposed
      rw [exposed_iff, State.isLive, known]
      exact ⟨live exposed.1, exposed.2⟩
    · apply sound.registered number m found
      rw [exposed_iff, State.isLive, found]
      exact exposed

/-- The entry of a session whose actor is not exposed is removed. -/
theorem sound_erase (sound : Sound limit s) {sessionId : String}
    (unexposed : ∀ managed, s.sessions.get? sessionId = some managed → s.exposed managed = false) :
    Sound limit { s with sessions := s.sessions.erase sessionId } := by
  refine ⟨?_, ?_, ?_⟩
  · intro other number found
    rw [Dict.get?_erase] at found
    split_ifs at found
    exact sound.named other number found
  · intro number m found exposed
    have before := sound.registered number m found exposed
    have apart : m.sessionId ≠ sessionId := by
      intro same
      rw [same] at before
      have closed := unexposed number before
      exact absurd (closed.symm.trans exposed) (by decide)
    rw [Dict.get?_erase, if_neg apart]
    exact before
  · refine le_trans ?_ sound.bounded
    unfold openKeys
    rw [Dict.keys_erase, List.filter_filter]
    apply List.Sublist.length_le
    apply List.monotone_filter_right
    intro other both
    rw [Bool.and_eq_true] at both
    exact both.1

theorem length_open_set (sessions : Dict String Nat) (disconnecting : List String)
    (sessionId : String) (managed : Nat) :
    ((sessions.set sessionId managed).keys.filter fun key => !disconnecting.contains key).length =
      (sessions.keys.filter fun key => !disconnecting.contains key).length +
        if sessionId ∈ sessions.keys ∨ sessionId ∈ disconnecting then 0 else 1 := by
  rw [Dict.keys_set]
  by_cases known : sessionId ∈ sessions.keys
  · rw [if_pos known, if_pos (Or.inl known), Nat.add_zero]
  · rw [if_neg known, List.filter_append, List.length_append]
    congr 1
    by_cases leaving : sessionId ∈ disconnecting
    · simp [leaving]
    · simp [known, leaving]

/-- A session gets the entry of an id that no other exposed session has. -/
theorem sound_addEntry {sessionId : String} {managed : Nat} {m : Managed}
    (own : m.sessionId = sessionId)
    (named : ∀ other number, s.sessions.get? other = some number → number ≠ managed →
      ∃ m, s.managed.get? number = some m ∧ m.sessionId = other)
    (registered : ∀ number m, number ≠ managed → s.managed.get? number = some m →
      s.exposed number = true → s.sessions.get? m.sessionId = some number ∧ m.sessionId ≠ sessionId)
    (only : ∀ other, s.sessions.get? other ≠ some managed)
    (bounded : ((s.sessions.set sessionId managed).keys.filter fun key =>
      !s.disconnecting.contains key).length ≤ limit) :
    Sound limit (State.setManaged { s with sessions := s.sessions.set sessionId managed } managed m) := by
  refine ⟨?_, ?_, bounded⟩
  · intro other number found
    simp only [State.setManaged, Dict.get?_set] at found ⊢
    by_cases isThis : number = managed
    · rw [if_pos isThis]
      split_ifs at found with same
      · exact ⟨m, rfl, by rw [own, same]⟩
      · rw [isThis] at found
        exact absurd found (only other)
    · rw [if_neg isThis]
      split_ifs at found with same
      · exact absurd (Option.some.inj found).symm isThis
      · exact named other number found isThis
  · intro number x found exposed
    rw [exposed_iff, State.isLive, found, Option.any_some] at exposed
    simp only [State.setManaged, Dict.get?_set] at found ⊢
    by_cases isThis : number = managed
    · rw [if_pos isThis] at found
      rw [← Option.some.inj found, own, if_pos rfl, isThis]
    · rw [if_neg isThis] at found
      have before := registered number x isThis found (by
        rw [exposed_iff, State.isLive, found]
        exact exposed)
      rw [if_neg before.2]
      exact before.1

theorem exposed_of_mayRemove {sessionId : String} {managed other : Nat}
    (may : s.mayRemove sessionId managed = true) (apart : other ≠ managed)
    (exposed : s.exposed other = true) : s.sessions.get? sessionId ≠ some other := by
  intro found
  cases mayRemove_cases may found with
  | inl same => exact apart same
  | inr closed =>
    rw [closed] at exposed
    cases exposed

theorem sound_register (sound : Sound limit s) {sessionId : String} {managed : Nat} {m : Managed}
    (own : m.sessionId = sessionId) (new : managed ∉ s.managed.keys)
    (may : s.mayRemove sessionId managed = true) (slot : s.hasSlot limit sessionId = true) :
    Sound limit (State.setManaged { s with sessions := s.sessions.set sessionId managed } managed m) := by
  refine sound_addEntry own ?_ ?_ ?_ ?_
  · intro other number found _
    exact sound.named other number found
  · intro number x apart found exposed
    have before := sound.registered number x found exposed
    refine ⟨before, ?_⟩
    intro same
    rw [same] at before
    exact exposed_of_mayRemove may apart exposed before
  · intro other found
    obtain ⟨x, isManaged, _⟩ := sound.named other managed found
    exact new ((Dict.mem_keys_iff _ _).mpr ⟨x, isManaged⟩)
  · rw [length_open_set]
    have before := sound.bounded
    unfold openKeys at before
    rw [State.hasSlot, Bool.or_eq_true, Bool.or_eq_true, decide_eq_true_iff, decide_eq_true_iff,
      List.contains_eq_mem, decide_eq_true_iff, length_active sound, openKeys] at slot
    split_ifs with counted
    · omega
    · have free : (s.sessions.keys.filter fun key => !s.disconnecting.contains key).length < limit := by
        tauto
      omega

/-- An open id that is erased frees a slot. -/
theorem length_open_erase {sessions : Dict String Nat} {disconnecting : List String}
    {sessionId : String} (known : sessionId ∈ sessions.keys) (stays : sessionId ∉ disconnecting) :
    ((sessions.erase sessionId).keys.filter fun key => !disconnecting.contains key).length + 1 =
      (sessions.keys.filter fun key => !disconnecting.contains key).length := by
  have member : sessionId ∈ sessions.keys.filter fun key => !disconnecting.contains key := by
    simp [known, stays]
  have distinct := sessions.keys_nodup.filter fun key => !disconnecting.contains key
  rw [Dict.keys_erase, List.filter_comm, ← List.length_erase_add_one member,
    distinct.erase_eq_filter]
  congr 2
  apply List.filter_congr
  intro key _
  by_cases same : key = sessionId <;> simp [same]

theorem sound_resolve (sound : Sound limit s) {managed : Nat} {m : Managed} {sdkId : String}
    (known : s.managed.get? managed = some m) (may : s.mayRemove m.sessionId managed = true)
    (maySdk : s.mayRemove sdkId managed = true)
    (slot : m.sessionId ∈ s.disconnecting → s.hasSlot limit sdkId = true) :
    Sound limit (resolveTurn s managed m sdkId) := by
  unfold resolveTurn
  split_ifs with swaps
  · refine sound_addEntry (s := { s with sessions := s.sessions.erase m.sessionId }) rfl ?_ ?_ ?_ ?_
    · intro other number found _
      rw [Dict.get?_erase] at found
      split_ifs at found
      exact sound.named other number found
    · intro number x apart found exposed
      have before := sound.registered number x found exposed
      have notOld : x.sessionId ≠ m.sessionId := by
        intro same
        rw [same] at before
        exact exposed_of_mayRemove may apart exposed before
      rw [Dict.get?_erase, if_neg notOld]
      refine ⟨before, ?_⟩
      intro same
      rw [same] at before
      exact exposed_of_mayRemove maySdk apart exposed before
    · intro other found
      rw [Dict.get?_erase] at found
      split_ifs at found with same
      obtain ⟨x, isManaged, named⟩ := sound.named other managed found
      rw [known] at isManaged
      rw [← Option.some.inj isManaged] at named
      exact same named.symm
    · show (((s.sessions.erase m.sessionId).set sdkId managed).keys.filter fun key =>
        !s.disconnecting.contains key).length ≤ limit
      rw [length_open_set]
      have before := sound.bounded
      have erased : ((s.sessions.erase m.sessionId).keys.filter fun key =>
          !s.disconnecting.contains key).length ≤
            (s.sessions.keys.filter fun key => !s.disconnecting.contains key).length := by
        rw [Dict.keys_erase, List.filter_comm]
        exact List.length_filter_le _ _
      have same : sdkId ∈ (s.sessions.erase m.sessionId).keys ↔ sdkId ∈ s.sessions.keys := by
        rw [Dict.keys_erase, List.mem_filter]
        simp [Ne.symm swaps.1]
      unfold openKeys at before
      split_ifs with counted
      · omega
      · by_cases leaving : m.sessionId ∈ s.disconnecting
        · have slot := slot leaving
          rw [State.hasSlot, Bool.or_eq_true, Bool.or_eq_true, decide_eq_true_iff,
            decide_eq_true_iff, List.contains_eq_mem, decide_eq_true_iff, length_active sound,
            openKeys] at slot
          rw [same] at counted
          have free : (s.sessions.keys.filter fun key => !s.disconnecting.contains key).length <
              limit := by
            tauto
          omega
        · have freed := length_open_erase swaps.2 leaving
          omega
  · exact sound_setManaged sound known rfl id

theorem sound_endEvict (sound : Sound limit s) {sessionId : String} {managed : Nat}
    (dead : s.isLive managed = false) (may : s.mayRemove sessionId managed = true) :
    Sound limit (s.endEvict sessionId) := by
  have erased : Sound limit { s with sessions := s.sessions.erase sessionId } := by
    refine sound_erase sound ?_
    intro other found
    cases mayRemove_cases may found with
    | inl same => rw [same, State.exposed, dead, Bool.false_and]
    | inr closed => exact closed
  refine ⟨erased.named, erased.registered, le_trans (le_of_eq ?_) erased.bounded⟩
  unfold openKeys State.endEvict
  congr 1
  apply List.filter_congr
  intro key member
  rw [Dict.keys_erase, List.mem_filter] at member
  have apart : key ≠ sessionId := of_decide_eq_true member.2
  simp [apart]

end Invariant

section Steps

variable {limit : Nat} {s t : State}

theorem calm_new {task : Nat} (new : task ∉ s.tasks.keys) : Calm s task := by
  intro sessionId managed next found
  rw [(Dict.get?_eq_none_iff _ _).mpr new] at found
  cases found

theorem calm_of {task : Nat} {phase : Phase} (found : s.tasks.get? task = some phase)
    (quiet : ∀ managed, phase.tears managed = false) : Calm s task := by
  intro sessionId managed next evicting
  rw [found] at evicting
  have tears := quiet managed
  rw [Option.some.inj evicting, Phase.tears, beq_self_eq_true] at tears
  cases tears

theorem sound_begin {task : Nat} {next : State} (sound : Calm s task → Sound limit next)
    (begun : begin s task next = some t) : Sound limit t := by
  unfold begin at begun
  split_ifs at begun with new
  rw [← Option.some.inj begun]
  exact sound (calm_new new)

theorem sound_patrolTurn (sound : Sound limit s) {task : Nat} (calm : Calm s task) (now delay : Int)
    (list : List (String × Nat)) : Sound limit (patrolTurn s task now delay list) := by
  cases list with
  | nil => exact sound_setPhase sound calm .finished
  | cons entry rest =>
    simp only [patrolTurn]
    split
    · exact sound_beginEvict sound calm _ _
    · exact sound_setPhase sound calm _

theorem sound_started (sound : Sound limit s) {task managed : Nat} {target : Target} {m : Managed}
    (calm : Calm s task) (known : s.managed.get? managed = some m) :
    Sound limit (match target with
      | .newSession tempId => (s.setManaged managed { m with processing := true }).setPhase task
          (.sending tempId managed)
      | .connect _ _ => (s.setManaged managed { m with processing := true }).leave task target) := by
  have processing : Sound limit (s.setManaged managed { m with processing := true }) :=
    sound_setManaged sound known rfl id
  have still : Calm (s.setManaged managed { m with processing := true }) task := by
    intro sessionId number next found
    have dead := calm sessionId number next found
    rw [State.isLive] at dead ⊢
    simp only [State.setManaged, Dict.get?_set]
    split_ifs with same
    · rw [same, known] at dead
      exact dead
    · exact dead
  cases target with
  | newSession tempId => exact sound_setPhase processing still _
  | connect sessionId lock => exact sound_leave processing still _

theorem sound_getOrConnect (sound : Sound limit s) {task : Nat} {sessionId : String} {hasMeta : Bool}
    (moved : step limit s (.getOrConnect task sessionId hasMeta) = some t) : Sound limit t := by
  refine sound_begin ?_ moved
  intro calm
  split
  · exact sound_setPhase sound calm .finished
  · simp only
    generalize (s.connectLocks.get? sessionId).getD task = lock
    have locked : Sound limit { s with connectLocks := s.connectLocks.set sessionId lock } :=
      ⟨sound.named, sound.registered, sound.bounded⟩
    split_ifs
    · exact sound_setPhase locked calm _
    · exact sound_enterLock locked calm _ _ _

theorem sound_answered (sound : Sound limit s) {task managed : Nat} {tempId : String} {m : Managed}
    (calm : Calm s task) (closed : s.exposed managed = false)
    (mayTemp : s.mayRemove tempId managed = true)
    (may : s.mayRemove m.sessionId managed = true) :
    Sound limit (State.setPhase { s with sessions := (s.sessions.erase tempId).erase m.sessionId } task
      (.cleaning managed)) := by
  have unexposed : ∀ sessionId, s.mayRemove sessionId managed = true → ∀ other,
      s.sessions.get? sessionId = some other → s.exposed other = false := by
    intro sessionId may other found
    cases mayRemove_cases may found with
    | inl same => rw [same, closed]
    | inr hidden => exact hidden
  have first := sound_erase sound (unexposed tempId mayTemp)
  have second : Sound limit { s with sessions := (s.sessions.erase tempId).erase m.sessionId } := by
    refine sound_erase first ?_
    intro other found
    rw [Dict.get?_erase] at found
    split_ifs at found
    exact unexposed m.sessionId may other found
  exact sound_setPhase second calm _

theorem sound_step (next : Step) (sound : Sound limit s) (ordered : orderly limit s next = true)
    (moved : step limit s next = some t) : Sound limit t := by
  cases next with
  | sendNewSession task tempId => exact sound_begin (fun calm => sound_setPhase sound calm _) moved
  | getOrConnect task sessionId hasMeta => exact sound_getOrConnect sound moved
  | acquire task =>
    rw [step] at moved
    split at moved
    · rename_i sessionId lock hasMeta found
      split_ifs at moved
      rw [← Option.some.inj moved]
      exact sound_enterLock sound (calm_of found fun _ => rfl) _ _ _
    · cases moved
  | readMeta task found =>
    rw [step] at moved
    split at moved
    · rename_i target isReading
      have calm := calm_of isReading fun _ => rfl
      rw [← Option.some.inj moved]
      split_ifs
      · exact sound_setPhase sound calm _
      · exact sound_leave sound calm _
    · cases moved
  | ensureCapacity task =>
    rw [step] at moved
    split at moved
    · rename_i target isChecking
      have calm := calm_of isChecking fun _ => rfl
      split_ifs at moved
      · rw [← Option.some.inj moved]
        exact sound_setPhase sound calm _
      · split at moved
        · rw [← Option.some.inj moved]
          exact sound_beginEvict sound calm _ _
        · rw [← Option.some.inj moved]
          exact sound_leave sound calm _
    · cases moved
  | buildFails task =>
    rw [step] at moved
    split at moved
    · rename_i target isBuilding
      rw [← Option.some.inj moved]
      exact sound_leave sound (calm_of isBuilding fun _ => rfl) _
    · cases moved
  | register task managed stored time =>
    rw [step] at moved
    split at moved
    · rename_i target isBuilding
      split_ifs at moved with known
      rw [orderly, isBuilding, Bool.and_eq_true] at ordered
      rw [← Option.some.inj moved]
      refine sound_setPhase (sound_register sound ?_ known ordered.1 ordered.2) ?_ _
      · cases target <;> rfl
      · intro sessionId number next found
        rw [State.setManaged] at found
        rw [isBuilding] at found
        cases found
    · cases moved
  | started task ok =>
    rw [step] at moved
    split at moved
    · rename_i target managed isStarting
      have calm := calm_of isStarting fun _ => rfl
      obtain ⟨m, known, rest⟩ := Option.bind_eq_some_iff.mp moved
      cases ok with
      | true =>
        rw [if_pos rfl] at rest
        rw [← Option.some.inj rest]
        exact sound_started sound calm known
      | false =>
        rw [if_neg (by decide)] at rest
        split_ifs at rest with live
        rw [orderly, isStarting] at ordered
        rw [← Option.some.inj rest]
        refine sound_leave (sound_erase sound ?_) calm _
        intro other found
        cases mayRemove_cases ordered found with
        | inl same =>
          rw [same, State.exposed, State.isLive, known, Option.any_some, Bool.eq_false_iff.mpr live,
            Bool.false_and]
        | inr hidden => exact hidden
    · cases moved
  | resolve managed sdkId =>
    obtain ⟨m, known, rest⟩ := Option.bind_eq_some_iff.mp moved
    split_ifs at rest
    rw [orderly, known, Option.all_some, Bool.and_eq_true, Bool.and_eq_true] at ordered
    rw [← Option.some.inj rest]
    refine sound_resolve sound known ordered.1.1 ordered.1.2 ?_
    intro leaving
    have slot := ordered.2
    rw [Bool.or_eq_true, Bool.not_eq_true', List.contains_eq_mem, decide_eq_false_iff_not] at slot
    exact slot.resolve_left fun stays => stays leaving
  | answered task ok =>
    rw [step] at moved
    split at moved
    · rename_i tempId managed isSending
      have calm := calm_of isSending fun _ => rfl
      obtain ⟨m, known, rest⟩ := Option.bind_eq_some_iff.mp moved
      cases ok with
      | true =>
        rw [if_pos rfl] at rest
        split_ifs at rest
        rw [← Option.some.inj rest]
        exact sound_setPhase sound calm _
      | false =>
        rw [if_neg (by decide)] at rest
        simp only [orderly, isSending, known, Option.all_some, Bool.and_eq_true,
          Bool.not_eq_true'] at ordered
        rw [← Option.some.inj rest]
        exact sound_answered sound calm ordered.1.1 ordered.1.2 ordered.2
    · cases moved
  | cleaned task =>
    rw [step] at moved
    split at moved
    · rename_i managed isCleaning
      split_ifs at moved
      rw [← Option.some.inj moved]
      exact sound_setPhase sound (calm_of isCleaning fun _ => rfl) _
    · cases moved
  | closeSession task sessionId =>
    refine sound_begin ?_ moved
    intro calm
    split
    · exact sound_beginEvict sound calm _ _
    · exact sound_setPhase sound calm _
  | cleanupIdle task sessionId =>
    refine sound_begin ?_ moved
    intro calm
    split
    · split_ifs
      · exact sound_beginEvict sound calm _ _
      · exact sound_setPhase sound calm _
    · exact sound_setPhase sound calm _
  | evicted task =>
    rw [step] at moved
    split at moved
    · rename_i sessionId managed next isEvicting
      split_ifs at moved with live
      rw [orderly, isEvicting] at ordered
      rw [← Option.some.inj moved]
      have dead := Bool.eq_false_iff.mpr live
      refine sound_resume (sound_endEvict sound dead ordered) ?_ _
      intro other number later found
      have same : Phase.evicting sessionId managed next = .evicting other number later :=
        Option.some.inj (isEvicting.symm.trans found)
      cases same
      exact dead
    · cases moved
  | patrolOnce task now delay => exact sound_begin (fun calm => sound_setPhase sound calm _) moved
  | patrolNext task =>
    rw [step] at moved
    split at moved
    · rename_i now delay rest isPatrolling
      rw [← Option.some.inj moved]
      exact sound_patrolTurn sound (calm_of isPatrolling fun _ => rfl) _ _ _
    · cases moved
  | cancelPatrol task =>
    rw [step] at moved
    split at moved
    · rename_i now delay rest isPatrolling
      rw [← Option.some.inj moved]
      exact sound_setPhase sound (calm_of isPatrolling fun _ => rfl) _
    · rename_i sessionId managed now delay rest isEvicting
      rw [orderly, isEvicting] at ordered
      cases ordered
    · cases moved
  | shutdownGracefully task => exact sound_begin (fun calm => sound_setPhase sound calm _) moved
  | shutdownNext task evictor =>
    rw [step] at moved
    split at moved
    · rename_i managed rest isShutting
      split_ifs at moved with known
      rw [← Option.some.inj moved]
      have calm := calm_of isShutting fun _ => rfl
      refine sound_beginEvict (sound_setPhase sound calm _) (calm_new ?_) _ _
      rw [State.setPhase, Dict.mem_keys_set, not_or]
      refine ⟨known, ?_⟩
      intro same
      rw [same] at known
      exact known ((Dict.mem_keys_iff _ _).mpr ⟨_, isShutting⟩)
    · cases moved
  | turn managed status time =>
    obtain ⟨m, known, rest⟩ := Option.map_eq_some_iff.mp moved
    rw [← rest]
    exact sound_setManaged sound known rfl id
  | actorExits managed =>
    obtain ⟨m, known, rest⟩ := Option.map_eq_some_iff.mp moved
    rw [← rest]
    exact sound_setManaged sound known rfl (fun same => by cases same)

end Steps

section Runs

/-- In every run of orderly steps each session id has at most one exposed actor, it belongs to the
registered session, and the sessions that count stay within the limit. -/
theorem one_reachable_actor {limit : Nat} {steps : List Step} {s : State}
    (ordered : allSteps (step limit) (orderly limit) steps .start = true)
    (ran : runSteps (step limit) steps .start = some s) :
    (∀ first second m m', s.managed.get? first = some m → s.managed.get? second = some m' →
      s.exposed first = true → s.exposed second = true → m.sessionId = m'.sessionId →
        first = second) ∧
    (∀ managed m, s.managed.get? managed = some m → s.exposed managed = true →
      s.sessions.get? m.sessionId = some managed) ∧
    s.active.length ≤ limit := by
  have sound := runSteps_induct_of (fun _ next _ sound ok moved => sound_step next sound ok moved)
    sound_start ordered ran
  refine ⟨?_, sound.registered, ?_⟩
  · intro first second m m' found found' exposed exposed' same
    have one := sound.registered first m found exposed
    have two := sound.registered second m' found' exposed'
    rw [same, two] at one
    exact (Option.some.inj one).symm
  · rw [length_active sound]
    exact sound.bounded

/-- A new session with the id of the SDK. -/
private def opening : List Step :=
  [.sendNewSession 0 "temp", .ensureCapacity 0, .register 0 0 .idle 10, .started 0 true,
    .resolve 0 "chat", .answered 0 true, .turn 0 .completed 20]

/-- The session is evicted for another one, and comes back after the disconnect has ended. -/
private def evictedAndBack : List Step :=
  opening ++ ([.getOrConnect 1 "other" true, .ensureCapacity 1, .actorExits 0, .evicted 1,
    .register 1 1 .idle 30, .started 1 true, .closeSession 2 "other", .actorExits 1, .evicted 2,
    .getOrConnect 3 "chat" false, .readMeta 3 true, .ensureCapacity 3, .register 3 2 .idle 40,
    .started 3 true] : List Step)

private theorem evictedAndBack_isSome :
    (runSteps (step 1) evictedAndBack .start).isSome = true := by
  decide

theorem one_reachable_actor_evicted :
    ∃ s, runSteps (step 1) evictedAndBack .start = some s ∧ s.active.length ≤ 1 ∧
      s.exposed 2 = true :=
  ⟨_, (Option.some_get evictedAndBack_isSome).symm,
    (one_reachable_actor (by decide) (Option.some_get evictedAndBack_isSome).symm).2.2,
    by decide⟩

/-- The session is asked for again while its disconnect is still running. -/
private def backTooEarly : List Step :=
  opening ++ ([.closeSession 1 "chat", .getOrConnect 2 "chat" true, .ensureCapacity 2,
    .register 2 1 .completed 30, .started 2 true, .actorExits 0, .evicted 1] : List Step)

private theorem backTooEarly_isSome : (runSteps (step 5) backTooEarly .start).isSome = true := by
  decide

/-- The old disconnect takes the entry of the new session away: its live actor is unreachable. -/
theorem revived_session_is_orphaned :
    ∃ s, runSteps (step 5) backTooEarly .start = some s ∧ s.exposed 1 = true ∧
      (s.managed.get? 1).map Managed.sessionId = some "chat" ∧ s.sessions.get? "chat" = none :=
  ⟨_, (Option.some_get backTooEarly_isSome).symm, by decide⟩

end Runs

end ArcReel.Agent.Registry
