import ArcReel.Agent.NewSession

/-! A client key creates one session in a project, as long as the look-up in the
event log meets the project's own session first and no creation stops halfway. -/

namespace ArcReel.Agent.NewSession
open ArcReel.Lib ArcReel.Agent.EventLog

section Condition

variable {ε : Type}

/-- A request with a key has written the metadata of its session and not yet its entry. -/
def Call.halfway (call : Call ε) : Bool :=
  match call.phase with
  | .created _ => (truthy call.clientKey).isSome
  | _ => false

/-- If the key has an accepted session in the project, the row that the log returns is of it. -/
def ownFirst (s : State ε) (projectName key : String) (pick : Nat) : Bool :=
  !(s.rows.any fun row => row.clientKey == some key && row.seq == 0 &&
      projectOf s.sessions row.sessionId == some projectName) ||
    (oldest s.rows key)[pick]?.all fun row => projectOf s.sessions row.sessionId == some projectName

/-- The look-up under the lock meets the project's own session first, no creation stops between the
metadata and the entry, and no message is the first entry of a session. -/
def orderly (s : State ε) : Step ε → Bool
  | .lookup id pick => (s.calls.get? id).all fun call =>
      match call.phase, truthy call.clientKey with
      | .recovering true, some key => ownFirst s call.projectName key pick
      | _, _ => true
  | .fail id => (s.calls.get? id).all fun call => !call.halfway
  | .restart => s.calls.values.all fun call => !call.halfway
  | .sendMessage sessionId _ _ _ => s.rows.any fun row => row.sessionId == sessionId
  | _ => true

end Condition

section Invariant

variable {ε : Type}

/-- The call is inside the lock of its key. -/
def Phase.locked : Phase ε → Bool
  | .reading locked | .mapped locked _ | .matching locked _ | .recovering locked
  | .recovered locked _ => locked
  | .creating | .created _ | .appended _ => true
  | .waiting | .accepted _ | .raised => false

/-- No session of the project was created for the key. -/
def Unused (sessions : List SessionMeta) (projectName : String) (clientKey : Option String) : Prop :=
  ∀ key, truthy clientKey = some key → ∀ session ∈ sessions, session.projectName = projectName →
    session.clientKey ≠ some key

/-- A row of a session of the call's key. -/
def OfKey (s : State ε) (clientKey : Option String) (row : LogRow (Stamped ε)) : Prop :=
  row ∈ s.rows ∧ ∃ session ∈ s.sessions, session.sessionId = row.sessionId ∧
    session.clientKey = clientKey

/-- A row of a session that was created for the call's project and key. -/
def OfCall (s : State ε) (call : Call ε) (row : LogRow (Stamped ε)) : Prop :=
  row ∈ s.rows ∧ ⟨row.sessionId, call.projectName, call.clientKey⟩ ∈ s.sessions

/-- What the variables of a call hold. -/
def Call.Sound (s : State ε) (call : Call ε) : Prop :=
  match call.phase with
  | .mapped _ sessionId => ∃ session ∈ s.sessions, session.sessionId = sessionId ∧
      session.clientKey = call.clientKey
  | .matching _ row => OfKey s call.clientKey row
  | .recovered locked row => OfKey s call.clientKey row ∧ (locked = true →
      projectOf s.sessions row.sessionId ≠ some call.projectName →
        Unused s.sessions call.projectName call.clientKey)
  | .creating => Unused s.sessions call.projectName call.clientKey
  | .created sessionId => ⟨sessionId, call.projectName, call.clientKey⟩ ∈ s.sessions ∧
      ∀ row ∈ s.rows, row.sessionId ≠ sessionId
  | .appended row | .accepted row => OfCall s call row
  | _ => True

structure Once (s : State ε) : Prop where
  ids : (s.sessions.map SessionMeta.sessionId).Nodup
  numbers : ∀ row ∈ s.rows, 0 ≤ row.seq
  owned : ∀ row ∈ s.rows, ∃ session ∈ s.sessions, session.sessionId = row.sessionId ∧
    (row.seq = 0 → session.clientKey = row.clientKey)
  logged : ∀ session ∈ s.sessions, (truthy session.clientKey).isSome = true →
    (∃ row ∈ s.rows, row.sessionId = session.sessionId ∧ row.seq = 0) ∨
      ∃ id call, s.calls.get? id = some call ∧ call.phase = .created session.sessionId
  mapped : ∀ key sessionId, s.clientKeys.get? key = some sessionId →
    ∃ session ∈ s.sessions, session.sessionId = sessionId ∧ session.clientKey = some key
  locking : ∀ id call key, s.calls.get? id = some call → call.phase.locked = true →
    truthy call.clientKey = some key → s.locks.get? key = some id
  unique : ∀ a ∈ s.sessions, ∀ b ∈ s.sessions, (truthy a.clientKey).isSome = true →
    a.clientKey = b.clientKey → a.projectName = b.projectName → a = b
  making : ∀ id other call call' sessionId, s.calls.get? id = some call →
    s.calls.get? other = some call' → call.phase = .created sessionId →
      call'.phase = .created sessionId → id = other
  sound : ∀ id call, s.calls.get? id = some call → call.Sound s

end Invariant

section Lemmas

variable {ε : Type} {s : State ε}

theorem truthy_eq_some {clientKey : Option String} {key : String} :
    truthy clientKey = some key ↔ clientKey = some key ∧ key.isEmpty = false := by
  unfold truthy
  rw [Option.filter_eq_some_iff]
  simp

theorem once_start : Once (.start : State ε) := by
  refine ⟨.nil, ?_, ?_, ?_, ?_, ?_, ?_, ?_, ?_⟩
  · exact fun row member => nomatch member
  · exact fun row member => nomatch member
  · exact fun session member => nomatch member
  · exact fun key sessionId found => nomatch found
  · exact fun id call key found => nomatch found
  · exact fun a member => nomatch member
  · exact fun id other call call' sessionId found => nomatch found
  · exact fun id call found => nomatch found

theorem projectOf_of_mem (once : Once s) {session : SessionMeta} (member : session ∈ s.sessions) :
    projectOf s.sessions session.sessionId = some session.projectName := by
  have distinct := once.ids
  unfold projectOf
  generalize s.sessions = sessions at member distinct
  induction sessions with
  | nil => cases member
  | cons head sessions ih =>
    rw [List.map_cons, List.nodup_cons] at distinct
    cases List.mem_cons.mp member with
    | inl same => simp [same]
    | inr later =>
      have apart : (head.sessionId == session.sessionId) = false := by
        rw [beq_eq_false_iff_ne]
        intro same
        exact distinct.1 (same ▸ List.mem_map_of_mem later)
      rw [List.find?_cons, apart]
      exact ih later distinct.2

theorem session_eq (once : Once s) {a b : SessionMeta} (first : a ∈ s.sessions)
    (second : b ∈ s.sessions) (same : a.sessionId = b.sessionId) : a = b :=
  List.inj_on_of_nodup_map once.ids first second same

/-- A match of the project under a known session means that the session is of the project. -/
theorem ofCall_of_match (once : Once s) {call : Call ε} {row : LogRow (Stamped ε)}
    (ofKey : OfKey s call.clientKey row)
    (fits : matchesProject s.sessions row.sessionId call.projectName = true) : OfCall s call row := by
  obtain ⟨member, session, known, named, keyed⟩ := ofKey
  refine ⟨member, ?_⟩
  have project := projectOf_of_mem once known
  rw [named] at project
  rw [matchesProject, project, Option.all_some, beq_iff_eq] at fits
  rw [← named, ← fits, ← keyed]
  exact known

theorem locked_once (once : Once s) {id other : Nat} {call call' : Call ε} {key : String}
    (first : s.calls.get? id = some call) (second : s.calls.get? other = some call')
    (here : call.phase.locked = true) (there : call'.phase.locked = true)
    (same : truthy call.clientKey = some key) (same' : truthy call'.clientKey = some key) :
    id = other := by
  have one := once.locking id call key first here same
  have two := once.locking other call' key second there same'
  exact Option.some.inj (one.symm.trans two)

/-- A call moves on; sessions and entries stay. -/
theorem once_update (once : Once s) {id : Nat} {new : Call ε} {clientKeys : Dict String String}
    (locks : Dict String Nat)
    (mapped : ∀ key sessionId, clientKeys.get? key = some sessionId →
      ∃ session ∈ s.sessions, session.sessionId = sessionId ∧ session.clientKey = some key)
    (here : ∀ key, new.phase.locked = true → truthy new.clientKey = some key →
      locks.get? key = some id)
    (there : ∀ other key, other ≠ id → s.locks.get? key = some other → locks.get? key = some other)
    (unmade : ∀ old sessionId, s.calls.get? id = some old → old.phase = .created sessionId →
      truthy old.clientKey = none)
    (notMade : ∀ sessionId, new.phase ≠ .created sessionId) (sound : new.Sound s) :
    Once { s with clientKeys := clientKeys, locks := locks, calls := s.calls.set id new } := by
  refine ⟨once.ids, once.numbers, once.owned, ?_, mapped, ?_, once.unique, ?_, ?_⟩
  · intro session member keyed
    refine (once.logged session member keyed).imp_right ?_
    intro making
    obtain ⟨other, call, found, phase⟩ := making
    have apart : other ≠ id := by
      intro same
      rw [same] at found
      have made := once.sound id call found
      rw [Call.Sound, phase] at made
      have equal := session_eq once member made.1 rfl
      rw [equal, unmade call session.sessionId found phase] at keyed
      cases keyed
    exact ⟨other, call, by rw [Dict.get?_set, if_neg apart]; exact found, phase⟩
  · intro other call key found locked keyed
    simp only [Dict.get?_set] at found
    split_ifs at found with same
    · rw [← Option.some.inj found] at locked keyed
      rw [same]
      exact here key locked keyed
    · exact there other key same (once.locking other call key found locked keyed)
  · intro first second call call' sessionId found found' phase phase'
    simp only [Dict.get?_set] at found found'
    split_ifs at found with isFirst
    · rw [← Option.some.inj found] at phase
      exact absurd phase (notMade sessionId)
    · split_ifs at found' with isSecond
      · rw [← Option.some.inj found'] at phase'
        exact absurd phase' (notMade sessionId)
      · exact once.making first second call call' sessionId found found' phase phase'
  · intro other call found
    simp only [Dict.get?_set] at found
    split_ifs at found
    · rw [← Option.some.inj found]
      exact sound
    · exact once.sound other call found

/-- A call moves on and keeps what it has of the lock. -/
theorem once_setPhase (once : Once s) {id : Nat} {call : Call ε} {phase : Phase ε}
    (known : s.calls.get? id = some call) (unmade : ∀ sessionId, call.phase ≠ .created sessionId)
    (locked : phase.locked = true → call.phase.locked = true)
    (notMade : ∀ sessionId, phase ≠ .created sessionId)
    (sound : Call.Sound s { call with phase := phase }) : Once (s.setPhase id call phase) :=
  once_update once s.locks once.mapped
    (fun key isLocked keyed => once.locking id call key known (locked isLocked) keyed)
    (fun _ _ _ held => held)
    (fun old sessionId found made => by
      rw [known] at found
      rw [← Option.some.inj found] at made
      exact absurd made (unmade sessionId))
    notMade sound

theorem release_locks (s : State ε) (id : Nat) (call : Call ε) :
    ∃ locks, s.release id call = { s with locks := locks } ∧
      ∀ other key, other ≠ id → s.locks.get? key = some other → locks.get? key = some other := by
  unfold State.release
  split
  · split_ifs with held
    · refine ⟨_, rfl, ?_⟩
      intro other key apart owner
      rw [Dict.get?_erase]
      split_ifs with same
      · rw [same, held] at owner
        exact absurd (Option.some.inj owner).symm apart
      · exact owner
    · exact ⟨s.locks, rfl, fun _ _ _ owner => owner⟩
  · exact ⟨s.locks, rfl, fun _ _ _ owner => owner⟩

theorem mapped_record (once : Once s) {maxKeys : Nat} {key sessionId : String}
    (owner : ∃ session ∈ s.sessions, session.sessionId = sessionId ∧ session.clientKey = some key) :
    ∀ key' sessionId', (record maxKeys s.clientKeys key sessionId).get? key' = some sessionId' →
      ∃ session ∈ s.sessions, session.sessionId = sessionId' ∧ session.clientKey = some key' := by
  intro key' sessionId' found
  have kept := Dict.get?_of_drop found
  rw [Dict.get?_set] at kept
  split_ifs at kept with same
  · rw [← Option.some.inj kept, same]
    exact owner
  · rw [Dict.get?_erase, if_neg same] at kept
    exact once.mapped key' sessionId' kept

/-- A call returns `accepted` with a row of a session of its own. -/
theorem once_accept (once : Once s) {id : Nat} {call : Call ε} {row : LogRow (Stamped ε)}
    {clientKeys : Dict String String} (known : s.calls.get? id = some call)
    (unmade : ∀ sessionId, call.phase ≠ .created sessionId)
    (mapped : ∀ key sessionId, clientKeys.get? key = some sessionId →
      ∃ session ∈ s.sessions, session.sessionId = sessionId ∧ session.clientKey = some key)
    (ofCall : OfCall s call row) :
    Once (({ s with clientKeys := clientKeys } : State ε).accept id call row) := by
  obtain ⟨locks, released, there⟩ := release_locks { s with clientKeys := clientKeys } id call
  unfold State.accept
  rw [released]
  refine once_update once locks mapped nofun there ?_ nofun ofCall
  intro old sessionId found made
  rw [known] at found
  rw [← Option.some.inj found] at made
  exact absurd made (unmade sessionId)

theorem once_clientKeys (once : Once s) {clientKeys : Dict String String}
    (mapped : ∀ key sessionId, clientKeys.get? key = some sessionId →
      ∃ session ∈ s.sessions, session.sessionId = sessionId ∧ session.clientKey = some key) :
    Once { s with clientKeys := clientKeys } :=
  ⟨once.ids, once.numbers, once.owned, once.logged, mapped, once.locking, once.unique, once.making,
    once.sound⟩

theorem mem_of_findByClientKey {rows : List (LogRow (Stamped ε))} {sessionId key : String}
    {row : LogRow (Stamped ε)} (found : findByClientKey rows sessionId key = some row) :
    row ∈ rows ∧ row.sessionId = sessionId := by
  have fits := List.find?_some found
  rw [Bool.and_eq_true, beq_iff_eq] at fits
  exact ⟨List.mem_of_find?_eq_some found, fits.1⟩

theorem mem_oldest {rows : List (LogRow (Stamped ε))} {key : String} {row : LogRow (Stamped ε)}
    (member : row ∈ oldest rows key) : row ∈ rows ∧ row.clientKey = some key ∧ row.seq = 0 := by
  unfold oldest at member
  have found := List.mem_of_mem_filter member
  rw [List.mem_filter, Bool.and_eq_true, beq_iff_eq, beq_iff_eq] at found
  exact found

/-- If the key has an initial entry, the log returns one. -/
theorem oldest_ne_nil {rows : List (LogRow (Stamped ε))} {key : String} {row : LogRow (Stamped ε)}
    (member : row ∈ rows) (keyed : row.clientKey = some key) (initial : row.seq = 0) :
    oldest rows key ≠ [] := by
  unfold oldest
  have found : row ∈ rows.filter fun row => row.clientKey == some key && row.seq == 0 := by
    rw [List.mem_filter, Bool.and_eq_true, beq_iff_eq, beq_iff_eq]
    exact ⟨member, keyed, initial⟩
  generalize (rows.filter fun row => row.clientKey == some key && row.seq == 0) = initials at found ⊢
  have some : initials.argmin (fun row => row.payload.createdAt) ≠ none := by
    rw [Ne, List.argmin_eq_none]
    exact List.ne_nil_of_mem found
  obtain ⟨first, least⟩ := Option.ne_none_iff_exists'.mp some
  apply List.ne_nil_of_mem (a := first)
  rw [List.mem_filter, List.all_eq_true]
  refine ⟨List.argmin_mem least, ?_⟩
  intro other present
  have first_le := List.le_of_mem_argmin (f := fun row => row.payload.createdAt) present least
  exact decide_eq_true first_le

/-- The holder of the lock finds no entry of its project, so the key is not used there. -/
theorem unused_of_unlogged (once : Once s) {id : Nat} {call : Call ε} {key : String}
    (known : s.calls.get? id = some call) (keyed : truthy call.clientKey = some key)
    (locked : call.phase.locked = true) (unmade : ∀ sessionId, call.phase ≠ .created sessionId)
    (unlogged : ∀ row ∈ s.rows, row.clientKey = some key → row.seq = 0 →
      projectOf s.sessions row.sessionId ≠ some call.projectName) :
    Unused s.sessions call.projectName call.clientKey := by
  intro key' keyed' session member project ofKey
  rw [keyed] at keyed'
  rw [← Option.some.inj keyed'] at ofKey
  have truth : truthy session.clientKey = some key :=
    truthy_eq_some.mpr ⟨ofKey, (truthy_eq_some.mp keyed).2⟩
  cases once.logged session member (by rw [truth]; rfl) with
  | inl logged =>
    obtain ⟨row, present, named, initial⟩ := logged
    obtain ⟨owner, known', same, sameKey⟩ := once.owned row present
    have equal := session_eq once known' member (same.trans named)
    have rowKey : row.clientKey = some key := by
      rw [← sameKey initial, equal]
      exact ofKey
    apply unlogged row present rowKey initial
    rw [named, projectOf_of_mem once member, project]
  | inr making =>
    obtain ⟨other, maker, found, phase⟩ := making
    have made := once.sound other maker found
    rw [Call.Sound, phase] at made
    have equal := session_eq once member made.1 rfl
    have makerKey : truthy maker.clientKey = some key := by
      rw [equal] at truth
      exact truth
    have same := locked_once once known found locked (by rw [phase]; rfl) keyed makerKey
    rw [← same, known] at found
    rw [← Option.some.inj found] at phase
    exact unmade session.sessionId phase

theorem ownFirst_cases {projectName key : String} {pick : Nat}
    (own : ownFirst s projectName key pick = true) :
    (∀ row ∈ s.rows, row.clientKey = some key → row.seq = 0 →
      projectOf s.sessions row.sessionId ≠ some projectName) ∨
    ∀ row, (oldest s.rows key)[pick]? = some row →
      projectOf s.sessions row.sessionId = some projectName := by
  rw [ownFirst, Bool.or_eq_true, Bool.not_eq_true', List.any_eq_false] at own
  cases own with
  | inl foreign =>
    left
    intro row member keyed initial project
    apply foreign row member
    simp [keyed, initial, project]
  | inr picked =>
    right
    intro row found
    rw [found, Option.all_some, beq_iff_eq] at picked
    exact picked

theorem once_missed (once : Once s) {id : Nat} {call : Call ε} {locked : Bool}
    (known : s.calls.get? id = some call) (held : call.phase.locked = locked)
    (unmade : ∀ sessionId, call.phase ≠ .created sessionId)
    (unused : locked = true → Unused s.sessions call.projectName call.clientKey) :
    Once (s.missed id call locked) := by
  unfold State.missed
  cases locked with
  | true => exact once_setPhase once known unmade (fun _ => held) nofun (unused rfl)
  | false => exact once_setPhase once known unmade nofun nofun trivial

theorem once_lookupTurn (once : Once s) {maxKeys id pick : Nat} {call : Call ε} {key : String}
    {t : State ε} (known : s.calls.get? id = some call) (keyed : truthy call.clientKey = some key)
    (own : call.phase = .recovering true → ownFirst s call.projectName key pick = true)
    (moved : lookupTurn maxKeys s id call key pick = some t) : Once t := by
  have isKey := (truthy_eq_some.mp keyed).1
  have sound := once.sound id call known
  unfold lookupTurn at moved
  split at moved
  · rename_i locked phase
    have unmade : ∀ sessionId, call.phase ≠ .created sessionId := by simp [phase]
    split at moved
    · rename_i sessionId found
      rw [← Option.some.inj moved]
      refine once_setPhase once known unmade (fun held => by rw [phase]; exact held) (fun _ same => by cases same) ?_
      rw [Call.Sound, isKey]
      exact once.mapped key sessionId found
    · rw [← Option.some.inj moved]
      exact once_setPhase once known unmade (fun held => by rw [phase]; exact held) (fun _ same => by cases same) trivial
  · rename_i locked sessionId phase
    have unmade : ∀ sessionId, call.phase ≠ .created sessionId := by simp [phase]
    rw [Call.Sound, phase] at sound
    split at moved
    · rename_i row found
      rw [← Option.some.inj moved]
      refine once_setPhase once known unmade (fun held => by rw [phase]; exact held) (fun _ same => by cases same) ?_
      obtain ⟨member, named⟩ := mem_of_findByClientKey found
      exact ⟨member, by rw [named]; exact sound⟩
    · rw [← Option.some.inj moved]
      refine once_setPhase (once_clientKeys once ?_) known unmade
        (fun held => by rw [phase]; exact held) (fun _ same => by cases same) trivial
      intro key' sessionId' found
      split_ifs at found
      · rw [Dict.get?_erase] at found
        split_ifs at found
        exact once.mapped key' sessionId' found
      · exact once.mapped key' sessionId' found
  · rename_i locked row phase
    have unmade : ∀ sessionId, call.phase ≠ .created sessionId := by simp [phase]
    rw [Call.Sound, phase] at sound
    split_ifs at moved with fits
    · rw [← Option.some.inj moved]
      have ofCall := ofCall_of_match once sound fits
      refine once_accept once known unmade (mapped_record once ?_) ofCall
      exact ⟨_, ofCall.2, rfl, isKey⟩
    · rw [← Option.some.inj moved]
      exact once_setPhase once known unmade (fun held => by rw [phase]; exact held) (fun _ same => by cases same) trivial
  · rename_i locked phase
    have unmade : ∀ sessionId, call.phase ≠ .created sessionId := by simp [phase]
    have held : call.phase.locked = locked := by rw [phase]; rfl
    split at moved
    · rename_i row found
      rw [← Option.some.inj moved]
      refine once_setPhase once known unmade (fun holds => by rw [phase]; exact holds) (fun _ same => by cases same) ?_
      obtain ⟨member, rowKey, initial⟩ := mem_oldest (List.mem_of_getElem? found)
      obtain ⟨session, present, named, sameKey⟩ := once.owned row member
      refine ⟨⟨member, session, present, named, ?_⟩, ?_⟩
      · rw [sameKey initial, rowKey, isKey]
      · intro isLocked foreign
        rw [isLocked] at phase held
        cases ownFirst_cases (own phase) with
        | inl unlogged =>
          have unused := unused_of_unlogged once known keyed held unmade unlogged
          exact unused
        | inr picked => exact absurd (picked row found) foreign
    · split_ifs at moved with empty
      rw [← Option.some.inj moved]
      refine once_missed once known held unmade ?_
      intro isLocked
      rw [isLocked] at held
      refine unused_of_unlogged once known keyed held unmade ?_
      intro row member rowKey initial
      exact absurd (List.isEmpty_iff.mp empty) (oldest_ne_nil member rowKey initial)
  · rename_i locked row phase
    have unmade : ∀ sessionId, call.phase ≠ .created sessionId := by simp [phase]
    rw [Call.Sound, phase] at sound
    split_ifs at moved with fits
    · rw [← Option.some.inj moved]
      have ofCall := ofCall_of_match once sound.1 fits
      refine once_accept once known unmade ?_ ofCall
      split_ifs
      · exact mapped_record once ⟨_, ofCall.2, rfl, isKey⟩
      · exact once.mapped
    · rw [← Option.some.inj moved]
      refine once_missed once known (by rw [phase]; rfl) unmade ?_
      intro isLocked
      apply sound.2 isLocked
      intro project
      apply fits
      rw [matchesProject, project, Option.all_some, beq_self_eq_true]
  · cases moved

end Lemmas

section Steps

variable {ε : Type} {s : State ε} {id : Nat} {call : Call ε}

/-- What a call holds stays true when a session is added whose key it has not locked. -/
theorem sound_addSession {new : SessionMeta}
    (apart : ∀ key, truthy call.clientKey = some key → call.phase.locked = true →
      new.clientKey ≠ some key)
    (sound : call.Sound s) : call.Sound { s with sessions := s.sessions ++ [new] } := by
  have unused : call.phase.locked = true → Unused s.sessions call.projectName call.clientKey →
      Unused (s.sessions ++ [new]) call.projectName call.clientKey := by
    intro locked before key keyed session member project
    cases List.mem_append.mp member with
    | inl old => exact before key keyed session old project
    | inr last =>
      rw [List.mem_singleton.mp last]
      exact apart key keyed locked
  unfold Call.Sound at sound ⊢
  split at sound
  · obtain ⟨session, member, fits⟩ := sound
    exact ⟨session, List.mem_append_left _ member, fits⟩
  · obtain ⟨present, session, member, fits⟩ := sound
    exact ⟨present, session, List.mem_append_left _ member, fits⟩
  · rename_i locked row phase
    obtain ⟨⟨present, session, member, named, keyed⟩, known⟩ := sound
    refine ⟨⟨present, session, List.mem_append_left _ member, named, keyed⟩, ?_⟩
    intro isLocked foreign
    refine unused (by rw [phase]; exact isLocked) (known isLocked ?_)
    intro project
    apply foreign
    rw [← named] at project ⊢
    unfold projectOf at project ⊢
    rw [Option.map_eq_some_iff] at project
    obtain ⟨found, isFound, isProject⟩ := project
    rw [List.find?_append, isFound, Option.some_or, Option.map_some, isProject]
  · rename_i phase
    exact unused (by rw [phase]; rfl) sound
  · exact ⟨List.mem_append_left _ sound.1, sound.2⟩
  · exact ⟨sound.1, List.mem_append_left _ sound.2⟩
  · exact ⟨sound.1, List.mem_append_left _ sound.2⟩
  · trivial

theorem once_createMeta (once : Once s) {sessionId : String}
    (known : s.calls.get? id = some call) (phase : call.phase = .creating)
    (fresh : ∀ session ∈ s.sessions, session.sessionId ≠ sessionId) :
    Once (State.setPhase
      { s with sessions := s.sessions ++ [⟨sessionId, call.projectName, call.clientKey⟩] } id call
      (.created sessionId)) := by
  have unused := once.sound id call known
  rw [Call.Sound, phase] at unused
  have held : call.phase.locked = true := by rw [phase]; rfl
  refine ⟨?_, once.numbers, ?_, ?_, ?_, ?_, ?_, ?_, ?_⟩
  · show (List.map SessionMeta.sessionId (s.sessions ++ [_])).Nodup
    rw [List.map_append, List.map_singleton, List.nodup_append_comm, List.singleton_append,
      List.nodup_cons]
    refine ⟨?_, once.ids⟩
    rw [List.mem_map]
    intro taken
    obtain ⟨session, member, same⟩ := taken
    exact fresh session member same
  · intro row member
    obtain ⟨session, present, fits⟩ := once.owned row member
    exact ⟨session, List.mem_append_left _ present, fits⟩
  · intro session member keyed
    cases List.mem_append.mp member with
    | inl old =>
      refine (once.logged session old keyed).imp_right ?_
      intro making
      obtain ⟨other, maker, found, made⟩ := making
      refine ⟨other, maker, ?_, made⟩
      have apart : other ≠ id := by
        intro same
        rw [same, known] at found
        rw [← Option.some.inj found, phase] at made
        cases made
      simp only [State.setPhase, Dict.get?_set, if_neg apart]
      exact found
    | inr last =>
      right
      refine ⟨id, { call with phase := .created sessionId }, ?_, ?_⟩
      · simp only [State.setPhase, Dict.get?_set, if_true]
      · rw [List.mem_singleton.mp last]
  · intro key mapped found
    obtain ⟨session, present, fits⟩ := once.mapped key mapped found
    exact ⟨session, List.mem_append_left _ present, fits⟩
  · intro other call' key found locked keyed
    simp only [State.setPhase, Dict.get?_set] at found
    split_ifs at found with same
    · rw [← Option.some.inj found] at keyed
      rw [same]
      exact once.locking id call key known held keyed
    · exact once.locking other call' key found locked keyed
  · intro a first b second keyed sameKey sameProject
    have new_ne : ∀ session ∈ s.sessions, (truthy session.clientKey).isSome = true →
        session.clientKey = call.clientKey → session.projectName ≠ call.projectName := by
      intro session member truth same project
      obtain ⟨key, isKey⟩ := Option.isSome_iff_exists.mp truth
      rw [same] at isKey
      refine unused key isKey session member project ?_
      rw [same]
      exact (truthy_eq_some.mp isKey).1
    simp only [State.setPhase, List.mem_append, List.mem_singleton] at first second
    cases first with
    | inl oldA =>
      cases second with
      | inl oldB => exact once.unique a oldA b oldB keyed sameKey sameProject
      | inr newB =>
        rw [newB] at sameKey sameProject
        exact absurd sameProject (new_ne a oldA keyed sameKey)
    | inr newA =>
      cases second with
      | inl oldB =>
        rw [sameKey] at keyed
        rw [newA] at sameKey sameProject
        exact absurd sameProject.symm (new_ne b oldB keyed sameKey.symm)
      | inr newB => rw [newA, newB]
  · have made_ne : ∀ other call', s.calls.get? other = some call' →
        call'.phase ≠ .created sessionId := by
      intro other call' found made
      have sound := once.sound other call' found
      rw [Call.Sound, made] at sound
      exact fresh _ sound.1 rfl
    intro first second call₁ call₂ named found₁ found₂ made₁ made₂
    simp only [State.setPhase, Dict.get?_set] at found₁ found₂
    split_ifs at found₁ with isFirst
    · split_ifs at found₂ with isSecond
      · rw [isFirst, isSecond]
      · rw [← Option.some.inj found₁] at made₁
        rw [← Phase.created.inj made₁] at made₂
        exact absurd made₂ (made_ne second call₂ found₂)
    · split_ifs at found₂ with isSecond
      · rw [← Option.some.inj found₂] at made₂
        rw [← Phase.created.inj made₂] at made₁
        exact absurd made₁ (made_ne first call₁ found₁)
      · exact once.making first second call₁ call₂ named found₁ found₂ made₁ made₂
  · intro other call' found
    simp only [State.setPhase, Dict.get?_set] at found
    split_ifs at found with same
    · rw [← Option.some.inj found]
      refine ⟨List.mem_append_right _ (List.mem_singleton_self _), ?_⟩
      intro row member named
      obtain ⟨session, present, owner, _⟩ := once.owned row member
      exact fresh session present (owner.trans named)
    · refine sound_addSession ?_ (once.sound other call' found)
      intro key keyed locked isKey
      apply same
      have own : truthy call.clientKey = some key :=
        truthy_eq_some.mpr ⟨isKey, (truthy_eq_some.mp keyed).2⟩
      exact locked_once once found known locked held keyed own

/-- What a call holds stays true when an entry of a session that it is not making is added. -/
theorem sound_addRow {row : LogRow (Stamped ε)} (apart : call.phase ≠ .created row.sessionId)
    (sound : call.Sound s) : call.Sound { s with rows := s.rows ++ [row] } := by
  unfold Call.Sound at sound ⊢
  split at sound
  · exact sound
  · exact ⟨List.mem_append_left _ sound.1, sound.2⟩
  · exact ⟨⟨List.mem_append_left _ sound.1.1, sound.1.2⟩, sound.2⟩
  · exact sound
  · rename_i sessionId phase
    refine ⟨sound.1, ?_⟩
    intro other member
    cases List.mem_append.mp member with
    | inl old => exact sound.2 other old
    | inr last =>
      rw [List.mem_singleton.mp last]
      intro named
      rw [← named] at phase
      exact apart phase
  · exact ⟨List.mem_append_left _ sound.1, sound.2⟩
  · exact ⟨List.mem_append_left _ sound.1, sound.2⟩
  · trivial

/-- An entry of a session that nobody is making is added; only the initial one has number 0. -/
theorem once_addRow (once : Once s) {row : LogRow (Stamped ε)} (number : 0 ≤ row.seq)
    (owner : ∃ session ∈ s.sessions, session.sessionId = row.sessionId ∧
      (row.seq = 0 → session.clientKey = row.clientKey))
    (apart : ∀ id call, s.calls.get? id = some call → call.phase ≠ .created row.sessionId) :
    Once { s with rows := s.rows ++ [row] } := by
  refine ⟨once.ids, ?_, ?_, ?_, once.mapped, once.locking, once.unique, once.making, ?_⟩
  · intro other member
    cases List.mem_append.mp member with
    | inl old => exact once.numbers other old
    | inr last =>
      rw [List.mem_singleton.mp last]
      exact number
  · intro other member
    cases List.mem_append.mp member with
    | inl old => exact once.owned other old
    | inr last =>
      rw [List.mem_singleton.mp last]
      exact owner
  · intro session member keyed
    refine (once.logged session member keyed).imp_left ?_
    intro logged
    obtain ⟨other, present, fits⟩ := logged
    exact ⟨other, List.mem_append_left _ present, fits⟩
  · intro id call found
    exact sound_addRow (apart id call found) (once.sound id call found)

/-- The maker of a session appends its initial entry. -/
theorem once_appendInitial (once : Once s) {sessionId : String} {row : LogRow (Stamped ε)}
    (known : s.calls.get? id = some call) (phase : call.phase = .created sessionId)
    (named : row.sessionId = sessionId) (number : row.seq = 0)
    (keyed : row.clientKey = call.clientKey) :
    Once (State.setPhase { s with rows := s.rows ++ [row] } id call (.appended row)) := by
  have made := once.sound id call known
  rw [Call.Sound, phase] at made
  have held : call.phase.locked = true := by rw [phase]; rfl
  have others : ∀ other call', other ≠ id → s.calls.get? other = some call' →
      call'.phase ≠ .created row.sessionId := by
    intro other call' apart found phase'
    rw [named] at phase'
    exact apart (once.making other id call' call sessionId found known phase' phase)
  refine ⟨once.ids, ?_, ?_, ?_, once.mapped, ?_, once.unique, ?_, ?_⟩
  · intro other member
    cases List.mem_append.mp member with
    | inl old => exact once.numbers other old
    | inr last =>
      rw [List.mem_singleton.mp last]
      exact number.ge
  · intro other member
    cases List.mem_append.mp member with
    | inl old => exact once.owned other old
    | inr last =>
      rw [List.mem_singleton.mp last]
      exact ⟨_, made.1, named.symm, fun _ => keyed.symm⟩
  · intro session member isKeyed
    by_cases same : session.sessionId = sessionId
    · left
      exact ⟨row, List.mem_append_right _ (List.mem_singleton_self _), named.trans same.symm, number⟩
    · cases once.logged session member isKeyed with
      | inl logged =>
        obtain ⟨other, present, fits⟩ := logged
        exact .inl ⟨other, List.mem_append_left _ present, fits⟩
      | inr making =>
        obtain ⟨other, maker, found, phase'⟩ := making
        right
        refine ⟨other, maker, ?_, phase'⟩
        have apart : other ≠ id := by
          intro isId
          rw [isId, known] at found
          rw [← Option.some.inj found, phase] at phase'
          exact same (Phase.created.inj phase').symm
        simp only [State.setPhase, Dict.get?_set, if_neg apart]
        exact found
  · intro other call' key found locked keyed'
    simp only [State.setPhase, Dict.get?_set] at found
    split_ifs at found with same
    · rw [← Option.some.inj found] at keyed'
      rw [same]
      exact once.locking id call key known held keyed'
    · exact once.locking other call' key found locked keyed'
  · intro first second call₁ call₂ sessionId' found₁ found₂ made₁ made₂
    simp only [State.setPhase, Dict.get?_set] at found₁ found₂
    split_ifs at found₁ with isFirst
    · rw [← Option.some.inj found₁] at made₁
      cases made₁
    · split_ifs at found₂ with isSecond
      · rw [← Option.some.inj found₂] at made₂
        cases made₂
      · exact once.making first second call₁ call₂ sessionId' found₁ found₂ made₁ made₂
  · intro other call' found
    simp only [State.setPhase, Dict.get?_set] at found
    split_ifs at found with same
    · rw [← Option.some.inj found]
      refine ⟨List.mem_append_right _ (List.mem_singleton_self _), ?_⟩
      rw [named]
      exact made.1
    · exact sound_addRow (others other call' same found) (once.sound other call' found)

theorem nextSeq_of_empty {rows : List (LogRow (Stamped ε))} {sessionId : String}
    (empty : ∀ row ∈ rows, row.sessionId ≠ sessionId) : nextSeq rows sessionId = 0 := by
  cases nextSeq_cases rows sessionId with
  | inl zero => exact zero
  | inr found =>
    obtain ⟨row, member, named, _⟩ := found
    exact absurd named (empty row member)

theorem once_fail (once : Once s) (known : s.calls.get? id = some call)
    (whole : call.halfway = false) : Once ((s.release id call).setPhase id call .raised) := by
  obtain ⟨locks, released, there⟩ := release_locks s id call
  rw [released]
  refine once_update once locks once.mapped nofun there ?_ nofun trivial
  intro old sessionId found made
  rw [known] at found
  rw [← Option.some.inj found] at made ⊢
  rw [Call.halfway, made] at whole
  exact Option.isSome_eq_false_iff.mp whole |> Option.isNone_iff_eq_none.mp

theorem once_restart (once : Once s)
    (whole : ∀ call ∈ s.calls.values, call.halfway = false) :
    Once { s with clientKeys := .empty, locks := .empty, calls := .empty } := by
  refine ⟨once.ids, once.numbers, once.owned, ?_, (fun _ _ found => nomatch found),
    (fun _ _ _ found => nomatch found), once.unique, (fun _ _ _ _ _ found => nomatch found),
    (fun _ _ found => nomatch found)⟩
  intro session member keyed
  cases once.logged session member keyed with
  | inl logged => exact .inl logged
  | inr making =>
    obtain ⟨id, maker, found, phase⟩ := making
    have made := once.sound id maker found
    rw [Call.Sound, phase] at made
    have same := session_eq once member made.1 rfl
    have listed : maker ∈ s.calls.values :=
      List.mem_map_of_mem ((Dict.get?_eq_some_iff s.calls id maker).mp found)
    have isWhole := whole maker listed
    rw [Call.halfway, phase] at isWhole
    rw [same] at keyed
    exact absurd (keyed.symm.trans isWhole) (by decide)

theorem once_acquire (once : Once s) {key : String} (known : s.calls.get? id = some call)
    (keyed : truthy call.clientKey = some key) (phase : call.phase = .waiting)
    (free : s.locks.get? key = none) :
    Once (State.setPhase { s with locks := s.locks.set key id } id call (.reading true)) := by
  refine once_update once (s.locks.set key id) once.mapped ?_ ?_ ?_ nofun trivial
  · intro key' _ keyed'
    have same : key' = key := Option.some.inj (keyed'.symm.trans keyed)
    rw [Dict.get?_set, if_pos same]
  · intro other key' _ held
    have apart : key' ≠ key := by
      intro same
      rw [same, free] at held
      cases held
    rw [Dict.get?_set, if_neg apart]
    exact held
  · intro old sessionId found made
    rw [known] at found
    rw [← Option.some.inj found, phase] at made
    cases made

theorem once_sendOrCreate (once : Once s) {projectName : String} {clientKey : Option String}
    {entry : ε} (new : id ∉ s.calls.keys) :
    Once { s with calls := s.calls.set id ⟨projectName, clientKey, entry,
      if (truthy clientKey).isSome then .reading false else .creating⟩ } := by
  have unknown := (Dict.get?_eq_none_iff s.calls id).mpr new
  refine once_update once s.locks once.mapped ?_ (fun _ _ _ held => held) ?_ ?_ ?_
  · intro key locked keyed
    rw [if_pos (by rw [keyed]; rfl)] at locked
    cases locked
  · intro old sessionId found
    rw [unknown] at found
    cases found
  · intro sessionId made
    simp only at made
    split_ifs at made
  · by_cases keyed : (truthy clientKey).isSome
    · rw [if_pos keyed]
      trivial
    · rw [if_neg keyed]
      intro key isKey
      simp only at isKey
      rw [isKey] at keyed
      exact absurd rfl keyed

theorem once_sendMessage (once : Once s) {sessionId : String} {clientKey : Option String}
    {payload : Stamped ε} {stamp : Nat} (known : (projectOf s.sessions sessionId).isSome = true)
    (begun : ∃ row ∈ s.rows, row.sessionId = sessionId) :
    Once { s with
      rows := s.rows ++ [⟨sessionId, nextSeq s.rows sessionId, payload, clientKey, stamp⟩] } := by
  obtain ⟨first, member, named⟩ := begun
  have positive : 0 < nextSeq s.rows sessionId :=
    lt_of_le_of_lt (once.numbers first member) (lt_nextSeq member named)
  unfold projectOf at known
  rw [Option.isSome_map] at known
  obtain ⟨session, found⟩ := Option.isSome_iff_exists.mp known
  refine once_addRow once positive.le ?_ ?_
  · refine ⟨session, List.mem_of_find?_eq_some found, ?_, fun zero => absurd zero positive.ne'⟩
    have fits := List.find?_some found
    rw [beq_iff_eq] at fits
    exact fits
  · intro id call isCall phase
    have made := once.sound id call isCall
    rw [Call.Sound, phase] at made
    exact made.2 first member named

theorem once_step {maxKeys : Nat} {t : State ε} (next : Step ε) (once : Once s)
    (ordered : orderly s next = true) (moved : step maxKeys s next = some t) : Once t := by
  cases next with
  | sendOrCreate id projectName clientKey entry =>
    rw [step] at moved
    by_cases taken : id ∈ s.calls.keys
    · rw [if_pos taken] at moved
      cases moved
    · rw [if_neg taken] at moved
      rw [← Option.some.inj moved]
      exact once_sendOrCreate once taken
  | lookup id pick =>
    obtain ⟨call, known, rest⟩ := Option.bind_eq_some_iff.mp moved
    obtain ⟨key, keyed, turn⟩ := Option.bind_eq_some_iff.mp rest
    refine once_lookupTurn once known keyed ?_ turn
    intro phase
    rw [orderly, known, Option.all_some, phase, keyed] at ordered
    exact ordered
  | acquire id =>
    obtain ⟨call, known, rest⟩ := Option.bind_eq_some_iff.mp moved
    split at rest
    · rename_i key keyed phase
      split_ifs at rest with held
      rw [← Option.some.inj rest]
      exact once_acquire once known keyed phase (Option.not_isSome_iff_eq_none.mp held)
    · cases rest
  | createMeta id sessionId =>
    obtain ⟨call, known, rest⟩ := Option.bind_eq_some_iff.mp moved
    split at rest
    · rename_i phase
      split_ifs at rest with taken
      rw [← Option.some.inj rest]
      refine once_createMeta once known phase ?_
      intro session member same
      exact taken (List.any_eq_true.mpr ⟨session, member, beq_iff_eq.mpr same⟩)
    · cases rest
  | appendInitial id createdAt =>
    obtain ⟨call, known, rest⟩ := Option.bind_eq_some_iff.mp moved
    split at rest
    · rename_i sessionId phase
      rw [← Option.some.inj rest]
      have made := once.sound id call known
      rw [Call.Sound, phase] at made
      exact once_appendInitial once known phase rfl (nextSeq_of_empty made.2) rfl
    · cases rest
  | finish id =>
    obtain ⟨call, known, rest⟩ := Option.bind_eq_some_iff.mp moved
    split at rest
    · rename_i row phase
      rw [← Option.some.inj rest]
      have sound := once.sound id call known
      rw [Call.Sound, phase] at sound
      refine once_accept once known (by simp [phase]) ?_ sound
      split
      · rename_i key keyed
        exact mapped_record once ⟨_, sound.2, rfl, (truthy_eq_some.mp keyed).1⟩
      · exact once.mapped
    · cases rest
  | fail id =>
    obtain ⟨call, known, rest⟩ := Option.bind_eq_some_iff.mp moved
    rw [orderly, known, Option.all_some, Bool.not_eq_true'] at ordered
    split_ifs at rest
    rw [← Option.some.inj rest]
    exact once_fail once known ordered
  | restart =>
    rw [orderly, List.all_eq_true] at ordered
    rw [← Option.some.inj moved]
    refine once_restart once ?_
    intro call member
    exact (Bool.not_eq_true' _).mp (ordered call member)
  | sendMessage sessionId clientKey entry createdAt =>
    rw [step] at moved
    split_ifs at moved with refused
    · rw [← Option.some.inj moved]
      exact once
    · rw [Bool.or_eq_true, not_or, Option.isNone_iff_eq_none] at refused
      rw [← Option.some.inj moved]
      refine once_sendMessage once (Option.isSome_iff_ne_none.mpr refused.1) ?_
      obtain ⟨row, member, named⟩ := List.any_eq_true.mp ordered
      exact ⟨row, member, beq_iff_eq.mp named⟩

end Steps

section Runs

/-- In every run of orderly steps a project and a key have at most one session, and every accepted
call names that session and an entry of it. -/
theorem new_session_created_once {ε : Type} {maxKeys : Nat} {steps : List (Step ε)} {s : State ε}
    (ordered : allSteps (step maxKeys) orderly steps .start = true)
    (ran : runSteps (step maxKeys) steps .start = some s) :
    (∀ a ∈ s.sessions, ∀ b ∈ s.sessions, (truthy a.clientKey).isSome = true →
      a.clientKey = b.clientKey → a.projectName = b.projectName → a = b) ∧
    ∀ id call row, s.calls.get? id = some call → call.phase = .accepted row →
      row ∈ s.rows ∧ ⟨row.sessionId, call.projectName, call.clientKey⟩ ∈ s.sessions := by
  have once := runSteps_induct_of (fun _ next _ once ok moved => once_step next once ok moved)
    once_start ordered ran
  refine ⟨once.unique, ?_⟩
  intro id call row known phase
  have sound := once.sound id call known
  rw [Call.Sound, phase] at sound
  exact sound

/-- A request that finds nothing and creates its session. -/
private def creation (id : Nat) (projectName sessionId : String) (createdAt : Int) :
    List (Step String) :=
  [.sendOrCreate id projectName (some "key") "hello", .lookup id 0, .lookup id 0, .acquire id,
    .lookup id 0, .lookup id 0, .createMeta id sessionId, .appendInitial id createdAt, .finish id]

/-- Two requests with one key race, the process restarts, and a third one follows. -/
private def repeated : List (Step String) :=
  [.sendOrCreate 0 "film" (some "key") "hello", .sendOrCreate 1 "film" (some "key") "hello",
    .lookup 0 0, .lookup 0 0, .lookup 1 0, .lookup 1 0, .acquire 0, .lookup 0 0, .lookup 0 0,
    .createMeta 0 "first", .appendInitial 0 10, .finish 0, .acquire 1, .lookup 1 0, .lookup 1 0,
    .lookup 1 0, .sendMessage "first" none "more" 20, .restart,
    .sendOrCreate 2 "film" (some "key") "hello", .lookup 2 0, .lookup 2 0, .lookup 2 0]

private theorem repeated_isSome : (runSteps (step 2) repeated .start).isSome = true := by
  decide

theorem new_session_created_once_repeated :
    ∃ s, runSteps (step 2) repeated .start = some s ∧
      ((∀ a ∈ s.sessions, ∀ b ∈ s.sessions, (truthy a.clientKey).isSome = true →
        a.clientKey = b.clientKey → a.projectName = b.projectName → a = b) ∧
      ∀ id call row, s.calls.get? id = some call → call.phase = .accepted row →
        row ∈ s.rows ∧ ⟨row.sessionId, call.projectName, call.clientKey⟩ ∈ s.sessions) :=
  ⟨_, (Option.some_get repeated_isSome).symm,
    new_session_created_once (by decide) (Option.some_get repeated_isSome).symm⟩

/-- Two projects use one key, the process restarts, and the second project asks again. -/
private def shared : List (Step String) :=
  creation 0 "film" "first" 10 ++
    ([.sendOrCreate 1 "series" (some "key") "hello", .lookup 1 0, .lookup 1 0, .lookup 1 0,
      .lookup 1 0, .lookup 1 0, .acquire 1, .lookup 1 0, .lookup 1 0, .lookup 1 0, .lookup 1 0,
      .lookup 1 0, .createMeta 1 "second", .appendInitial 1 20, .finish 1, .restart,
      .sendOrCreate 2 "series" (some "key") "hello", .lookup 2 0, .lookup 2 0, .lookup 2 0,
      .acquire 2, .lookup 2 0, .lookup 2 0, .lookup 2 0, .createMeta 2 "third",
      .appendInitial 2 30, .finish 2] : List (Step String))

private theorem shared_isSome : (runSteps (step 2) shared .start).isSome = true := by
  decide

/-- The log returns only the session of the other project, so the request creates a second one. -/
theorem shared_key_creates_twice :
    ∃ s, runSteps (step 2) shared .start = some s ∧
      ⟨"second", "series", some "key"⟩ ∈ s.sessions ∧
      ⟨"third", "series", some "key"⟩ ∈ s.sessions :=
  ⟨_, (Option.some_get shared_isSome).symm, by decide⟩

end Runs

end ArcReel.Agent.NewSession
