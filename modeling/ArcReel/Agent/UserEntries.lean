import ArcReel.Agent.EventLog

/-! User entries under an idempotency key: each key has one entry at a time, and every caller that
gets an answer gets an entry that was committed under its key. -/

namespace ArcReel.Agent.EventLog
open ArcReel.Lib

variable {ε : Type}

section Statement

/-- The call that a step begins: its id and its entries. -/
def Step.begun : Step ε → Option (Nat × List ε)
  | .append id _ entries _ => some (id, entries)
  | .appendUserEntry id _ entry _ => some (id, [entry])
  | _ => none

/-- No other call appends an entry with the uuid of a user entry. -/
def FreshEntries (uuid : ε → Option String) (steps : List (Step ε)) : Prop :=
  ∀ id sessionId entry clientKey, .appendUserEntry id sessionId entry clientKey ∈ steps →
    ∀ next ∈ steps, ∀ id' entries, next.begun = some (id', entries) → id' ≠ id →
      ∀ other ∈ entries, uuid other ≠ uuid entry

/-- The live entries of a session under a key. -/
def entriesUnder (rows : List (LogRow ε)) (sessionId clientKey : String) : List (LogRow ε) :=
  rows.filter fun row => row.sessionId == sessionId && row.clientKey == some clientKey

/-- The step does not delete an entry under the key. -/
def keepsKey (sessionId clientKey : String) (s : State ε) : Step ε → Bool
  | .deleteEntry deleted seq =>
    !(s.rows.any fun row => row.sessionId == deleted && row.seq == seq &&
      row.sessionId == sessionId && row.clientKey == some clientKey)
  | _ => true

/-- The answer of a call that has returned. -/
def State.answer (s : State ε) (id : Nat) : Option (List (Int × ε) × Bool) :=
  (s.calls.get? id).bind fun call =>
    match call.phase with
    | .returned entries created => some (entries, created)
    | _ => none

end Statement

section Rows

variable {rows new : List (LogRow ε)} {sessionId : String} {row : LogRow ε}

/-- Two rows that the unique index of the keys tells apart. -/
def KeysApart (row other : LogRow ε) : Prop :=
  row.clientKey.isSome = true → row.sessionId = other.sessionId → row.clientKey ≠ other.clientKey

instance : Std.Symm (@KeysApart ε) where
  symm _ _ apart some_ session same := apart (same ▸ some_) session.symm same.symm

theorem newRows_spec {clientKey : Option String} {seq : Int} {stamp : Nat} {entries : List ε}
    (member : row ∈ newRows sessionId clientKey seq stamp entries) :
    row.payload ∈ entries ∧ row.clientKey = clientKey := by
  induction entries generalizing seq stamp with
  | nil => cases member
  | cons entry entries ih =>
    cases List.mem_cons.mp member with
    | inl same =>
      rw [same]
      exact ⟨List.mem_cons_self, rfl⟩
    | inr later => exact ⟨List.mem_cons_of_mem _ (ih later).1, (ih later).2⟩

theorem newRows_apart (call : AppendCall ε) (seqStart : Int) (stamp : Nat) :
    (call.new seqStart stamp).Pairwise KeysApart := by
  unfold AppendCall.new
  split
  · next single =>
    obtain ⟨entry, same⟩ := List.length_eq_one_iff.mp single
    rw [same]
    exact List.pairwise_singleton _ _
  · refine List.Pairwise.imp_of_mem ?_ (List.pairwise_of_forall fun _ _ => trivial)
    intro row other member _ _ some_
    rw [(newRows_spec member).2] at some_
    cases some_

theorem keyTaken_eq_false (free : keyTaken rows new = false) {other : LogRow ε}
    (member : row ∈ rows) (added : other ∈ new) : KeysApart row other := by
  refine Std.Symm.symm _ _ fun some_ session same => ?_
  have taken : keyTaken rows new = true := by
    refine List.any_eq_true.mpr ⟨other, added, ?_⟩
    rw [some_, Bool.true_and]
    refine List.any_eq_true.mpr ⟨row, member, ?_⟩
    rw [session, same, beq_self_eq_true, beq_self_eq_true, Bool.and_self]
  rw [free] at taken
  cases taken

/-- The rows of one key are one row. -/
theorem eq_of_apart (apart : rows.Pairwise KeysApart) {other : LogRow ε} (member : row ∈ rows)
    (member' : other ∈ rows) (session : row.sessionId = other.sessionId)
    (some_ : row.clientKey.isSome = true) (same : row.clientKey = other.clientKey) : row = other := by
  by_contra different
  exact apart.forall member member' different some_ session same

theorem entriesUnder_le_one (apart : rows.Pairwise KeysApart) (clientKey : String) :
    (entriesUnder rows sessionId clientKey).length ≤ 1 := by
  have kept := apart.filter fun row => row.sessionId == sessionId && row.clientKey == some clientKey
  have under : ∀ row ∈ entriesUnder rows sessionId clientKey,
      row.sessionId = sessionId ∧ row.clientKey = some clientKey := by
    intro row member
    have holds := (List.mem_filter.mp member).2
    rw [Bool.and_eq_true, beq_iff_eq, beq_iff_eq] at holds
    exact holds
  change (entriesUnder rows sessionId clientKey).Pairwise KeysApart at kept
  cases listed : entriesUnder rows sessionId clientKey with
  | nil => exact Nat.zero_le _
  | cons first rest =>
    cases rest with
    | nil => exact Nat.le_refl _
    | cons second rest =>
      rw [listed] at kept under
      obtain ⟨session, key⟩ := under first List.mem_cons_self
      obtain ⟨session', key'⟩ := under second (List.mem_cons_of_mem _ List.mem_cons_self)
      have apart := List.rel_of_pairwise_cons kept List.mem_cons_self
      exact absurd (key.trans key'.symm) (apart (key ▸ rfl) (session.trans session'.symm))

theorem existing_spec {call : AppendCall ε} (found : call.existing rows = some row) :
    row ∈ rows ∧ row.sessionId = call.sessionId ∧ row.clientKey = call.clientKey := by
  obtain ⟨clientKey, keyed, look⟩ := Option.bind_eq_some_iff.mp found
  have holds := List.find?_some look
  rw [Bool.and_eq_true, beq_iff_eq, beq_iff_eq] at holds
  exact ⟨List.mem_of_find?_eq_some look, holds.1, holds.2.trans keyed.symm⟩

end Rows

section Keyed

variable {uuid : ε → Option String} {s t : State ε} {done : List (Step ε)}

/-- What holds in every run: `answered` says that the answer of a call with one entry under a key
is an entry committed under it, and `source` that each committed entry is of a call that has
returned it as created. -/
structure Keyed (uuid : ε → Option String) (done : List (Step ε)) (s : State ε) : Prop where
  kept : ∀ row ∈ s.rows, row ∈ s.written
  apart : s.rows.Pairwise KeysApart
  source : ∀ row ∈ s.written, ∃ id call, s.calls.get? id = some call ∧ row.payload ∈ call.entries ∧
    ∃ entries, call.phase = .returned entries true
  begun : ∀ id call, s.calls.get? id = some call → ∃ next ∈ done, next.begun = some (id, call.entries)
  answered : ∀ id call entries created, s.calls.get? id = some call →
    call.phase = .returned entries created → call.entries.length = 1 → call.clientKey.isSome = true →
    ∃ row ∈ s.written, row.sessionId = call.sessionId ∧ row.clientKey = call.clientKey ∧
      entries = [(row.seq, row.payload)] ∧
      (created = true → ∃ entry ∈ call.entries, uuid row.payload = uuid entry)

theorem keyed_start : Keyed uuid [] (.start : State ε) where
  kept _ member := nomatch member
  apart := .nil
  source _ member := nomatch member
  begun _ _ known := nomatch known
  answered _ _ _ _ known := nomatch known

theorem Keyed.later (keyed : Keyed uuid done s) (next : Step ε) : Keyed uuid (done ++ [next]) s := by
  refine ⟨keyed.kept, keyed.apart, keyed.source, fun id call known => ?_, keyed.answered⟩
  obtain ⟨first, member, begins⟩ := keyed.begun id call known
  exact ⟨first, List.mem_append_left _ member, begins⟩

/-- A call begins, with no answer but to an append of nothing. -/
theorem keyed_begin (keyed : Keyed uuid done s) {id : Nat} (new : id ∉ s.calls.keys)
    {call : AppendCall ε} (begun : ∃ next ∈ done, next.begun = some (id, call.entries))
    (open_ : call.entries.length = 1 → call.phase.isOver = false) :
    Keyed uuid done { s with calls := s.calls.set id call } where
  kept := keyed.kept
  apart := keyed.apart
  source row member := by
    obtain ⟨other, holder, known, holds⟩ := keyed.source row member
    have different : other ≠ id := by
      rintro rfl
      exact new ((Dict.mem_keys_iff _ _).mpr ⟨holder, known⟩)
    exact ⟨other, holder, by rw [Dict.get?_set, if_neg different, known], holds⟩
  begun other found known := by
    rw [Dict.get?_set] at known
    split at known
    · next same =>
      cases known
      exact same ▸ begun
    · exact keyed.begun other found known
  answered other found entries created known returned single := by
    rw [Dict.get?_set] at known
    split at known
    · cases known
      have running := open_ single
      rw [returned] at running
      cases running
    · exact keyed.answered other found entries created known returned single

/-- A call that has not returned goes on, or returns an entry of its key. -/
theorem keyed_setPhase (keyed : Keyed uuid done s) {id : Nat} {call : AppendCall ε}
    (known : s.calls.get? id = some call) (running : call.phase.isOver = false) {phase : Phase ε}
    (answered : ∀ entries created, phase = .returned entries created → call.entries.length = 1 →
      call.clientKey.isSome = true → ∃ row ∈ s.written, row.sessionId = call.sessionId ∧
        row.clientKey = call.clientKey ∧ entries = [(row.seq, row.payload)] ∧
        (created = true → ∃ entry ∈ call.entries, uuid row.payload = uuid entry)) :
    Keyed uuid done (s.setPhase id call phase) where
  kept := keyed.kept
  apart := keyed.apart
  source row member := by
    obtain ⟨other, holder, found, holds⟩ := keyed.source row member
    have different : other ≠ id := by
      rintro rfl
      rw [known] at found
      cases found
      obtain ⟨-, entries, returned⟩ := holds
      rw [returned] at running
      cases running
    refine ⟨other, holder, ?_, holds⟩
    rw [State.setPhase, Dict.get?_set, if_neg different, found]
  begun other found met := by
    rw [State.setPhase, Dict.get?_set] at met
    split at met
    · next same =>
      cases met
      obtain ⟨next, member, begins⟩ := keyed.begun id call known
      exact ⟨next, member, same ▸ begins⟩
    · exact keyed.begun other found met
  answered other found entries created met returned single keyedCall := by
    rw [State.setPhase, Dict.get?_set] at met
    split at met
    · cases met
      exact answered entries created returned single keyedCall
    · exact keyed.answered other found entries created met returned single keyedCall

/-- An `INSERT` that succeeds: the call returns its own entries. -/
theorem keyed_insert (keyed : Keyed uuid done s) {id : Nat} {call : AppendCall ε}
    (known : s.calls.get? id = some call) (running : call.phase.isOver = false) {attempt : Nat}
    {seqStart : Int} {keyFirst : Bool} :
    Keyed uuid done (insertTurn s id call attempt seqStart keyFirst) := by
  unfold insertTurn
  dsimp only
  split
  · exact keyed_setPhase keyed known running fun _ _ never => nomatch never
  · split
    · refine keyed_setPhase keyed known running fun entries created never => ?_
      split at never
      · cases never
      · cases never
    · next passed free =>
      have unkeyed : keyTaken s.rows (call.new seqStart s.written.length) = false := by
        simpa [free] using passed
      have returned : (State.setPhase s id call (.returned ((call.new seqStart s.written.length).map
          fun row => (row.seq, row.payload)) true)).calls.get? id = some { call with
            phase := .returned ((call.new seqStart s.written.length).map
              fun row => (row.seq, row.payload)) true } := by
        rw [State.setPhase, Dict.get?_set, if_pos rfl]
      refine ⟨?_, ?_, ?_, ?_, ?_⟩
      · intro row member
        rcases List.mem_append.mp member with old | new
        · exact List.mem_append_left _ (keyed.kept row old)
        · exact List.mem_append_right _ new
      · refine List.pairwise_append.mpr ⟨keyed.apart, newRows_apart _ _ _, ?_⟩
        intro row member other added
        exact keyTaken_eq_false unkeyed member added
      · intro row member
        rcases List.mem_append.mp member with old | new
        · obtain ⟨other, holder, found, holds⟩ := keyed.source row old
          have different : other ≠ id := by
            rintro rfl
            rw [known] at found
            cases found
            obtain ⟨-, entries, returned⟩ := holds
            rw [returned] at running
            cases running
          refine ⟨other, holder, ?_, holds⟩
          rw [State.setPhase, Dict.get?_set, if_neg different, found]
        · exact ⟨id, _, returned, (newRows_spec new).1, _, rfl⟩
      · intro other found met
        rw [State.setPhase, Dict.get?_set] at met
        split at met
        · next same =>
          cases met
          obtain ⟨next, member, begins⟩ := keyed.begun id call known
          exact ⟨next, member, same ▸ begins⟩
        · exact keyed.begun other found met
      · intro other found entries created met ended single keyedCall
        rw [State.setPhase, Dict.get?_set] at met
        split at met
        · cases met
          cases ended
          obtain ⟨entry, same⟩ := List.length_eq_one_iff.mp single
          have new : call.new seqStart s.written.length =
              [⟨call.sessionId, seqStart, entry, call.clientKey, s.written.length⟩] := by
            have single : call.entries = [entry] := same
            rw [AppendCall.new, single]
            rfl
          refine ⟨_, List.mem_append_right _ (new ▸ List.mem_singleton_self _), rfl, rfl, ?_, ?_⟩
          · rw [new]
            rfl
          · intro _
            exact ⟨entry, same ▸ List.mem_singleton_self _, rfl⟩
        · obtain ⟨row, member, holds⟩ :=
            keyed.answered other found entries created met ended single keyedCall
          exact ⟨row, List.mem_append_left _ member, holds⟩

theorem keyed_callTurn (keyed : Keyed uuid done s) {id : Nat} {call : AppendCall ε} {keyFirst : Bool}
    (known : s.calls.get? id = some call) (turned : callTurn uuid s id call keyFirst = some t) :
    Keyed uuid done t := by
  unfold callTurn at turned
  cases phase : call.phase with
  | lookup =>
    simp only [phase] at turned
    have running : call.phase.isOver = false := by rw [phase]; rfl
    cases found : call.existing s.rows with
    | some row =>
      rw [found] at turned
      cases turned
      obtain ⟨member, session, key⟩ := existing_spec found
      refine keyed_setPhase keyed known running fun entries created returned _ _ => ?_
      cases returned
      exact ⟨row, keyed.kept row member, session, key, rfl, fun never => nomatch never⟩
    | none =>
      rw [found] at turned
      cases turned
      exact keyed_setPhase keyed known running fun _ _ never => nomatch never
  | select attempt =>
    simp only [phase] at turned
    cases turned
    exact keyed_setPhase keyed known (by rw [phase]; rfl) fun _ _ never => nomatch never
  | insert attempt seqStart =>
    simp only [phase] at turned
    cases turned
    exact keyed_insert keyed known (by rw [phase]; rfl)
  | conflict =>
    simp only [phase] at turned
    have running : call.phase.isOver = false := by rw [phase]; rfl
    cases found : call.existing s.rows with
    | some row =>
      rw [found] at turned
      cases turned
      obtain ⟨member, session, key⟩ := existing_spec found
      refine keyed_setPhase keyed known running fun entries created returned _ _ => ?_
      cases returned
      refine ⟨row, keyed.kept row member, session, key, rfl, fun same => ?_⟩
      cases first : call.entries.head? with
      | none =>
        rw [first] at same
        cases same
      | some entry =>
        rw [first] at same
        exact ⟨entry, List.mem_of_head? first, beq_iff_eq.mp same⟩
    | none =>
      rw [found] at turned
      cases turned
      exact keyed_setPhase keyed known running fun _ _ never => nomatch never
  | returned entries created =>
    simp only [phase] at turned
    cases turned
  | raised =>
    simp only [phase] at turned
    cases turned

theorem keyed_step {next : Step ε} (keyed : Keyed uuid done s) (stepped : step uuid s next = some t) :
    Keyed uuid (done ++ [next]) t := by
  have later := keyed.later next
  have here : next ∈ done ++ [next] := List.mem_append_right _ (List.mem_singleton_self _)
  cases next with
  | append id sessionId entries clientKey =>
    simp only [step] at stepped
    split at stepped
    · cases stepped
    · next new =>
      cases stepped
      refine keyed_begin later new ⟨_, here, rfl⟩ fun single => ?_
      obtain ⟨entry, same⟩ := List.length_eq_one_iff.mp single
      have listed : entries = [entry] := same
      rw [listed]
      rfl
  | appendUserEntry id sessionId entry clientKey =>
    simp only [step] at stepped
    split at stepped
    · cases stepped
    · next new =>
      cases stepped
      refine keyed_begin later new ⟨_, here, rfl⟩ fun _ => ?_
      dsimp only
      split
      · rfl
      · rfl
  | turn id keyFirst =>
    obtain ⟨call, known, turned⟩ := Option.bind_eq_some_iff.mp stepped
    exact keyed_callTurn later known turned
  | fail id =>
    obtain ⟨call, known, failed⟩ := Option.bind_eq_some_iff.mp stepped
    split at failed
    · cases failed
    · next running =>
      cases failed
      exact keyed_setPhase later known (Bool.eq_false_iff.mpr running) fun _ _ never => nomatch never
  | deleteEntry sessionId seq =>
    cases stepped
    exact ⟨fun row member => later.kept row (List.mem_filter.mp member).1, later.apart.filter _,
      later.source, later.begun, later.answered⟩
  | openReader id sessionId =>
    simp only [step] at stepped
    split at stepped
    · cases stepped
    · cases stepped
      exact ⟨later.kept, later.apart, later.source, later.begun, later.answered⟩
  | read id =>
    obtain ⟨reader, -, read⟩ := Option.map_eq_some_iff.mp stepped
    rw [← read]
    exact ⟨later.kept, later.apart, later.source, later.begun, later.answered⟩

theorem keyed_run {steps : List (Step ε)} (ran : runSteps (step uuid) steps .start = some s) :
    Keyed uuid steps s :=
  runSteps_induct_history (fun _ _ _ _ keyed stepped => keyed_step keyed stepped) keyed_start ran

end Keyed

section Requests

variable {uuid : ε → Option String} {s t : State ε}

/-- The call keeps what it was asked. -/
def Asked (s : State ε) (id : Nat) (sessionId : String) (entries : List ε) (clientKey : Option String) :
    Prop :=
  ∃ phase, s.calls.get? id = some ⟨sessionId, entries, clientKey, phase⟩

theorem asked_set {id other : Nat} {sessionId : String} {entries : List ε} {clientKey : Option String}
    (asked : Asked s id sessionId entries clientKey) {call : AppendCall ε}
    (known : s.calls.get? other = some call) (phase : Phase ε) :
    Asked (s.setPhase other call phase) id sessionId entries clientKey := by
  obtain ⟨old, found⟩ := asked
  unfold Asked State.setPhase
  rw [Dict.get?_set]
  split
  · next same =>
    rw [same, known] at found
    cases found
    exact ⟨phase, rfl⟩
  · exact ⟨old, found⟩

theorem asked_new {id other : Nat} {sessionId : String} {entries : List ε} {clientKey : Option String}
    (asked : Asked s id sessionId entries clientKey) (new : other ∉ s.calls.keys) (call : AppendCall ε) :
    Asked { s with calls := s.calls.set other call } id sessionId entries clientKey := by
  obtain ⟨phase, found⟩ := asked
  refine ⟨phase, ?_⟩
  rw [Dict.get?_set, if_neg, found]
  rintro rfl
  exact new ((Dict.mem_keys_iff _ _).mpr ⟨_, found⟩)

/-- A turn of a call sets its phase, and adds the same rows to the table and to all that was
written. -/
theorem callTurn_spec {id : Nat} {call : AppendCall ε} {keyFirst : Bool}
    (turned : callTurn uuid s id call keyFirst = some t) :
    ∃ phase new, t = { s.setPhase id call phase with
      rows := s.rows ++ new, written := s.written ++ new } := by
  have quiet (phase : Phase ε) : s.setPhase id call phase = { s.setPhase id call phase with
      rows := s.rows ++ [], written := s.written ++ [] } := by
    rw [List.append_nil, List.append_nil]
    rfl
  unfold callTurn at turned
  split at turned
  · split at turned
    · cases turned
      exact ⟨_, _, quiet _⟩
    · cases turned
      exact ⟨_, _, quiet _⟩
  · cases turned
    exact ⟨_, _, quiet _⟩
  · cases turned
    unfold insertTurn
    dsimp only
    split
    · exact ⟨_, _, quiet _⟩
    · split
      · exact ⟨_, _, quiet _⟩
      · exact ⟨_, _, rfl⟩
  · split at turned
    · cases turned
      exact ⟨_, _, quiet _⟩
    · cases turned
      exact ⟨_, _, quiet _⟩
  · cases turned
  · cases turned

theorem asked_step {id : Nat} {sessionId : String} {entries : List ε} {clientKey : Option String}
    {next : Step ε} (asked : Asked s id sessionId entries clientKey)
    (stepped : step uuid s next = some t) : Asked t id sessionId entries clientKey := by
  cases next with
  | append other sessionId entries clientKey =>
    simp only [step] at stepped
    split at stepped
    · cases stepped
    · next new =>
      cases stepped
      exact asked_new asked new _
  | appendUserEntry other sessionId entry clientKey =>
    simp only [step] at stepped
    split at stepped
    · cases stepped
    · next new =>
      cases stepped
      exact asked_new asked new _
  | turn other keyFirst =>
    obtain ⟨call, known, turned⟩ := Option.bind_eq_some_iff.mp stepped
    obtain ⟨phase, new, rfl⟩ := callTurn_spec turned
    exact asked_set asked known phase
  | fail other =>
    obtain ⟨call, known, failed⟩ := Option.bind_eq_some_iff.mp stepped
    split at failed
    · cases failed
    · cases failed
      exact asked_set asked known .raised
  | deleteEntry sessionId seq =>
    cases stepped
    exact asked
  | openReader other sessionId =>
    simp only [step] at stepped
    split at stepped
    · cases stepped
    · cases stepped
      exact asked
  | read other =>
    obtain ⟨reader, -, read⟩ := Option.map_eq_some_iff.mp stepped
    rw [← read]
    exact asked

/-- A user entry that was begun in the run is still asked for. -/
theorem asked_run {steps : List (Step ε)} {id : Nat} {sessionId : String} {entry : ε}
    {clientKey : Option String} (ran : runSteps (step uuid) steps .start = some s)
    (member : .appendUserEntry id sessionId entry clientKey ∈ steps) :
    Asked s id sessionId [entry] clientKey := by
  obtain ⟨front, back, rfl⟩ := List.append_of_mem member
  obtain ⟨between, -, rest⟩ := runSteps_append.mp ran
  obtain ⟨after, stepped, later⟩ := runSteps_cons.mp rest
  have begun : Asked after id sessionId [entry] clientKey := by
    simp only [step] at stepped
    split at stepped
    · cases stepped
    · cases stepped
      exact ⟨_, by rw [Dict.get?_set, if_pos rfl]⟩
  exact runSteps_induct (fun _ _ _ asked next => asked_step asked next) begun later

/-- What was committed under the key is still there. -/
def Live (sessionId clientKey : String) (s : State ε) : Prop :=
  ∀ row ∈ s.written, row.sessionId = sessionId → row.clientKey = some clientKey → row ∈ s.rows

theorem live_step {sessionId clientKey : String} {next : Step ε} (live : Live sessionId clientKey s)
    (keeps : keepsKey sessionId clientKey s next = true) (stepped : step uuid s next = some t) :
    Live sessionId clientKey t := by
  cases next with
  | append other session entries key =>
    simp only [step] at stepped
    split at stepped
    · cases stepped
    · cases stepped
      exact live
  | appendUserEntry other session entry key =>
    simp only [step] at stepped
    split at stepped
    · cases stepped
    · cases stepped
      exact live
  | turn other keyFirst =>
    obtain ⟨call, known, turned⟩ := Option.bind_eq_some_iff.mp stepped
    obtain ⟨phase, new, rfl⟩ := callTurn_spec turned
    intro row member session key
    rcases List.mem_append.mp member with old | added
    · exact List.mem_append_left _ (live row old session key)
    · exact List.mem_append_right _ added
  | fail other =>
    obtain ⟨call, known, failed⟩ := Option.bind_eq_some_iff.mp stepped
    split at failed
    · cases failed
    · cases failed
      exact live
  | deleteEntry session seq =>
    cases stepped
    intro row member same key
    have there := live row member same key
    refine List.mem_filter.mpr ⟨there, ?_⟩
    rw [keepsKey, Bool.not_eq_true', List.any_eq_false] at keeps
    rw [Bool.not_eq_true', Bool.eq_false_iff]
    intro hit
    refine keeps row there ?_
    simpa [same, key] using hit
  | openReader other session =>
    simp only [step] at stepped
    split at stepped
    · cases stepped
    · cases stepped
      exact live
  | read other =>
    obtain ⟨reader, -, read⟩ := Option.map_eq_some_iff.mp stepped
    rw [← read]
    exact live

theorem answer_eq_some {id : Nat} {entries : List (Int × ε)} {created : Bool}
    (answer : s.answer id = some (entries, created)) :
    ∃ call, s.calls.get? id = some call ∧ call.phase = .returned entries created := by
  obtain ⟨call, known, ended⟩ := Option.bind_eq_some_iff.mp answer
  refine ⟨call, known, ?_⟩
  split at ended
  · next phase =>
    cases ended
    exact phase
  · cases ended

/-- What an answered call has been given: an entry committed under its key, as created exactly if
its own entry was committed. -/
theorem answered_spec {steps : List (Step ε)} (fresh : FreshEntries uuid steps)
    (ran : runSteps (step uuid) steps .start = some s) {id : Nat} {sessionId : String} {entry : ε}
    {clientKey : String} (asked : .appendUserEntry id sessionId entry (some clientKey) ∈ steps)
    {entries : List (Int × ε)} {created : Bool} (answer : s.answer id = some (entries, created)) :
    ∃ row ∈ s.written, row.sessionId = sessionId ∧ row.clientKey = some clientKey ∧
      entries = [(row.seq, row.payload)] ∧
      (created = true ↔ ∃ own ∈ s.written, uuid own.payload = uuid entry) := by
  have keyed : Keyed uuid steps s := keyed_run ran
  obtain ⟨call, known, returned⟩ := answer_eq_some answer
  obtain ⟨phase, found⟩ := asked_run ran asked
  rw [known] at found
  cases found
  obtain ⟨row, member, session, key, whole, own⟩ :=
    keyed.answered id _ entries created known returned rfl rfl
  refine ⟨row, member, session, key, whole, ?_, ?_⟩
  · intro new
    obtain ⟨same, listed, equal⟩ := own new
    rw [List.mem_singleton.mp listed] at equal
    exact ⟨row, member, equal⟩
  · rintro ⟨committed, written, equal⟩
    obtain ⟨writer, call, holds, payload, answered, wrote⟩ := keyed.source committed written
    obtain ⟨next, listed, begins⟩ := keyed.begun writer call holds
    have same : writer = id := by
      by_contra different
      exact fresh id sessionId entry _ asked next listed writer call.entries begins different
        committed.payload payload equal
    subst same
    rw [known] at holds
    cases holds
    rw [returned] at wrote
    cases wrote
    rfl

/-- In every run in which no two callers use one uuid: a key has at most one live entry; a caller
that gets an answer gets an entry that was committed under its key, as created exactly if its own
entry was committed; and if no entry of the key is deleted, all callers get the same entry. -/
theorem user_entries_once (uuid : ε → Option String) (steps : List (Step ε)) (s : State ε)
    (fresh : FreshEntries uuid steps) (ran : runSteps (step uuid) steps .start = some s)
    (sessionId clientKey : String) :
    (entriesUnder s.rows sessionId clientKey).length ≤ 1 ∧
      (∀ id entry, .appendUserEntry id sessionId entry (some clientKey) ∈ steps →
        ∀ entries created, s.answer id = some (entries, created) →
        ∃ row ∈ s.written, row.sessionId = sessionId ∧ row.clientKey = some clientKey ∧
          entries = [(row.seq, row.payload)] ∧
          (created = true ↔ ∃ own ∈ s.written, uuid own.payload = uuid entry)) ∧
      (allSteps (step uuid) (keepsKey sessionId clientKey) steps .start = true →
        ∀ id id' entry entry', .appendUserEntry id sessionId entry (some clientKey) ∈ steps →
          .appendUserEntry id' sessionId entry' (some clientKey) ∈ steps →
          ∀ entries entries' created created', s.answer id = some (entries, created) →
            s.answer id' = some (entries', created') → entries = entries') := by
  have keyed : Keyed uuid steps s := keyed_run ran
  refine ⟨entriesUnder_le_one keyed.apart clientKey, ?_, ?_⟩
  · intro id entry asked entries created answer
    exact answered_spec fresh ran asked answer
  · intro keeps id id' entry entry' asked asked' entries entries' created created' answer answer'
    have start : Live sessionId clientKey (.start : State ε) := fun row member => nomatch member
    have live : Live sessionId clientKey s :=
      runSteps_induct_of (fun _ _ _ live keeps stepped => live_step live keeps stepped) start keeps ran
    obtain ⟨row, member, session, key, whole, -⟩ := answered_spec fresh ran asked answer
    obtain ⟨row', member', session', key', whole', -⟩ := answered_spec fresh ran asked' answer'
    have same : row = row' := by
      refine eq_of_apart keyed.apart (live row member session key) (live row' member' session' key')
        (session.trans session'.symm) ?_ (key.trans key'.symm)
      rw [key]
      rfl
    rw [whole, whole', same]

/-- Two callers with one key race: both look the key up before either inserts, and the second meets
the unique index. -/
private def raceForKey : List (Step String) :=
  [.appendUserEntry 1 "s" "a" (some "k"), .appendUserEntry 2 "s" "b" (some "k"), .turn 1 true,
    .turn 2 true, .turn 1 true, .turn 2 true, .turn 1 true, .turn 2 true, .turn 2 true]

private theorem raceForKey_run : (runSteps (step some) raceForKey .start).isSome := by decide

private theorem raceForKey_fresh : FreshEntries some raceForKey := by
  intro id sessionId entry clientKey asked next listed id' entries begins different other member
  simp only [raceForKey, List.mem_cons, Step.appendUserEntry.injEq, reduceCtorEq, or_false,
    List.not_mem_nil] at asked listed
  rcases asked with ⟨rfl, -, rfl, -⟩ | ⟨rfl, -, rfl, -⟩ <;>
    rcases listed with rfl | rfl | rfl | rfl | rfl | rfl | rfl | rfl | rfl <;> cases begins
  · exact absurd rfl different
  · rw [List.mem_singleton.mp member]
    decide
  · rw [List.mem_singleton.mp member]
    decide
  · exact absurd rfl different

theorem race_for_key_once :
    (entriesUnder ((runSteps (step some) raceForKey .start).get raceForKey_run).rows "s" "k").length ≤ 1 :=
  (user_entries_once some raceForKey _ raceForKey_fresh (Option.some_get raceForKey_run).symm "s"
    "k").1

end Requests

end ArcReel.Agent.EventLog
