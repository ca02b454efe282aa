import ArcReel.Agent.SessionActor

/-! When the actor has finished, every command is released, unless an exception met
a command that had left the queue and was in no other hand. -/

namespace ArcReel.Agent.Actor
open ArcReel.Lib

/-- No exception of the message stream or of `on_message` meets a command that `cmd_task` has
taken, and `client.interrupt` raises only for an `interrupt`, not for a `disconnect`. -/
def noneInHand (s : State) : Step → Bool
  | .wake onMessage =>
      match s.phase with
      | .waiting drive =>
          match msgOutcome drive.msgTask onMessage with
          | .raised _ => drive.cmdTask == .pending
          | _ => true
      | _ => true
  | .interrupted (some _) =>
      match s.phase with
      | .interrupting _ cmd => s.typeOf cmd == some .interrupt
      | _ => true
  | _ => true

section Release

variable {s : State} {i cmd : Nat}

/-- Somebody may still wait for the command. -/
def Unreleased (s : State) (i : Nat) : Prop :=
  ∃ row, s.commands[i]? = some row ∧ row.released = false

/-- No command is done before it is sent. -/
def Proper (s : State) : Prop :=
  ∀ (i : Nat) (row : SessionCommand), s.commands[i]? = some row → row.done = true → row.sent = true

def Sent (s : State) (i : Nat) : Prop :=
  ∃ row, s.commands[i]? = some row ∧ row.sent = true

/-- A command that a phase has in its hands. -/
def Drive.held (drive : Drive) (i : Nat) : Prop :=
  i = drive.query ∨ drive.pendingQuery = some i ∨ drive.cmdTask = .taken i

def Phase.held (i : Nat) : Phase → Prop
  | .querying cmd => i = cmd
  | .waiting drive => drive.held i
  | .interrupting drive cmd => i = drive.query ∨ drive.pendingQuery = some i ∨ i = cmd
  | _ => False

def Phase.drive? : Phase → Option Drive
  | .waiting drive => some drive
  | .interrupting drive _ => some drive
  | _ => none

structure Tracked (s : State) : Prop where
  kept : ∀ i, Unreleased s i → i ∈ s.queue ∨ s.phase.held i
  proper : Proper s
  driving : ∀ drive, s.phase.drive? = some drive → Sent s drive.query
  querying : ∀ cmd, s.phase = .querying cmd → cmd < s.commands.length
  emptied : ∀ fault, s.phase = .finished fault → s.queue = []

/-! What the small operations release. -/

theorem unreleased_complete {error : Option Fault} :
    Unreleased (s.complete cmd error) i ↔ Unreleased s i ∧ i ≠ cmd := by
  unfold Unreleased State.complete
  simp only [List.getElem?_modify]
  by_cases same : cmd = i
  · simp [same, SessionCommand.complete, SessionCommand.released]
  · simp [same, Ne.symm same]

theorem proper_complete (proper : Proper s) {error : Option Fault} :
    Proper (s.complete cmd error) := by
  intro other row found done
  simp only [State.complete, List.getElem?_modify, Option.map_eq_map, Option.map_eq_some_iff] at found
  obtain ⟨old, known, changed⟩ := found
  split_ifs at changed with same
  · rw [← changed]
    rfl
  · rw [← changed] at done ⊢
    exact proper other old known done

theorem sent_complete {error : Option Fault} (sent : Sent s i) : Sent (s.complete cmd error) i := by
  obtain ⟨row, found, already⟩ := sent
  unfold Sent State.complete
  simp only [List.getElem?_modify, found]
  by_cases same : cmd = i
  · simp [same, SessionCommand.complete]
  · simp [same, already]

theorem unreleased_setDone (sent : Sent s cmd) :
    Unreleased (s.setDone cmd) i ↔ Unreleased s i ∧ i ≠ cmd := by
  obtain ⟨row, found, already⟩ := sent
  unfold Unreleased State.setDone
  simp only [List.getElem?_modify]
  by_cases same : cmd = i
  · subst same
    simp [found, SessionCommand.released, already]
  · simp [same, Ne.symm same]

theorem proper_setDone (proper : Proper s) (sent : Sent s cmd) : Proper (s.setDone cmd) := by
  obtain ⟨first, known, already⟩ := sent
  intro other row found done
  simp only [State.setDone, List.getElem?_modify, Option.map_eq_map, Option.map_eq_some_iff] at found
  obtain ⟨old, there, changed⟩ := found
  split_ifs at changed with same
  · rw [same, there] at known
    rw [← changed, Option.some.inj known]
    exact already
  · rw [← changed] at done ⊢
    exact proper other old there done

theorem unreleased_releasePending (proper : Proper s) {pendingQuery : Option Nat}
    (waiting : Unreleased (s.releasePending pendingQuery) i) :
    Unreleased s i ∧ pendingQuery ≠ some i := by
  unfold State.releasePending at waiting
  cases pendingQuery with
  | none => exact ⟨waiting, nofun⟩
  | some parked =>
    cases found : s.commands[parked]? with
    | none =>
      simp only [Option.bind_some, found, Option.map_none] at waiting
      refine ⟨waiting, ?_⟩
      intro same
      obtain ⟨row, known, -⟩ := waiting
      rw [← Option.some.inj same, found] at known
      cases known
    | some row =>
      simp only [Option.bind_some, found, Option.map_some] at waiting
      split_ifs at waiting with done
      · refine ⟨waiting, ?_⟩
        intro same
        obtain ⟨other, known, unreleased⟩ := waiting
        rw [← Option.some.inj same, found] at known
        have equal : row = other := Option.some.inj known
        rw [← equal, SessionCommand.released, done, proper parked row found done] at unreleased
        cases unreleased
      · have both := unreleased_complete.mp waiting
        exact ⟨both.1, fun same => both.2 (Option.some.inj same).symm⟩

theorem proper_releasePending (proper : Proper s) (pendingQuery : Option Nat) :
    Proper (s.releasePending pendingQuery) := by
  unfold State.releasePending
  split
  · split_ifs
    · exact proper
    · exact proper_complete proper
  · exact proper

theorem queue_releasePending (s : State) (pendingQuery : Option Nat) :
    (s.releasePending pendingQuery).queue = s.queue := by
  unfold State.releasePending
  split
  · split_ifs <;> rfl
  · rfl

/-! What each part of the actor keeps track of. -/

theorem tracked_runCommand (proper : Proper s)
    (kept : ∀ i, Unreleased s i → i ∈ s.queue ∨ i = cmd) : Tracked (s.runCommand cmd) := by
  have completed : ∀ i, Unreleased (s.complete cmd none) i → i ∈ s.queue := by
    intro i waiting
    have both := unreleased_complete.mp waiting
    exact (kept i both.1).resolve_right both.2
  unfold State.runCommand
  cases known : s.typeOf cmd with
  | none =>
    refine ⟨?_, proper, nofun, nofun, nofun⟩
    intro i waiting
    refine .inl ((kept i waiting).resolve_right ?_)
    intro same
    obtain ⟨row, found, -⟩ := waiting
    rw [State.typeOf, ← same, found] at known
    cases known
  | some kind =>
    cases kind with
    | disconnect =>
      exact ⟨fun i waiting => .inl (completed i waiting), proper_complete proper, nofun, nofun, nofun⟩
    | interrupt =>
      exact ⟨fun i waiting => .inl (completed i waiting), proper_complete proper, nofun, nofun, nofun⟩
    | query =>
      refine ⟨kept, proper, nofun, ?_, nofun⟩
      intro other querying
      obtain ⟨row, found, -⟩ := Option.map_eq_some_iff.mp known
      rw [← Phase.querying.inj querying]
      exact (List.getElem?_eq_some_iff.mp found).1

theorem tracked_resume (proper : Proper s) {deferred : Option Nat}
    (kept : ∀ i, Unreleased s i → i ∈ s.queue ∨ deferred = some i) : Tracked (s.resume deferred) := by
  cases deferred with
  | none =>
    refine ⟨?_, proper, nofun, nofun, nofun⟩
    exact fun i waiting => .inl ((kept i waiting).resolve_right nofun)
  | some cmd =>
    refine tracked_runCommand proper ?_
    exact fun i waiting => (kept i waiting).imp_right fun same => (Option.some.inj same).symm

theorem tracked_raise (proper : Proper s) {drive : Drive} {fault : Fault}
    (kept : ∀ i, Unreleased s i →
      i ∈ s.queue ∨ i = drive.query ∨ drive.pendingQuery = some i) :
    Tracked (s.raise drive fault) := by
  refine ⟨?_, proper_complete (proper_releasePending proper _), nofun, nofun, nofun⟩
  intro i waiting
  have left := unreleased_complete.mp waiting
  have both := unreleased_releasePending proper left.1
  refine .inl ?_
  show i ∈ (s.releasePending drive.pendingQuery).queue
  rw [queue_releasePending]
  cases kept i both.1 with
  | inl queued => exact queued
  | inr hand => exact (hand.resolve_left left.2 |> both.2).elim

theorem tracked_handleCmd (proper : Proper s) {drive : Drive} (sent : Sent s drive.query)
    (kept : ∀ i, Unreleased s i → i ∈ s.queue ∨ drive.held i) : Tracked (s.handleCmd drive) := by
  unfold State.handleCmd
  cases task : drive.cmdTask with
  | pending =>
    refine ⟨kept, proper, ?_, nofun, nofun⟩
    intro other driving
    rw [← Option.some.inj driving]
    exact sent
  | taken cmd =>
    have hands : ∀ i, Unreleased s i →
        i ∈ s.queue ∨ i = drive.query ∨ drive.pendingQuery = some i ∨ i = cmd := by
      intro i waiting
      refine (kept i waiting).imp_right (Or.imp_right (Or.imp_right ?_))
      intro same
      rw [task] at same
      exact (CmdTask.taken.inj same).symm
    simp only
    split_ifs
    · cases parked : drive.pendingQuery with
      | some other =>
        refine ⟨?_, proper_complete proper, ?_, nofun, nofun⟩
        · intro i waiting
          have both := unreleased_complete.mp waiting
          cases hands i both.1 with
          | inl queued => exact .inl queued
          | inr hand =>
            cases hand with
            | inl query => exact .inr (.inl query)
            | inr rest =>
              exact .inr (.inr (.inl (parked.symm.trans (rest.resolve_right both.2))))
        · intro other driving
          rw [← Option.some.inj driving]
          exact sent_complete sent
      | none =>
        refine ⟨?_, proper, ?_, nofun, nofun⟩
        · intro i waiting
          cases hands i waiting with
          | inl queued => exact .inl queued
          | inr hand =>
            cases hand with
            | inl query => exact .inr (.inl query)
            | inr rest =>
              rw [parked] at rest
              exact .inr (.inr (.inl (congrArg some (rest.resolve_left nofun).symm)))
        · intro other driving
          rw [← Option.some.inj driving]
          exact sent
    · refine ⟨hands, proper, ?_, nofun, nofun⟩
      intro other driving
      rw [← Option.some.inj driving]
      exact sent

theorem tracked_streamEnded (proper : Proper s) {drive : Drive} (sent : Sent s drive.query)
    (kept : ∀ i, Unreleased s i → i ∈ s.queue ∨ drive.held i) : Tracked (s.streamEnded drive) := by
  have hands : ∀ i, Unreleased (s.setDone drive.query) i →
      i ∈ s.queue ∨ drive.pendingQuery = some i ∨ drive.cmdTask = .taken i := by
    intro i waiting
    have both := (unreleased_setDone sent).mp waiting
    exact (kept i both.1).imp_right fun hand => hand.resolve_left both.2
  have settled := proper_setDone proper sent
  unfold State.streamEnded
  simp only
  cases parked : drive.pendingQuery with
  | some other =>
    cases task : drive.cmdTask with
    | taken cmd =>
      refine tracked_resume (s := { s.setDone drive.query with queue := s.queue ++ [cmd] }) settled ?_
      intro i waiting
      have hand := hands i waiting
      rw [parked, task] at hand
      cases hand with
      | inl queued => exact .inl (List.mem_append.mpr (.inl queued))
      | inr rest =>
        cases rest with
        | inl query => exact .inr query
        | inr taken =>
          refine .inl (List.mem_append.mpr (.inr ?_))
          rw [CmdTask.taken.inj taken]
          exact .head _
    | pending =>
      refine tracked_resume settled ?_
      intro i waiting
      have hand := hands i waiting
      rw [parked, task] at hand
      exact hand.imp_right fun rest => rest.resolve_right nofun
  | none =>
    cases task : drive.cmdTask with
    | taken cmd =>
      refine tracked_resume settled ?_
      intro i waiting
      have hand := hands i waiting
      rw [parked, task] at hand
      exact hand.imp_right fun rest => congrArg some (CmdTask.taken.inj (rest.resolve_left nofun))
    | pending =>
      refine tracked_resume settled ?_
      intro i waiting
      have hand := hands i waiting
      rw [parked, task] at hand
      exact .inl (hand.resolve_right fun rest => rest.elim nofun nofun)

/-- The drain releases what is in the queue. -/
theorem drain_released (queue : List Nat) (fault : Fault) :
    ∀ s : State, Proper s →
      Proper (queue.foldl (fun s cmd =>
        if s.commands[cmd]?.any SessionCommand.done then s else s.complete cmd (some fault)) s) ∧
      ∀ i, Unreleased (queue.foldl (fun s cmd =>
        if s.commands[cmd]?.any SessionCommand.done then s else s.complete cmd (some fault)) s) i →
          Unreleased s i ∧ i ∉ queue := by
  induction queue with
  | nil => exact fun s proper => ⟨proper, fun i waiting => ⟨waiting, List.not_mem_nil⟩⟩
  | cons cmd queue ih =>
    intro s proper
    rw [List.foldl_cons]
    by_cases done : s.commands[cmd]?.any SessionCommand.done = true
    · rw [if_pos done]
      refine ⟨(ih s proper).1, ?_⟩
      intro i waiting
      have both := (ih s proper).2 i waiting
      refine ⟨both.1, fun member => ?_⟩
      cases List.mem_cons.mp member with
      | inr later => exact both.2 later
      | inl same =>
        obtain ⟨row, found, unreleased⟩ := both.1
        rw [← same, found, Option.any_some] at done
        rw [SessionCommand.released, done, proper i row found done] at unreleased
        cases unreleased
    · rw [if_neg done]
      have next := ih (s.complete cmd (some fault)) (proper_complete proper)
      refine ⟨next.1, ?_⟩
      intro i waiting
      have both := next.2 i waiting
      have here := unreleased_complete.mp both.1
      refine ⟨here.1, fun member => ?_⟩
      cases List.mem_cons.mp member with
      | inl same => exact here.2 same
      | inr later => exact both.2 later

theorem tracked_drain (proper : Proper s) {fault : Option Fault}
    (kept : ∀ i, Unreleased s i → i ∈ s.queue) : Tracked (s.drain fault) := by
  have released := drain_released s.queue (fault.getD .actorClosed) s proper
  refine ⟨?_, released.1, nofun, nofun, fun _ _ => rfl⟩
  intro i waiting
  have both := released.2 i waiting
  exact absurd (kept i both.1) both.2

theorem tracked_start : Tracked .start := by
  refine ⟨?_, ?_, nofun, nofun, nofun⟩
  · intro i waiting
    obtain ⟨row, found, -⟩ := waiting
    cases found
  · intro i row found
    cases found

theorem tracked_enqueue (tracked : Tracked s) (type : CommandType) : Tracked (enqueue s type) := by
  have grown : ∀ {s' : State} {row : SessionCommand}, s'.commands = s.commands ++ [row] →
      (row.done = true → row.sent = true) → s'.phase = s.phase →
        (∀ i, Unreleased s i → i ∈ s'.queue ∨ s.phase.held i) →
          (row.released = false → s.commands.length ∈ s'.queue) →
            (∀ fault, s.phase = .finished fault → s'.queue = []) → Tracked s' := by
    intro s' row commands rowProper phase kept last emptied
    have cases_ : ∀ {i : Nat} {known : SessionCommand}, s'.commands[i]? = some known →
        s.commands[i]? = some known ∨ i = s.commands.length ∧ known = row := by
      intro i known found
      rw [commands, List.getElem?_append] at found
      split_ifs at found with inside
      · exact .inl found
      · obtain ⟨here, same⟩ := List.getElem?_eq_some_iff.mp found
        rw [List.length_singleton] at here
        refine .inr ⟨by omega, ?_⟩
        rw [← same]
        simp
    refine ⟨?_, ?_, ?_, ?_, fun fault finished => emptied fault (phase ▸ finished)⟩
    · intro i waiting
      obtain ⟨known, found, unreleased⟩ := waiting
      rw [phase]
      cases cases_ found with
      | inl earlier => exact kept i ⟨known, earlier, unreleased⟩
      | inr new =>
        rw [new.2] at unreleased
        rw [new.1]
        exact .inl (last unreleased)
    · intro i known found done
      cases cases_ found with
      | inl earlier => exact tracked.proper i known earlier done
      | inr new =>
        rw [new.2] at done ⊢
        exact rowProper done
    · intro drive driving
      rw [phase] at driving
      obtain ⟨known, found, sent⟩ := tracked.driving drive driving
      refine ⟨known, ?_, sent⟩
      rw [commands, List.getElem?_append_left (List.getElem?_eq_some_iff.mp found).1]
      exact found
    · intro cmd querying
      rw [phase] at querying
      have inside := tracked.querying cmd querying
      rw [commands, List.length_append]
      omega
  unfold enqueue
  split
  · exact grown rfl (fun _ => rfl) rfl tracked.kept nofun tracked.emptied
  · rename_i running
    refine grown rfl nofun rfl ?_ (fun _ => ?_) fun fault finished => absurd finished (running fault)
    · exact fun i waiting => (tracked.kept i waiting).imp_left fun queued =>
        List.mem_append.mpr (.inl queued)
    · exact List.mem_append.mpr (.inr (.head _))

theorem tracked_queried (tracked : Tracked s) (phase : s.phase = .querying cmd)
    (fault receive : Option Fault) : Tracked (queried s cmd fault receive) := by
  have kept : ∀ i, Unreleased s i → i ∈ s.queue ∨ i = cmd := by
    intro i waiting
    have hand := tracked.kept i waiting
    rwa [phase] at hand
  have accepted : ∀ i, Unreleased (accept s cmd) i → Unreleased s i ∨ i = cmd := by
    intro i waiting
    by_cases same : i = cmd
    · exact .inr same
    · obtain ⟨row, found, unreleased⟩ := waiting
      simp only [accept, List.getElem?_modify, if_neg (Ne.symm same), Option.map_eq_map,
        Option.map_id'] at found
      exact .inl ⟨row, found, unreleased⟩
  have proper : Proper (accept s cmd) := by
    intro i row found done
    simp only [accept, List.getElem?_modify, Option.map_eq_map, Option.map_eq_some_iff] at found
    obtain ⟨old, known, changed⟩ := found
    split_ifs at changed
    · rw [← changed]
    · rw [← changed] at done ⊢
      exact tracked.proper i old known done
  have failed : ∀ {s' : State} {error : Fault}, Proper s' → s'.queue = s.queue →
      (∀ i, Unreleased s' i → Unreleased s i ∨ i = cmd) →
        Tracked { s'.complete cmd (some error) with phase := .exiting (some error) } := by
    intro s' error proper queue fewer
    refine ⟨?_, proper_complete proper, nofun, nofun, nofun⟩
    intro i waiting
    have both := unreleased_complete.mp waiting
    refine .inl ?_
    show i ∈ s'.queue
    rw [queue]
    exact (kept i ((fewer i both.1).resolve_right both.2)).resolve_right both.2
  cases fault with
  | some error => exact failed tracked.proper rfl fun i waiting => .inl waiting
  | none =>
    cases receive with
    | some error => exact failed proper rfl accepted
    | none =>
      refine ⟨?_, proper, ?_, nofun, nofun⟩
      · intro i waiting
        cases accepted i waiting with
        | inl earlier => exact (kept i earlier).imp_right Or.inl
        | inr same => exact .inr (.inl same)
      · intro drive driving
        have inside := tracked.querying cmd phase
        rw [← Option.some.inj driving]
        unfold Sent queried accept
        simp [List.getElem?_eq_getElem inside]

theorem tracked_wake (tracked : Tracked s) {drive : Drive} (phase : s.phase = .waiting drive)
    {onMessage : Option Fault} (safe : noneInHand s (.wake onMessage) = true) :
    Tracked (wake s drive onMessage) := by
  have sent : Sent s drive.query := tracked.driving drive (by rw [phase]; rfl)
  have kept : ∀ i, Unreleased s i → i ∈ s.queue ∨ drive.held i := by
    intro i waiting
    have hand := tracked.kept i waiting
    rwa [phase] at hand
  unfold wake
  simp only [noneInHand, phase] at safe
  cases outcome : msgOutcome drive.msgTask onMessage with
  | raised fault =>
    simp only [outcome, beq_iff_eq] at safe
    refine tracked_raise tracked.proper ?_
    intro i waiting
    refine (kept i waiting).imp_right (Or.imp_right fun rest => rest.resolve_right ?_)
    rw [safe]
    exact nofun
  | stopped => exact tracked_streamEnded tracked.proper sent kept
  | consumed => exact tracked_handleCmd tracked.proper sent kept
  | nothing => exact tracked_handleCmd tracked.proper sent kept

theorem tracked_interrupted (tracked : Tracked s) {drive : Drive}
    (phase : s.phase = .interrupting drive cmd) {fault : Option Fault}
    (safe : noneInHand s (.interrupted fault) = true) :
    Tracked (interrupted s drive cmd fault) := by
  have sent : Sent s drive.query := tracked.driving drive (by rw [phase]; rfl)
  have kept : ∀ i, Unreleased s i →
      i ∈ s.queue ∨ i = drive.query ∨ drive.pendingQuery = some i ∨ i = cmd := by
    intro i waiting
    have hand := tracked.kept i waiting
    rwa [phase] at hand
  have completed : ∀ {error : Option Fault} (i : Nat), Unreleased (s.complete cmd error) i →
      i ∈ s.queue ∨ i = drive.query ∨ drive.pendingQuery = some i := by
    intro error i waiting
    have both := unreleased_complete.mp waiting
    exact (kept i both.1).imp_right (Or.imp_right fun rest => rest.resolve_right both.2)
  unfold interrupted
  split_ifs with interrupt
  · cases fault with
    | some error => exact tracked_raise (proper_complete tracked.proper) completed
    | none =>
      refine ⟨?_, proper_complete tracked.proper, ?_, nofun, nofun⟩
      · intro i waiting
        exact (completed i waiting).imp_right (Or.imp_right Or.inl)
      · intro other driving
        rw [← Option.some.inj driving]
        exact sent_complete sent
  · cases fault with
    | some error =>
      simp only [noneInHand, phase, beq_iff_eq] at safe
      exact absurd safe interrupt
    | none =>
      have settled := proper_setDone tracked.proper sent
      refine tracked_resume (proper_releasePending settled _) ?_
      intro i waiting
      have left := unreleased_releasePending settled waiting
      have both := (unreleased_setDone sent).mp left.1
      rw [queue_releasePending]
      cases kept i both.1 with
      | inl queued => exact .inl queued
      | inr hand =>
        exact .inr (congrArg some ((hand.resolve_left both.2).resolve_left left.2).symm)

theorem tracked_step {t : State} {next : Step} (tracked : Tracked s)
    (safe : noneInHand s next = true) (stepped : step s next = some t) : Tracked t := by
  unfold step at stepped
  cases next with
  | enqueue type =>
    rw [← Option.some.inj stepped]
    exact tracked_enqueue tracked type
  | connected fault =>
    simp only at stepped
    split at stepped
    case h_1 _ phase =>
      rw [← Option.some.inj stepped]
      refine ⟨?_, tracked.proper, nofun, nofun, nofun⟩
      intro i waiting
      have hand := tracked.kept i waiting
      rwa [phase] at hand
    case h_2 _ fault phase =>
      rw [← Option.some.inj stepped]
      refine tracked_drain tracked.proper ?_
      intro i waiting
      have hand := tracked.kept i waiting
      rw [phase] at hand
      exact hand.resolve_right nofun
    case h_3 => cases stepped
  | take =>
    simp only at stepped
    split at stepped
    case h_1 cmd later phase queue =>
      rw [← Option.some.inj stepped]
      refine tracked_runCommand tracked.proper ?_
      intro i waiting
      have hand := tracked.kept i waiting
      rw [phase, queue] at hand
      cases List.mem_cons.mp (hand.resolve_right nofun) with
      | inl same => exact .inr same
      | inr rest => exact .inl rest
    case h_2 => cases stepped
  | queried fault receive =>
    simp only at stepped
    split at stepped
    case h_1 cmd phase =>
      rw [← Option.some.inj stepped]
      exact tracked_queried tracked phase fault receive
    case h_2 => cases stepped
  | received msgTask =>
    simp only at stepped
    split at stepped
    case h_1 drive phase =>
      split_ifs at stepped
      rw [← Option.some.inj stepped]
      refine ⟨?_, tracked.proper, ?_, nofun, nofun⟩
      · intro i waiting
        have hand := tracked.kept i waiting
        rwa [phase] at hand
      · intro other driving
        rw [← Option.some.inj driving]
        exact tracked.driving drive (by rw [phase]; rfl)
    case h_2 drive cmd phase =>
      split_ifs at stepped
      rw [← Option.some.inj stepped]
      refine ⟨?_, tracked.proper, ?_, nofun, nofun⟩
      · intro i waiting
        have hand := tracked.kept i waiting
        rwa [phase] at hand
      · intro other driving
        rw [← Option.some.inj driving]
        exact tracked.driving drive (by rw [phase]; rfl)
    case h_3 => cases stepped
  | cmdReady =>
    simp only at stepped
    split at stepped
    case h_1 drive cmd later phase queue =>
      split_ifs at stepped with free
      rw [← Option.some.inj stepped]
      refine ⟨?_, tracked.proper, ?_, nofun, nofun⟩
      · intro i waiting
        have hand := tracked.kept i waiting
        rw [phase, queue] at hand
        cases hand with
        | inl queued =>
          cases List.mem_cons.mp queued with
          | inl same => exact .inr (.inr (.inr (congrArg CmdTask.taken same.symm)))
          | inr rest => exact .inl rest
        | inr held =>
          refine .inr (held.imp_right fun rest => rest.imp_right fun taken => ?_)
          rw [free] at taken
          cases taken
      · intro other driving
        rw [← Option.some.inj driving]
        exact tracked.driving drive (by rw [phase]; rfl)
    case h_2 => cases stepped
  | wake onMessage =>
    simp only at stepped
    split at stepped
    case h_1 drive phase =>
      split_ifs at stepped
      rw [← Option.some.inj stepped]
      exact tracked_wake tracked phase safe
    case h_2 => cases stepped
  | interrupted fault =>
    simp only at stepped
    split at stepped
    case h_1 drive cmd phase =>
      rw [← Option.some.inj stepped]
      exact tracked_interrupted tracked phase safe
    case h_2 => cases stepped
  | exited fault =>
    simp only at stepped
    split at stepped
    case h_1 earlier phase =>
      rw [← Option.some.inj stepped]
      refine tracked_drain tracked.proper ?_
      intro i waiting
      have hand := tracked.kept i waiting
      rw [phase] at hand
      exact hand.resolve_right nofun
    case h_2 => cases stepped

end Release

/-- Once the actor has finished, both events of every command are set, provided that no step meets
a command in the actor's hand with an exception. -/
theorem no_command_is_lost (steps : List Step) (s : State) (fault : Option Fault)
    (all : allSteps step noneInHand steps .start = true) (ran : runSteps step steps .start = some s)
    (ended : s.phase = .finished fault) : ∀ cmd ∈ s.commands, cmd.sent = true ∧ cmd.done = true := by
  have tracked : Tracked s :=
    runSteps_induct_of (fun _ _ _ before safe stepped => tracked_step before safe stepped)
      tracked_start all ran
  intro cmd member
  obtain ⟨i, inside, same⟩ := List.getElem_of_mem member
  have found : s.commands[i]? = some cmd := by rw [List.getElem?_eq_getElem inside, same]
  by_contra waiting
  have unreleased : cmd.released = false := by
    rw [SessionCommand.released, Bool.and_eq_false_iff]
    rwa [not_and_or, Bool.not_eq_true, Bool.not_eq_true] at waiting
  have hand := tracked.kept i ⟨cmd, found, unreleased⟩
  rw [ended, tracked.emptied fault ended] at hand
  exact hand.elim nofun nofun

/-- A query is parked behind a running one, an interrupt is handled, and the session is closed. -/
private def closedWhileParked : List Step :=
  [.enqueue .query, .connected none, .take, .queried none none, .enqueue .query, .cmdReady,
    .received .message, .wake none, .enqueue .interrupt, .cmdReady, .wake none, .interrupted none,
    .enqueue .disconnect, .cmdReady, .wake none, .enqueue .query, .interrupted none, .exited none]

private theorem closedWhileParked_run :
    (runSteps step closedWhileParked .start).isSome := by decide

theorem no_command_is_lost_parked :
    ∃ s, runSteps step closedWhileParked .start = some s ∧
      ∀ cmd ∈ s.commands, cmd.sent = true ∧ cmd.done = true :=
  ⟨_, (Option.some_get closedWhileParked_run).symm,
    no_command_is_lost closedWhileParked _ none (by decide)
      (Option.some_get closedWhileParked_run).symm (by decide)⟩

/-- `on_message` raises when `cmd_task` has just taken an interrupt. -/
private def messageAndCommand : List Step :=
  [.enqueue .query, .connected none, .take, .queried none none, .enqueue .interrupt, .cmdReady,
    .received .message, .wake (some (.raised "on_message")), .exited none]

/-- `client.interrupt` raises for a disconnect. -/
private def disconnectFails : List Step :=
  [.enqueue .query, .connected none, .take, .queried none none, .enqueue .disconnect, .cmdReady,
    .wake none, .interrupted (some (.raised "interrupt")), .exited none]

private theorem messageAndCommand_run :
    (runSteps step messageAndCommand .start).isSome := by decide

private theorem disconnectFails_run :
    (runSteps step disconnectFails .start).isSome := by decide

theorem taken_command_is_lost :
    (∃ s fault, runSteps step messageAndCommand .start = some s ∧ s.phase = .finished fault ∧
      ∃ cmd ∈ s.commands, cmd.type = .interrupt ∧ cmd.sent = false ∧ cmd.done = false) ∧
    ∃ s fault, runSteps step disconnectFails .start = some s ∧ s.phase = .finished fault ∧
      ∃ cmd ∈ s.commands, cmd.type = .disconnect ∧ cmd.sent = false ∧ cmd.done = false :=
  ⟨⟨_, some (.raised "on_message"), (Option.some_get messageAndCommand_run).symm, by decide,
      .new .interrupt, by decide, rfl, rfl, rfl⟩,
    ⟨_, some (.raised "interrupt"), (Option.some_get disconnectFails_run).symm, by decide,
      .new .disconnect, by decide, rfl, rfl, rfl⟩⟩

end ArcReel.Agent.Actor
