import ArcReel.Agent.ActorQueries
import ArcReel.Agent.SessionTurns

/-! Turns do not overlap and accepted messages are delivered once, as long as no call
hands its prompt to the actor while the session is marked running. -/

namespace ArcReel.Agent.Turns
open ArcReel.Lib ArcReel.Agent.EventLog
open ArcReel.Agent.Actor (waitingQueries isQuery sentOf acceptedOf Served Held Grown)

section Condition

/-- `send_query` finds the session as the check before it has found it: not running. -/
def stillFree (s : State) : Step → Bool
  | .sendQuery _ => s.status != .running
  | _ => true

end Condition

section Invariant

/-- The prompt whose stream the actor reads, with the task that waits for its next message. -/
def driving : Actor.Phase → Option (Nat × Actor.MsgTask)
  | .waiting drive | .interrupting drive _ => some (drive.query, drive.msgTask)
  | _ => none

namespace CallPhase

/-- The call has put the user entry with this number into the log and not taken it back. -/
def owns (seq : Int) : CallPhase → Bool
  | .marking (some own) | .sending (some own) _ | .compensating own | .returned (some own) (some _) =>
      own == seq
  | _ => false

/-- The prompt of the call. -/
def cmd? : CallPhase → Option Nat
  | .sending _ cmd => some cmd
  | .returned _ cmd => cmd
  | _ => none

end CallPhase

/-- The actor, the open turn and the inbox. -/
structure Quiet (s : State) : Prop where
  served : Served s.actor
  single : s.actor.phase.dead = false → (waitingQueries s.actor).length + s.openTurns.length ≤ 1
  busy : s.actor.phase.dead = false → waitingQueries s.actor ≠ [] ∨ s.openTurns ≠ [] →
    s.status = .running
  stream : ∀ query msgTask, driving s.actor.phase = some (query, msgTask) →
    (query ∈ s.openTurns ∨ s.resultSeen = true) ∧
      (s.resultSeen = true → msgTask = .pending ∨ msgTask = .raised .stopAsyncIteration)
  results : s.actor.phase.dead = false → s.inbox.filter Item.isResult = [] ∨
    s.resultSeen = true ∧ ∃ cmd, s.inbox.filter Item.isResult = [.result cmd] ∧ s.openTurns = [cmd]
  exits : ∀ fault, .exit fault ∈ s.inbox → s.actor.phase.dead = true

/-- What a call knows of its prompt. -/
def Known (commands : List Actor.SessionCommand) (waiting : List Nat) : CallPhase → Prop
  | .sending _ cmd => isQuery commands cmd = true ∧ (sentOf commands cmd = true ∨ cmd ∈ waiting)
  | .returned _ (some cmd) => acceptedOf commands cmd = true
  | _ => True

/-- The calls and the log. -/
structure Logged (sessionId : String) (s : State) : Prop where
  session : ∀ row ∈ s.rows, row.sessionId = sessionId
  seqs : (s.rows.map LogRow.seq).Nodup
  owned : ∀ row ∈ s.rows, ∀ id, row.payload = some id →
    ∃ call, s.calls.get? id = some call ∧ call.phase.owns row.seq = true
  known : ∀ id call, s.calls.get? id = some call →
    Known s.actor.commands (waitingQueries s.actor) call.phase
  prompts : ∀ id other call call' cmd, s.calls.get? id = some call → s.calls.get? other = some call' →
    call.phase.cmd? = some cmd → call'.phase.cmd? = some cmd → id = other

variable {sessionId : String} {s : State}

theorem quiet_start : Quiet .start := by
  refine ⟨⟨?_, ?_, trivial⟩, fun _ => Nat.zero_le _, ?_, ?_, fun _ => .inl rfl, ?_⟩
  · exact fun i row found => nomatch found
  · exact fun i member => nomatch member
  · intro _ either
    cases either with
    | inl waiting => exact absurd rfl waiting
    | inr turns => exact absurd rfl turns
  · exact fun query msgTask found => nomatch found
  · exact fun fault member => nomatch member

theorem logged_start : Logged sessionId .start := by
  refine ⟨?_, .nil, ?_, ?_, ?_⟩
  · exact fun row member => nomatch member
  · exact fun row member => nomatch member
  · exact fun id call found => nomatch found
  · exact fun id other call call' cmd found => nomatch found

end Invariant

section ActorSteps

variable {sessionId : String} {s : State}

theorem driving_runCommand (a : Actor.State) (cmd : Nat) : driving (a.runCommand cmd).phase = none := by
  unfold Actor.State.runCommand
  split <;> rfl

theorem driving_streamEnded (a : Actor.State) (drive : Actor.Drive) :
    driving (a.streamEnded drive).phase = none := by
  unfold Actor.State.streamEnded
  split
  · exact driving_runCommand _ _
  · exact driving_runCommand _ _
  · exact driving_runCommand _ _
  · rfl

theorem driving_handleCmd (a : Actor.State) (drive : Actor.Drive) :
    driving (a.handleCmd drive).phase = some (drive.query, drive.msgTask) := by
  unfold Actor.State.handleCmd
  split
  · rfl
  · split
    · split <;> rfl
    · rfl

/-- Queries in hand mean that the turn of the present stream is settled, so its result was seen. -/
theorem free_of_open (quiet : Quiet s) {drive : Actor.Drive} (phase : s.actor.phase = .waiting drive)
    {onMessage : Option Actor.Fault} {fault : Actor.Fault}
    (raised : Actor.msgOutcome drive.msgTask onMessage = .raised fault) :
    drive.cmdTask.unsent (isQuery s.actor.commands) = [] := by
  by_contra taken
  have single := quiet.single (by rw [phase]; rfl)
  have here : waitingQueries s.actor = s.actor.queue.filter (isQuery s.actor.commands) ++
      (drive.cmdTask.unsent (isQuery s.actor.commands) ++ drive.pendingQuery.toList) := by
    rw [waitingQueries, phase]
    rfl
  have positive : 0 < (drive.cmdTask.unsent (isQuery s.actor.commands)).length :=
    List.length_pos_iff.mpr taken
  have noTurn : s.openTurns = [] := by
    rw [here, List.length_append, List.length_append] at single
    exact List.eq_nil_of_length_eq_zero (by omega)
  have stream := quiet.stream drive.query drive.msgTask (by rw [phase]; rfl)
  have seen : s.resultSeen = true := by
    cases stream.1 with
    | inl member =>
      rw [noTurn] at member
      cases member
    | inr seen => exact seen
  cases stream.2 seen with
  | inl pending =>
    rw [pending] at raised
    cases raised
  | inr stopped =>
    rw [stopped] at raised
    cases raised

/-- The actor moves and keeps its queries; the inbox grows by `items`. -/
theorem quiet_moved (quiet : Quiet s) {b : Actor.State} {items : List Item} {seen : Bool}
    (served : Served b) (held : Held s.actor b)
    (dead : s.actor.phase.dead = true → b.phase.dead = true)
    (stream : ∀ query msgTask, driving b.phase = some (query, msgTask) →
      (query ∈ s.openTurns ∨ seen = true) ∧
        (seen = true → msgTask = .pending ∨ msgTask = .raised .stopAsyncIteration))
    (results : s.actor.phase.dead = false → (s.inbox ++ items).filter Item.isResult = [] ∨
      seen = true ∧ ∃ cmd, (s.inbox ++ items).filter Item.isResult = [.result cmd] ∧
        s.openTurns = [cmd])
    (exits : ∀ fault, .exit fault ∈ items → b.phase.dead = true) :
    Quiet { s with actor := b, inbox := s.inbox ++ items, resultSeen := seen } := by
  have alive : b.phase.dead = false → s.actor.phase.dead = false := by
    intro now
    rw [Bool.eq_false_iff] at now ⊢
    exact fun before => now (dead before)
  have same : b.phase.dead = false → (waitingQueries b).Perm (waitingQueries s.actor) := by
    intro now
    refine held.resolve_right ?_
    intro ending
    rw [now] at ending
    cases ending.1
  refine ⟨served, ?_, ?_, stream, fun now => results (alive now), ?_⟩
  · intro now
    rw [(same now).length_eq]
    exact quiet.single (alive now)
  · intro now either
    refine quiet.busy (alive now) (either.imp_left ?_)
    intro waiting none
    apply waiting
    rw [← List.length_eq_zero_iff, (same now).length_eq, none]
    rfl
  · intro fault member
    cases List.mem_append.mp member with
    | inl old => exact dead (quiet.exits fault old)
    | inr new => exact exits fault new

/-- Nothing is delivered, and the stream stays as it is or ends. -/
theorem quiet_silent (quiet : Quiet s) {b : Actor.State} (served : Served b) (held : Held s.actor b)
    (dead : s.actor.phase.dead = true → b.phase.dead = true)
    (stream : ∀ query msgTask, driving b.phase = some (query, msgTask) →
      (query ∈ s.openTurns ∨ s.resultSeen = true) ∧
        (s.resultSeen = true → msgTask = .pending ∨ msgTask = .raised .stopAsyncIteration)) :
    Quiet { s with actor := b, inbox := s.inbox ++ [], resultSeen := s.resultSeen } := by
  refine quiet_moved quiet served held dead stream ?_ (fun fault member => nomatch member)
  rw [List.append_nil]
  exact quiet.results

/-- A message of the stream goes to the inbox. -/
theorem quiet_consumed (quiet : Quiet s) {drive : Actor.Drive} {b : Actor.State}
    (phase : s.actor.phase = .waiting drive) (message : drive.msgTask = .message) (isResult : Bool)
    (served : Served b) (held : Held s.actor b)
    (driven : driving b.phase = some (drive.query, .pending)) :
    Quiet { s with
      actor := b
      inbox := s.inbox ++ [if isResult then .result drive.query else .other]
      resultSeen := s.resultSeen || isResult } := by
  have alive : s.actor.phase.dead = false := by rw [phase]; rfl
  have stream := quiet.stream drive.query drive.msgTask (by rw [phase]; rfl)
  have unseen : s.resultSeen = false := by
    rw [Bool.eq_false_iff]
    intro seen
    have either := stream.2 seen
    rw [message] at either
    exact either.elim nofun nofun
  have isOpen : drive.query ∈ s.openTurns := by
    cases stream.1 with
    | inl member => exact member
    | inr seen =>
      rw [unseen] at seen
      cases seen
  have single := quiet.single alive
  have noResult : s.inbox.filter Item.isResult = [] := by
    cases quiet.results alive with
    | inl none => exact none
    | inr some =>
      rw [unseen] at some
      cases some.1
  refine quiet_moved quiet served held (fun ending => by rw [alive] at ending; cases ending) ?_ ?_ ?_
  · intro query msgTask found
    rw [driven] at found
    cases found
    exact ⟨.inl isOpen, fun _ => .inl rfl⟩
  · intro _
    rw [List.filter_append, noResult, unseen, Bool.false_or]
    cases isResult with
    | false => exact .inl rfl
    | true =>
      right
      refine ⟨rfl, drive.query, rfl, ?_⟩
      obtain ⟨only, isOnly⟩ := List.length_eq_one_iff.mp (show s.openTurns.length = 1 by
        have positive := List.length_pos_of_mem isOpen
        omega)
      rw [isOnly] at isOpen ⊢
      rw [List.mem_singleton.mp isOpen]
  · intro fault member
    have same := List.mem_singleton.mp member
    cases isResult <;> cases same

theorem quiet_wake (quiet : Quiet s) {drive : Actor.Drive} (phase : s.actor.phase = .waiting drive)
    (onMessage : Option Actor.Fault) (isResult : Bool) :
    Quiet { s with
      actor := Actor.wake s.actor drive onMessage
      inbox := s.inbox ++ s.delivered (.wake onMessage) isResult
      resultSeen := s.resultSeen ||
        (s.delivered (.wake onMessage) isResult).any Item.isResult } := by
  have alive : s.actor.phase.dead = false := by rw [phase]; rfl
  have single := quiet.single alive
  obtain ⟨served, -, held⟩ := Actor.wake_spec quiet.served phase (by omega) onMessage
    fun fault raised => free_of_open quiet phase raised
  have notDead : s.actor.phase.dead = true → (Actor.wake s.actor drive onMessage).phase.dead = true := by
    intro ending
    rw [alive] at ending
    cases ending
  have stream := quiet.stream drive.query drive.msgTask (by rw [phase]; rfl)
  unfold State.delivered
  rw [phase]
  cases task : drive.msgTask with
  | message =>
    cases onMessage with
    | none =>
      simp only [task, if_true]
      have driven : driving (Actor.wake s.actor drive none).phase = some (drive.query, .pending) := by
        rw [Actor.wake, task]
        exact driving_handleCmd _ _
      have next := quiet_consumed quiet phase task isResult served held driven
      cases isResult with
      | true => exact next
      | false => exact next
    | some fault =>
      simp only [List.any_nil, Bool.or_false]
      refine quiet_silent quiet served held notDead ?_
      intro query msgTask found
      rw [Actor.wake, task] at found
      cases fault with
      | stopAsyncIteration =>
        rw [Actor.msgOutcome, driving_streamEnded] at found
        cases found
      | _ => cases found
  | pending =>
    have quietly : Quiet { s with
        actor := Actor.wake s.actor drive onMessage, inbox := s.inbox ++ [],
        resultSeen := s.resultSeen } := by
      refine quiet_silent quiet served held notDead ?_
      intro query msgTask found
      rw [Actor.wake, task, Actor.msgOutcome] at found
      simp only [driving_handleCmd] at found
      rw [task] at found
      cases found
      rw [task] at stream
      exact stream
    cases onMessage <;> simpa [task] using quietly
  | raised fault =>
    have quietly : Quiet { s with
        actor := Actor.wake s.actor drive onMessage, inbox := s.inbox ++ [],
        resultSeen := s.resultSeen } := by
      refine quiet_silent quiet served held notDead ?_
      intro query msgTask found
      rw [Actor.wake, task] at found
      cases fault with
      | stopAsyncIteration =>
        rw [Actor.msgOutcome, driving_streamEnded] at found
        cases found
      | _ => cases found
    cases onMessage <;> simpa [task] using quietly

/-- `client.query` answers: the prompt becomes the open turn, or the actor ends. -/
theorem quiet_queried (quiet : Quiet s) {cmd : Nat} (phase : s.actor.phase = .querying cmd)
    (fault receive : Option Actor.Fault) :
    Quiet { s with
      actor := Actor.queried s.actor cmd fault receive
      inbox := s.inbox ++ []
      openTurns := s.openTurns ++ (if fault = none then [cmd] else [])
      resultSeen := s.resultSeen && decide (fault ≠ none) } := by
  have alive : s.actor.phase.dead = false := by rw [phase]; rfl
  obtain ⟨served, -, -, here⟩ := Actor.queried_spec quiet.served phase fault receive
  have single := quiet.single alive
  rw [here, List.length_append, List.length_singleton] at single
  have noTurn : s.openTurns = [] := List.eq_nil_of_length_eq_zero (by omega)
  have noWaiting : waitingQueries (Actor.queried s.actor cmd fault receive) = [] :=
    List.eq_nil_of_length_eq_zero (by omega)
  have running : s.status = .running := by
    refine quiet.busy alive (.inl ?_)
    rw [here]
    exact List.append_ne_nil_of_right_ne_nil _ (List.cons_ne_nil _ _)
  have noResult : s.inbox.filter Item.isResult = [] := by
    cases quiet.results alive with
    | inl none => exact none
    | inr some =>
      obtain ⟨-, turn, -, turns⟩ := some
      rw [noTurn] at turns
      cases turns
  refine ⟨served, ?_, fun _ _ => running, ?_, ?_, ?_⟩
  · intro _
    simp only [noWaiting, noTurn]
    split_ifs <;> simp
  · intro query msgTask found
    cases fault with
    | some fault => cases found
    | none =>
      cases receive with
      | some fault => cases found
      | none =>
        cases found
        refine ⟨.inl ?_, ?_⟩
        · simp
        · simp
  · intro _
    left
    rw [List.append_nil]
    exact noResult
  · intro ending member
    rw [List.append_nil] at member
    have dead := quiet.exits ending member
    rw [alive] at dead
    cases dead

theorem dead_exited {a b : Actor.State} {next : Actor.Step} (dead : a.phase.dead = true)
    (own : ∀ type, next ≠ .enqueue type) (moved : Actor.step a next = some b) :
    b.phase.dead = true := by
  cases next with
  | enqueue type => exact absurd rfl (own type)
  | exited fault =>
    cases phase : a.phase <;> simp [Actor.step, phase] at moved
    rw [← moved]
    rfl
  | connected fault => cases phase : a.phase <;> simp_all [Actor.step, Actor.Phase.dead]
  | _ => cases phase : a.phase <;> simp_all [Actor.step, Actor.Phase.dead]

theorem quiet_actor (quiet : Quiet s) {next : Actor.Step} {isResult : Bool} {t : State}
    (moved : s.actorTurn next isResult = some t) : Quiet t := by
  unfold State.actorTurn at moved
  split_ifs at moved with allowed
  obtain ⟨b, stepped, isT⟩ := Option.map_eq_some_iff.mp moved
  rw [← isT]
  have own : ∀ type, next ≠ .enqueue type := by
    intro type same
    rw [same] at allowed
    cases allowed
  have starts : ∀ fault, next ≠ .connected (some fault) := by
    intro fault same
    rw [same] at allowed
    cases allowed
  have dead := fun ending => dead_exited (b := b) ending own stepped
  have spec := fun other => Actor.step_spec quiet.served
    (fun alive => (Nat.le_add_right _ _).trans (quiet.single alive)) own starts other
    (fun drive onMessage fault phase _ raised => free_of_open quiet phase raised) stepped
  cases next with
  | enqueue type => exact absurd rfl (own type)
  | queried fault receive =>
    rw [Actor.step] at stepped
    split at stepped
    · rename_i cmd phase
      rw [← Option.some.inj stepped]
      have next := quiet_queried quiet phase fault receive
      cases fault with
      | none => simpa [State.delivered, State.acceptedPrompt, phase] using next
      | some fault => simpa [State.delivered, State.acceptedPrompt, phase] using next
    · cases stepped
  | wake onMessage =>
    rw [Actor.step] at stepped
    split at stepped
    · rename_i drive phase
      split_ifs at stepped
      rw [← Option.some.inj stepped]
      have next := quiet_wake quiet phase onMessage isResult
      simpa [State.acceptedPrompt, phase] using next
    · cases stepped
  | connected fault =>
    obtain ⟨served, -, held⟩ := spec (fun _ _ same => by cases same)
    have next : Quiet { s with
        actor := b, inbox := s.inbox ++ [], resultSeen := s.resultSeen } := by
      refine quiet_silent quiet served held dead ?_
      intro query msgTask found
      cases phase : s.actor.phase <;> cases fault <;> simp [Actor.step, phase] at stepped
      · rw [← stepped] at found
        cases found
      · exact absurd rfl (starts _)
    simpa [State.delivered, State.acceptedPrompt] using next
  | take =>
    obtain ⟨served, -, held⟩ := spec (fun _ _ same => by cases same)
    have next : Quiet { s with
        actor := b, inbox := s.inbox ++ [], resultSeen := s.resultSeen } := by
      refine quiet_silent quiet served held dead ?_
      intro query msgTask found
      rw [Actor.step] at stepped
      split at stepped
      · rw [← Option.some.inj stepped, driving_runCommand] at found
        cases found
      · cases stepped
    simpa [State.delivered, State.acceptedPrompt] using next
  | received msgTask =>
    obtain ⟨served, -, held⟩ := spec (fun _ _ same => by cases same)
    have next : Quiet { s with
        actor := b, inbox := s.inbox ++ [], resultSeen := s.resultSeen } := by
      refine quiet_silent quiet served held dead ?_
      intro query task found
      have allows : s.resultSeen = true → msgTask = .raised .stopAsyncIteration := by
        intro seen
        rw [State.clientAllows, seen] at allowed
        exact beq_iff_eq.mp allowed
      rw [Actor.step] at stepped
      split at stepped
      · rename_i drive phase
        split_ifs at stepped
        rw [← Option.some.inj stepped] at found
        cases found
        have stream := quiet.stream drive.query drive.msgTask (by rw [phase]; rfl)
        exact ⟨stream.1, fun seen => .inr (allows seen)⟩
      · rename_i drive cmd phase
        split_ifs at stepped
        rw [← Option.some.inj stepped] at found
        cases found
        have stream := quiet.stream drive.query drive.msgTask (by rw [phase]; rfl)
        exact ⟨stream.1, fun seen => .inr (allows seen)⟩
      · cases stepped
    simpa [State.delivered, State.acceptedPrompt] using next
  | cmdReady =>
    obtain ⟨served, -, held⟩ := spec (fun _ _ same => by cases same)
    have next : Quiet { s with
        actor := b, inbox := s.inbox ++ [], resultSeen := s.resultSeen } := by
      refine quiet_silent quiet served held dead ?_
      intro query task found
      rw [Actor.step] at stepped
      split at stepped
      · rename_i drive cmd later phase queue
        split_ifs at stepped
        rw [← Option.some.inj stepped] at found
        cases found
        exact quiet.stream drive.query drive.msgTask (by rw [phase]; rfl)
      · cases stepped
    simpa [State.delivered, State.acceptedPrompt] using next
  | interrupted fault =>
    obtain ⟨served, -, held⟩ := spec (fun _ _ same => by cases same)
    have next : Quiet { s with
        actor := b, inbox := s.inbox ++ [], resultSeen := s.resultSeen } := by
      refine quiet_silent quiet served held dead ?_
      intro query task found
      rw [Actor.step] at stepped
      split at stepped
      · rename_i drive cmd phase
        rw [← Option.some.inj stepped] at found
        unfold Actor.interrupted at found
        split at found
        · cases fault with
          | some fault => cases found
          | none =>
            cases found
            exact quiet.stream drive.query drive.msgTask (by rw [phase]; rfl)
        · cases fault with
          | some fault => cases found
          | none =>
            simp only [Actor.State.resume, driving_runCommand] at found
            cases found
      · cases stepped
    simpa [State.delivered, State.acceptedPrompt] using next
  | exited fault =>
    obtain ⟨served, -, held⟩ := spec (fun _ _ same => by cases same)
    rw [Actor.step] at stepped
    split at stepped
    · rename_i earlier phase
      have ended : b.phase = .finished (fault.or earlier) := by
        rw [← Option.some.inj stepped]
        rfl
      have next : Quiet { s with
          actor := b, inbox := s.inbox ++ [.exit (fault.or earlier)], resultSeen := s.resultSeen } := by
        refine quiet_moved quiet served held dead ?_ ?_ ?_
        · intro query task found
          rw [ended] at found
          cases found
        · intro alive
          rw [phase] at alive
          cases alive
        · intro _ _
          rw [ended]
          rfl
      simpa [State.delivered, State.acceptedPrompt, phase, Item.isResult] using next
    · cases stepped

/-- Calls keep what they know of their prompts while the actor moves. -/
theorem logged_actor (logged : Logged sessionId s) (quiet : Quiet s) {next : Actor.Step}
    {isResult : Bool} {t : State} (moved : s.actorTurn next isResult = some t) :
    Logged sessionId t := by
  unfold State.actorTurn at moved
  split_ifs at moved with allowed
  obtain ⟨b, stepped, isT⟩ := Option.map_eq_some_iff.mp moved
  rw [← isT]
  have kept : Grown s.actor.commands b.commands ∧ ∀ i ∈ waitingQueries s.actor,
      i ∈ waitingQueries b ∨ sentOf b.commands i = true := by
    by_cases answer : ∃ fault receive, next = .queried fault receive
    · obtain ⟨fault, receive, isNext⟩ := answer
      rw [isNext, Actor.step] at stepped
      split at stepped
      · rename_i cmd phase
        obtain ⟨-, grown, sent, here⟩ := Actor.queried_spec quiet.served phase fault receive
        rw [← Option.some.inj stepped]
        refine ⟨grown, ?_⟩
        intro i member
        rw [here] at member
        cases List.mem_append.mp member with
        | inl waits => exact .inl waits
        | inr same =>
          right
          rw [List.mem_singleton.mp same]
          exact sent
      · cases stepped
    · have own : ∀ type, next ≠ .enqueue type := by
        intro type same
        rw [same] at allowed
        cases allowed
      have starts : ∀ fault, next ≠ .connected (some fault) := by
        intro fault same
        rw [same] at allowed
        cases allowed
      obtain ⟨-, grown, held⟩ := Actor.step_spec quiet.served
        (fun alive => (Nat.le_add_right _ _).trans (quiet.single alive)) own starts
        (fun fault receive same => answer ⟨fault, receive, same⟩)
        (fun drive onMessage fault phase _ raised => free_of_open quiet phase raised) stepped
      refine ⟨grown, ?_⟩
      intro i member
      cases held with
      | inl same => exact .inl (same.mem_iff.mpr member)
      | inr ending => exact ending.2 i member
  refine ⟨logged.session, logged.seqs, logged.owned, ?_, logged.prompts⟩
  intro id call found
  have known := logged.known id call found
  unfold Known at known ⊢
  split at known
  · rename_i seq cmd phase
    refine ⟨by rw [kept.1.isQuery]; exact known.1, ?_⟩
    cases known.2 with
    | inl sent => exact .inl (kept.1.sentOf sent)
    | inr waits => exact (kept.2 cmd waits).symm
  · exact kept.1.acceptedOf known
  · trivial

end ActorSteps

section CallSteps

variable {sessionId : String} {s : State} {id : Nat} {call : Call}

/-- A call that owns no entry has none in the log. -/
theorem unowned (logged : Logged sessionId s) (found : s.calls.get? id = some call)
    (owns : ∀ seq, call.phase.owns seq = false) : ∀ row ∈ s.rows, row.payload ≠ some id := by
  intro row member payload
  obtain ⟨other, isOther, owned⟩ := logged.owned row member id payload
  rw [found] at isOther
  rw [← Option.some.inj isOther, owns row.seq] at owned
  cases owned

/-- A call moves on; the log and the actor stay. -/
theorem logged_setPhase (logged : Logged sessionId s) {phase : CallPhase}
    (owned : ∀ row ∈ s.rows, row.payload = some id → phase.owns row.seq = true)
    (known : Known s.actor.commands (waitingQueries s.actor) phase)
    (prompt : ∀ cmd, phase.cmd? = some cmd → ∀ other call', other ≠ id →
      s.calls.get? other = some call' → call'.phase.cmd? ≠ some cmd) :
    Logged sessionId (s.setPhase id call phase) := by
  refine ⟨logged.session, logged.seqs, ?_, ?_, ?_⟩
  · intro row member other payload
    simp only [State.setPhase, Dict.get?_set]
    by_cases same : other = id
    · rw [if_pos same]
      rw [same] at payload
      exact ⟨_, rfl, owned row member payload⟩
    · rw [if_neg same]
      exact logged.owned row member other payload
  · intro other call' found
    simp only [State.setPhase, Dict.get?_set] at found
    split_ifs at found with same
    · rw [← Option.some.inj found]
      exact known
    · exact logged.known other call' found
  · intro first second call₁ call₂ cmd found₁ found₂ cmd₁ cmd₂
    simp only [State.setPhase, Dict.get?_set] at found₁ found₂
    split_ifs at found₁ with isFirst
    · split_ifs at found₂ with isSecond
      · rw [isFirst, isSecond]
      · rw [← Option.some.inj found₁] at cmd₁
        exact absurd cmd₂ (prompt cmd cmd₁ second call₂ isSecond found₂)
    · split_ifs at found₂ with isSecond
      · rw [← Option.some.inj found₂] at cmd₂
        exact absurd cmd₁ (prompt cmd cmd₂ first call₁ isFirst found₁)
      · exact logged.prompts first second call₁ call₂ cmd found₁ found₂ cmd₁ cmd₂

/-- A call without entry and prompt moves on, and gets none. -/
theorem logged_plain (logged : Logged sessionId s) {phase : CallPhase}
    (free : ∀ row ∈ s.rows, row.payload ≠ some id) (noCmd : phase.cmd? = none)
    (known : Known s.actor.commands (waitingQueries s.actor) phase) :
    Logged sessionId (s.setPhase id call phase) := by
  refine logged_setPhase logged (fun row member payload => absurd payload (free row member)) known ?_
  intro cmd isCmd
  rw [noCmd] at isCmd
  cases isCmd

theorem logged_checkRunning (logged : Logged sessionId s)
    (free : ∀ row ∈ s.rows, row.payload ≠ some id) : Logged sessionId (s.checkRunning id call) := by
  unfold State.checkRunning
  split_ifs
  · exact logged_plain logged free rfl trivial
  · exact logged_plain logged free rfl trivial
  · exact logged_plain logged free rfl trivial

theorem quiet_checkRunning (quiet : Quiet s) : Quiet (s.checkRunning id call) := by
  unfold State.checkRunning
  split <;> exact ⟨quiet.served, quiet.single, quiet.busy, quiet.stream, quiet.results, quiet.exits⟩

/-- A row with the next number is added; its owner, if any, knows it. -/
theorem logged_addRow (logged : Logged sessionId s) {row : LogRow (Option Nat)}
    (named : row.sessionId = sessionId) (next : row.seq = nextSeq s.rows sessionId)
    (owner : ∀ id, row.payload = some id → ∃ call, s.calls.get? id = some call ∧
      call.phase.owns row.seq = true) :
    Logged sessionId { s with rows := s.rows ++ [row] } := by
  refine ⟨?_, ?_, ?_, logged.known, logged.prompts⟩
  · intro other member
    cases List.mem_append.mp member with
    | inl old => exact logged.session other old
    | inr last => rw [List.mem_singleton.mp last, named]
  · show (List.map LogRow.seq (s.rows ++ [row])).Nodup
    rw [List.map_append, List.map_singleton, List.nodup_append_comm, List.singleton_append,
      List.nodup_cons]
    refine ⟨?_, logged.seqs⟩
    intro taken
    obtain ⟨other, member, same⟩ := List.mem_map.mp taken
    have less := lt_nextSeq member (logged.session other member)
    omega
  · intro other member id payload
    cases List.mem_append.mp member with
    | inl old => exact logged.owned other old id payload
    | inr last =>
      rw [List.mem_singleton.mp last] at payload ⊢
      exact owner id payload

theorem logged_append (logged : Logged sessionId s) (found : s.calls.get? id = some call)
    (phase : call.phase = .appending) : Logged sessionId (s.appendUserEntry sessionId id call) := by
  have free := unowned logged found (by rw [phase]; exact fun _ => rfl)
  unfold State.appendUserEntry
  split
  · exact logged_plain logged free rfl trivial
  · -- The call first knows its number, then the row comes.
    have marked : Logged sessionId
        (s.setPhase id call (.marking (some (nextSeq s.rows sessionId)))) :=
      logged_plain logged free rfl trivial
    refine logged_addRow marked rfl rfl ?_
    intro other payload
    have same : other = id := (Option.some.inj payload).symm
    refine ⟨{ call with phase := .marking (some (nextSeq s.rows sessionId)) }, ?_, ?_⟩
    · rw [State.setPhase, Dict.get?_set, if_pos same]
    · exact beq_self_eq_true _

theorem logged_enqueue (logged : Logged sessionId s) (quiet : Quiet s) (type : Actor.CommandType)
    (plain : type ≠ .disconnect) :
    Logged sessionId { s with actor := Actor.enqueue s.actor type } := by
  obtain ⟨-, kept, -, -⟩ := Actor.enqueue_spec quiet.served type plain
  have waits : ∀ i ∈ waitingQueries s.actor, i ∈ waitingQueries (Actor.enqueue s.actor type) := by
    intro i member
    obtain ⟨interrupt, query⟩ := Actor.waiting_enqueue quiet.served
    cases type with
    | disconnect => exact absurd rfl plain
    | interrupt =>
      rw [interrupt]
      exact member
    | query =>
      cases query with
      | inl more => exact more.mem_iff.mpr (List.mem_cons_of_mem _ member)
      | inr ended =>
        rw [ended.1]
        exact member
  refine ⟨logged.session, logged.seqs, logged.owned, ?_, logged.prompts⟩
  intro id call found
  have known := logged.known id call found
  unfold Known at known ⊢
  split at known
  · rename_i seq cmd phase
    have old := Actor.known_of_isQuery known.1
    refine ⟨?_, ?_⟩
    · rw [isQuery, kept cmd old]
      exact known.1
    · refine known.2.imp ?_ (waits cmd)
      intro sent
      rw [sentOf, kept cmd old]
      exact sent
  · rename_i seq cmd phase
    obtain ⟨row, isRow, -⟩ := (Option.any_eq_true _ _).mp known
    rw [acceptedOf, kept cmd (List.getElem?_eq_some_iff.mp isRow).1]
    exact known
  · trivial

theorem cmd_known (logged : Logged sessionId s) (found : s.calls.get? id = some call) {cmd : Nat}
    (isCmd : call.phase.cmd? = some cmd) : cmd < s.actor.commands.length := by
  have known := logged.known id call found
  unfold Known at known
  split at known
  · rename_i seq other phase
    rw [phase] at isCmd
    rw [← Option.some.inj isCmd]
    exact Actor.known_of_isQuery known.1
  · rename_i seq other phase
    rw [phase] at isCmd
    rw [← Option.some.inj isCmd]
    obtain ⟨row, isRow, -⟩ := (Option.any_eq_true _ _).mp known
    exact (List.getElem?_eq_some_iff.mp isRow).1
  · rename_i notSending notReturned
    cases phase : call.phase with
    | sending seq other => exact absurd phase (notSending seq other)
    | returned seq other =>
      cases other with
      | some other => exact absurd phase (notReturned seq other)
      | none =>
        rw [phase] at isCmd
        cases isCmd
    | _ =>
      rw [phase] at isCmd
      cases isCmd

theorem logged_sendQuery (logged : Logged sessionId s) (quiet : Quiet s) {seq : Option Int}
    (found : s.calls.get? id = some call) (phase : call.phase = .marking seq) :
    Logged sessionId (s.sendQuery id call seq) := by
  have queued := logged_enqueue logged quiet .query nofun
  have running : Logged sessionId { s with
      status := .running, actor := Actor.enqueue s.actor .query } :=
    ⟨queued.session, queued.seqs, queued.owned, queued.known, queued.prompts⟩
  refine logged_setPhase running ?_ ?_ ?_
  · intro row member payload
    obtain ⟨other, isOther, owns⟩ := logged.owned row member id payload
    rw [found] at isOther
    rw [← Option.some.inj isOther, phase] at owns
    cases seq with
    | none => cases owns
    | some own => exact owns
  · obtain ⟨-, query⟩ := Actor.waiting_enqueue quiet.served
    refine ⟨?_, ?_⟩
    · unfold isQuery Actor.enqueue
      split <;> simp [Actor.SessionCommand.new, Actor.SessionCommand.complete]
    · cases query with
      | inl more => exact .inr (more.mem_iff.mpr (List.mem_cons_self ..))
      | inr ended => exact .inl ended.2.2
  · intro cmd isCmd other call' _ isOther same
    have old := cmd_known logged isOther same
    rw [← Option.some.inj isCmd] at old
    exact Nat.lt_irrefl _ old

/-- The prompt of a free session is the only one. -/
theorem quiet_sendQuery (quiet : Quiet s) {seq : Option Int} (idle : s.status ≠ .running) :
    Quiet (s.sendQuery id call seq) := by
  obtain ⟨served, -, -, phase⟩ := Actor.enqueue_spec quiet.served .query nofun
  obtain ⟨-, query⟩ := Actor.waiting_enqueue quiet.served
  refine ⟨served, ?_, fun _ _ => rfl, ?_, ?_, ?_⟩
  · intro alive
    simp only [State.sendQuery, State.setPhase, phase] at alive ⊢
    have noTurn : s.openTurns = [] := by
      by_contra turn
      exact idle (quiet.busy alive (.inr turn))
    have noWaiting : waitingQueries s.actor = [] := by
      by_contra waiting
      exact idle (quiet.busy alive (.inl waiting))
    cases query with
    | inl more => rw [more.length_eq, noTurn, noWaiting]; rfl
    | inr ended =>
      rw [alive] at ended
      cases ended.2.1
  · simp only [State.sendQuery, State.setPhase, phase]
    exact quiet.stream
  · simp only [State.sendQuery, State.setPhase, phase]
    exact quiet.results
  · simp only [State.sendQuery, State.setPhase, phase]
    exact quiet.exits

/-- An error on a command means that the actor is ending, so the status may change. -/
theorem quiet_setStatus (quiet : Quiet s) (status : Registry.Status) {row : Actor.SessionCommand}
    {cmd : Nat} (found : s.actor.commands[cmd]? = some row) (failed : row.error ≠ none) :
    Quiet { s with status := status } := by
  have dead := (quiet.served.table cmd row found).error failed
  refine ⟨quiet.served, quiet.single, ?_, quiet.stream, quiet.results, quiet.exits⟩
  intro alive
  rw [dead] at alive
  cases alive

theorem quiet_setPhase (quiet : Quiet s) {phase : CallPhase} : Quiet (s.setPhase id call phase) :=
  ⟨quiet.served, quiet.single, quiet.busy, quiet.stream, quiet.results, quiet.exits⟩

theorem quiet_answer (quiet : Quiet s) {seq : Option Int} {cmd : Nat} {row : Actor.SessionCommand}
    (isRow : s.actor.commands[cmd]? = some row) : Quiet (s.answer id call seq cmd row.error) := by
  unfold State.answer
  split
  · exact quiet_setPhase quiet
  · rename_i fault failed
    exact quiet_setPhase (quiet_setStatus quiet .error isRow (by rw [failed]; exact nofun))

theorem logged_answer (quiet : Quiet s) (logged : Logged sessionId s)
    (found : s.calls.get? id = some call) {seq : Option Int} {cmd : Nat}
    (phase : call.phase = .sending seq cmd) {row : Actor.SessionCommand}
    (isRow : s.actor.commands[cmd]? = some row) (sent : row.sent = true) :
    Logged sessionId (s.answer id call seq cmd row.error) := by
  have owns : ∀ row ∈ s.rows, row.payload = some id → seq = some row.seq := by
    intro row member payload
    obtain ⟨other, isOther, owned⟩ := logged.owned row member id payload
    rw [found] at isOther
    rw [← Option.some.inj isOther, phase] at owned
    cases seq with
    | none => cases owned
    | some own => rw [beq_iff_eq.mp owned]
  unfold State.answer
  split
  · rename_i noError
    refine logged_setPhase logged ?_ ?_ ?_
    · intro row member payload
      rw [owns row member payload]
      exact beq_self_eq_true _
    · have known := logged.known id call found
      rw [phase] at known
      have query : row.type = .query := by
        have isQ := known.1
        rw [isQuery, isRow] at isQ
        exact beq_iff_eq.mp isQ
      rw [Known, acceptedOf, isRow]
      exact (quiet.served.table cmd row isRow).accepted query sent noError
    · intro other isOther id' call' apart found' same
      have isCmd : call.phase.cmd? = some cmd := by rw [phase]; rfl
      rw [← Option.some.inj isOther] at same
      exact apart (logged.prompts id' id call' call cmd found' found same isCmd)
  · have errored : Logged sessionId { s with status := .error } :=
      ⟨logged.session, logged.seqs, logged.owned, logged.known, logged.prompts⟩
    refine logged_setPhase errored ?_ ?_ ?_
    · intro row member payload
      rw [owns row member payload]
      exact beq_self_eq_true _
    · cases seq <;> trivial
    · cases seq <;> (intro _ same; cases same)

/-- The entry of the call leaves the log. -/
theorem logged_compensate (logged : Logged sessionId s) (found : s.calls.get? id = some call)
    {seq : Int} (phase : call.phase = .compensating seq) :
    Logged sessionId (State.setPhase { s with rows := deleteEntry s.rows sessionId seq } id call
      .noting) := by
  have deleted : Logged sessionId { s with rows := deleteEntry s.rows sessionId seq } := by
    refine ⟨?_, ?_, ?_, logged.known, logged.prompts⟩
    · exact fun row member => logged.session row (List.mem_of_mem_filter member)
    · exact ((List.filter_sublist).map LogRow.seq).nodup logged.seqs
    · exact fun row member => logged.owned row (List.mem_of_mem_filter member)
  refine logged_plain deleted ?_ rfl trivial
  intro row member payload
  have kept := List.mem_filter.mp member
  obtain ⟨other, isOther, owned⟩ := logged.owned row kept.1 id payload
  rw [found] at isOther
  rw [← Option.some.inj isOther, phase] at owned
  have same : seq = row.seq := beq_iff_eq.mp owned
  rw [logged.session row kept.1, same] at kept
  simp at kept

theorem quiet_process (quiet : Quiet s) {final : Registry.Status} {t : State}
    (moved : s.processItem final = some t) : Quiet t := by
  unfold State.processItem at moved
  split at moved
  · rename_i cmd rest _ inbox
    split_ifs at moved
    rw [← Option.some.inj moved]
    have exits : ∀ fault, .exit fault ∈ rest → s.actor.phase.dead = true := by
      intro fault member
      apply quiet.exits fault
      rw [inbox]
      exact List.mem_cons_of_mem _ member
    cases ending : s.actor.phase.dead with
    | true =>
      refine ⟨quiet.served, ?_, ?_, ?_, ?_, fun fault member => exits fault member⟩
      · exact fun alive => absurd (ending.symm.trans alive) (by decide)
      · exact fun alive => absurd (ending.symm.trans alive) (by decide)
      · intro query msgTask found
        cases phase : s.actor.phase <;> simp_all [driving, Actor.Phase.dead]
      · exact fun alive => absurd (ending.symm.trans alive) (by decide)
    | false =>
      -- The result is that of the one open turn.
      have results := quiet.results ending
      rw [inbox, List.filter_cons_of_pos (rfl : Item.isResult (.result cmd) = true)] at results
      obtain ⟨seen, turn, isOnly, turns⟩ := results.resolve_left (List.cons_ne_nil _ _)
      have same : cmd = turn := Item.result.inj (List.cons.inj isOnly).1
      have single := quiet.single ending
      rw [turns, List.length_singleton] at single
      have noWaiting : waitingQueries s.actor = [] := List.eq_nil_of_length_eq_zero (by omega)
      have closed : s.openTurns.erase cmd = [] := by
        rw [turns, same, List.erase_cons_head]
      refine ⟨quiet.served, ?_, ?_, ?_, ?_, fun fault member => exits fault member⟩
      · intro _
        simp [closed, noWaiting]
      · intro _ either
        simp only [closed, noWaiting, ne_eq, not_true_eq_false, or_self] at either
      · intro query msgTask found
        exact ⟨.inr seen, (quiet.stream query msgTask found).2⟩
      · exact fun _ => .inl (List.cons.inj isOnly).2
  · rename_i rest _ inbox
    rw [← Option.some.inj moved]
    refine ⟨quiet.served, quiet.single, quiet.busy, quiet.stream, ?_, ?_⟩
    · intro alive
      have results := quiet.results alive
      rw [inbox] at results
      exact results
    · intro fault member
      apply quiet.exits fault
      rw [inbox]
      exact List.mem_cons_of_mem _ member
  · rename_i fault rest _ inbox
    have dead : s.actor.phase.dead = true := by
      apply quiet.exits (some fault)
      rw [inbox]
      exact List.mem_cons_self ..
    rw [← Option.some.inj moved]
    refine ⟨quiet.served, ?_, ?_, ?_, ?_, fun _ _ => dead⟩
    · exact fun alive => absurd (dead.symm.trans alive) (by decide)
    · exact fun alive => absurd (dead.symm.trans alive) (by decide)
    · intro query msgTask found
      cases phase : s.actor.phase <;> simp_all [driving, Actor.Phase.dead]
    · exact fun alive => absurd (dead.symm.trans alive) (by decide)
  · rename_i rest _ inbox
    have dead : s.actor.phase.dead = true := by
      apply quiet.exits none
      rw [inbox]
      exact List.mem_cons_self ..
    rw [← Option.some.inj moved]
    refine ⟨quiet.served, quiet.single, quiet.busy, quiet.stream, ?_, fun _ _ => dead⟩
    exact fun alive => absurd (dead.symm.trans alive) (by decide)
  · cases moved

theorem quiet_interrupt (quiet : Quiet s) : Quiet s.interruptSession := by
  unfold State.interruptSession
  split_ifs
  · obtain ⟨served, -, -, phase⟩ := Actor.enqueue_spec quiet.served .interrupt nofun
    obtain ⟨same, -⟩ := Actor.waiting_enqueue quiet.served
    refine ⟨served, ?_, ?_, ?_, ?_, ?_⟩
    · simp only [phase, same]
      exact quiet.single
    · simp only [phase, same]
      exact quiet.busy
    · simp only [phase]
      exact quiet.stream
    · simp only [phase]
      exact quiet.results
    · simp only [phase]
      exact quiet.exits
  · exact quiet

end CallSteps

section Runs

variable {sessionId : String} {s t : State}

theorem callTurn_cases {id : Nat} {turn : Call → CallPhase → Option State}
    (moved : callTurn s id turn = some t) :
    ∃ call, s.calls.get? id = some call ∧ turn call call.phase = some t :=
  Option.bind_eq_some_iff.mp moved

theorem ordered_step (next : Step) (inv : Quiet s ∧ Logged sessionId s)
    (free : stillFree s next = true) (moved : step sessionId s next = some t) :
    Quiet t ∧ Logged sessionId t := by
  obtain ⟨quiet, logged⟩ := inv
  cases next with
  | sendMessage id clientKey hasEntry =>
    rw [step] at moved
    split_ifs at moved with taken keyed
    · have free : ∀ row ∈ s.rows, row.payload ≠ some id := by
        intro row member payload
        obtain ⟨call, found, -⟩ := logged.owned row member id payload
        exact taken ((Dict.mem_keys_iff _ _).mpr ⟨call, found⟩)
      rw [← Option.some.inj moved]
      exact ⟨quiet_setPhase quiet, logged_plain logged free rfl trivial⟩
    · have free : ∀ row ∈ s.rows, row.payload ≠ some id := by
        intro row member payload
        obtain ⟨call, found, -⟩ := logged.owned row member id payload
        exact taken ((Dict.mem_keys_iff _ _).mpr ⟨call, found⟩)
      rw [← Option.some.inj moved]
      exact ⟨quiet_checkRunning quiet, logged_checkRunning logged free⟩
  | probe id =>
    rw [step] at moved
    obtain ⟨call, found, rest⟩ := callTurn_cases moved
    split_ifs at rest with phase
    have free := unowned logged found (by rw [phase]; exact fun _ => rfl)
    split at rest
    · rw [← Option.some.inj rest]
      exact ⟨quiet_setPhase quiet, logged_plain logged free rfl trivial⟩
    · rw [← Option.some.inj rest]
      exact ⟨quiet_checkRunning quiet, logged_checkRunning logged free⟩
  | append id =>
    rw [step] at moved
    obtain ⟨call, found, rest⟩ := callTurn_cases moved
    split_ifs at rest with phase
    rw [← Option.some.inj rest]
    refine ⟨?_, logged_append logged found phase⟩
    unfold State.appendUserEntry
    split <;> exact ⟨quiet.served, quiet.single, quiet.busy, quiet.stream, quiet.results, quiet.exits⟩
  | sendQuery id =>
    rw [step] at moved
    obtain ⟨call, found, rest⟩ := callTurn_cases moved
    split at rest
    · rename_i seq phase
      rw [← Option.some.inj rest]
      exact ⟨quiet_sendQuery quiet (bne_iff_ne.mp free), logged_sendQuery logged quiet found phase⟩
    · cases rest
  | answered id =>
    rw [step] at moved
    obtain ⟨call, found, rest⟩ := callTurn_cases moved
    split at rest
    · rename_i seq cmd phase
      obtain ⟨row, isRow, sentRest⟩ := Option.bind_eq_some_iff.mp rest
      split_ifs at sentRest with sent
      rw [← Option.some.inj sentRest]
      exact ⟨quiet_answer quiet isRow, logged_answer quiet logged found phase isRow sent⟩
    · cases rest
  | compensate id =>
    rw [step] at moved
    obtain ⟨call, found, rest⟩ := callTurn_cases moved
    split at rest
    · rename_i seq phase
      rw [← Option.some.inj rest]
      exact ⟨⟨quiet.served, quiet.single, quiet.busy, quiet.stream, quiet.results, quiet.exits⟩,
        logged_compensate logged found phase⟩
    · cases rest
  | note id =>
    rw [step] at moved
    obtain ⟨call, found, rest⟩ := callTurn_cases moved
    split_ifs at rest with phase
    have free := unowned logged found (by rw [phase]; exact fun _ => rfl)
    rw [← Option.some.inj rest]
    exact ⟨quiet_setPhase quiet, logged_plain logged free rfl trivial⟩
  | actor next isResult => exact ⟨quiet_actor quiet moved, logged_actor logged quiet moved⟩
  | process final =>
    refine ⟨quiet_process quiet moved, ?_⟩
    have moved : s.processItem final = some t := moved
    unfold State.processItem at moved
    split at moved
    · split_ifs at moved
      rw [← Option.some.inj moved]
      exact ⟨logged.session, logged.seqs, logged.owned, logged.known, logged.prompts⟩
    · rw [← Option.some.inj moved]
      exact ⟨logged.session, logged.seqs, logged.owned, logged.known, logged.prompts⟩
    · rw [← Option.some.inj moved]
      exact ⟨logged.session, logged.seqs, logged.owned, logged.known, logged.prompts⟩
    · rw [← Option.some.inj moved]
      exact ⟨logged.session, logged.seqs, logged.owned, logged.known, logged.prompts⟩
    · cases moved
  | logEntry =>
    rw [← Option.some.inj moved]
    refine ⟨⟨quiet.served, quiet.single, quiet.busy, quiet.stream, quiet.results, quiet.exits⟩, ?_⟩
    exact logged_addRow logged rfl rfl nofun
  | interruptSession =>
    rw [← Option.some.inj moved]
    refine ⟨quiet_interrupt quiet, ?_⟩
    unfold State.interruptSession
    split_ifs
    · have queued := logged_enqueue logged quiet .interrupt nofun
      exact ⟨queued.session, queued.seqs, queued.owned, queued.known, queued.prompts⟩
    · exact logged
  | interruptDone =>
    obtain ⟨cmd, isCmd, rest⟩ := Option.bind_eq_some_iff.mp moved
    obtain ⟨row, isRow, done⟩ := Option.bind_eq_some_iff.mp rest
    split_ifs at done with isDone failed
    · rw [← Option.some.inj done]
      have failing := quiet_setStatus quiet .error isRow
        (Option.isSome_iff_ne_none.mp failed)
      exact ⟨⟨failing.served, failing.single, failing.busy, failing.stream, failing.results,
        failing.exits⟩, ⟨logged.session, logged.seqs, logged.owned, logged.known, logged.prompts⟩⟩
    · rw [← Option.some.inj done]
      exact ⟨⟨quiet.served, quiet.single, quiet.busy, quiet.stream, quiet.results, quiet.exits⟩,
        ⟨logged.session, logged.seqs, logged.owned, logged.known, logged.prompts⟩⟩

/-- A user entry belongs to a prompt that the SDK has accepted, or its call is still under way with
the prompt, if it was handed over, in the hands of the actor or answered. -/
def Carried (s : State) (seq : Int) : CallPhase → Prop
  | .marking own => own = some seq
  | .compensating own => own = seq
  | .sending own cmd => own = some seq ∧
      (sentOf s.actor.commands cmd = true ∨ cmd ∈ waitingQueries s.actor)
  | .returned own cmd => own = some seq ∧ cmd.any (acceptedOf s.actor.commands) = true
  | _ => False

theorem carried_of_owns {id : Nat} {call : Call} {seq : Int} (logged : Logged sessionId s)
    (found : s.calls.get? id = some call) (owns : call.phase.owns seq = true) :
    Carried s seq call.phase := by
  have known := logged.known id call found
  unfold CallPhase.owns at owns
  split at owns
  · rename_i own phase
    rw [phase, beq_iff_eq.mp owns]
    rfl
  · rename_i own cmd phase
    rw [phase] at known ⊢
    rw [beq_iff_eq.mp owns]
    exact ⟨rfl, known.2⟩
  · rename_i own phase
    rw [phase, beq_iff_eq.mp owns]
    rfl
  · rename_i own cmd phase
    rw [phase] at known ⊢
    rw [beq_iff_eq.mp owns]
    exact ⟨rfl, known⟩
  · cases owns

/-- In every run in which prompts are handed over to a free session only: no prompt is handed to the
SDK while a turn is open; each user entry in the log belongs to one call and its one prompt, which the
SDK has accepted once the call has returned; a call that has raised has no entry in the log. -/
theorem messages_delivered_once {steps : List Step}
    (free : allSteps (step sessionId) stillFree steps .start = true)
    (ran : runSteps (step sessionId) steps .start = some s) :
    (∀ cmd, s.actor.phase = .querying cmd → s.openTurns = []) ∧
    (∀ row ∈ s.rows, ∀ id, row.payload = some id →
      ∃ call, s.calls.get? id = some call ∧ Carried s row.seq call.phase) ∧
    (∀ row ∈ s.rows, ∀ other ∈ s.rows, row.payload.isSome = true → row.payload = other.payload →
      row = other) ∧
    (∀ id other call call' cmd, s.calls.get? id = some call → s.calls.get? other = some call' →
      call.phase.cmd? = some cmd → call'.phase.cmd? = some cmd → id = other) ∧
    ∀ id call, s.calls.get? id = some call → call.phase = .raised →
      ∀ row ∈ s.rows, row.payload ≠ some id := by
  obtain ⟨quiet, logged⟩ := runSteps_induct_of
    (fun u next _ (inv : Quiet u ∧ Logged sessionId u) ok moved => ordered_step next inv ok moved)
    ⟨quiet_start, logged_start⟩ free ran
  refine ⟨?_, ?_, ?_, logged.prompts, ?_⟩
  · intro cmd phase
    have single := quiet.single (by rw [phase]; rfl)
    have here : 0 < (waitingQueries s.actor).length := by
      rw [waitingQueries, phase, List.length_append]
      exact Nat.lt_add_left _ Nat.zero_lt_one
    exact List.eq_nil_of_length_eq_zero (by omega)
  · intro row member id payload
    obtain ⟨call, found, owns⟩ := logged.owned row member id payload
    exact ⟨call, found, carried_of_owns logged found owns⟩
  · intro row member other member' owner same
    obtain ⟨id, isId⟩ := Option.isSome_iff_exists.mp owner
    obtain ⟨call, found, owns⟩ := logged.owned row member id isId
    obtain ⟨call', found', owns'⟩ := logged.owned other member' id (same ▸ isId)
    rw [found] at found'
    rw [← Option.some.inj found'] at owns'
    have seq : row.seq = other.seq := by
      unfold CallPhase.owns at owns owns'
      split at owns
      all_goals
        rename_i phase
        first
        | rw [phase] at owns'
          exact (beq_iff_eq.mp owns).symm.trans (beq_iff_eq.mp owns')
        | cases owns
    exact List.inj_on_of_nodup_map logged.seqs member member' seq
  · intro id call found phase
    exact unowned logged found (by rw [phase]; exact fun _ => rfl)

/-- Two messages one after the other; the client refuses the second. -/
private def inTurn : List Step :=
  [.actor (.connected none) false, .sendMessage 0 (some "a") true, .probe 0, .append 0, .sendQuery 0,
    .actor .take false, .actor (.queried none none) false, .answered 0, .interruptSession,
    .actor (.received .message) false, .actor (.wake none) true, .process .completed,
    .sendMessage 1 (some "b") true, .probe 1, .append 1, .sendQuery 1,
    .actor (.received (.raised .stopAsyncIteration)) false, .actor (.wake none) false,
    .actor .take false, .interruptDone, .actor .take false,
    .actor (.queried (some (.raised "refused")) none) false, .answered 1, .compensate 1, .note 1]

private theorem inTurn_isSome : (runSteps (step "chat") inTurn .start).isSome = true := by
  decide

theorem messages_delivered_once_in_turn :
    ∃ s, runSteps (step "chat") inTurn .start = some s ∧
      (∀ cmd, s.actor.phase = .querying cmd → s.openTurns = []) ∧
      s.rows.map LogRow.payload = [some 0] :=
  ⟨_, (Option.some_get inTurn_isSome).symm,
    (messages_delivered_once (by decide) (Option.some_get inTurn_isSome).symm).1,
    by decide⟩

/-- Two messages pass the check before either has marked the session running. -/
private def crossing : List Step :=
  [.actor (.connected none) false, .sendMessage 0 (some "a") true, .sendMessage 1 (some "b") true,
    .probe 0, .probe 1, .append 0, .append 1, .sendQuery 0, .sendQuery 1, .actor .take false,
    .actor (.queried none none) false, .answered 0, .actor .cmdReady false, .actor (.wake none) false,
    .actor (.received .message) false, .actor (.wake none) true,
    .actor (.received (.raised .stopAsyncIteration)) false, .actor (.wake none) false]

private theorem crossing_isSome : (runSteps (step "chat") crossing .start).isSome = true := by
  decide

/-- The parked prompt goes to the SDK although the turn before it has not been finalised. -/
theorem parked_prompt_overtakes_finalisation :
    ∃ s, runSteps (step "chat") crossing .start = some s ∧ s.actor.phase = .querying 1 ∧
      s.openTurns = [0] :=
  ⟨_, (Option.some_get crossing_isSome).symm, by decide⟩

end Runs

end ArcReel.Agent.Turns
