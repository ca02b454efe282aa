import ArcReel.Agent.SessionActor

/-! What becomes of a query in the actor: it waits in one place until it is sent, and
an error on a command means that the actor is ending, as long as one query at most
waits and no exception meets a query in the hands of `cmd_task`. -/

namespace ArcReel.Agent.Actor
open ArcReel.Lib

section Queries

def Phase.dead : Phase → Bool
  | .exiting _ | .finished _ => true
  | _ => false

def isQuery (commands : List SessionCommand) (cmd : Nat) : Bool :=
  commands[cmd]?.any fun row => row.type == .query

def CmdTask.unsent (query : Nat → Bool) : CmdTask → List Nat
  | .taken cmd => [cmd].filter query
  | .pending => []

def Phase.unsent (query : Nat → Bool) : Phase → List Nat
  | .querying cmd => [cmd]
  | .waiting drive | .interrupting drive _ =>
      drive.cmdTask.unsent query ++ drive.pendingQuery.toList
  | _ => []

/-- The queries that have not reached the SDK, wherever they are. -/
def waitingQueries (a : State) : List Nat :=
  a.queue.filter (isQuery a.commands) ++ a.phase.unsent (isQuery a.commands)

def sentOf (commands : List SessionCommand) (cmd : Nat) : Bool := commands[cmd]?.any SessionCommand.sent

def acceptedOf (commands : List SessionCommand) (cmd : Nat) : Bool :=
  commands[cmd]?.any SessionCommand.accepted

/-- What holds of each command; `dead` says that the actor is ending. -/
structure RowOk (dead : Bool) (row : SessionCommand) : Prop where
  type : row.type ≠ .disconnect
  done : row.done = true → row.sent = true
  accepted : row.type = .query → row.sent = true → row.error = none → row.accepted = true
  error : row.error ≠ none → dead = true

def TableOk (dead : Bool) (commands : List SessionCommand) : Prop :=
  ∀ (i : Nat) (row : SessionCommand), commands[i]? = some row → RowOk dead row

/-- Commands keep their type and what has been done for them. -/
def Grown (commands later : List SessionCommand) : Prop :=
  ∀ i : Nat, (∀ old, commands[i]? = some old → ∃ new, later[i]? = some new ∧ new.type = old.type ∧
    (old.sent = true → new.sent = true) ∧ (old.accepted = true → new.accepted = true)) ∧
    (commands[i]? = none → later[i]? = none)

variable {commands later last : List SessionCommand} {dead : Bool} {cmd i : Nat}

theorem Grown.rfl : Grown commands commands :=
  fun _ => ⟨fun old found => ⟨old, found, Eq.refl _, id, id⟩, id⟩

theorem Grown.trans (first : Grown commands later) (second : Grown later last) :
    Grown commands last := by
  intro i
  refine ⟨?_, fun missing => (second i).2 ((first i).2 missing)⟩
  intro old found
  obtain ⟨mid, isMid, type, sent, accepted⟩ := (first i).1 old found
  obtain ⟨new, isNew, type', sent', accepted'⟩ := (second i).1 mid isMid
  exact ⟨new, isNew, type'.trans type, fun h => sent' (sent h), fun h => accepted' (accepted h)⟩

theorem Grown.modify (change : SessionCommand → SessionCommand)
    (type : ∀ row, (change row).type = row.type)
    (sent : ∀ row : SessionCommand, row.sent = true → (change row).sent = true)
    (accepted : ∀ row : SessionCommand, row.accepted = true → (change row).accepted = true) :
    Grown commands (commands.modify cmd change) := by
  intro i
  constructor
  · intro old found
    simp only [List.getElem?_modify, found, Option.map_eq_map, Option.map_some]
    split_ifs
    · exact ⟨_, Eq.refl _, type old, sent old, accepted old⟩
    · exact ⟨old, Eq.refl _, Eq.refl _, id, id⟩
  · intro missing
    simp [List.getElem?_modify, missing]

theorem Grown.complete (a : State) (cmd : Nat) (error : Option Fault) :
    Grown a.commands (a.complete cmd error).commands :=
  .modify _ (fun _ => Eq.refl _) (fun _ _ => Eq.refl _) (fun _ h => h)

theorem Grown.setDone (a : State) (cmd : Nat) : Grown a.commands (a.setDone cmd).commands :=
  .modify _ (fun _ => Eq.refl _) (fun _ h => h) (fun _ h => h)

theorem Grown.accept (a : State) (cmd : Nat) :
    Grown a.commands (Actor.accept a cmd).commands :=
  .modify _ (fun _ => Eq.refl _) (fun _ _ => Eq.refl _) (fun _ _ => Eq.refl _)

theorem Grown.isQuery (grown : Grown commands later) : isQuery later = isQuery commands := by
  funext i
  unfold Actor.isQuery
  cases found : commands[i]? with
  | none => rw [(grown i).2 found]
  | some old =>
    obtain ⟨new, isNew, type, -⟩ := (grown i).1 old found
    rw [isNew, Option.any_some, Option.any_some, type]

theorem Grown.sentOf (grown : Grown commands later) (sent : sentOf commands i = true) :
    sentOf later i = true := by
  obtain ⟨old, found, isSent⟩ := (Option.any_eq_true _ _).mp sent
  obtain ⟨new, isNew, -, kept, -⟩ := (grown i).1 old found
  exact (Option.any_eq_true _ _).mpr ⟨new, isNew, kept isSent⟩

theorem Grown.acceptedOf (grown : Grown commands later) (accepted : acceptedOf commands i = true) :
    acceptedOf later i = true := by
  obtain ⟨old, found, isAccepted⟩ := (Option.any_eq_true _ _).mp accepted
  obtain ⟨new, isNew, -, -, kept⟩ := (grown i).1 old found
  exact (Option.any_eq_true _ _).mpr ⟨new, isNew, kept isAccepted⟩

theorem Grown.known (grown : Grown commands later) (known : i < commands.length) :
    i < later.length := by
  obtain ⟨new, isNew, -⟩ := (grown i).1 _ (List.getElem?_eq_getElem known)
  exact (List.getElem?_eq_some_iff.mp isNew).1

theorem RowOk.mono {row : SessionCommand} (ok : RowOk dead row) : RowOk true row :=
  ⟨ok.type, ok.done, ok.accepted, fun _ => Eq.refl _⟩

theorem TableOk.mono (ok : TableOk dead commands) : TableOk true commands :=
  fun i row found => (ok i row found).mono

theorem TableOk.modify (ok : TableOk dead commands) (change : SessionCommand → SessionCommand)
    {dead' : Bool} (keep : ∀ row, RowOk dead row → RowOk dead' row)
    (changed : ∀ row, commands[cmd]? = some row → RowOk dead row → RowOk dead' (change row)) :
    TableOk dead' (commands.modify cmd change) := by
  intro i row found
  simp only [List.getElem?_modify, Option.map_eq_map, Option.map_eq_some_iff] at found
  obtain ⟨old, isOld, isRow⟩ := found
  split_ifs at isRow with same
  · rw [← isRow]
    rw [← same] at isOld
    exact changed old isOld (ok cmd old isOld)
  · rw [← isRow]
    exact keep old (ok i old isOld)

/-- A command that fails: the actor is ending. -/
theorem TableOk.fail (ok : TableOk dead commands) (fault : Fault) :
    TableOk true (commands.modify cmd (SessionCommand.complete (some fault))) := by
  refine ok.modify _ (fun _ h => h.mono) ?_
  intro row _ old
  exact ⟨old.type, fun _ => Eq.refl _, fun _ _ none => (nomatch none), fun _ => Eq.refl _⟩

/-- An interrupt that succeeds. -/
theorem TableOk.finish (ok : TableOk dead commands) (other : isQuery commands cmd = false) :
    TableOk dead (commands.modify cmd (SessionCommand.complete none)) := by
  refine ok.modify _ (fun _ h => h) ?_
  intro row found old
  refine ⟨old.type, fun _ => Eq.refl _, ?_, old.error⟩
  intro query
  rw [isQuery, found, Option.any_some] at other
  have query : row.type = .query := query
  rw [query] at other
  cases other

theorem TableOk.setDone (ok : TableOk dead commands) (sent : sentOf commands cmd = true) :
    TableOk dead (commands.modify cmd fun row => { row with done := true }) := by
  refine ok.modify _ (fun _ h => h) ?_
  intro row found old
  rw [sentOf, found, Option.any_some] at sent
  exact ⟨old.type, fun _ => sent, old.accepted, old.error⟩

theorem TableOk.accept (ok : TableOk dead commands) :
    TableOk dead (commands.modify cmd fun row => { row with accepted := true, sent := true }) := by
  refine ok.modify _ (fun _ h => h) ?_
  intro row found old
  exact ⟨old.type, fun _ => Eq.refl _, fun _ _ _ => Eq.refl _, old.error⟩

end Queries

section Invariant

def Drive.Fit (commands : List SessionCommand) (drive : Drive) : Prop :=
  sentOf commands drive.query = true ∧
    (∀ cmd, drive.cmdTask = .taken cmd → cmd < commands.length) ∧
    ∀ cmd, drive.pendingQuery = some cmd → isQuery commands cmd = true

def Phase.Fit (commands : List SessionCommand) : Phase → Prop
  | .querying cmd => isQuery commands cmd = true
  | .waiting drive => drive.Fit commands
  | .interrupting drive cmd =>
      drive.Fit commands ∧ drive.cmdTask = .taken cmd ∧ isQuery commands cmd = false
  | _ => True

structure Served (a : State) : Prop where
  table : TableOk a.phase.dead a.commands
  queue : ∀ i ∈ a.queue, i < a.commands.length
  fit : a.phase.Fit a.commands

/-- The queries that wait still wait, unless the actor is ending and has answered them. -/
def Held (a b : State) : Prop :=
  (waitingQueries b).Perm (waitingQueries a) ∨
    b.phase.dead = true ∧ ∀ i ∈ waitingQueries a, i ∈ waitingQueries b ∨ sentOf b.commands i = true

variable {a b : State} {cmd i : Nat} {drive : Drive}

theorem sentOf_complete (error : Option Fault) (known : cmd < a.commands.length) :
    sentOf (a.complete cmd error).commands cmd = true := by
  unfold sentOf State.complete
  simp [known, SessionCommand.complete]

theorem known_of_isQuery {commands : List SessionCommand} (query : isQuery commands i = true) :
    i < commands.length := by
  obtain ⟨row, found, -⟩ := (Option.any_eq_true _ _).mp query
  exact (List.getElem?_eq_some_iff.mp found).1

theorem typeOf_cases {dead : Bool} (table : TableOk dead a.commands) (known : cmd < a.commands.length) :
    (a.typeOf cmd = some .query ∧ isQuery a.commands cmd = true) ∨
      (a.typeOf cmd = some .interrupt ∧ isQuery a.commands cmd = false) := by
  have found : a.commands[cmd]? = some a.commands[cmd] := List.getElem?_eq_getElem known
  have ok := (table cmd _ found).type
  unfold State.typeOf isQuery
  rw [found, Option.map_some, Option.any_some]
  generalize a.commands[cmd].type = type at ok
  cases type with
  | query => exact .inl ⟨Eq.refl _, Eq.refl _⟩
  | interrupt => exact .inr ⟨Eq.refl _, Eq.refl _⟩
  | disconnect => exact absurd (Eq.refl _) ok

theorem Drive.Fit.grown {commands later : List SessionCommand} (fit : drive.Fit commands)
    (grown : Grown commands later) : drive.Fit later := by
  refine ⟨grown.sentOf fit.1, fun cmd taken => grown.known (fit.2.1 cmd taken), ?_⟩
  intro cmd parked
  rw [grown.isQuery]
  exact fit.2.2 cmd parked

/-- The loop runs a command that it has taken from its place. -/
theorem runCommand_spec (table : TableOk false a.commands)
    (queue : ∀ i ∈ a.queue, i < a.commands.length) (known : cmd < a.commands.length) :
    Served (a.runCommand cmd) ∧ Grown a.commands (a.runCommand cmd).commands ∧
      waitingQueries (a.runCommand cmd) =
        a.queue.filter (isQuery a.commands) ++ [cmd].filter (isQuery a.commands) := by
  unfold State.runCommand
  cases typeOf_cases table known with
  | inl query =>
    rw [query.1]
    refine ⟨⟨table, queue, query.2⟩, .rfl, ?_⟩
    simp [waitingQueries, Phase.unsent, query.2]
  | inr other =>
    rw [other.1]
    have grown := Grown.complete a cmd none
    refine ⟨⟨table.finish other.2, fun i member => grown.known (queue i member), trivial⟩, grown, ?_⟩
    have same := grown.isQuery
    simp only [waitingQueries, Phase.unsent, same, other.2, List.filter_singleton]
    rfl

theorem resume_spec (table : TableOk false a.commands)
    (queue : ∀ i ∈ a.queue, i < a.commands.length) (deferred : Option Nat)
    (known : ∀ cmd, deferred = some cmd → cmd < a.commands.length) :
    Served (a.resume deferred) ∧ Grown a.commands (a.resume deferred).commands ∧
      waitingQueries (a.resume deferred) =
        a.queue.filter (isQuery a.commands) ++ deferred.toList.filter (isQuery a.commands) := by
  cases deferred with
  | none => exact ⟨⟨table, queue, trivial⟩, .rfl, by simp [waitingQueries, State.resume, Phase.unsent]⟩
  | some cmd => exact runCommand_spec table queue (known cmd rfl)

/-- The end of a stream puts every query in hand to another place. -/
theorem streamEnded_spec (served : Served a) (phase : a.phase = .waiting drive) :
    Served (a.streamEnded drive) ∧ Grown a.commands (a.streamEnded drive).commands ∧
      (waitingQueries (a.streamEnded drive)).Perm (waitingQueries a) := by
  have table := served.table
  have fit := served.fit
  rw [phase] at table fit
  have grown := Grown.setDone a drive.query
  have doneTable : TableOk false (a.setDone drive.query).commands := TableOk.setDone table fit.1
  have query := grown.isQuery
  have here : waitingQueries a = a.queue.filter (isQuery a.commands) ++
      (drive.cmdTask.unsent (isQuery a.commands) ++ drive.pendingQuery.toList) := by
    rw [waitingQueries, phase]
    rfl
  rw [here]
  have queue : ∀ i ∈ a.queue, i < (a.setDone drive.query).commands.length :=
    fun i member => grown.known (served.queue i member)
  have known : ∀ i, isQuery a.commands i = true → i < (a.setDone drive.query).commands.length :=
    fun i isQ => grown.known (known_of_isQuery isQ)
  unfold State.streamEnded
  cases parked : drive.pendingQuery with
  | none =>
    cases task : drive.cmdTask with
    | pending =>
      obtain ⟨ok, more, waiting⟩ := resume_spec doneTable queue none nofun
      refine ⟨ok, grown.trans more, ?_⟩
      simp only [waiting, query, CmdTask.unsent]
      exact List.Perm.refl _
    | taken cmd =>
      obtain ⟨ok, more, waiting⟩ := resume_spec doneTable queue (some cmd)
        (fun other same => by
          rw [← Option.some.inj same]
          exact grown.known (fit.2.1 cmd task))
      refine ⟨ok, grown.trans more, ?_⟩
      simp only [waiting, query, CmdTask.unsent, Option.toList_some, Option.toList_none,
        List.append_nil]
      exact List.Perm.refl _
  | some first =>
    have isQ := fit.2.2 first parked
    cases task : drive.cmdTask with
    | pending =>
      obtain ⟨ok, more, waiting⟩ := resume_spec doneTable queue (some first)
        (fun other same => by
          rw [← Option.some.inj same]
          exact known first isQ)
      refine ⟨ok, grown.trans more, ?_⟩
      simp only [waiting, query, CmdTask.unsent, Option.toList_some, List.filter_singleton, isQ,
        List.nil_append]
      exact List.Perm.refl _
    | taken cmd =>
      have more : ∀ i ∈ a.queue ++ [cmd], i < (a.setDone drive.query).commands.length := by
        intro i member
        cases List.mem_append.mp member with
        | inl old => exact queue i old
        | inr last =>
          rw [List.mem_singleton.mp last]
          exact grown.known (fit.2.1 cmd task)
      obtain ⟨ok, grown', waiting⟩ := resume_spec (a := { a.setDone drive.query with
          queue := (a.setDone drive.query).queue ++ [cmd] }) doneTable more (some first)
        (fun other same => by
          rw [← Option.some.inj same]
          exact known first isQ)
      refine ⟨ok, grown.trans grown', ?_⟩
      simp only [waiting, query, CmdTask.unsent, Option.toList_some, List.filter_append,
        List.filter_singleton, isQ, List.append_assoc]
      exact List.Perm.refl _

/-- A taken command is parked or goes to the client; a second waiting query is not there. -/
theorem handleCmd_spec (drive : Drive) (table : TableOk false a.commands)
    (queue : ∀ i ∈ a.queue, i < a.commands.length) (fit : drive.Fit a.commands)
    (single : (drive.cmdTask.unsent (isQuery a.commands) ++ drive.pendingQuery.toList).length ≤ 1) :
    Served (a.handleCmd drive) ∧ Grown a.commands (a.handleCmd drive).commands ∧
      (waitingQueries (a.handleCmd drive)).Perm (a.queue.filter (isQuery a.commands) ++
        (drive.cmdTask.unsent (isQuery a.commands) ++ drive.pendingQuery.toList)) := by
  unfold State.handleCmd
  cases task : drive.cmdTask with
  | pending =>
    refine ⟨⟨table, queue, fit⟩, .rfl, ?_⟩
    rw [waitingQueries, Phase.unsent, task]
  | taken cmd =>
    rw [task] at single
    cases typeOf_cases table (fit.2.1 cmd task) with
    | inl query =>
      simp only [query.1, if_true]
      cases parked : drive.pendingQuery with
      | some first =>
        rw [parked] at single
        simp [CmdTask.unsent, query.2] at single
      | none =>
        refine ⟨⟨table, queue, fit.1, nofun, ?_⟩, .rfl, ?_⟩
        · intro other same
          rw [← Option.some.inj same]
          exact query.2
        · simp only [waitingQueries, Phase.unsent, CmdTask.unsent, List.filter_singleton, query.2,
            Option.toList_some, Option.toList_none, List.append_nil, List.nil_append]
          exact List.Perm.refl _
    | inr other =>
      have isOther : a.typeOf cmd ≠ some .query := by
        rw [other.1]
        decide
      simp only [if_neg isOther]
      refine ⟨⟨table, queue, fit, task, other.2⟩, .rfl, ?_⟩
      rw [waitingQueries, Phase.unsent, task]

theorem Grown.releasePending (a : State) (pendingQuery : Option Nat) :
    Grown a.commands (a.releasePending pendingQuery).commands := by
  unfold State.releasePending
  split
  · split_ifs
    · exact .rfl
    · exact .complete a _ _
  · exact .rfl

theorem TableOk.releasePending {dead : Bool} (table : TableOk dead a.commands)
    (pendingQuery : Option Nat) : TableOk true (a.releasePending pendingQuery).commands := by
  unfold State.releasePending
  split
  · split_ifs
    · exact table.mono
    · exact table.fail _
  · exact table.mono

theorem sentOf_releasePending {dead : Bool} (table : TableOk dead a.commands)
    (query : isQuery a.commands cmd = true) :
    sentOf (a.releasePending (some cmd)).commands cmd = true := by
  obtain ⟨row, found, -⟩ := (Option.any_eq_true _ _).mp query
  simp only [State.releasePending, Option.bind_some, found, Option.map_some]
  split_ifs with done
  · rw [sentOf, found]
    exact (table cmd row found).done done
  · exact sentOf_complete _ (known_of_isQuery query)

theorem queue_raise (fault : Fault) : (a.raise drive fault).queue = a.queue := by
  unfold State.raise State.releasePending
  split
  · split_ifs <;> rfl
  · rfl

/-- An exception ends the loop; the parked query gets its error. -/
theorem raise_spec {dead : Bool} (table : TableOk dead a.commands)
    (queue : ∀ i ∈ a.queue, i < a.commands.length) (fit : drive.Fit a.commands) (fault : Fault)
    (free : drive.cmdTask.unsent (isQuery a.commands) = []) :
    Served (a.raise drive fault) ∧ Grown a.commands (a.raise drive fault).commands ∧
      (a.raise drive fault).phase.dead = true ∧
      ∀ i ∈ a.queue.filter (isQuery a.commands) ++
        (drive.cmdTask.unsent (isQuery a.commands) ++ drive.pendingQuery.toList),
        i ∈ waitingQueries (a.raise drive fault) ∨
          sentOf (a.raise drive fault).commands i = true := by
  have released := Grown.releasePending a drive.pendingQuery
  have failed := Grown.complete (a.releasePending drive.pendingQuery) drive.query (some fault)
  have grown : Grown a.commands (a.raise drive fault).commands := released.trans failed
  refine ⟨⟨?_, ?_, trivial⟩, grown, rfl, ?_⟩
  · exact (table.releasePending drive.pendingQuery).fail fault
  · rw [queue_raise]
    exact fun i member => grown.known (queue i member)
  · intro i member
    rw [free, List.nil_append] at member
    cases List.mem_append.mp member with
    | inl queued =>
      left
      rw [waitingQueries, queue_raise, grown.isQuery]
      exact List.mem_append_left _ queued
    | inr parked =>
      right
      have isParked := Option.mem_toList.mp parked
      refine failed.sentOf ?_
      rw [isParked]
      exact sentOf_releasePending table (fit.2.2 i isParked)

/-- The drain answers what is in the queue. -/
theorem drain_spec (fault : Fault) (queue : List Nat) :
    ∀ a : State, TableOk true a.commands → (∀ i ∈ queue, i < a.commands.length) →
      let b := queue.foldl (fun s cmd => if s.commands[cmd]?.any SessionCommand.done then s
        else s.complete cmd (some fault)) a
      TableOk true b.commands ∧ Grown a.commands b.commands ∧
        ∀ i ∈ queue, sentOf b.commands i = true := by
  induction queue with
  | nil => exact fun a table _ => ⟨table, .rfl, fun i member => nomatch member⟩
  | cons cmd queue ih =>
    intro a table known
    have isKnown := known cmd (List.mem_cons_self ..)
    simp only [List.foldl_cons]
    by_cases done : a.commands[cmd]?.any SessionCommand.done = true
    · rw [if_pos done]
      obtain ⟨ok, grown, sent⟩ := ih a table fun i member => known i (List.mem_cons_of_mem _ member)
      refine ⟨ok, grown, ?_⟩
      intro i member
      cases List.mem_cons.mp member with
      | inr later => exact sent i later
      | inl same =>
        rw [same]
        obtain ⟨row, found, isDone⟩ := (Option.any_eq_true _ _).mp done
        refine grown.sentOf ?_
        rw [sentOf, found]
        exact (table cmd row found).done isDone
    · rw [if_neg done]
      have first := Grown.complete a cmd (some fault)
      obtain ⟨ok, grown, sent⟩ := ih (a.complete cmd (some fault)) (table.fail fault)
        fun i member => first.known (known i (List.mem_cons_of_mem _ member))
      refine ⟨ok, first.trans grown, ?_⟩
      intro i member
      cases List.mem_cons.mp member with
      | inr later => exact sent i later
      | inl same =>
        rw [same]
        exact grown.sentOf (sentOf_complete _ isKnown)

theorem queried_spec (served : Served a) (phase : a.phase = .querying cmd)
    (fault receive : Option Fault) :
    Served (queried a cmd fault receive) ∧ Grown a.commands (queried a cmd fault receive).commands ∧
      sentOf (queried a cmd fault receive).commands cmd = true ∧
      waitingQueries a = waitingQueries (queried a cmd fault receive) ++ [cmd] := by
  have table := served.table
  have query : isQuery a.commands cmd = true := by
    have fit := served.fit
    rw [phase] at fit
    exact fit
  rw [phase] at table
  have known := known_of_isQuery query
  have here : waitingQueries a = a.queue.filter (isQuery a.commands) ++ [cmd] := by
    rw [waitingQueries, phase]
    rfl
  have accepted := Grown.accept a cmd
  have isSent : sentOf (accept a cmd).commands cmd = true := by
    unfold sentOf accept
    simp [known]
  rw [here]
  cases fault with
  | some fault =>
    have grown := Grown.complete a cmd (some fault)
    refine ⟨⟨table.fail fault, fun i member => grown.known (served.queue i member), trivial⟩, grown,
      sentOf_complete _ known, ?_⟩
    rw [waitingQueries]
    simp only [queried, Phase.unsent, List.append_nil, grown.isQuery]
    rfl
  | none =>
    cases receive with
    | none =>
      refine ⟨⟨TableOk.accept table, fun i member => accepted.known (served.queue i member), isSent,
        nofun, nofun⟩, accepted, isSent, ?_⟩
      rw [waitingQueries]
      simp only [queried, Phase.unsent, CmdTask.unsent, Option.toList_none, List.append_nil,
        accepted.isQuery]
      rfl
    | some fault =>
      have failed := Grown.complete (accept a cmd) cmd (some fault)
      have grown := accepted.trans failed
      have stillTable : TableOk false (accept a cmd).commands := TableOk.accept table
      refine ⟨⟨stillTable.fail fault, fun i member => grown.known (served.queue i member), trivial⟩,
        grown, failed.sentOf isSent, ?_⟩
      rw [waitingQueries]
      simp only [queried, Phase.unsent, List.append_nil, grown.isQuery]
      rfl

theorem wake_spec (served : Served a) (phase : a.phase = .waiting drive)
    (single : (waitingQueries a).length ≤ 1) (onMessage : Option Fault)
    (free : ∀ fault, msgOutcome drive.msgTask onMessage = .raised fault →
      drive.cmdTask.unsent (isQuery a.commands) = []) :
    Served (wake a drive onMessage) ∧ Grown a.commands (wake a drive onMessage).commands ∧
      Held a (wake a drive onMessage) := by
  have table := served.table
  have fit := served.fit
  rw [phase] at table fit
  have here : waitingQueries a = a.queue.filter (isQuery a.commands) ++
      (drive.cmdTask.unsent (isQuery a.commands) ++ drive.pendingQuery.toList) := by
    rw [waitingQueries, phase]
    rfl
  have few : (drive.cmdTask.unsent (isQuery a.commands) ++ drive.pendingQuery.toList).length ≤ 1 := by
    rw [here, List.length_append] at single
    omega
  unfold wake Held
  rw [here]
  split
  · rename_i fault outcome
    obtain ⟨ok, grown, dead, held⟩ := raise_spec table served.queue fit fault (free fault outcome)
    exact ⟨ok, grown, .inr ⟨dead, held⟩⟩
  · obtain ⟨ok, grown, same⟩ := streamEnded_spec served phase
    rw [here] at same
    exact ⟨ok, grown, .inl same⟩
  · obtain ⟨ok, grown, same⟩ := handleCmd_spec { drive with msgTask := .pending } table
      served.queue fit few
    exact ⟨ok, grown, .inl same⟩
  · obtain ⟨ok, grown, same⟩ := handleCmd_spec drive table served.queue fit few
    exact ⟨ok, grown, .inl same⟩

theorem interrupted_spec (served : Served a) (phase : a.phase = .interrupting drive cmd)
    (fault : Option Fault) :
    Served (interrupted a drive cmd fault) ∧
      Grown a.commands (interrupted a drive cmd fault).commands ∧
      Held a (interrupted a drive cmd fault) := by
  have table := served.table
  have fit := served.fit
  rw [phase] at table fit
  obtain ⟨fit, taken, other⟩ := fit
  have isInterrupt : a.typeOf cmd = some .interrupt := by
    cases typeOf_cases table (fit.2.1 cmd taken) with
    | inl query =>
      rw [query.2] at other
      cases other
    | inr found => exact found.1
  have free : drive.cmdTask.unsent (isQuery a.commands) = [] := by
    rw [taken, CmdTask.unsent, List.filter_singleton, other]
    rfl
  have here : waitingQueries a = a.queue.filter (isQuery a.commands) ++
      (drive.cmdTask.unsent (isQuery a.commands) ++ drive.pendingQuery.toList) := by
    rw [waitingQueries, phase]
    rfl
  unfold interrupted Held
  rw [if_pos isInterrupt, here]
  have completed := fun error => Grown.complete a cmd error
  cases fault with
  | some fault =>
    have grown := completed (some fault)
    have still : drive.cmdTask.unsent (isQuery (a.complete cmd (some fault)).commands) = [] := by
      rw [grown.isQuery]
      exact free
    obtain ⟨ok, more, dead, held⟩ := raise_spec (a := a.complete cmd (some fault)) (table.fail fault)
      (fun i member => grown.known (served.queue i member)) (fit.grown grown) fault still
    rw [grown.isQuery] at held
    exact ⟨ok, grown.trans more, .inr ⟨dead, held⟩⟩
  | none =>
    have grown := completed none
    have later := fit.grown grown
    refine ⟨⟨table.finish other, fun i member => grown.known (served.queue i member), later.1, nofun,
      later.2.2⟩, grown, .inl ?_⟩
    rw [free, waitingQueries]
    simp only [Phase.unsent, CmdTask.unsent, grown.isQuery]
    exact List.Perm.refl _

theorem exited_spec (served : Served a) {earlier : Option Fault} (phase : a.phase = .exiting earlier)
    (fault : Option Fault) :
    Served (a.drain fault) ∧ Grown a.commands (a.drain fault).commands ∧ Held a (a.drain fault) := by
  have table := served.table
  rw [phase] at table
  obtain ⟨ok, grown, sent⟩ := drain_spec (fault.getD .actorClosed) a.queue a table served.queue
  refine ⟨⟨ok, nofun, trivial⟩, grown, .inr ⟨rfl, ?_⟩⟩
  intro i member
  right
  rw [waitingQueries, phase] at member
  cases List.mem_append.mp member with
  | inl queued => exact sent i (List.mem_of_mem_filter queued)
  | inr hand => cases hand

/-- What a step of the actor does to its queries, apart from the answer of `client.query`. -/
theorem step_spec (served : Served a) {next : Step}
    (single : a.phase.dead = false → (waitingQueries a).length ≤ 1)
    (own : ∀ type, next ≠ .enqueue type) (starts : ∀ fault, next ≠ .connected (some fault))
    (other : ∀ fault receive, next ≠ .queried fault receive)
    (free : ∀ drive onMessage fault, a.phase = .waiting drive → next = .wake onMessage →
      msgOutcome drive.msgTask onMessage = .raised fault →
        drive.cmdTask.unsent (isQuery a.commands) = [])
    (moved : step a next = some b) :
    Served b ∧ Grown a.commands b.commands ∧ Held a b := by
  have table := served.table
  have fit := served.fit
  cases next with
  | enqueue type => exact absurd rfl (own type)
  | queried fault receive => exact absurd rfl (other fault receive)
  | connected fault =>
    cases fault with
    | some fault => exact absurd rfl (starts fault)
    | none =>
      simp only [step] at moved
      split at moved
      · rename_i phase _
        rw [phase] at table
        rw [← Option.some.inj moved]
        refine ⟨⟨table, served.queue, trivial⟩, .rfl, .inl ?_⟩
        simp only [waitingQueries, phase, Phase.unsent]
        exact List.Perm.refl _
      · rename_i isSome
        cases isSome
      · cases moved
  | take =>
    rw [step] at moved
    split at moved
    · rename_i cmd later phase queue
      rw [phase] at table
      have known : ∀ i ∈ cmd :: later, i < a.commands.length := queue ▸ served.queue
      obtain ⟨ok, grown, waiting⟩ := runCommand_spec (a := { a with queue := later }) table
        (fun i member => known i (List.mem_cons_of_mem _ member)) (known cmd (List.mem_cons_self ..))
      rw [← Option.some.inj moved]
      refine ⟨ok, grown, .inl ?_⟩
      have here : waitingQueries a = (cmd :: later).filter (isQuery a.commands) := by
        simp only [waitingQueries, phase, queue, Phase.unsent, List.append_nil]
      rw [waiting, here]
      show (later.filter _ ++ [cmd].filter _).Perm _
      rw [← List.filter_append]
      exact (List.perm_append_singleton cmd later).filter _
    · cases moved
  | received msgTask =>
    rw [step] at moved
    split at moved
    · rename_i drive phase
      rw [phase] at table fit
      split_ifs at moved
      rw [← Option.some.inj moved]
      refine ⟨⟨table, served.queue, fit⟩, .rfl, .inl ?_⟩
      simp only [waitingQueries, phase, Phase.unsent]
      exact List.Perm.refl _
    · rename_i drive cmd phase
      rw [phase] at table fit
      split_ifs at moved
      rw [← Option.some.inj moved]
      refine ⟨⟨table, served.queue, fit⟩, .rfl, .inl ?_⟩
      simp only [waitingQueries, phase, Phase.unsent]
      exact List.Perm.refl _
    · cases moved
  | cmdReady =>
    rw [step] at moved
    split at moved
    · rename_i drive cmd later phase queue
      rw [phase] at table fit
      split_ifs at moved with pending
      have known : ∀ i ∈ cmd :: later, i < a.commands.length := queue ▸ served.queue
      rw [← Option.some.inj moved]
      refine ⟨⟨table, fun i member => known i (List.mem_cons_of_mem _ member), fit.1, ?_, fit.2.2⟩,
        .rfl, .inl ?_⟩
      · intro other same
        rw [← CmdTask.taken.inj same]
        exact known cmd (List.mem_cons_self ..)
      · simp only [waitingQueries, phase, queue, Phase.unsent, pending, CmdTask.unsent, List.nil_append]
        rw [← List.append_assoc, ← List.filter_append]
        exact ((List.perm_append_singleton cmd later).filter _).append_right _
    · cases moved
  | wake onMessage =>
    rw [step] at moved
    split at moved
    · rename_i drive phase
      split_ifs at moved
      rw [← Option.some.inj moved]
      exact wake_spec served phase (single (by rw [phase]; rfl)) onMessage
        fun fault outcome => free drive onMessage fault phase rfl outcome
    · cases moved
  | interrupted fault =>
    rw [step] at moved
    split at moved
    · rename_i drive cmd phase
      rw [← Option.some.inj moved]
      exact interrupted_spec served phase fault
    · cases moved
  | exited fault =>
    rw [step] at moved
    split at moved
    · rename_i earlier phase
      rw [← Option.some.inj moved]
      exact exited_spec served phase _
    · cases moved

theorem enqueue_spec (served : Served a) (type : CommandType) (plain : type ≠ .disconnect) :
    Served (enqueue a type) ∧
      (∀ i : Nat, i < a.commands.length →
        (enqueue a type).commands[i]? = a.commands[i]?) ∧
      (enqueue a type).commands.length = a.commands.length + 1 ∧
      (enqueue a type).phase = a.phase := by
  have table := served.table
  have kept : ∀ (rest : List SessionCommand) (i : Nat), i < a.commands.length →
      (a.commands ++ rest)[i]? = a.commands[i]? :=
    fun rest i known => List.getElem?_append_left known
  have same : ∀ rest, (∀ i, i < a.commands.length → isQuery (a.commands ++ rest) i =
      isQuery a.commands i) ∧ ∀ i, sentOf a.commands i = true → sentOf (a.commands ++ rest) i = true := by
    intro rest
    constructor
    · intro i known
      rw [isQuery, kept rest i known]
      rfl
    · intro i sent
      obtain ⟨row, found, isSent⟩ := (Option.any_eq_true _ _).mp sent
      have known := (List.getElem?_eq_some_iff.mp found).1
      rw [sentOf, kept rest i known]
      exact sent
  have fitted : ∀ rest, a.phase.Fit (a.commands ++ rest) := by
    intro rest
    have fit := served.fit
    have drives : ∀ drive : Drive, drive.Fit a.commands → drive.Fit (a.commands ++ rest) := by
      intro drive fit
      refine ⟨(same rest).2 _ fit.1, ?_, ?_⟩
      · intro cmd taken
        rw [List.length_append]
        exact Nat.lt_add_right _ (fit.2.1 cmd taken)
      · intro cmd parked
        have query := fit.2.2 cmd parked
        rw [(same rest).1 cmd (known_of_isQuery query)]
        exact query
    cases phase : a.phase with
    | querying cmd =>
      rw [phase] at fit
      exact ((same rest).1 cmd (known_of_isQuery fit)).trans fit
    | waiting drive =>
      rw [phase] at fit
      exact drives drive fit
    | interrupting drive cmd =>
      rw [phase] at fit
      refine ⟨drives drive fit.1, fit.2.1, ?_⟩
      rw [(same rest).1 cmd (fit.1.2.1 cmd fit.2.1)]
      exact fit.2.2
    | _ => trivial
  have rows : ∀ row, RowOk a.phase.dead row → TableOk a.phase.dead (a.commands ++ [row]) := by
    intro row ok i found isFound
    by_cases known : i < a.commands.length
    · rw [kept [row] i known] at isFound
      exact table i found isFound
    · rw [List.getElem?_append_right (Nat.le_of_not_lt known)] at isFound
      rw [← List.mem_singleton.mp (List.mem_of_getElem? isFound)] at ok
      exact ok
  unfold enqueue
  split
  · rename_i fault phase
    refine ⟨⟨?_, ?_, fitted _⟩, kept _, by simp, rfl⟩
    · exact rows _ ⟨plain, fun _ => rfl, (fun _ _ none => nomatch none), fun _ => by rw [phase]; rfl⟩
    · intro i member
      rw [List.length_append]
      exact Nat.lt_add_right _ (served.queue i member)
  · refine ⟨⟨?_, ?_, fitted _⟩, kept _, by simp, rfl⟩
    · exact rows _ ⟨plain, (fun done => nomatch done), (fun _ sent => nomatch sent),
        fun error => absurd rfl error⟩
    · intro i member
      simp only [List.length_append, List.length_singleton]
      cases List.mem_append.mp member with
      | inl old => exact Nat.lt_succ_of_lt (served.queue i old)
      | inr last =>
        rw [List.mem_singleton.mp last]
        exact Nat.lt_succ_self _

/-- A new query waits behind the others, or has its error at once. -/
theorem waiting_enqueue (served : Served a) :
    (waitingQueries (enqueue a .interrupt) = waitingQueries a) ∧
      ((waitingQueries (enqueue a .query)).Perm (a.commands.length :: waitingQueries a) ∨
        waitingQueries (enqueue a .query) = waitingQueries a ∧ a.phase.dead = true ∧
          sentOf (enqueue a .query).commands a.commands.length = true) := by
  have old : ∀ (row : SessionCommand) (i : Nat), i < a.commands.length →
      isQuery (a.commands ++ [row]) i = isQuery a.commands i := by
    intro row i known
    rw [isQuery, List.getElem?_append_left known]
    rfl
  have queue : ∀ row, a.queue.filter (isQuery (a.commands ++ [row])) =
      a.queue.filter (isQuery a.commands) :=
    fun row => List.filter_congr fun i member => old row i (served.queue i member)
  have hand : ∀ row, a.phase.unsent (isQuery (a.commands ++ [row])) =
      a.phase.unsent (isQuery a.commands) := by
    intro row
    have fit := served.fit
    have task : ∀ drive : Drive, drive.Fit a.commands →
        drive.cmdTask.unsent (isQuery (a.commands ++ [row])) =
          drive.cmdTask.unsent (isQuery a.commands) := by
      intro drive fit
      cases taken : drive.cmdTask with
      | pending => rfl
      | taken cmd =>
        rw [CmdTask.unsent, CmdTask.unsent, List.filter_singleton, List.filter_singleton,
          old row cmd (fit.2.1 cmd taken)]
    cases phase : a.phase with
    | waiting drive =>
      rw [phase] at fit
      rw [Phase.unsent, Phase.unsent, task drive fit]
    | interrupting drive cmd =>
      rw [phase] at fit
      rw [Phase.unsent, Phase.unsent, task drive fit.1]
    | _ => rfl
  have last : ∀ row : SessionCommand, isQuery (a.commands ++ [row]) a.commands.length =
      (row.type == .query) := by
    intro row
    simp [isQuery]
  unfold enqueue
  split
  · rename_i fault phase
    refine ⟨?_, .inr ⟨?_, ?_, ?_⟩⟩
    · rw [waitingQueries, queue, hand]
      rfl
    · rw [waitingQueries, queue, hand]
      rfl
    · rw [phase]
      rfl
    · simp [sentOf, SessionCommand.complete]
  · refine ⟨?_, .inl ?_⟩
    · rw [waitingQueries, List.filter_append, queue, hand, List.filter_singleton, last]
      show _ ++ [] ++ _ = _
      rw [List.append_nil, waitingQueries]
    · rw [waitingQueries, List.filter_append, queue, hand, List.filter_singleton, last]
      simp only [SessionCommand.new, waitingQueries, beq_self_eq_true, cond_true, List.append_assoc,
        List.singleton_append]
      exact List.perm_middle

end Invariant

end ArcReel.Agent.Actor
