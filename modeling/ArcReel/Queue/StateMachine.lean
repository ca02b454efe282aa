import ArcReel.Queue.Programs

/-! The task state machine: the transitions that the guarded updates allow, and
what they keep along every interleaved run. -/

namespace ArcReel.Queue
open ArcReel.Lib.SqlSession Relation
set_option linter.unusedSectionVars false

namespace TaskStatus

/-- The edges of the transition graph. -/
def edge : TaskStatus → TaskStatus → Bool
  | queued, running | queued, failed | queued, cancelled => true
  | running, queued | running, succeeded | running, failed => true
  | running, cancelling | running, cancelled | cancelling, cancelled => true
  | _, _ => false

end TaskStatus

/-- `cancelled_by` is set exactly when a cancellation was requested. -/
def Task.Attributed (t : Task) : Prop := t.cancelledBy.isSome = t.status.cancelRequested

structure Transition (t u : Task) : Prop where
  taskId : u.taskId = t.taskId
  projectName : u.projectName = t.projectName
  taskType : u.taskType = t.taskType
  dependencyTaskId : u.dependencyTaskId = t.dependencyTaskId
  status : u.status = t.status ∨ t.status.edge u.status = true
  cancelledBy : ∀ by_, t.cancelledBy = some by_ → u.cancelledBy = some by_

variable (codec : TextCodec)

theorem action_guarded : Guarded Task.Attributed Transition (action codec) where
  update := by
    intro now stmt hits f answer updates t attributed hit
    unfold Task.Attributed at *
    cases stmt <;>
      simp only [action, Action.update.injEq, reduceCtorEq] at updates <;>
      obtain ⟨rfl, rfl, -⟩ := updates
    all_goals
      simp only [Task.hits, setFailed, setCancelled, Bool.and_eq_true, Bool.or_eq_true,
        beq_iff_eq] at hit ⊢
      refine ⟨⟨rfl, rfl, rfl, rfl, ?_, ?_⟩, ?_⟩
    all_goals
      grind [TaskStatus.edge, TaskStatus.cancelRequested]
  insert := by
    intro now stmt row clashes done dup inserts
    cases stmt <;> simp only [action, Action.insert.injEq, reduceCtorEq] at inserts
    obtain ⟨rfl, -⟩ := inserts
    rfl

theorem action_keyed : Keyed Task.taskId Transition (action codec) where
  keeps moved := moved.taskId
  apart := by
    intro now stmt row clashes done dup inserts t apart
    cases stmt <;> simp only [action, Action.insert.injEq, reduceCtorEq] at inserts
    obtain ⟨rfl, rfl, -⟩ := inserts
    simp only [Task.clashes, Bool.or_eq_false_iff, beq_eq_false_iff_ne] at apart
    exact apart.1

/-! What a row keeps along any number of transitions. -/

theorem descends_taskId {t u : Task} (moved : ReflTransGen Transition t u) :
    u.taskId = t.taskId := by
  induction moved with
  | refl => rfl
  | tail _ step ih => rw [step.taskId, ih]

theorem descends_dependencyTaskId {t u : Task} (moved : ReflTransGen Transition t u) :
    u.dependencyTaskId = t.dependencyTaskId := by
  induction moved with
  | refl => rfl
  | tail _ step ih => rw [step.dependencyTaskId, ih]

theorem descends_cancelledBy {t u : Task} (moved : ReflTransGen Transition t u)
    {by_ : CancelledBy} (first : t.cancelledBy = some by_) : u.cancelledBy = some by_ := by
  induction moved with
  | refl => exact first
  | tail _ step ih => exact step.cancelledBy by_ ih

theorem descends_terminal {t u : Task} (moved : ReflTransGen Transition t u)
    (terminal : t.status.terminal = true) : u.status = t.status := by
  induction moved with
  | refl => rfl
  | @tail v u _ step ih =>
    rcases step.status with same | edge
    · rw [same, ih]
    · rw [ih] at edge
      cases status : t.status <;> simp_all [TaskStatus.edge, TaskStatus.terminal]

theorem descends_cancelling {t u : Task} (moved : ReflTransGen Transition t u)
    (cancelling : t.status = .cancelling) : u.status = .cancelling ∨ u.status = .cancelled := by
  induction moved with
  | refl => exact .inl cancelling
  | @tail v u before step ih =>
    rcases ih with still | ended
    · rcases step.status with same | edge
      · exact .inl (same.trans still)
      · rw [still] at edge
        cases status : u.status <;> simp_all [TaskStatus.edge]
    · have kept := descends_terminal (.single step) (by rw [ended]; rfl)
      exact .inr (kept.trans ended)

/-! A claimed task had its dependency succeed before the claim. -/

section Claims

variable {S : Type} [DecidableEq S]

theorem mem_committed_later {before after : List (Cell S Task)}
    (later : CellsLater Transition before after) {t : Task}
    (member : t ∈ before.filterMap Cell.committed) :
    ∃ u ∈ after.filterMap Cell.committed, ReflTransGen Transition t u := by
  obtain ⟨c, old, found⟩ := List.mem_filterMap.mp member
  obtain ⟨i, place⟩ := List.getElem?_of_mem old
  obtain ⟨d, place', moved⟩ := later i c place
  obtain ⟨u, found', descends⟩ := moved t found
  exact ⟨u, List.mem_filterMap.mpr ⟨d, List.mem_of_getElem? place', found'⟩, descends⟩

theorem dependencyMet_iff {table : List Task} {t : Task} :
    t.dependencyMet table = true ↔ ∀ d, t.dependencyTaskId = some d →
      ∃ q ∈ table, q.taskId = d ∧ q.status = .succeeded := by
  unfold Task.dependencyMet
  cases t.dependencyTaskId with
  | none => simp
  | some d => simp

theorem dependencyMet_later {before after : List (Cell S Task)}
    (later : CellsLater Transition before after) {t u : Task}
    (same : u.dependencyTaskId = t.dependencyTaskId)
    (met : t.dependencyMet (before.filterMap Cell.committed) = true) :
    u.dependencyMet (after.filterMap Cell.committed) = true := by
  rw [dependencyMet_iff] at *
  intro d depends
  obtain ⟨q, member, named, succeeded⟩ := met d (same ▸ depends)
  obtain ⟨q', member', moved⟩ := mem_committed_later later member
  refine ⟨q', member', (descends_taskId moved).trans named, ?_⟩
  rw [descends_terminal moved (by rw [succeeded]; rfl), succeeded]

theorem update_claimed {now : Nat} {stmt : Stmt} {hits : Task → Bool} {f : Task → Task}
    {answer : Nat → Next Stmt Out} (updates : action codec now stmt = .update hits f answer)
    {t : Task} (hit : hits t = true) (claimed : (f t).status.claimed = true) :
    t.status.claimed = true ∨ ∃ claimedAt, stmt = .updateClaimed t.taskId claimedAt := by
  cases stmt <;> simp only [action, Action.update.injEq, reduceCtorEq] at updates <;>
    obtain ⟨rfl, rfl, -⟩ := updates <;>
    simp_all [Task.hits, setFailed, setCancelled, TaskStatus.claimed]

/-- Only the claim query schedules a claim, of a row whose dependency it has seen succeed. -/
theorem push_updateClaimed {now : Nat} {stmt : Stmt} {table : List Task} {push : List Stmt}
    {emit : List Out} (answered : (action codec now stmt).answer table = .go push emit)
    {taskId : String} {claimedAt : Nat} (pushed : .updateClaimed taskId claimedAt ∈ push) :
    ∃ mediaType full excluded, stmt = .selectClaimable mediaType full excluded ∧
      ∃ t ∈ table, t.taskId = taskId ∧ t.dependencyMet table = true := by
  cases stmt with
  | selectClaimable mediaType full excluded =>
    simp only [action, Action.answer] at answered
    split at answered
    next target others listed =>
      obtain ⟨rfl, -⟩ := Next.go.inj answered
      have same := List.mem_singleton.mp pushed
      simp only [Stmt.updateClaimed.injEq] at same
      have member : target ∈ byQueuedAt
          (table.filter (claimable table mediaType full excluded)) := by simp [listed]
      rw [mem_byQueuedAt, List.mem_filter] at member
      refine ⟨mediaType, full, excluded, rfl, target, member.1, same.1.symm, ?_⟩
      have claimable := member.2
      simp only [Queue.claimable, Bool.and_eq_true] at claimable
      exact claimable.2
    next =>
      obtain ⟨rfl, -⟩ := Next.go.inj answered
      cases pushed
  | _ =>
    simp only [action, Action.answer] at answered
    repeat' split at answered
    all_goals
      simp only [Next.go.injEq, reduceCtorEq] at answered
      try
        obtain ⟨rfl, -⟩ := answered
        simp_all [mem_dispatchCancel]

/-- A claim in progress and every claimed version rest on a committed success. -/
structure ClaimsSound (w : World S Task Stmt Out) : Prop where
  sound : CellsSound Task.Attributed Transition w.cells
  distinct : KeysDistinct Task.taskId w.cells
  idle : ∀ s, (w.sessions s).todo = [] → Unlocked s w.cells
  opening : ∀ s, ∀ stmt ∈ (w.sessions s).todo, stmt.opening = true →
    (w.sessions s).todo = [stmt] ∧ Unlocked s w.cells
  claiming : ∀ s taskId claimedAt, .updateClaimed taskId claimedAt ∈ (w.sessions s).todo →
    ∃ t ∈ w.committed, t.taskId = taskId ∧ t.dependencyMet w.committed = true
  claimed : ∀ c ∈ w.cells, ∀ t ∈ c.versions, t.status.claimed = true →
    t.dependencyMet w.committed = true

theorem claimsSound_empty : ClaimsSound (World.empty (S := S)) where
  sound := by simp [CellsSound, World.empty]
  distinct := List.Pairwise.nil
  idle := by simp [Unlocked, World.empty]
  opening := by simp [World.empty]
  claiming := by simp [World.empty]
  claimed := by simp [World.empty]

theorem claiming_later {w : World S Task Stmt Out} {after : List (Cell S Task)}
    (later : CellsLater Transition w.cells after) {taskId : String}
    (claiming : ∃ t ∈ w.committed, t.taskId = taskId ∧ t.dependencyMet w.committed = true) :
    ∃ t ∈ after.filterMap Cell.committed, t.taskId = taskId ∧
      t.dependencyMet (after.filterMap Cell.committed) = true := by
  obtain ⟨t, member, named, met⟩ := claiming
  obtain ⟨u, member', moved⟩ := mem_committed_later later member
  exact ⟨u, member', (descends_taskId moved).trans named,
    dependencyMet_later later (descends_dependencyTaskId moved) met⟩

/-- A version that a statement of `s` has just written. -/
theorem claimed_apply {w : World S Task Stmt Out} (inv : ClaimsSound w) {s : S} {now : Nat}
    {stmt : Stmt} {rest : List Stmt} (todo : (w.sessions s).todo = stmt :: rest)
    {d : Cell S Task} (member : d ∈ (action codec now stmt).apply s w.cells) {t : Task}
    (version : t ∈ d.versions) (claimed : t.status.claimed = true) :
    t.dependencyMet w.committed = true := by
  rcases apply_versions member version with ⟨c, old, same⟩ |
    ⟨hits, f, answer, updates, c, old, q, oldVersion, seen, hit, rfl⟩ |
    ⟨clashes, done, dup, inserts⟩
  · exact inv.claimed c old t same claimed
  · have valid := (Cell.view_sound (inv.sound c old) seen).1
    have moved := ((action_guarded codec).update updates q valid hit).1
    have kept : q.dependencyMet w.committed = true := by
      rcases update_claimed codec updates hit claimed with before | ⟨claimedAt, rfl⟩
      · exact inv.claimed c old q oldVersion before
      · obtain ⟨u, base, named, met⟩ := inv.claiming s q.taskId claimedAt (by simp [todo])
        have descends := version_descends inv.sound inv.distinct base old oldVersion named
        exact dependencyMet_later .rfl (descends_dependencyTaskId descends) met
    exact dependencyMet_later .rfl moved.dependencyTaskId kept
  · cases stmt <;> simp only [action, Action.insert.injEq, reduceCtorEq] at inserts
    obtain ⟨rfl, -⟩ := inserts
    simp [EnqueueRequest.row, TaskStatus.claimed] at claimed

theorem program_updateClaimed {op : Op} {taskId : String} {claimedAt : Nat} :
    .updateClaimed taskId claimedAt ∉ program op := by
  cases op <;> simp [program]

/-- Closing or killing a session, or leaving it with statements it already had. -/
theorem claimsSound_resume {w : World S Task Stmt Out} (inv : ClaimsSound w) (s : S) :
    ClaimsSound (w.resume s [] []) := by
  obtain ⟨sound, later⟩ := resume_sound inv.sound s [] ([] : List Out)
  refine ⟨sound, resume_keysDistinct inv.distinct s [] [], ?_, ?_, ?_, ?_⟩
  · intro s' idle
    by_cases own : s' = s
    · subst own
      exact resume_nil_unlocked w s' []
    · rw [World.resume_sessions_of_ne _ own] at idle
      exact (inv.idle s' idle).resume s [] []
  · intro s' stmt member opening
    by_cases own : s' = s
    · simp [own] at member
    · simp only [World.resume_sessions_of_ne _ own] at member ⊢
      obtain ⟨only, unlocked⟩ := inv.opening s' stmt member opening
      exact ⟨only, unlocked.resume s [] ([] : List Out)⟩
  · intro s' taskId claimedAt member
    by_cases own : s' = s
    · simp [own] at member
    · simp only [World.resume_sessions_of_ne _ own] at member
      exact claiming_later later (inv.claiming s' taskId claimedAt member)
  · intro d member t version claimed
    obtain ⟨c, old, same⟩ := resume_versions member version
    exact dependencyMet_later later rfl (inv.claimed c old t same claimed)

theorem claimsSound_start {w : World S Task Stmt Out} (inv : ClaimsSound w) (s : S) (op : Op)
    (idle : (w.sessions s).todo = []) :
    ClaimsSound { w with sessions := Function.update w.sessions s ⟨program op, []⟩ } := by
  refine ⟨inv.sound, inv.distinct, ?_, ?_, ?_, inv.claimed⟩
  · intro s' idle'
    by_cases own : s' = s
    · exact own ▸ inv.idle s idle
    · simp only [Function.update_of_ne own] at idle'
      exact inv.idle s' idle'
  · intro s' stmt member opening
    by_cases own : s' = s
    · subst own
      simp only [Function.update_self] at member ⊢
      exact ⟨program_opening member opening, inv.idle s' idle⟩
    · simp only [Function.update_of_ne own] at member ⊢
      exact inv.opening s' stmt member opening
  · intro s' taskId claimedAt member
    by_cases own : s' = s
    · subst own
      simp only [Function.update_self] at member
      exact absurd member program_updateClaimed
    · simp only [Function.update_of_ne own] at member
      exact inv.claiming s' taskId claimedAt member

theorem opening_exec {w : World S Task Stmt Out} (inv : ClaimsSound w) {s : S} {now : Nat}
    {stmt : Stmt} {rest todo : List Stmt} {log : List Out}
    (waiting : (w.sessions s).todo = stmt :: rest)
    (answered : (action codec now stmt).Continues (w.rows s) rest (w.sessions s).log todo log)
    (next : Stmt) (member : next ∈ todo) (opens : next.opening = true) :
    todo = [next] ∧ Unlocked s (World.resume
      ⟨(action codec now stmt).apply s w.cells, w.sessions,
        (action codec now stmt).publish w.published (w.sessions s).log⟩ s todo log).cells := by
  rcases answered with ⟨push, emit, said, rfl, -⟩ | ⟨-, rfl, -⟩
  · rcases List.mem_append.mp member with pushed | old
    · obtain ⟨schedules, only⟩ := push_opening codec said next pushed opens
      obtain ⟨opening, answer, query⟩ := schedules.query codec now
      obtain ⟨alone, unlocked⟩ := inv.opening s stmt (by simp [waiting]) opening
      rw [waiting] at alone
      refine ⟨by rw [only, (List.cons.inj alone).2]; rfl, ?_⟩
      rw [query]
      exact Unlocked.resume (w := ⟨_, w.sessions, _⟩) unlocked s _ log
    · have alone := (inv.opening s next (by simp [waiting, old]) opens).1
      rw [waiting] at alone
      rw [(List.cons.inj alone).2] at old
      cases old
  · cases member

theorem claimsSound_exec {w v : World S Task Stmt Out} (inv : ClaimsSound w) {s : S} {now : Nat}
    {stmt : Stmt} {rest : List Stmt} (waiting : (w.sessions s).todo = stmt :: rest)
    (performed : w.perform s rest (action codec now stmt) = some v) : ClaimsSound v := by
  have taken : turn program (action codec) w (.exec s now) = some v := by
    simpa [turn, waiting] using performed
  obtain ⟨sound, later⟩ := turn_sound (action_guarded codec) inv.sound taken
  have distinct := turn_keysDistinct (action_guarded codec) (action_keyed codec)
    inv.sound inv.distinct taken
  obtain ⟨_, todo, log, rfl, answered⟩ := World.perform_eq_some performed
  have others : ∀ s' ≠ s, Unlocked s' w.cells → Unlocked s' (World.resume
      ⟨(action codec now stmt).apply s w.cells, w.sessions,
        (action codec now stmt).publish w.published (w.sessions s).log⟩ s todo log).cells :=
    fun s' other unlocked =>
      Unlocked.resume (w := ⟨_, w.sessions, _⟩) (unlocked.apply other _) s todo log
  refine ⟨sound, distinct, ?_, ?_, ?_, ?_⟩
  · intro s' idle
    by_cases own : s' = s
    · subst own
      simp only [World.resume_sessions_self] at idle
      subst idle
      exact resume_nil_unlocked _ s' log
    · rw [World.resume_sessions_of_ne _ own] at idle
      exact others s' own (inv.idle s' idle)
  · intro s' next member opens
    by_cases own : s' = s
    · subst own
      simp only [World.resume_sessions_self] at member ⊢
      exact opening_exec codec inv waiting answered next member opens
    · simp only [World.resume_sessions_of_ne _ own] at member
      obtain ⟨only, unlocked⟩ := inv.opening s' next member opens
      exact ⟨by simpa only [World.resume_sessions_of_ne _ own] using only,
        others s' own unlocked⟩
  · intro s' taskId claimedAt member
    by_cases own : s' = s
    · subst own
      simp only [World.resume_sessions_self] at member
      rcases answered with ⟨push, emit, said, rfl, -⟩ | ⟨-, rfl, -⟩
      · rcases List.mem_append.mp member with pushed | old
        · obtain ⟨mediaType, full, excluded, rfl, t, seen⟩ := push_updateClaimed codec said pushed
          have unlocked := (inv.opening s' _ (by rw [waiting]; exact .head _) rfl).2
          rw [World.rows, unlocked.rows_eq] at seen
          exact claiming_later later ⟨t, seen⟩
        · exact claiming_later later (inv.claiming s' taskId claimedAt (by simp [waiting, old]))
      · cases member
    · simp only [World.resume_sessions_of_ne _ own] at member
      exact claiming_later later (inv.claiming s' taskId claimedAt member)
  · intro d member t version claimed
    obtain ⟨c, here, same⟩ := resume_versions member version
    exact dependencyMet_later later rfl (claimed_apply codec inv waiting here same claimed)

theorem claimsSound_run {ts : List (Turn S Nat Op)} {w v : World S Task Stmt Out}
    (inv : ClaimsSound w) (ran : run program (action codec) ts w = some v) : ClaimsSound v := by
  refine run_induct ClaimsSound ?_ ts w v inv ran
  intro w v t inv taken
  rcases turn_eq_some taken with ⟨s, op, rfl, idle, rfl⟩ |
    ⟨s, now, stmt, rest, rfl, waiting, performed⟩ | ⟨s, rfl, rfl⟩
  · exact claimsSound_start inv s op idle
  · exact claimsSound_exec codec inv waiting performed
  · exact claimsSound_resume inv s

end Claims

variable {S : Type} [DecidableEq S]

/-- The state machine along whole runs: `w` is any reachable world, `v` any later one. -/
theorem task_state_machine (before after : List (Turn S Nat Op)) (w v : World S Task Stmt Out)
    (reached : run program (action codec) before World.empty = some w)
    (continued : run program (action codec) after w = some v) :
    ∀ t ∈ w.committed,
      (t.cancelledBy.isSome = true ↔ t.status = .cancelling ∨ t.status = .cancelled) ∧
      ∃ u ∈ v.committed, u.taskId = t.taskId ∧
        (∀ other ∈ v.committed, other.taskId = t.taskId → other = u) ∧
        (t.status = .succeeded ∨ t.status = .failed ∨ t.status = .cancelled →
          u.status = t.status) ∧
        (t.status = .cancelling → u.status = .cancelling ∨ u.status = .cancelled) ∧
        (∀ by_, t.cancelledBy = some by_ → u.cancelledBy = some by_) ∧
        (t.status = .running ∨ t.status = .cancelling ∨ t.status = .succeeded →
          ∀ d, t.dependencyTaskId = some d → u.dependencyTaskId = some d ∧
            ∃ q ∈ v.committed, q.taskId = d ∧ q.status = .succeeded) := by
  intro t member
  have inv := claimsSound_run codec claimsSound_empty reached
  have invLater := claimsSound_run codec inv continued
  obtain ⟨_, later⟩ := run_sound (action_guarded codec) after inv.sound continued
  obtain ⟨u, memberU, moved⟩ := mem_committed_later later member
  have same := descends_taskId moved
  obtain ⟨c, cell, found⟩ := List.mem_filterMap.mp member
  have attributed : t.cancelledBy.isSome = t.status.cancelRequested :=
    (inv.sound c cell).committed t found
  refine ⟨?_, u, memberU, same, ?_, ?_, descends_cancelling moved,
    fun by_ first => descends_cancelledBy moved first, ?_⟩
  · rw [attributed]
    cases t.status <;> simp [TaskStatus.cancelRequested]
  · intro other memberO named
    exact committed_unique invLater.distinct memberO memberU (named.trans same.symm)
  · intro terminal
    apply descends_terminal moved
    rcases terminal with status | status | status <;> rw [status] <;> rfl
  · intro claimed d depends
    have met := inv.claimed c cell t (Cell.committed_mem_versions found)
      (by rcases claimed with status | status | status <;> rw [status] <;> rfl)
    have stays := dependencyMet_later later (descends_dependencyTaskId moved) met
    have dependsU := (descends_dependencyTaskId moved).trans depends
    exact ⟨dependsU, dependencyMet_iff.mp stays d dependsU⟩

/-- A task is enqueued, claimed by one session and cancelled by another. -/
def cancelTurns : List (Turn Bool Nat Op) :=
  [.start true (.enqueue (.image "a" "p" "r" none)), .exec true 1, .exec true 1,
    .start true (.claimNext "image" [] []), .exec true 2, .exec true 2, .exec true 2, .exec true 2,
    .start false (.cancelTask "a"), .exec false 3, .exec false 3, .exec false 3]

/-- The worker then finalizes the cancellation. -/
def finalizeTurns : List (Turn Bool Nat Op) :=
  [.start true (.finalizeCancelled "a" .cascade), .exec true 4, .exec true 4, .exec true 4,
    .exec true 4]

private theorem cancelTurns_run :
    (run program (action plainCodec) cancelTurns World.empty).isSome := by decide

private theorem finalizeTurns_run :
    (run program (action plainCodec) finalizeTurns (Option.get _ cancelTurns_run)).isSome := by
  decide

theorem task_state_machine_cancelling :
    ∃ w v : World Bool Task Stmt Out,
      run program (action plainCodec) cancelTurns World.empty = some w ∧
      run program (action plainCodec) finalizeTurns w = some v ∧
      w.committed.map Task.status = [.cancelling] ∧ v.committed.map Task.status = [.cancelled] ∧
      ∀ t ∈ w.committed, ∃ u ∈ v.committed, u.taskId = t.taskId ∧
        ∀ by_, t.cancelledBy = some by_ → u.cancelledBy = some by_ := by
  refine ⟨_, _, (Option.some_get cancelTurns_run).symm, (Option.some_get finalizeTurns_run).symm,
    by decide, by decide, ?_⟩
  intro t member
  obtain ⟨_, u, found, named, _, _, _, attribution, _⟩ :=
    task_state_machine plainCodec cancelTurns finalizeTurns _ _
      (Option.some_get cancelTurns_run).symm (Option.some_get finalizeTurns_run).symm t member
  exact ⟨u, found, named, attribution⟩

end ArcReel.Queue
