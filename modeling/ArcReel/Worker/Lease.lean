import Mathlib.Data.Rat.Defs
import ArcReel.Lib.Dict
import ArcReel.Lib.Run

/-! The worker lease: `acquire_or_renew_lease` and `release_lease` of the task
repository, called by any number of workers. Times are seconds of one clock. -/

namespace ArcReel.Worker.Lease
open ArcReel.Lib

/-- A row of `worker_lease`, whose key is the name of the lease. -/
structure LeaseRow where
  ownerId : String
  leaseUntil : ℚ
  deriving DecidableEq, Repr

/-- What a `GenerationWorker` is started with. -/
structure WorkerConfig where
  leaseName : String
  leaseTtl : ℚ

/-- Where a worker is in `acquire_or_renew_lease`. -/
inductive Call where
  | idle
  | updating (nowEpoch leaseUntil : ℚ)
  | inserting (leaseUntil : ℚ)
  deriving DecidableEq, Repr

/-- A lease that was granted and that its owner has not released since. -/
structure Grant where
  name : String
  ownerId : String
  leaseUntil : ℚ
  deriving DecidableEq, Repr

structure State where
  clock : ℚ
  rows : Dict String LeaseRow
  calls : String → Call
  grants : List Grant

/-- No worker has called yet; the table may hold rows of earlier processes. -/
def State.start (clock : ℚ) (rows : Dict String LeaseRow) : State := ⟨clock, rows, fun _ => .idle, []⟩

inductive Step where
  | advance (clock : ℚ)
  | begin (ownerId : String)
  /-- The `UPDATE`; an answer may be lost after it took effect. -/
  | update (ownerId : String) (answered : Bool)
  /-- The `INSERT`, as above. -/
  | insert (ownerId : String) (answered : Bool)
  /-- The call is cancelled or raises without an effect. -/
  | abandon (ownerId : String)
  | release (ownerId : String)
  deriving DecidableEq, Repr

section Steps

variable (config : String → WorkerConfig) (s : State)

/-- `now_epoch + max(1.0, float(ttl))`. -/
def leaseUntil (ownerId : String) (nowEpoch : ℚ) : ℚ := nowEpoch + max 1 (config ownerId).leaseTtl

def State.setCall (ownerId : String) (call : Call) : String → Call :=
  fun other => if other = ownerId then call else s.calls other

/-- The lease is stored for the owner, who learns it if the answer arrives. -/
def State.grant (ownerId : String) (until_ : ℚ) (answered : Bool) : State :=
  let name := (config ownerId).leaseName
  { s with
    rows := s.rows.set name ⟨ownerId, until_⟩
    calls := s.setCall ownerId .idle
    grants := if answered then ⟨name, ownerId, until_⟩ :: s.grants else s.grants }

def begin (ownerId : String) : Option State :=
  match s.calls ownerId with
  | .idle => some { s with
      calls := s.setCall ownerId (.updating s.clock (leaseUntil config ownerId s.clock)) }
  | _ => none

/-- `WHERE owner_id = :owner OR lease_until <= :now`. -/
def LeaseRow.available (row : LeaseRow) (ownerId : String) (nowEpoch : ℚ) : Bool :=
  row.ownerId == ownerId || decide (row.leaseUntil ≤ nowEpoch)

def update (ownerId : String) (answered : Bool) : Option State :=
  match s.calls ownerId with
  | .updating nowEpoch until_ =>
      if (s.rows.get? (config ownerId).leaseName).any fun row => row.available ownerId nowEpoch then
        some (s.grant config ownerId until_ answered)
      else some { s with calls := s.setCall ownerId (.inserting until_) }
  | _ => none

/-- The primary key refuses a second row of the name. -/
def insert (ownerId : String) (answered : Bool) : Option State :=
  match s.calls ownerId with
  | .inserting until_ =>
      if (s.rows.get? (config ownerId).leaseName).isNone then
        some (s.grant config ownerId until_ answered)
      else some { s with calls := s.setCall ownerId .idle }
  | _ => none

def abandon (ownerId : String) : State := { s with calls := s.setCall ownerId .idle }

def release (ownerId : String) : Option State :=
  match s.calls ownerId with
  | .idle => some { s with
      rows := s.rows.filter fun name row =>
        !(name == (config ownerId).leaseName && row.ownerId == ownerId)
      grants := s.grants.filter fun grant => grant.ownerId != ownerId }
  | _ => none

def step : Step → Option State
  | .advance clock => if s.clock ≤ clock then some { s with clock } else none
  | .begin ownerId => begin config s ownerId
  | .update ownerId answered => update config s ownerId answered
  | .insert ownerId answered => insert config s ownerId answered
  | .abandon ownerId => some (abandon s ownerId)
  | .release ownerId => release config s ownerId

/-- `is_worker_online`. -/
def isWorkerOnline (name : String) : Bool :=
  (s.rows.get? name).any fun row => decide (s.clock < row.leaseUntil)

end Steps

/-- The end of the next lease that the worker can be granted, at the earliest. -/
def Call.nextUntil (config : String → WorkerConfig) (ownerId : String) (clock : ℚ) : Call → ℚ
  | .idle => leaseUntil config ownerId clock
  | .updating _ until_ => until_
  | .inserting until_ => until_

/-- A grant in force is covered by the stored row, and every later grant of its worker extends
it. The calls under way have read the clock before now. -/
structure Exclusive (config : String → WorkerConfig) (s : State) : Prop where
  named : ∀ grant ∈ s.grants, grant.name = (config grant.ownerId).leaseName
  stored : ∀ grant ∈ s.grants, s.clock < grant.leaseUntil → ∃ row,
    s.rows.get? grant.name = some row ∧ row.ownerId = grant.ownerId ∧
      grant.leaseUntil ≤ row.leaseUntil
  extended : ∀ grant ∈ s.grants,
    grant.leaseUntil ≤ (s.calls grant.ownerId).nextUntil config grant.ownerId s.clock
  past : ∀ ownerId nowEpoch until_, s.calls ownerId = .updating nowEpoch until_ →
    nowEpoch ≤ s.clock
  ahead : ∀ ownerId,
    (s.calls ownerId).nextUntil config ownerId s.clock ≤ leaseUntil config ownerId s.clock

variable {config : String → WorkerConfig} {s : State} {ownerId : String}

theorem exclusive_start (clock : ℚ) (rows : Dict String LeaseRow) :
    Exclusive config (.start clock rows) where
  named := by simp [State.start]
  stored := by simp [State.start]
  extended := by simp [State.start]
  past := by simp [State.start]
  ahead ownerId := le_refl _

theorem leaseUntil_mono {early late : ℚ} (later : early ≤ late) :
    leaseUntil config ownerId early ≤ leaseUntil config ownerId late := by
  unfold leaseUntil
  linarith

theorem setCall_self (call : Call) : s.setCall ownerId call ownerId = call := if_pos rfl

theorem setCall_other {other : String} (apart : other ≠ ownerId) (call : Call) :
    s.setCall ownerId call other = s.calls other := if_neg apart

/-- A worker changes its place in the call and nothing else. -/
theorem exclusive_setCall (exclusive : Exclusive config s) (call : Call)
    (past : ∀ nowEpoch until_, call = .updating nowEpoch until_ → nowEpoch ≤ s.clock)
    (further : (s.calls ownerId).nextUntil config ownerId s.clock ≤
      call.nextUntil config ownerId s.clock)
    (ahead : call.nextUntil config ownerId s.clock ≤ leaseUntil config ownerId s.clock) :
    Exclusive config { s with calls := s.setCall ownerId call } where
  named := exclusive.named
  stored := exclusive.stored
  extended grant member := by
    have before := exclusive.extended grant member
    by_cases same : grant.ownerId = ownerId
    · simp only [same, setCall_self] at before ⊢
      exact before.trans further
    · simp only [setCall_other same]
      exact before
  past other nowEpoch until_ here := by
    by_cases same : other = ownerId
    · subst same
      exact past nowEpoch until_ ((setCall_self call).symm.trans here)
    · exact exclusive.past other nowEpoch until_ ((setCall_other same call).symm.trans here)
  ahead other := by
    by_cases same : other = ownerId
    · simp only [same, setCall_self]
      exact ahead
    · simp only [setCall_other same]
      exact exclusive.ahead other

theorem exclusive_idle (exclusive : Exclusive config s) (ownerId : String) :
    Exclusive config { s with calls := s.setCall ownerId .idle } :=
  exclusive_setCall exclusive .idle (fun _ _ other => by cases other) (exclusive.ahead ownerId)
    (le_refl _)

/-- A lease is stored for a worker when no other worker has a grant in force. -/
theorem exclusive_grant (exclusive : Exclusive config s) {until_ : ℚ} (answered : Bool)
    (calling : (s.calls ownerId).nextUntil config ownerId s.clock = until_)
    (alone : ∀ grant ∈ s.grants, grant.name = (config ownerId).leaseName →
      s.clock < grant.leaseUntil → grant.ownerId = ownerId) :
    Exclusive config (s.grant config ownerId until_ answered) := by
  have soon : until_ ≤ leaseUntil config ownerId s.clock := calling ▸ exclusive.ahead ownerId
  have idle := exclusive_idle exclusive ownerId
  have new : ∀ grant ∈ (s.grant config ownerId until_ answered).grants,
      grant ∈ s.grants ∨ grant = ⟨(config ownerId).leaseName, ownerId, until_⟩ := by
    intro grant member
    simp only [State.grant] at member
    split_ifs at member
    · exact (List.mem_cons.mp member).symm
    · exact .inl member
  refine ⟨?_, ?_, ?_, idle.past, idle.ahead⟩
  · intro grant member
    cases new grant member with
    | inl old => exact exclusive.named grant old
    | inr fresh => rw [fresh]
  · intro grant member inForce
    simp only [State.grant, Dict.get?_set]
    cases new grant member with
    | inr fresh => exact ⟨⟨ownerId, until_⟩, by rw [fresh, if_pos rfl], by rw [fresh], by rw [fresh]⟩
    | inl old =>
      by_cases same : grant.name = (config ownerId).leaseName
      · have mine := alone grant old same inForce
        refine ⟨⟨ownerId, until_⟩, if_pos same, mine.symm, ?_⟩
        rw [← calling, ← mine]
        exact exclusive.extended grant old
      · rw [if_neg same]
        exact exclusive.stored grant old inForce
  · intro grant member
    cases new grant member with
    | inl old => exact idle.extended grant old
    | inr fresh =>
      rw [fresh]
      simp only [State.grant, setCall_self]
      exact soon

theorem exclusive_advance (exclusive : Exclusive config s) {clock : ℚ} (later : s.clock ≤ clock) :
    Exclusive config { s with clock } where
  named := exclusive.named
  stored grant member inForce := exclusive.stored grant member (later.trans_lt inForce)
  extended grant member := by
    have before := exclusive.extended grant member
    cases call : s.calls grant.ownerId with
    | idle =>
      rw [call] at before
      exact before.trans (leaseUntil_mono later)
    | updating nowEpoch until_ => rwa [call] at before
    | inserting until_ => rwa [call] at before
  past ownerId nowEpoch until_ here := (exclusive.past ownerId nowEpoch until_ here).trans later
  ahead ownerId := by
    have before := exclusive.ahead ownerId
    cases call : s.calls ownerId with
    | idle => exact le_refl _
    | updating nowEpoch until_ =>
      rw [call] at before
      exact before.trans (leaseUntil_mono later)
    | inserting until_ =>
      rw [call] at before
      exact before.trans (leaseUntil_mono later)

theorem exclusive_begin (exclusive : Exclusive config s) {t : State}
    (began : begin config s ownerId = some t) : Exclusive config t := by
  unfold begin at began
  cases call : s.calls ownerId with
  | idle =>
    simp only [call] at began
    rw [← Option.some.inj began]
    refine exclusive_setCall exclusive _ ?_ ?_ ?_
    · intro nowEpoch until_ same
      rw [(Call.updating.inj same).1]
    · rw [call]
      exact le_refl _
    · exact le_refl _
  | updating nowEpoch until_ => simp [call] at began
  | inserting until_ => simp [call] at began

/-- The condition of the `UPDATE` leaves no other grant in force. -/
theorem exclusive_update (exclusive : Exclusive config s) {answered : Bool} {t : State}
    (updated : update config s ownerId answered = some t) : Exclusive config t := by
  unfold update at updated
  cases call : s.calls ownerId with
  | idle => simp [call] at updated
  | inserting until_ => simp [call] at updated
  | updating nowEpoch until_ =>
    have calling : (s.calls ownerId).nextUntil config ownerId s.clock = until_ := by
      rw [call]
      rfl
    simp only [call] at updated
    split_ifs at updated with available
    · rw [← Option.some.inj updated]
      apply exclusive_grant exclusive answered calling
      intro grant member same inForce
      obtain ⟨row, found, owner, covered⟩ := exclusive.stored grant member inForce
      rw [← same, found, Option.any_some, LeaseRow.available, Bool.or_eq_true, beq_iff_eq,
        decide_eq_true_eq] at available
      cases available with
      | inl mine => exact owner.symm.trans mine
      | inr expired =>
        have past := exclusive.past ownerId nowEpoch until_ call
        linarith
    · rw [← Option.some.inj updated]
      refine exclusive_setCall exclusive _ (fun _ _ other => by cases other) ?_ ?_
      · rw [call]
        exact le_refl _
      · rw [← calling]
        exact exclusive.ahead ownerId

/-- Without a row of the name no grant of it is in force. -/
theorem exclusive_insert (exclusive : Exclusive config s) {answered : Bool} {t : State}
    (inserted : insert config s ownerId answered = some t) : Exclusive config t := by
  unfold insert at inserted
  cases call : s.calls ownerId with
  | idle => simp [call] at inserted
  | updating nowEpoch until_ => simp [call] at inserted
  | inserting until_ =>
    have calling : (s.calls ownerId).nextUntil config ownerId s.clock = until_ := by
      rw [call]
      rfl
    simp only [call] at inserted
    split_ifs at inserted with absent
    · rw [← Option.some.inj inserted]
      apply exclusive_grant exclusive answered calling
      intro grant member same inForce
      obtain ⟨row, found, -⟩ := exclusive.stored grant member inForce
      rw [← same, found] at absent
      cases absent
    · rw [← Option.some.inj inserted]
      exact exclusive_idle exclusive ownerId

theorem exclusive_release (exclusive : Exclusive config s) {t : State}
    (released : release config s ownerId = some t) : Exclusive config t := by
  unfold release at released
  cases call : s.calls ownerId with
  | updating nowEpoch until_ => simp [call] at released
  | inserting until_ => simp [call] at released
  | idle =>
    simp only [call] at released
    rw [← Option.some.inj released]
    refine ⟨?_, ?_, ?_, exclusive.past, exclusive.ahead⟩
    · exact fun grant member => exclusive.named grant (List.mem_filter.mp member).1
    · intro grant member inForce
      rw [List.mem_filter, bne_iff_ne] at member
      obtain ⟨row, found, owner, covered⟩ := exclusive.stored grant member.1 inForce
      refine ⟨row, ?_, owner, covered⟩
      rw [Dict.get?_filter, found]
      simp [owner, member.2]
    · exact fun grant member => exclusive.extended grant (List.mem_filter.mp member).1

theorem exclusive_step (s : State) (next : Step) (t : State) (exclusive : Exclusive config s)
    (stepped : step config s next = some t) : Exclusive config t := by
  cases next with
  | advance clock =>
    simp only [step] at stepped
    split_ifs at stepped with later
    rw [← Option.some.inj stepped]
    exact exclusive_advance exclusive later
  | begin ownerId => exact exclusive_begin exclusive stepped
  | update ownerId answered => exact exclusive_update exclusive stepped
  | insert ownerId answered => exact exclusive_insert exclusive stepped
  | abandon ownerId =>
    rw [← Option.some.inj stepped]
    exact exclusive_idle exclusive ownerId
  | release ownerId => exact exclusive_release exclusive stepped

/-- All grants of a lease that are in force belong to one owner, who owns the stored row. -/
theorem lease_mutual_exclusion {clock : ℚ} {rows : Dict String LeaseRow} {steps : List Step}
    {s : State} (ran : runSteps (step config) steps (.start clock rows) = some s)
    {grant other : Grant} (granted : grant ∈ s.grants) (inForce : s.clock < grant.leaseUntil)
    (granted' : other ∈ s.grants) (inForce' : s.clock < other.leaseUntil)
    (same : other.name = grant.name) :
    other.ownerId = grant.ownerId ∧
      ∃ row, s.rows.get? grant.name = some row ∧ row.ownerId = grant.ownerId := by
  have exclusive := runSteps_induct exclusive_step (exclusive_start clock rows) ran
  obtain ⟨row, found, owner, -⟩ := exclusive.stored grant granted inForce
  obtain ⟨row', found', owner', -⟩ := exclusive.stored other granted' inForce'
  rw [same, found] at found'
  refine ⟨?_, row, found, owner⟩
  calc other.ownerId = row'.ownerId := owner'.symm
    _ = row.ownerId := by rw [Option.some.inj found']
    _ = grant.ownerId := owner

/-- Whoever holds a grant in force is seen online. -/
theorem grant_online (exclusive : Exclusive config s) {grant : Grant} (granted : grant ∈ s.grants)
    (inForce : s.clock < grant.leaseUntil) : isWorkerOnline s grant.name = true := by
  obtain ⟨row, found, -, covered⟩ := exclusive.stored grant granted inForce
  rw [isWorkerOnline, found, Option.any_some, decide_eq_true_eq]
  exact inForce.trans_le covered

private def tenSeconds : String → WorkerConfig := fun _ => ⟨"default", 10⟩

/-- Worker `a` takes the lease, `b` is refused while it runs and takes it over when it ends. -/
private def takeover : List Step :=
  [.begin "a", .update "a" true, .insert "a" true, .advance 5, .begin "b", .update "b" true,
    .insert "b" true, .advance 10, .begin "b", .update "b" true]

private theorem takeover_run :
    (runSteps (step tenSeconds) takeover (.start 0 .empty)).isSome := by decide +kernel

private theorem takeover_grants :
    ((runSteps (step tenSeconds) takeover (.start 0 .empty)).get takeover_run).grants =
      [⟨"default", "b", 20⟩, ⟨"default", "a", 10⟩] ∧
    ((runSteps (step tenSeconds) takeover (.start 0 .empty)).get takeover_run).clock = 10 := by
  decide +kernel

theorem lease_mutual_exclusion_takeover :
    ∃ s, runSteps (step tenSeconds) takeover (.start 0 .empty) = some s ∧
      ∃ row, s.rows.get? "default" = some row ∧ row.ownerId = "b" := by
  have granted : (⟨"default", "b", 20⟩ : Grant) ∈
      ((runSteps (step tenSeconds) takeover (.start 0 .empty)).get takeover_run).grants := by
    rw [takeover_grants.1]
    exact .head _
  have inForce : ((runSteps (step tenSeconds) takeover (.start 0 .empty)).get takeover_run).clock <
      20 := by
    rw [takeover_grants.2]
    norm_num
  exact ⟨_, (Option.some_get takeover_run).symm,
    (lease_mutual_exclusion (Option.some_get takeover_run).symm granted inForce granted inForce
      rfl).2⟩

end ArcReel.Worker.Lease
