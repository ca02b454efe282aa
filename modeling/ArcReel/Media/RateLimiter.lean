import ArcReel.Lib.Dict
import ArcReel.Lib.Run
import ArcReel.Lib.SlidingWindow
import Mathlib.Algebra.Order.Ring.Rat

/-! `RateLimiter` of `gemini_shared`: any number of calls that wait for their turn on one limiter,
by `acquire` or `acquire_async`, while its limits may be replaced. Times are seconds of one clock. -/

namespace ArcReel.Media.RateLimiting
open ArcReel.Lib

/-- `requestLogs` holds the times of the admitted requests of each model, oldest first. -/
structure RateLimiter where
  limits : Dict String Int
  requestGap : ℚ
  requestLogs : Dict String (List ℚ)
  deriving DecidableEq, Repr

inductive Attempt where
  | granted
  | sleep (seconds : ℚ)
  deriving DecidableEq, Repr

section Attempts

variable (limiter : RateLimiter) (modelName : String) (limit : Int)

/-- The log of the model without the records older than 60 seconds. -/
def RateLimiter.pruned (now : ℚ) : List ℚ :=
  expire 60 now ((limiter.requestLogs.get? modelName).getD [])

def RateLimiter.setLog (log : List ℚ) : RateLimiter :=
  { limiter with requestLogs := limiter.requestLogs.set modelName log }

/-- What is missing to the gap after the last request. -/
def gapWait (requestGap : ℚ) (log : List ℚ) (now : ℚ) : ℚ :=
  match log.getLast? with
  | some lastRequest =>
      if now - lastRequest < requestGap then requestGap - (now - lastRequest) else 0
  | none => 0

def waitNeeded (requestGap : ℚ) (log : List ℚ) (now : ℚ) : ℚ :=
  if limit ≤ log.length then
    max (gapWait requestGap log now) (60 - (now - log.headD now) + 1 / 10)
  else gapWait requestGap log now

/-- One round of the loop of `acquire_async`. -/
def acquireAsync (now : ℚ) : RateLimiter × Attempt :=
  let log := limiter.pruned modelName now
  let wait := waitNeeded limit limiter.requestGap log now
  if wait = 0 ∧ log.length < limit then
    (limiter.setLog modelName (log ++ [now]), .granted)
  else (limiter.setLog modelName log, .sleep (if 0 < wait then wait else 1 / 10))

/-- One round of the loop of `acquire`, which reads the clock up to three times. -/
def acquire (now gapNow grantNow : ℚ) : RateLimiter × Attempt :=
  let log := limiter.pruned modelName now
  let wait := gapWait limiter.requestGap log gapNow
  if 0 < wait then (limiter.setLog modelName log, .sleep wait)
  else if log.length < limit then
    (limiter.setLog modelName (log ++ [grantNow]), .granted)
  else (limiter.setLog modelName log, .sleep (60 - (now - log.headD now) + 1 / 10))

end Attempts

/-- The limits that `refresh_shared_rate_limiter` puts in place. -/
def rateLimiterLimits (imageRpm videoRpm : Option Int) (imageModel videoModel : Option String) :
    Dict String Int :=
  let imageRpm := imageRpm.getD 15
  let videoRpm := videoRpm.getD 10
  let limits : Dict String Int :=
    if 0 < imageRpm then
      Dict.empty.set (imageModel.getD "gemini-3.1-flash-image-preview") imageRpm
    else .empty
  if 0 < videoRpm then limits.set (videoModel.getD "veo-3.1-lite-generate-preview") videoRpm
  else limits

/-- A call that waits for its turn; the limit was read when it began. -/
structure Call where
  modelName : String
  limit : Int
  deriving DecidableEq, Repr

/-- A request that was let through, with the limit and the gap it was measured by. -/
structure Grant where
  modelName : String
  limit : Int
  requestGap : ℚ
  time : ℚ
  deriving DecidableEq, Repr

/-- `granted` lists the requests let through so far, the latest first. -/
structure State where
  clock : ℚ
  limiter : RateLimiter
  calls : Nat → Option Call
  granted : List Grant

def State.start (clock : ℚ) (limits : Dict String Int) (requestGap : ℚ) : State :=
  ⟨clock, ⟨limits, requestGap, .empty⟩, fun _ => none, []⟩

inductive Step where
  | begin (caller : Nat) (modelName : String)
  | tryAsync (caller : Nat) (now : ℚ)
  /-- A blocking call keeps the lock while it sleeps; here others may come in between. -/
  | tryBlocking (caller : Nat) (now gapNow grantNow : ℚ)
  | abandon (caller : Nat)
  | refresh (imageRpm videoRpm : Option Int) (imageModel videoModel : Option String)
      (requestGap : Option ℚ)
  deriving DecidableEq, Repr

section Steps

variable (s : State)

def State.setCall (caller : Nat) (call : Option Call) : Nat → Option Call :=
  fun other => if other = caller then call else s.calls other

/-- A model without a limit, or with none above zero, is not held back. -/
def begin (caller : Nat) (modelName : String) : State :=
  match s.limiter.limits.get? modelName with
  | some limit =>
      if limit ≤ 0 then s else { s with calls := s.setCall caller (some ⟨modelName, limit⟩) }
  | none => s

/-- The limiter after a round of the call; its request is let through at `time` if granted. -/
def settle (caller : Nat) (call : Call) (time clock : ℚ) (result : RateLimiter × Attempt) : State :=
  match result.2 with
  | .granted =>
      { clock
        limiter := result.1
        calls := s.setCall caller none
        granted := ⟨call.modelName, call.limit, s.limiter.requestGap, time⟩ :: s.granted }
  | .sleep _ => { s with clock, limiter := result.1 }

def refresh (limits : Dict String Int) (requestGap : Option ℚ) : State :=
  { s with limiter := { s.limiter with
      limits
      requestGap := requestGap.getD s.limiter.requestGap } }

def step : Step → Option State
  | .begin caller modelName =>
      if s.calls caller = none then some (begin s caller modelName) else none
  | .tryAsync caller now =>
      (s.calls caller).bind fun call =>
        if s.clock ≤ now then
          some (settle s caller call now now (acquireAsync s.limiter call.modelName call.limit now))
        else none
  | .tryBlocking caller now gapNow grantNow =>
      (s.calls caller).bind fun call =>
        if s.clock ≤ now ∧ now ≤ gapNow ∧ gapNow ≤ grantNow then
          some (settle s caller call grantNow grantNow
            (acquire s.limiter call.modelName call.limit now gapNow grantNow))
        else none
  | .abandon caller => some { s with calls := s.setCall caller none }
  | .refresh imageRpm videoRpm imageModel videoModel requestGap =>
      some (refresh s (rateLimiterLimits imageRpm videoRpm imageModel videoModel) requestGap)

end Steps

/-! What one round can do, in either way of asking. -/

/-- The round is let through with a full gap and a place in the window, or only tidies the log. -/
def Answered (limiter : RateLimiter) (call : Call) (now gapNow grantNow : ℚ)
    (result : RateLimiter × Attempt) : Prop :=
  let log := limiter.pruned call.modelName now
  (result.2 = .granted ∧ result.1 = limiter.setLog call.modelName (log ++ [grantNow]) ∧
      gapWait limiter.requestGap log gapNow ≤ 0 ∧ log.length < call.limit) ∨
    ∃ seconds, result.2 = .sleep seconds ∧ result.1 = limiter.setLog call.modelName log

theorem acquireAsync_answered (limiter : RateLimiter) (call : Call) (now : ℚ) :
    Answered limiter call now now now
      (acquireAsync limiter call.modelName call.limit now) := by
  unfold acquireAsync Answered
  by_cases free : waitNeeded call.limit limiter.requestGap
      (limiter.pruned call.modelName now) now = 0 ∧
        (limiter.pruned call.modelName now).length < call.limit
  · have noWait := free.1
    rw [waitNeeded, if_neg (not_le.mpr free.2)] at noWait
    exact Or.inl ⟨by rw [if_pos free], by rw [if_pos free], noWait.le, free.2⟩
  · exact Or.inr ⟨_, by rw [if_neg free], by rw [if_neg free]⟩

theorem acquire_answered (limiter : RateLimiter) (call : Call) (now gapNow grantNow : ℚ) :
    Answered limiter call now gapNow grantNow
      (acquire limiter call.modelName call.limit now gapNow grantNow) := by
  unfold acquire Answered
  by_cases early : 0 < gapWait limiter.requestGap (limiter.pruned call.modelName now) gapNow
  · exact Or.inr ⟨_, by rw [if_pos early], by rw [if_pos early]⟩
  · rw [if_neg early]
    by_cases free : (limiter.pruned call.modelName now).length < call.limit
    · exact Or.inl ⟨by rw [if_pos free], by rw [if_pos free], not_lt.mp early, free⟩
    · exact Or.inr ⟨_, by rw [if_neg free], by rw [if_neg free]⟩

/-- With no wait for the gap, the last request is a full gap away. -/
theorem gap_of_gapWait {requestGap now lastRequest : ℚ} {log : List ℚ}
    (none_ : gapWait requestGap log now ≤ 0) (last : log.getLast? = some lastRequest) :
    requestGap ≤ now - lastRequest := by
  rw [gapWait, last] at none_
  dsimp only at none_
  split at none_
  next short => linarith
  next long => exact not_lt.mp long

/-! The history of one limiter. -/

/-- When the requests of the model were let through, oldest first. -/
def timesOf (granted : List Grant) (modelName : String) : List ℚ :=
  ((granted.filter fun grant => grant.modelName = modelName).map (·.time)).reverse

/-- The grant left a full gap after the earlier ones of its model that are in its window, and
these are fewer than its limit. -/
structure Within (grant : Grant) (earlier : List Grant) : Prop where
  places : ((timesOf earlier grant.modelName).countP
    fun time => decide (grant.time - 60 ≤ time) : Int) < grant.limit
  spaced : ∀ other ∈ earlier, other.modelName = grant.modelName →
    grant.requestGap ≤ grant.time - other.time ∨ 60 < grant.time - other.time

structure Tracked (s : State) : Prop where
  covered : ∀ modelName, Covers 60 s.clock (timesOf s.granted modelName)
    ((s.limiter.requestLogs.get? modelName).getD [])
  past : ∀ grant ∈ s.granted, grant.time ≤ s.clock
  ordered : s.granted.Pairwise fun grant other => other.time ≤ grant.time
  within : ∀ later grant earlier, s.granted = later ++ grant :: earlier → Within grant earlier

theorem mem_timesOf {granted : List Grant} {modelName : String} {time : ℚ} :
    time ∈ timesOf granted modelName ↔
      ∃ grant ∈ granted, grant.modelName = modelName ∧ grant.time = time := by
  simp [timesOf, and_assoc]

theorem timesOf_cons (grant : Grant) (granted : List Grant) (modelName : String) :
    timesOf (grant :: granted) modelName =
      if grant.modelName = modelName then timesOf granted modelName ++ [grant.time]
      else timesOf granted modelName := by
  unfold timesOf
  by_cases same : grant.modelName = modelName
  · simp [same]
  · simp [same]

theorem timesOf_ordered {granted : List Grant} (modelName : String)
    (ordered : granted.Pairwise fun grant other => other.time ≤ grant.time) :
    (timesOf granted modelName).Pairwise (· ≤ ·) := by
  rw [timesOf, List.pairwise_reverse, List.pairwise_map]
  exact ordered.filter _

@[simp] theorem setLog_log (limiter : RateLimiter) (modelName other : String) (log : List ℚ) :
    ((limiter.setLog modelName log).requestLogs.get? other).getD [] =
      if other = modelName then log else (limiter.requestLogs.get? other).getD [] := by
  rw [RateLimiter.setLog, Dict.get?_set]
  by_cases same : other = modelName
  · rw [if_pos same, if_pos same, Option.getD_some]
  · rw [if_neg same, if_neg same]

/-- In an ordered log that covers the history, an earlier request is out of the window or a full
gap away. -/
theorem gap_of_covers {requestGap now gapNow grantNow time : ℚ} {all log : List ℚ}
    (covers : Covers 60 now all log) (sorted : all.Pairwise (· ≤ ·))
    (none_ : gapWait requestGap log gapNow ≤ 0) (first : now ≤ grantNow) (second : gapNow ≤ grantNow)
    (member : time ∈ all) : requestGap ≤ grantNow - time ∨ 60 < grantNow - time := by
  cases covers.mem_or_old member with
  | inr old => exact Or.inr (by linarith)
  | inl kept =>
    obtain ⟨gone, parts, -⟩ := covers
    have ordered : log.Pairwise (· ≤ ·) := by
      rw [parts] at sorted
      exact (List.pairwise_append.mp sorted).2.1
    have last := List.getLast?_eq_some_getLast (List.ne_nil_of_mem kept)
    have full := gap_of_gapWait none_ last
    have latest : time ≤ log.getLast (List.ne_nil_of_mem kept) := ordered.rel_getLast kept
    exact Or.inl (by linarith)

theorem Tracked.start (clock : ℚ) (limits : Dict String Int) (requestGap : ℚ) :
    Tracked (State.start clock limits requestGap) where
  covered modelName := Covers.nil 60 clock
  past grant member := (List.not_mem_nil member).elim
  ordered := .nil
  within later grant earlier split := by
    have empty := congrArg List.length split
    simp [State.start] at empty

/-- A state whose clock, log and history are those of a tracked one, the clock set forward. -/
theorem Tracked.forward {s t : State} (tracked : Tracked s) (clock : s.clock ≤ t.clock)
    (same : t.granted = s.granted)
    (logs : ∀ modelName, Covers 60 t.clock (timesOf s.granted modelName)
      ((t.limiter.requestLogs.get? modelName).getD [])) : Tracked t where
  covered modelName := by
    rw [same]
    exact logs modelName
  past grant member := (tracked.past grant (same ▸ member)).trans clock
  ordered := same ▸ tracked.ordered
  within later grant earlier split := tracked.within later grant earlier (same ▸ split)

theorem Tracked.begin {s : State} (tracked : Tracked s) (caller : Nat) (modelName : String) :
    Tracked (begin s caller modelName) := by
  unfold RateLimiting.begin
  cases s.limiter.limits.get? modelName with
  | none => exact tracked
  | some limit =>
    dsimp only
    split
    next free => exact tracked
    next held => exact tracked.forward le_rfl rfl tracked.covered

theorem Within.of_covers {call : Call} {requestGap now gapNow grantNow : ℚ} {granted : List Grant}
    {log : List ℚ} (covers : Covers 60 now (timesOf granted call.modelName) log)
    (ordered : granted.Pairwise fun grant other => other.time ≤ grant.time)
    (none_ : gapWait requestGap log gapNow ≤ 0) (free : log.length < call.limit)
    (first : now ≤ grantNow) (second : gapNow ≤ grantNow) :
    Within ⟨call.modelName, call.limit, requestGap, grantNow⟩ granted where
  places := by
    have few := covers.count_le first
    exact lt_of_le_of_lt (Int.ofNat_le.mpr few) free
  spaced other member same := by
    have listed : other.time ∈ timesOf granted call.modelName :=
      mem_timesOf.mpr ⟨other, member, same, rfl⟩
    exact gap_of_covers covers (timesOf_ordered call.modelName ordered) none_ first second listed

/-- A round that is answered keeps the history in order. -/
theorem Tracked.settle {s : State} (tracked : Tracked s) (caller : Nat) (call : Call)
    {now gapNow grantNow : ℚ} {result : RateLimiter × Attempt} (start : s.clock ≤ now)
    (first : now ≤ gapNow) (second : gapNow ≤ grantNow)
    (answered : Answered s.limiter call now gapNow grantNow result) :
    Tracked (settle s caller call grantNow grantNow result) := by
  have whole : s.clock ≤ grantNow := start.trans (first.trans second)
  have covers : ∀ modelName, Covers 60 grantNow (timesOf s.granted modelName)
      ((s.limiter.requestLogs.get? modelName).getD []) :=
    fun modelName => (tracked.covered modelName).later whole
  have pruned : Covers 60 now (timesOf s.granted call.modelName)
      (s.limiter.pruned call.modelName now) :=
    ((tracked.covered call.modelName).later start).expire
  unfold RateLimiting.settle
  cases answered with
  | inr waits =>
    obtain ⟨seconds, asleep, tidied⟩ := waits
    rw [asleep, tidied]
    dsimp only
    refine tracked.forward whole rfl fun modelName => ?_
    rw [setLog_log]
    by_cases same : modelName = call.modelName
    · rw [if_pos same, same]
      exact pruned.later (first.trans second)
    · rw [if_neg same]
      exact covers modelName
  | inl passes =>
    obtain ⟨let_, logged, none_, free⟩ := passes
    rw [let_, logged]
    dsimp only
    constructor
    · intro modelName
      rw [setLog_log, timesOf_cons]
      by_cases same : modelName = call.modelName
      · rw [if_pos same, if_pos same.symm, same]
        exact (pruned.later (first.trans second)).append grantNow
      · rw [if_neg same, if_neg (Ne.symm same)]
        exact covers modelName
    · intro grant member
      cases List.mem_cons.mp member with
      | inl new => exact (congrArg Grant.time new).le
      | inr old => exact (tracked.past grant old).trans whole
    · exact .cons (fun grant member => (tracked.past grant member).trans whole) tracked.ordered
    · intro later grant earlier split
      cases List.cons_eq_append_iff.mp split with
      | inl new =>
        obtain ⟨-, cut⟩ := new
        obtain ⟨rfl, rfl⟩ := List.cons_eq_cons.mp cut
        exact .of_covers pruned tracked.ordered none_ free (first.trans second) second
      | inr old =>
        obtain ⟨rest, -, cut⟩ := old
        exact tracked.within rest grant earlier cut

theorem tracked_step (s : State) (next : Step) (t : State) (tracked : Tracked s)
    (stepped : step s next = some t) : Tracked t := by
  cases next with
  | begin caller modelName =>
    rw [step] at stepped
    split at stepped
    next idle =>
      rw [← Option.some.inj stepped]
      exact tracked.begin caller modelName
    next busy => cases stepped
  | tryAsync caller now =>
    obtain ⟨call, called, stepped⟩ := Option.bind_eq_some_iff.mp stepped
    split at stepped
    next order =>
      rw [← Option.some.inj stepped]
      exact tracked.settle caller call order le_rfl le_rfl (acquireAsync_answered _ call now)
    next late => cases stepped
  | tryBlocking caller now gapNow grantNow =>
    obtain ⟨call, called, stepped⟩ := Option.bind_eq_some_iff.mp stepped
    split at stepped
    next order =>
      rw [← Option.some.inj stepped]
      exact tracked.settle caller call order.1 order.2.1 order.2.2
        (acquire_answered _ call now gapNow grantNow)
    next late => cases stepped
  | abandon caller =>
    rw [← Option.some.inj stepped]
    exact tracked.forward le_rfl rfl tracked.covered
  | refresh imageRpm videoRpm imageModel videoModel requestGap =>
    rw [← Option.some.inj stepped]
    exact tracked.forward le_rfl rfl tracked.covered

/-- A second call, too early at first, is let through a full gap after the first one. -/
private def twoCalls : List Step :=
  [.begin 0 "m", .begin 1 "m", .tryAsync 0 0, .tryAsync 1 2, .tryBlocking 1 5 5 6]

private theorem twoCalls_granted :
    (runSteps step twoCalls (.start 0 (Dict.empty.set "m" 2) 3)).map State.granted =
      some [⟨"m", 2, 3, 6⟩, ⟨"m", 2, 3, 0⟩] := by
  decide +kernel

end ArcReel.Media.RateLimiting
