import ArcReel.Agent.SessionBranch

/-! The chains of superseded sessions, whatever the order in which branches, withdrawals and deletions
take their steps. -/

namespace ArcReel.Agent
open Lib Transcript Successors

section Sound

/-- A `discard` call for the new session was made. -/
def Discarded (s : Conversations) (newId : String) : Prop :=
  ∃ call discard, s.discards.get? call = some discard ∧ discard.newSessionId = newId

/-- A `branch` call on the origin has returned the new session. -/
def Finished (s : Conversations) (origin newId : String) : Prop :=
  ∃ call job, s.branches.get? call = some ⟨origin, .returned job⟩ ∧ job.newId = newId

def Listed (s : Conversations) (newId : String) : Prop := s.sessions.get? newId ≠ none

def NoEntries (entries : List Row) (newId : String) : Prop := ∀ row ∈ entries, row.key.sessionId ≠ newId

/-- Every pointer names a row, every chain comes to a row that is not superseded, an origin points to
the one finished branch of it that is neither discarded nor deleted, and a branch that raised has left
nothing. -/
structure ChainsSound (s : Conversations) : Prop where
  named : Closed (successors s.sessions)
  ends : Ends (successors s.sessions)
  single : ∀ origin row first second, s.sessions.get? origin = some row →
    Finished s origin first → ¬Discarded s first → Listed s first →
    Finished s origin second → ¬Discarded s second → Listed s second →
      first = second ∧ row.supersededBy = some first
  clean : ∀ call origin job, s.branches.get? call = some ⟨origin, .raised (some job)⟩ →
    s.sessions.get? job.newId = none ∧ NoEntries s.entries job.newId

end Sound

section Invariant

/-- The row of the origin was found. -/
def Phase.known : Phase → Bool
  | .lookup | .raised none => false
  | .resolve _ _ | .copy _ _ | .mark _ | .clear _ | .dropEntries _ | .dropRow _ | .returned _
  | .raised (some _) => true

/-- What holds of the rows of a branch in each of its phases. -/
def PhaseInv (sessions : Sessions) (entries : List Row) (discarded : String → Prop) (branch : Branch) :
    Prop :=
  match branch.phase with
  | .copy job stage =>
    sessions.get? job.newId = none ∧ (stage = .load → NoEntries entries job.newId)
  | .dropRow job => NoEntries entries job.newId
  | .raised (some job) => sessions.get? job.newId = none ∧ NoEntries entries job.newId
  | .returned job => ¬discarded job.newId → sessions.get? job.newId ≠ none →
      ∀ row, sessions.get? branch.sessionId = some row → row.supersededBy = some job.newId
  | .lookup | .resolve _ _ | .mark _ | .clear _ | .dropEntries _ | .raised none => True

def KeyInv (entries : List Row) (job : Job) : Prop :=
  ∀ row ∈ entries, row.key.sessionId = job.newId → row.key.projectKey = job.projectKey

structure BranchInv (s : Conversations) : Prop where
  ranked : ∃ rank top, Ranked (successors s.sessions) rank top ∧ ∀ call branch job,
    s.branches.get? call = some branch → branch.phase.job? = some job →
      rank branch.sessionId < rank job.newId
  unique : ∀ call other branch branch' job job', s.branches.get? call = some branch →
    s.branches.get? other = some branch' → branch.phase.job? = some job →
      branch'.phase.job? = some job' → job.newId = job'.newId → call = other
  unborn : ∀ call other branch branch' job stage, s.branches.get? call = some branch →
    branch.phase = .copy job stage → s.branches.get? other = some branch' →
      branch'.phase.known = true → branch'.sessionId ≠ job.newId
  keys : ∀ call branch job, s.branches.get? call = some branch → branch.phase.job? = some job →
    KeyInv s.entries job
  phases : ∀ call branch, s.branches.get? call = some branch →
    PhaseInv s.sessions s.entries (Discarded s) branch

/-- What the sessions after a step have to do with another branch. -/
structure Keeps (before after : Sessions) (origin newId : String) : Prop where
  absent : before.get? newId = none → after.get? newId = none
  pointer : ∀ row, after.get? origin = some row → after.get? newId ≠ none →
    ∃ old, before.get? origin = some old ∧
      (old.supersededBy = some newId → row.supersededBy = some newId)

theorem Keeps.refl (sessions : Sessions) (origin newId : String) : Keeps sessions sessions origin newId :=
  ⟨id, fun row found _ => ⟨row, found, id⟩⟩

theorem keeps_create {sessions : Sessions} {sessionId : String} {job : Job} {origin newId : String}
    (apart : newId ≠ job.newId) (other : origin ≠ job.newId) :
    Keeps sessions (createSession sessions sessionId job) origin newId := by
  constructor
  · intro none
    rw [createSession, Dict.get?_set, if_neg apart, none]
  · intro row found _
    rw [createSession, Dict.get?_set, if_neg other] at found
    exact ⟨row, found, id⟩

theorem keeps_mark {sessions marked : Sessions} {sessionId target : String}
    (done : markSuperseded sessions sessionId target = some marked) (origin newId : String) :
    Keeps sessions marked origin newId := by
  unfold markSuperseded at done
  split at done
  · next row there =>
    split_ifs at done with single
    rw [Option.some.injEq] at done
    constructor
    · intro none
      rw [← done, Dict.get?_set]
      split
      · next same =>
        rw [same, there] at none
        cases none
      · exact none
    · intro after found _
      rw [← done, Dict.get?_set] at found
      split at found
      · next same =>
        refine ⟨row, by rw [same, there], fun points => ?_⟩
        rw [points] at single
        cases single
      · exact ⟨after, found, id⟩
  · cases done

theorem keeps_clear (sessions : Sessions) (sessionId : String) {target newId : String} (origin : String)
    (apart : newId ≠ target) : Keeps sessions (clearSuperseded sessions sessionId target) origin newId := by
  unfold clearSuperseded
  split
  · next row there =>
    split
    · next points =>
      constructor
      · intro none
        rw [Dict.get?_set]
        split
        · next same =>
          rw [same, there] at none
          cases none
        · exact none
      · intro after found _
        rw [Dict.get?_set] at found
        split at found
        · next same =>
          refine ⟨row, by rw [same, there], fun other => ?_⟩
          rw [points, Option.some.injEq] at other
          exact absurd other.symm apart
        · exact ⟨after, found, id⟩
    · exact Keeps.refl ..
  · exact Keeps.refl ..

theorem get?_deleteSession {sessions : Sessions} {gone sessionId : String} :
    (deleteSession sessions gone).get? sessionId = if sessionId = gone then none
      else (sessions.get? sessionId).map fun row =>
        if row.supersededBy = some gone then
          { row with supersededBy := (sessions.get? gone).bind SessionRow.supersededBy } else row := by
  rw [deleteSession, Dict.get?_erase, Dict.get?_mapValues]

theorem keeps_delete (sessions : Sessions) (gone origin newId : String) :
    Keeps sessions (deleteSession sessions gone) origin newId := by
  constructor
  · intro none
    rw [get?_deleteSession, none]
    split <;> rfl
  · intro row found there
    rw [get?_deleteSession] at found there
    split at found
    · cases found
    · rw [Option.map_eq_some_iff] at found
      obtain ⟨old, before, after⟩ := found
      refine ⟨old, before, fun points => ?_⟩
      have apart : newId ≠ gone := by
        intro same
        rw [if_pos same] at there
        exact there rfl
      rw [← after, if_neg, points]
      rw [points, Option.some.injEq]
      exact apart

theorem PhaseInv.keep {before after : Sessions} {entries written : List Row}
    {discarded discarded' : String → Prop} {branch : Branch}
    (inv : PhaseInv before entries discarded branch) (more : ∀ id, discarded id → discarded' id)
    (absent : ∀ job, branch.phase.job? = some job → before.get? job.newId = none →
      after.get? job.newId = none)
    (keeps : ∀ job, branch.phase.job? = some job → ¬discarded' job.newId →
      Keeps before after branch.sessionId job.newId)
    (rows : ∀ job, branch.phase.job? = some job → ∀ row ∈ written, row.key.sessionId = job.newId →
      row ∈ entries) :
    PhaseInv after written discarded' branch := by
  obtain ⟨sessionId, phase⟩ := branch
  have clean : ∀ job, phase.job? = some job → NoEntries entries job.newId → NoEntries written job.newId :=
    fun job owns none row member same => none row (rows job owns row member same) same
  unfold PhaseInv at inv ⊢
  dsimp only at inv absent keeps ⊢
  cases phase with
  | copy job stage => exact ⟨absent job rfl inv.1, fun load => clean job rfl (inv.2 load)⟩
  | dropRow job => exact clean job rfl inv
  | raised job =>
    cases job with
    | none => trivial
    | some job => exact ⟨absent job rfl inv.1, clean job rfl inv.2⟩
  | returned job =>
    intro kept there row found
    obtain ⟨old, before', points⟩ := (keeps job rfl kept).pointer row found there
    apply points
    exact inv (fun gone => kept (more _ gone)) (fun none => there (absent job rfl none)) old before'
  | lookup => trivial
  | resolve projectName projectKey => trivial
  | mark job => trivial
  | clear job => trivial
  | dropEntries job => trivial

/-- What a branch with a job does to the sessions in one step. -/
structure Effect (branch : Branch) (job : Job) (before after : Sessions) : Prop where
  ranked : ∀ rank top, rank branch.sessionId < rank job.newId →
    Ranked (successors before) rank top → Ranked (successors after) rank top
  keeps : ∀ origin newId, newId ≠ job.newId →
    ((∃ stage, branch.phase = .copy job stage) → origin ≠ job.newId) → Keeps before after origin newId

theorem Effect.refl (branch : Branch) (job : Job) (sessions : Sessions) :
    Effect branch job sessions sessions := ⟨fun _ _ _ ranked => ranked, fun _ _ _ _ => .refl ..⟩

theorem effect_create {branch : Branch} {job : Job} {stage : CopyStage}
    (copying : branch.phase = .copy job stage) (sessions : Sessions) :
    Effect branch job sessions (createSession sessions branch.sessionId job) := by
  constructor
  · intro rank top _ ranked
    refine ⟨ranked.bounded, fun item other named => ?_⟩
    rw [successors_create, Function.update_apply] at named
    split at named
    · cases named
    · exact ranked.increasing item other named
  · exact fun origin newId apart other => keeps_create apart (other ⟨stage, copying⟩)

theorem effect_mark {branch : Branch} {job : Job} {sessions marked : Sessions}
    (done : markSuperseded sessions branch.sessionId job.newId = some marked) :
    Effect branch job sessions marked := by
  constructor
  · intro rank top higher ranked
    refine ⟨ranked.bounded, fun item other named => ?_⟩
    rw [(successors_mark done).2, Function.update_apply] at named
    split at named
    · next same =>
      rw [Option.some.injEq, Option.some.injEq] at named
      rw [same, ← named]
      exact higher
    · exact ranked.increasing item other named
  · exact fun origin newId _ _ => keeps_mark done origin newId

theorem ranked_clear {sessions : Sessions} {rank : String → Int} {top : Int}
    (ranked : Ranked (successors sessions) rank top) (sessionId newId : String) :
    Ranked (successors (clearSuperseded sessions sessionId newId)) rank top := by
  refine ⟨ranked.bounded, fun item other named => ?_⟩
  rw [successors_clear] at named
  dsimp only at named
  split at named
  · cases named
  · exact ranked.increasing item other named

theorem effect_clear (branch : Branch) (job : Job) (sessions : Sessions) :
    Effect branch job sessions (clearSuperseded sessions branch.sessionId job.newId) :=
  ⟨fun _ _ _ ranked => ranked_clear ranked _ _, fun origin _ apart _ => keeps_clear _ _ origin apart⟩

theorem ranked_delete {sessions : Sessions} {rank : String → Int} {top : Int}
    (ranked : Ranked (successors sessions) rank top) (gone : String) :
    Ranked (successors (deleteSession sessions gone)) rank top := by
  rw [successors_delete]
  exact ranked_remove ranked gone

theorem effect_delete (branch : Branch) (job : Job) (sessions : Sessions) :
    Effect branch job sessions (deleteSession sessions job.newId) :=
  ⟨fun _ _ _ ranked => ranked_delete ranked _, fun origin newId _ _ => keeps_delete _ _ origin newId⟩

/-- The branch of a call after a step of one of the calls. -/
theorem get?_moved {branches : Dict Nat Branch} {call other : Nat} {moved branch : Branch}
    (found : (branches.set call moved).get? other = some branch) :
    (other = call ∧ moved = branch) ∨ (other ≠ call ∧ branches.get? other = some branch) := by
  rw [Dict.get?_set] at found
  split at found
  · next same => exact .inl ⟨same, Option.some.inj found⟩
  · next apart => exact .inr ⟨apart, found⟩

theorem copy_of_job? {phase : Phase} {job : Job} {other : Job} {stage : CopyStage}
    (copying : phase = .copy other stage) (owns : phase.job? = some job) : other = job := by
  rw [copying] at owns
  exact Option.some.inj owns

theorem known_of_job? {phase : Phase} {job : Job} (owns : phase.job? = some job) :
    phase.known = true := by
  cases phase with
  | lookup => cases owns
  | raised job =>
    cases job with
    | none => cases owns
    | some job => rfl
  | _ => rfl

/-- A step of a branch that has a job keeps the invariant. -/
theorem BranchInv.advance {s : Conversations} (inv : BranchInv s) {call : Nat} {branch : Branch}
    (found : s.branches.get? call = some branch) {job : Job} (owns : branch.phase.job? = some job)
    {sessions : Sessions} {entries : List Row} {phase : Phase} (same : phase.job? = some job)
    (copies : ∀ stage, phase = .copy job stage → ∃ before, branch.phase = .copy job before)
    (effect : Effect branch job s.sessions sessions)
    (rows : ∀ row ∈ entries, row ∈ s.entries ∨ job.owns row)
    (own : PhaseInv sessions entries (Discarded s) ⟨branch.sessionId, phase⟩) :
    BranchInv (s.moveBranch call branch (sessions, entries, phase)) := by
  obtain ⟨rank, top, ranked, higher⟩ := inv.ranked
  have known := known_of_job? owns
  have back : ∀ other moved job', (s.branches.set call ⟨branch.sessionId, phase⟩).get? other = some moved →
      moved.phase.job? = some job' → ∃ old, s.branches.get? other = some old ∧
        old.sessionId = moved.sessionId ∧ old.phase.job? = some job' := by
    intro other moved job' there has
    rcases get?_moved there with ⟨equal, is⟩ | ⟨_, old⟩
    · rw [← is] at has ⊢
      rw [equal]
      exact ⟨branch, found, rfl, owns.trans (same.symm.trans has)⟩
    · exact ⟨moved, old, rfl, has⟩
  constructor
  · refine ⟨rank, top, effect.ranked rank top (higher call branch job found owns) ranked, ?_⟩
    intro other moved job' there has
    obtain ⟨old, before, origin, had⟩ := back other moved job' there has
    rw [← origin]
    exact higher other old job' before had
  · intro first second branch₁ branch₂ job₁ job₂ there₁ there₂ has₁ has₂ equal
    obtain ⟨old₁, before₁, _, had₁⟩ := back first branch₁ job₁ there₁ has₁
    obtain ⟨old₂, before₂, _, had₂⟩ := back second branch₂ job₂ there₂ has₂
    exact inv.unique first second old₁ old₂ job₁ job₂ before₁ before₂ had₁ had₂ equal
  · intro first second branch₁ branch₂ job₁ stage there₁ copying there₂ knows
    have knew : ∃ old, s.branches.get? second = some old ∧ old.sessionId = branch₂.sessionId ∧
        old.phase.known = true := by
      rcases get?_moved there₂ with ⟨equal, is⟩ | ⟨_, old⟩
      · rw [← is, equal]
        exact ⟨branch, found, rfl, known⟩
      · exact ⟨branch₂, old, rfl, knows⟩
    obtain ⟨old, before, origin, oldKnown⟩ := knew
    rw [← origin]
    rcases get?_moved there₁ with ⟨equal, is⟩ | ⟨_, there⟩
    · rw [← is] at copying
      rw [← copy_of_job? copying same] at copies
      obtain ⟨stage', copied⟩ := copies stage copying
      exact inv.unborn call second branch old job₁ stage' found copied before oldKnown
    · exact inv.unborn first second branch₁ old job₁ stage there copying before oldKnown
  · intro other moved job' there has row member owned
    obtain ⟨old, before, _, had⟩ := back other moved job' there has
    rcases rows row member with inside | ⟨id, key⟩
    · exact inv.keys other old job' before had row inside owned
    · have equal := inv.unique call other branch old job job' found before owns had (id.symm.trans owned)
      rw [← equal, found, Option.some.injEq] at before
      rw [← before, owns, Option.some.injEq] at had
      rw [← had]
      exact key
  · intro other moved there
    rcases get?_moved there with ⟨_, is⟩ | ⟨apart, old⟩
    · rw [← is]
      exact own
    · have foreign : ∀ job', moved.phase.job? = some job' → job'.newId ≠ job.newId := by
        intro job' has equal
        exact apart (inv.unique other call moved branch job' job old found has owns equal)
      have keeps : ∀ job', moved.phase.job? = some job' →
          Keeps s.sessions sessions moved.sessionId job'.newId := by
        intro job' has
        apply effect.keeps _ _ (foreign job' has)
        rintro ⟨stage, copying⟩
        exact inv.unborn call other branch moved job stage found copying old (known_of_job? has)
      apply (inv.phases other moved old).keep (fun _ => id) (fun job' has => (keeps job' has).absent)
        (fun job' has _ => keeps job' has)
      intro job' has row member owned
      rcases rows row member with inside | ⟨id, _⟩
      · exact inside
      · exact absurd (owned.symm.trans id) (foreign job' has)

/-- A step of a branch that has no job yet, and gets none. -/
theorem BranchInv.quiet {s : Conversations} (inv : BranchInv s) {call : Nat} {moved : Branch}
    (none : moved.phase.job? = .none) (trivially : PhaseInv s.sessions s.entries (Discarded s) moved)
    (known : moved.phase.known = true → s.sessions.get? moved.sessionId ≠ .none ∨
      ∃ branch, s.branches.get? call = some branch ∧ branch.sessionId = moved.sessionId ∧
        branch.phase.known = true) :
    BranchInv { s with branches := s.branches.set call moved } := by
  obtain ⟨rank, top, ranked, higher⟩ := inv.ranked
  have back : ∀ other branch job, (s.branches.set call moved).get? other = some branch →
      branch.phase.job? = some job → s.branches.get? other = some branch := by
    intro other branch job there has
    rcases get?_moved there with ⟨_, is⟩ | ⟨_, before⟩
    · rw [← is, none] at has
      cases has
    · exact before
  constructor
  · exact ⟨rank, top, ranked, fun other branch job there has =>
      higher other branch job (back other branch job there has) has⟩
  · exact fun first second branch₁ branch₂ job₁ job₂ there₁ there₂ has₁ has₂ =>
      inv.unique first second branch₁ branch₂ job₁ job₂ (back _ _ _ there₁ has₁) (back _ _ _ there₂ has₂)
        has₁ has₂
  · intro first second branch₁ branch₂ job₁ stage there₁ copying there₂ knows
    have before := back first branch₁ job₁ there₁ (by rw [copying]; rfl)
    rcases get?_moved there₂ with ⟨equal, is⟩ | ⟨_, there⟩
    · rw [← is] at knows ⊢
      rcases known knows with present | ⟨branch, found, same, knew⟩
      · intro clash
        have absent := inv.phases first branch₁ before
        unfold PhaseInv at absent
        rw [copying] at absent
        rw [clash] at present
        exact present absent.1
      · rw [← same]
        exact inv.unborn first call branch₁ branch job₁ stage before copying found knew
    · exact inv.unborn first second branch₁ branch₂ job₁ stage before copying there knows
  · exact fun other branch job there has => inv.keys other branch job (back _ _ _ there has) has
  · intro other branch there
    rcases get?_moved there with ⟨_, is⟩ | ⟨_, before⟩
    · rw [← is]
      exact trivially
    · exact inv.phases other branch before

/-- A step of something else than a branch. -/
theorem BranchInv.world {s : Conversations} (inv : BranchInv s) {sessions : Sessions} {entries : List Row}
    {discards : Dict Nat Discard}
    (ranks : ∀ rank top, Ranked (successors s.sessions) rank top → Ranked (successors sessions) rank top)
    (rows : ∀ row ∈ entries, row ∈ s.entries)
    (more : ∀ id, Discarded s id → Discarded ⟨sessions, entries, s.branches, discards⟩ id)
    (absent : ∀ newId, s.sessions.get? newId = none → sessions.get? newId = none)
    (keeps : ∀ origin newId, ¬Discarded ⟨sessions, entries, s.branches, discards⟩ newId →
      Keeps s.sessions sessions origin newId) :
    BranchInv ⟨sessions, entries, s.branches, discards⟩ := by
  obtain ⟨rank, top, ranked, higher⟩ := inv.ranked
  refine ⟨⟨rank, top, ranks rank top ranked, higher⟩, inv.unique, inv.unborn, ?_, ?_⟩
  · exact fun call branch job found owns row member =>
      inv.keys call branch job found owns row (rows row member)
  · intro call branch found
    exact (inv.phases call branch found).keep more (fun job _ => absent job.newId)
      (fun job _ kept => keeps branch.sessionId job.newId kept) fun _ _ row member _ => rows row member

end Invariant

end ArcReel.Agent
