import ArcReel.Agent.SupersedeChains
import ArcReel.Lib.Run

/-! Every step of branches, withdrawals and deletions keeps what the supersede chains rest on, and only
the pointer of a branch can leave one that names nothing. -/

namespace ArcReel.Agent
open Lib Transcript Successors

section Begin

/-- What an unused id is not in. -/
structure Fresh (s : Conversations) (newId : String) : Prop where
  unlisted : s.sessions.get? newId = none
  unnamed : ∀ item, successors s.sessions item ≠ some (some newId)
  unwritten : NoEntries s.entries newId
  foreign : ∀ call branch, s.branches.get? call = some branch →
    branch.sessionId ≠ newId ∧ ∀ job, branch.phase.job? = some job → job.newId ≠ newId

theorem mem_values_of_get? {κ ν : Type} [DecidableEq κ] {dict : Dict κ ν} {key : κ} {value : ν}
    (found : dict.get? key = some value) : value ∈ dict.values :=
  List.mem_map_of_mem (f := Prod.snd) ((Dict.get?_eq_some_iff dict key value).mp found)

theorem fresh_of_unused {s : Conversations} {newId : String} (unused : Unused s newId = true) :
    Fresh s newId := by
  simp only [Unused, Bool.and_eq_true, List.all_eq_true, decide_eq_true_eq] at unused
  obtain ⟨⟨⟨unlisted, unnamed⟩, unwritten⟩, foreign⟩ := unused
  constructor
  · exact (Dict.get?_eq_none_iff _ _).mpr unlisted
  · intro item named
    obtain ⟨row, there, points⟩ := successors_eq_some.mp named
    exact unnamed row (mem_values_of_get? there) points
  · exact unwritten
  · intro call branch found
    obtain ⟨apart, jobs⟩ := foreign branch (mem_values_of_get? found)
    refine ⟨apart, fun job owns => ?_⟩
    rw [owns] at jobs
    simpa using jobs

theorem ranked_fresh {next : Successors String} {rank : String → Int} {top : Int} {newId : String}
    (ranked : Ranked next rank top) (unlisted : next newId = none)
    (unnamed : ∀ item, next item ≠ some (some newId)) :
    Ranked next (Function.update rank newId (top + 1)) (top + 1) := by
  constructor
  · intro item
    rw [Function.update_apply]
    split
    · exact le_refl _
    · have below := ranked.bounded item
      omega
  · intro item other named
    have itemApart : item ≠ newId := by
      intro same
      rw [same, unlisted] at named
      cases named
    have otherApart : other ≠ newId := by
      intro same
      rw [same] at named
      exact unnamed item named
    rw [Function.update_of_ne itemApart, Function.update_of_ne otherApart]
    exact ranked.increasing item other named

/-- A branch begins to copy under a new id. -/
theorem BranchInv.begin {s : Conversations} (inv : BranchInv s) {call : Nat} {branch : Branch}
    (found : s.branches.get? call = some branch) (known : branch.phase.known = true) {job : Job} (fresh : Fresh s job.newId) :
    BranchInv (s.moveBranch call branch (s.sessions, s.entries, .copy job .load)) := by
  obtain ⟨rank, top, ranked, higher⟩ := inv.ranked
  -- The branch that moves is the only one with the new id.
  have cases_ : ∀ other moved job', (s.branches.set call ⟨branch.sessionId, .copy job .load⟩).get? other =
      some moved → moved.phase.job? = some job' →
        (other = call ∧ moved = ⟨branch.sessionId, .copy job .load⟩ ∧ job' = job) ∨
          (s.branches.get? other = some moved ∧ job'.newId ≠ job.newId) := by
    intro other moved job' there has
    rcases get?_moved there with ⟨equal, is⟩ | ⟨_, old⟩
    · rw [← is] at has
      exact .inl ⟨equal, is.symm, (Option.some.inj has).symm⟩
    · exact .inr ⟨old, (fresh.foreign other moved old).2 job' has⟩
  have origins : ∀ other moved, (s.branches.set call ⟨branch.sessionId, .copy job .load⟩).get? other =
      some moved → moved.sessionId ≠ job.newId := by
    intro other moved there
    rcases get?_moved there with ⟨_, is⟩ | ⟨_, old⟩
    · rw [← is]
      exact (fresh.foreign call branch found).1
    · exact (fresh.foreign other moved old).1
  constructor
  · refine ⟨_, _, ranked_fresh ranked (successors_eq_none.mpr fresh.unlisted) fresh.unnamed, ?_⟩
    intro other moved job' there has
    rw [Function.update_of_ne (origins other moved there)]
    rcases cases_ other moved job' there has with ⟨_, is, same⟩ | ⟨old, apart⟩
    · have below := ranked.bounded moved.sessionId
      rw [same, Function.update_self]
      omega
    · rw [Function.update_of_ne apart]
      exact higher other moved job' old has
  · intro first second branch₁ branch₂ job₁ job₂ there₁ there₂ has₁ has₂ equal
    rcases cases_ first branch₁ job₁ there₁ has₁ with ⟨same₁, _, is₁⟩ | ⟨old₁, apart₁⟩
    · rcases cases_ second branch₂ job₂ there₂ has₂ with ⟨same₂, _, _⟩ | ⟨_, apart₂⟩
      · rw [same₁, same₂]
      · rw [is₁] at equal
        exact absurd equal.symm apart₂
    · rcases cases_ second branch₂ job₂ there₂ has₂ with ⟨_, _, is₂⟩ | ⟨old₂, _⟩
      · rw [is₂] at equal
        exact absurd equal apart₁
      · exact inv.unique first second branch₁ branch₂ job₁ job₂ old₁ old₂ has₁ has₂ equal
  · intro first second branch₁ branch₂ job₁ stage there₁ copying there₂ knows
    rcases cases_ first branch₁ job₁ there₁ (by rw [copying]; rfl) with ⟨_, _, same⟩ | ⟨old₁, _⟩
    · rw [same]
      exact origins second branch₂ there₂
    · rcases get?_moved there₂ with ⟨_, is⟩ | ⟨_, old₂⟩
      · rw [← is]
        exact inv.unborn first call branch₁ branch job₁ stage old₁ copying found known
      · exact inv.unborn first second branch₁ branch₂ job₁ stage old₁ copying old₂ knows
  · intro other moved job' there has row member owned
    rcases cases_ other moved job' there has with ⟨_, _, same⟩ | ⟨old, _⟩
    · rw [same] at owned
      exact absurd owned (fresh.unwritten row member)
    · exact inv.keys other moved job' old has row member owned
  · intro other moved there
    rcases get?_moved there with ⟨_, is⟩ | ⟨_, old⟩
    · rw [← is]
      exact ⟨fresh.unlisted, fun _ => fresh.unwritten⟩
    · exact inv.phases other moved old

end Begin

section Proceed

variable {projectKeyOf : String → Option String}

theorem copyStep_ne_load {sessionId : String} {job : Job} {rows written : List Row} {nowMs : Nat}
    {nowIso : String} {stage next : CopyStage}
    (stepped : copyStep sessionId job rows nowMs nowIso stage = .go written next) : next ≠ .load := by
  have later : ∀ subpaths, CopyStage.next subpaths ≠ .load := by
    intro subpaths same
    cases subpaths <;> cases same
  cases stage with
  | load =>
    rw [copyStep] at stepped
    split at stepped
    · cases stepped
    · rw [CopyStep.go.injEq] at stepped
      rw [← stepped.2]
      split <;> (intro same; cases same)
  | append entries =>
    rw [copyStep] at stepped
    split at stepped
    · rw [CopyStep.go.injEq] at stepped
      rw [← stepped.2]
      split <;> (intro same; cases same)
    · cases stepped
  | subkeys entries =>
    rw [copyStep, CopyStep.go.injEq] at stepped
    rw [← stepped.2]
    exact later _
  | subLoad subpaths =>
    cases subpaths with
    | nil =>
      rw [copyStep, CopyStep.go.injEq] at stepped
      rw [← stepped.2]
      intro same
      cases same
    | cons subpath subpaths =>
      rw [copyStep, CopyStep.go.injEq] at stepped
      rw [← stepped.2]
      split
      · exact later _
      · intro same
        cases same
  | subAppend subpath entries subpaths =>
    rw [copyStep] at stepped
    split at stepped
    · rw [CopyStep.go.injEq] at stepped
      rw [← stepped.2]
      exact later _
    · cases stepped
  | done => cases stepped

theorem noEntries_dropEntries {entries : List Row} {job : Job} (keys : KeyInv entries job) :
    NoEntries (dropEntries entries job.projectKey job.newId) job.newId := by
  intro row member same
  rw [dropEntries, List.mem_filter] at member
  have key := keys row member.1 same
  have kept := member.2
  simp [hits, key, same] at kept

/-- What the next await of a branch with a job does. -/
structure Advance (discarded : String → Prop) (branch : Branch) (job : Job) (sessions : Sessions)
    (entries : List Row) (after : Sessions × List Row × Phase) : Prop where
  effect : Effect branch job sessions after.1
  rows : ∀ row ∈ after.2.1, row ∈ entries ∨ job.owns row
  same : after.2.2.job? = some job
  copies : ∀ stage, after.2.2 = .copy job stage → ∃ before, branch.phase = .copy job before
  own : PhaseInv after.1 after.2.1 discarded ⟨branch.sessionId, after.2.2⟩

/-- Nothing but the phase changes. -/
theorem Advance.stay {discarded : String → Prop} {branch : Branch} {job : Job} {sessions : Sessions}
    {entries : List Row} {phase : Phase} (same : phase.job? = some job)
    (copies : ∀ stage, phase = .copy job stage → ∃ before, branch.phase = .copy job before)
    (own : PhaseInv sessions entries discarded ⟨branch.sessionId, phase⟩) :
    Advance discarded branch job sessions entries (sessions, entries, phase) :=
  ⟨.refl .., fun _ => .inl, same, copies, own⟩

theorem proceed_copy {sessionId : String} {job : Job} {stage : CopyStage} (further : stage ≠ .done)
    (sessions : Sessions) (entries : List Row) (nowMs : Nat) (nowIso : String) :
    Branch.proceed projectKeyOf ⟨sessionId, .copy job stage⟩ sessions entries nowMs nowIso =
      match copyStep sessionId job entries nowMs nowIso stage with
      | .go written next => some (sessions, written, .copy job next)
      | .invalidAnchor => some (sessions, entries, .raised (some job))
      | .failed => some (sessions, entries, .clear job) := by
  cases stage with
  | done => exact absurd rfl further
  | _ => rfl

theorem sessions_proceed_copy {sessionId : String} {job : Job} {stage : CopyStage}
    (further : stage ≠ .done) {sessions : Sessions} {entries : List Row}
    {after : Sessions × List Row × Phase} {nowMs : Nat} {nowIso : String}
    (stepped : Branch.proceed projectKeyOf ⟨sessionId, .copy job stage⟩ sessions entries nowMs nowIso =
      some after) : after.1 = sessions := by
  rw [proceed_copy further] at stepped
  split at stepped
  · rw [← Option.some.inj stepped]
  · rw [← Option.some.inj stepped]
  · rw [← Option.some.inj stepped]

theorem advance_copy {discarded : String → Prop} {sessionId : String} {job : Job} {stage : CopyStage}
    {sessions : Sessions} {entries : List Row} {after : Sessions × List Row × Phase} {nowMs : Nat}
    {nowIso : String} (inv : PhaseInv sessions entries discarded ⟨sessionId, .copy job stage⟩)
    (stepped : Branch.proceed projectKeyOf ⟨sessionId, .copy job stage⟩ sessions entries nowMs nowIso =
      some after) :
    Advance discarded ⟨sessionId, .copy job stage⟩ job sessions entries after := by
  by_cases done : stage = .done
  · subst done
    rw [Branch.proceed, Option.some.injEq] at stepped
    rw [← stepped]
    exact ⟨effect_create rfl sessions, fun _ => .inl, rfl, nofun, trivial⟩
  · rw [proceed_copy done] at stepped
    split at stepped
    · next written next copied =>
      rw [Option.some.injEq] at stepped
      rw [← stepped]
      refine ⟨.refl .., fun row => copyStep_rows copied, rfl, fun _ _ => ⟨stage, rfl⟩, inv.1, ?_⟩
      exact fun load => absurd load (copyStep_ne_load copied)
    · next refused =>
      rw [Option.some.injEq] at stepped
      rw [← stepped]
      exact .stay rfl nofun ⟨inv.1, inv.2 (stage_of_invalidAnchor refused)⟩
    · rw [Option.some.injEq] at stepped
      rw [← stepped]
      exact .stay rfl nofun trivial

theorem returned_mark {discarded : String → Prop} {sessionId : String} {job : Job}
    {sessions marked : Sessions} {entries : List Row}
    (done : markSuperseded sessions sessionId job.newId = some marked) :
    PhaseInv marked entries discarded ⟨sessionId, .returned job⟩ := by
  intro _ _ row found
  have points : successors marked sessionId = some (some job.newId) := by
    rw [(successors_mark done).2, Function.update_self]
  obtain ⟨there, is, value⟩ := successors_eq_some.mp points
  rw [is, Option.some.injEq] at found
  rw [← found]
  exact value

theorem advance_proceed {discarded : String → Prop} {branch : Branch} {job : Job} {sessions : Sessions}
    {entries : List Row} {after : Sessions × List Row × Phase} {nowMs : Nat} {nowIso : String}
    (inv : PhaseInv sessions entries discarded branch) (keys : KeyInv entries job)
    (owns : branch.phase.job? = some job)
    (stepped : branch.proceed projectKeyOf sessions entries nowMs nowIso = some after) :
    Advance discarded branch job sessions entries after := by
  obtain ⟨sessionId, phase⟩ := branch
  cases phase with
  | lookup => cases owns
  | resolve projectName projectKey => cases owns
  | copy own stage =>
    cases owns
    exact advance_copy inv stepped
  | mark own =>
    cases owns
    rw [Branch.proceed] at stepped
    dsimp only at stepped
    split at stepped
    · next marked done =>
      rw [Option.some.injEq] at stepped
      rw [← stepped]
      exact ⟨effect_mark done, fun _ => .inl, rfl, nofun, returned_mark done⟩
    · rw [Option.some.injEq] at stepped
      rw [← stepped]
      exact .stay rfl nofun trivial
  | clear own =>
    cases owns
    rw [Branch.proceed, Option.some.injEq] at stepped
    rw [← stepped]
    exact ⟨effect_clear _ job sessions, fun _ => .inl, rfl, nofun, trivial⟩
  | dropEntries own =>
    cases owns
    rw [Branch.proceed, Option.some.injEq] at stepped
    rw [← stepped]
    exact ⟨.refl .., fun row member => .inl (List.mem_of_mem_filter member), rfl, nofun,
      noEntries_dropEntries keys⟩
  | dropRow own =>
    cases owns
    rw [Branch.proceed, Option.some.injEq] at stepped
    rw [← stepped]
    refine ⟨effect_delete _ job sessions, fun _ => .inl, rfl, nofun, ?_, inv⟩
    rw [get?_deleteSession, if_pos rfl]
  | returned own => cases stepped
  | raised own => cases stepped

theorem BranchInv.ofAdvance {s : Conversations} (inv : BranchInv s) {call : Nat} {branch : Branch}
    (found : s.branches.get? call = some branch) {job : Job} (owns : branch.phase.job? = some job)
    {after : Sessions × List Row × Phase}
    (advance : Advance (Discarded s) branch job s.sessions s.entries after) :
    BranchInv (s.moveBranch call branch after) :=
  inv.advance found owns advance.same advance.copies advance.effect advance.rows advance.own

/-- The transaction is committed and the call is cancelled all the same. -/
theorem Advance.cancelled {discarded : String → Prop} {branch : Branch} {job : Job} {sessions : Sessions}
    {entries : List Row} {after : Sessions × List Row × Phase}
    (advance : Advance discarded branch job sessions entries after) :
    Advance discarded branch job sessions entries (after.1, after.2.1, .clear job) :=
  ⟨advance.effect, advance.rows, rfl, nofun, trivial⟩

theorem BranchInv.proceed {s : Conversations} (inv : BranchInv s) {call : Nat} {branch : Branch}
    (found : s.branches.get? call = some branch) {after : Sessions × List Row × Phase} {nowMs : Nat}
    {nowIso : String}
    (stepped : branch.proceed projectKeyOf s.sessions s.entries nowMs nowIso = some after) :
    BranchInv (s.moveBranch call branch after) := by
  cases owns : branch.phase.job? with
  | some job =>
    exact inv.ofAdvance found owns
      (advance_proceed (inv.phases call branch found) (inv.keys call branch job found owns) owns stepped)
  | none =>
    obtain ⟨sessionId, phase⟩ := branch
    cases phase with
    | lookup =>
      rw [Branch.proceed] at stepped
      dsimp only at stepped
      split at stepped
      · next row there =>
        split at stepped
        · rw [Option.some.injEq] at stepped
          rw [← stepped]
          exact inv.quiet rfl trivial fun _ => .inl (by rw [there]; exact Option.some_ne_none row)
        · rw [Option.some.injEq] at stepped
          rw [← stepped]
          exact inv.quiet rfl trivial nofun
      · rw [Option.some.injEq] at stepped
        rw [← stepped]
        exact inv.quiet rfl trivial nofun
    | raised job => cases stepped
    | resolve projectName projectKey => cases stepped
    | copy job stage => cases owns
    | mark job => cases owns
    | clear job => cases owns
    | dropEntries job => cases owns
    | dropRow job => cases owns
    | returned job => cases owns

theorem BranchInv.fail {s : Conversations} (inv : BranchInv s) {call : Nat} {branch : Branch}
    (found : s.branches.get? call = some branch) {committed : Bool}
    {after : Sessions × List Row × Phase} {nowMs : Nat} {nowIso : String}
    (stepped : branch.fail projectKeyOf s.sessions s.entries committed nowMs nowIso = some after) :
    BranchInv (s.moveBranch call branch after) := by
  have attempt : ∀ job, branch.phase.job? = some job →
      (if committed then (branch.proceed projectKeyOf s.sessions s.entries nowMs nowIso).map fun after =>
        (after.1, after.2.1, Phase.clear job) else some (s.sessions, s.entries, .clear job)) = some after →
        BranchInv (s.moveBranch call branch after) := by
    intro job owns tried
    apply inv.ofAdvance found owns
    split at tried
    · obtain ⟨done, proceeded, result⟩ := Option.map_eq_some_iff.mp tried
      rw [← result]
      exact (advance_proceed (inv.phases call branch found) (inv.keys call branch job found owns) owns
        proceeded).cancelled
    · rw [Option.some.injEq] at tried
      rw [← tried]
      exact .stay rfl nofun trivial
  have unstarted : (s.sessions, s.entries, Phase.raised none) = after →
      BranchInv (s.moveBranch call branch after) := by
    intro result
    rw [← result]
    exact inv.quiet rfl trivial nofun
  obtain ⟨sessionId, phase⟩ := branch
  cases phase with
  | lookup => exact unstarted (Option.some.inj stepped)
  | resolve projectName projectKey => exact unstarted (Option.some.inj stepped)
  | copy job stage => exact attempt job rfl stepped
  | mark job => exact attempt job rfl stepped
  | clear job => cases stepped
  | dropEntries job => cases stepped
  | dropRow job => cases stepped
  | returned job => cases stepped
  | raised job => cases stepped

theorem BranchInv.anchored {s t : Conversations} (inv : BranchInv s) {call : Nat}
    {anchorUuid : Option String} {newId : String}
    (stepped : branchStep projectKeyOf s (.anchored call anchorUuid newId) = some t) : BranchInv t := by
  rw [branchStep, Option.bind_eq_some_iff] at stepped
  obtain ⟨⟨sessionId, phase⟩, found, stepped⟩ := stepped
  cases phase with
  | resolve projectName projectKey =>
    cases anchorUuid with
    | none =>
      rw [Option.some.injEq] at stepped
      rw [← stepped]
      exact inv.quiet rfl trivial nofun
    | some anchorUuid =>
      dsimp only at stepped
      split at stepped
      · next unused =>
        rw [Option.some.injEq] at stepped
        rw [← stepped]
        exact inv.begin found rfl (fresh_of_unused unused)
      · cases stepped
  | lookup => cases stepped
  | copy job stage => cases stepped
  | mark job => cases stepped
  | clear job => cases stepped
  | dropEntries job => cases stepped
  | dropRow job => cases stepped
  | returned job => cases stepped
  | raised job => cases stepped

end Proceed

section Withdraw

variable {projectKeyOf : String → Option String}

theorem discarded_set {s : Conversations} {call : Nat} {discard : Discard} {newId : String}
    (same : ∀ before, s.discards.get? call = some before → before.newSessionId = discard.newSessionId)
    (discarded : Discarded s newId) (sessions : Sessions) (entries : List Row) :
    Discarded ⟨sessions, entries, s.branches, s.discards.set call discard⟩ newId := by
  obtain ⟨other, before, found, is⟩ := discarded
  by_cases equal : other = call
  · rw [equal] at found
    exact ⟨call, discard, by rw [Dict.get?_set, if_pos rfl], by rw [← same before found, is]⟩
  · exact ⟨other, before, by rw [Dict.get?_set, if_neg equal, found], is⟩

theorem discarded_here {s : Conversations} {call : Nat} {discard : Discard} {sessions : Sessions}
    {entries : List Row} :
    Discarded ⟨sessions, entries, s.branches, s.discards.set call discard⟩ discard.newSessionId :=
  ⟨call, discard, by rw [Dict.get?_set, if_pos rfl], rfl⟩

theorem absent_clear {sessions : Sessions} {sessionId target newId : String}
    (none : sessions.get? newId = none) : (clearSuperseded sessions sessionId target).get? newId = .none := by
  have unlisted := successors_eq_none.mpr none
  apply successors_eq_none.mp
  rw [successors_clear]
  dsimp only
  rw [if_neg, unlisted]
  rintro ⟨same, points⟩
  rw [← same, unlisted] at points
  cases points

theorem BranchInv.withdraw {s : Conversations} (inv : BranchInv s) {call : Nat} {discard : Discard}
    (found : s.discards.get? call = some discard) {after : Sessions × List Row × DiscardPhase}
    (stepped : discard.proceed projectKeyOf s.sessions s.entries = some after) :
    BranchInv (s.moveDiscard call discard after) := by
  have more : ∀ (phase : DiscardPhase) sessions entries id, Discarded s id →
      Discarded ⟨sessions, entries, s.branches, s.discards.set call { discard with phase := phase }⟩ id := by
    intro phase sessions entries id discarded
    apply discarded_set _ discarded
    intro before there
    rw [found, Option.some.injEq] at there
    rw [there]
  obtain ⟨originSessionId, newSessionId, phase⟩ := discard
  cases phase with
  | lookup =>
    rw [Discard.proceed, Option.some.injEq] at stepped
    rw [← stepped]
    exact inv.world (fun _ _ => id) (fun _ => id) (more _ _ _) (fun _ => id) fun _ _ _ => .refl ..
  | clear projectKey =>
    rw [Discard.proceed, Option.some.injEq] at stepped
    rw [← stepped]
    refine inv.world (fun _ _ ranked => ranked_clear ranked _ _) (fun _ => id) (more _ _ _)
      (fun _ => absent_clear) fun origin newId kept => keeps_clear _ _ origin ?_
    intro same
    apply kept
    rw [same]
    exact discarded_here
  | dropEntries projectKey =>
    rw [Discard.proceed, Option.some.injEq] at stepped
    rw [← stepped]
    exact inv.world (fun _ _ => id) (fun _ => List.mem_of_mem_filter) (more _ _ _) (fun _ => id)
      fun _ _ _ => .refl ..
  | dropRow =>
    rw [Discard.proceed, Option.some.injEq] at stepped
    rw [← stepped]
    exact inv.world (fun _ _ ranked => ranked_delete ranked _) (fun _ => id) (more _ _ _)
      (fun newId => (keeps_delete _ _ newId newId).absent) fun origin newId _ => keeps_delete _ _ origin newId
  | done => cases stepped

end Withdraw

section Step

variable {projectKeyOf : String → Option String}

theorem branchInv_step {s t : Conversations} (inv : BranchInv s) {next : BranchStep}
    (stepped : branchStep projectKeyOf s next = some t) : BranchInv t := by
  cases next with
  | branch call sessionId =>
    rw [branchStep] at stepped
    split_ifs at stepped
    rw [Option.some.injEq] at stepped
    rw [← stepped]
    refine inv.quiet rfl trivial ?_
    intro same
    cases same
  | anchored call anchorUuid newId => exact inv.anchored stepped
  | proceed call nowMs nowIso =>
    rw [branchStep, Option.bind_eq_some_iff] at stepped
    obtain ⟨branch, found, stepped⟩ := stepped
    obtain ⟨after, proceeded, result⟩ := Option.map_eq_some_iff.mp stepped
    rw [← result]
    exact inv.proceed found proceeded
  | fail call committed nowMs nowIso =>
    rw [branchStep, Option.bind_eq_some_iff] at stepped
    obtain ⟨branch, found, stepped⟩ := stepped
    obtain ⟨after, failed, result⟩ := Option.map_eq_some_iff.mp stepped
    rw [← result]
    exact inv.fail found failed
  | discard call originSessionId newSessionId =>
    rw [branchStep] at stepped
    split_ifs at stepped with known
    rw [Option.some.injEq] at stepped
    rw [← stepped]
    refine inv.world (fun _ _ => id) (fun _ => id) (fun newId discarded => ?_) (fun _ => id)
      fun _ _ _ => .refl ..
    apply discarded_set _ discarded
    intro before there
    rw [there] at known
    exact absurd rfl known
  | withdraw call =>
    rw [branchStep, Option.bind_eq_some_iff] at stepped
    obtain ⟨discard, found, stepped⟩ := stepped
    obtain ⟨after, withdrawn, result⟩ := Option.map_eq_some_iff.mp stepped
    rw [← result]
    exact inv.withdraw found withdrawn
  | withdrawFails call =>
    rw [branchStep, Option.bind_eq_some_iff] at stepped
    obtain ⟨discard, found, stepped⟩ := stepped
    split_ifs at stepped
    rw [Option.some.injEq] at stepped
    rw [← stepped]
    refine inv.world (fun _ _ => id) (fun _ => id) (fun newId discarded => ?_) (fun _ => id)
      fun _ _ _ => .refl ..
    apply discarded_set _ discarded
    intro before there
    rw [found, Option.some.injEq] at there
    rw [there]
  | delete sessionId =>
    rw [branchStep, Option.some.injEq] at stepped
    rw [← stepped]
    exact inv.world (fun _ _ ranked => ranked_delete ranked _) (fun _ => id) (fun _ => id)
      (fun newId => (keeps_delete _ _ newId newId).absent) fun origin newId _ => keeps_delete _ _ origin newId

end Step

section Pointer

variable {projectKeyOf : String → Option String}

theorem closed_mark_iff {sessions marked : Sessions} {sessionId newId : String}
    (closed : Closed (successors sessions))
    (done : markSuperseded sessions sessionId newId = some marked) :
    Closed (successors marked) ↔ (sessions.get? newId).isSome = true := by
  obtain ⟨open_, after⟩ := successors_mark done
  rw [after, closed_update_iff closed newId (by rw [open_]; exact Option.some_ne_none _), ne_eq,
    successors_eq_none, Option.isSome_iff_ne_none]

theorem closed_clear {sessions : Sessions} (closed : Closed (successors sessions))
    (sessionId newId : String) : Closed (successors (clearSuperseded sessions sessionId newId)) := by
  apply closed_of_fewer closed
  · intro other present
    rw [successors_clear]
    dsimp only
    split
    · exact Option.some_ne_none _
    · exact present
  · intro item other named
    rw [successors_clear] at named
    dsimp only at named
    split at named
    · cases named
    · exact named

theorem BranchInv.closed_delete {s : Conversations} (inv : BranchInv s)
    (closed : Closed (successors s.sessions)) (gone : String) :
    Closed (successors (deleteSession s.sessions gone)) := by
  obtain ⟨_, _, ranked, _⟩ := inv.ranked
  rw [successors_delete]
  exact closed_remove ranked closed gone

/-- A branch leaves every pointer with a row exactly if its own names one. -/
theorem BranchInv.closed_proceed {s : Conversations} (inv : BranchInv s)
    (closed : Closed (successors s.sessions)) {branch : Branch} {after : Sessions × List Row × Phase}
    {nowMs : Nat} {nowIso : String}
    (stepped : branch.proceed projectKeyOf s.sessions s.entries nowMs nowIso = some after) :
    Closed (successors after.1) ↔ branch.pointsAtLiving s.sessions = true := by
  have quiet : branch.pointsAtLiving s.sessions = true → Closed (successors after.1) →
      (Closed (successors after.1) ↔ branch.pointsAtLiving s.sessions = true) :=
    fun living sound => iff_of_true sound living
  obtain ⟨sessionId, phase⟩ := branch
  cases phase with
  | lookup =>
    apply quiet rfl
    rw [Branch.proceed] at stepped
    dsimp only at stepped
    split at stepped
    · split at stepped
      · rwa [← Option.some.inj stepped]
      · rwa [← Option.some.inj stepped]
    · rwa [← Option.some.inj stepped]
  | resolve projectName projectKey => cases stepped
  | copy job stage =>
    apply quiet rfl
    by_cases done : stage = .done
    · subst done
      rw [← Option.some.inj stepped, successors_create]
      exact closed_update_none closed _
    · rwa [sessions_proceed_copy done stepped]
  | mark job =>
    rw [Branch.proceed] at stepped
    dsimp only at stepped
    cases done : markSuperseded s.sessions sessionId job.newId with
    | some marked =>
      rw [done] at stepped
      obtain ⟨row, there, single⟩ := successors_eq_some.mp (successors_mark done).1
      rw [← Option.some.inj stepped, closed_mark_iff closed done, Branch.pointsAtLiving]
      dsimp only
      rw [there, Option.all_some, single]
      rfl
    | none =>
      rw [done] at stepped
      rw [← Option.some.inj stepped]
      refine iff_of_true closed ?_
      rw [Branch.pointsAtLiving]
      dsimp only
      rw [all_superseded_of_mark done]
      rfl
  | clear job =>
    apply quiet rfl
    rw [← Option.some.inj stepped]
    exact closed_clear closed _ _
  | dropEntries job =>
    apply quiet rfl
    rwa [← Option.some.inj stepped]
  | dropRow job =>
    apply quiet rfl
    rw [← Option.some.inj stepped]
    exact inv.closed_delete closed _
  | returned job => cases stepped
  | raised job => cases stepped

theorem BranchInv.closed_fail {s : Conversations} (inv : BranchInv s)
    (closed : Closed (successors s.sessions)) {branch : Branch} {committed : Bool}
    {after : Sessions × List Row × Phase} {nowMs : Nat} {nowIso : String}
    (stepped : branch.fail projectKeyOf s.sessions s.entries committed nowMs nowIso = some after) :
    Closed (successors after.1) ↔ (!committed || branch.pointsAtLiving s.sessions) = true := by
  have attempt : ∀ job : Job, (if committed then
      (branch.proceed projectKeyOf s.sessions s.entries nowMs nowIso).map fun after =>
        (after.1, after.2.1, Phase.clear job) else some (s.sessions, s.entries, .clear job)) = some after →
      (Closed (successors after.1) ↔ (!committed || branch.pointsAtLiving s.sessions) = true) := by
    intro job tried
    cases committed with
    | true =>
      obtain ⟨done, proceeded, result⟩ := Option.map_eq_some_iff.mp tried
      have sound := inv.closed_proceed closed proceeded
      rw [← result]
      exact sound
    | false =>
      rw [← Option.some.inj tried]
      exact iff_of_true closed rfl
  have unstarted : (s.sessions, s.entries, Phase.raised none) = after →
      branch.pointsAtLiving s.sessions = true →
      (Closed (successors after.1) ↔ (!committed || branch.pointsAtLiving s.sessions) = true) := by
    intro result living
    rw [← result, living, Bool.or_true]
    exact iff_of_true closed rfl
  obtain ⟨sessionId, phase⟩ := branch
  cases phase with
  | lookup => exact unstarted (Option.some.inj stepped) rfl
  | resolve projectName projectKey => exact unstarted (Option.some.inj stepped) rfl
  | copy job stage => exact attempt job stepped
  | mark job => exact attempt job stepped
  | clear job => cases stepped
  | dropEntries job => cases stepped
  | dropRow job => cases stepped
  | returned job => cases stepped
  | raised job => cases stepped

theorem sessions_anchored {s t : Conversations} {call : Nat} {anchorUuid : Option String} {newId : String}
    (stepped : branchStep projectKeyOf s (.anchored call anchorUuid newId) = some t) :
    t.sessions = s.sessions := by
  rw [branchStep, Option.bind_eq_some_iff] at stepped
  obtain ⟨branch, _, stepped⟩ := stepped
  split at stepped
  · split at stepped
    · rw [← Option.some.inj stepped]
      rfl
    · split at stepped
      · rw [← Option.some.inj stepped]
        rfl
      · cases stepped
  · cases stepped

end Pointer

section Sound

variable {projectKeyOf : String → Option String}

theorem closed_step_iff {s t : Conversations} (inv : BranchInv s)
    (closed : Closed (successors s.sessions)) {next : BranchStep}
    (stepped : branchStep projectKeyOf s next = some t) :
    Closed (successors t.sessions) ↔ pointsAtLiving s next = true := by
  cases next with
  | branch call sessionId =>
    rw [branchStep] at stepped
    split_ifs at stepped
    rw [← Option.some.inj stepped]
    exact iff_of_true closed rfl
  | anchored call anchorUuid newId =>
    rw [sessions_anchored stepped]
    exact iff_of_true closed rfl
  | proceed call nowMs nowIso =>
    rw [branchStep, Option.bind_eq_some_iff] at stepped
    obtain ⟨branch, found, stepped⟩ := stepped
    obtain ⟨after, proceeded, result⟩ := Option.map_eq_some_iff.mp stepped
    rw [← result, pointsAtLiving, found, Option.all_some]
    exact inv.closed_proceed closed proceeded
  | fail call committed nowMs nowIso =>
    rw [branchStep, Option.bind_eq_some_iff] at stepped
    obtain ⟨branch, found, stepped⟩ := stepped
    obtain ⟨after, failed, result⟩ := Option.map_eq_some_iff.mp stepped
    have sound := inv.closed_fail closed failed
    rw [← result]
    cases committed with
    | true =>
      rw [pointsAtLiving, found, Option.all_some]
      exact sound
    | false => exact sound
  | discard call originSessionId newSessionId =>
    rw [branchStep] at stepped
    split_ifs at stepped
    rw [← Option.some.inj stepped]
    exact iff_of_true closed rfl
  | withdraw call =>
    rw [branchStep, Option.bind_eq_some_iff] at stepped
    obtain ⟨⟨originSessionId, newSessionId, phase⟩, _, stepped⟩ := stepped
    obtain ⟨after, withdrawn, result⟩ := Option.map_eq_some_iff.mp stepped
    rw [← result]
    refine iff_of_true ?_ rfl
    cases phase with
    | lookup =>
      rw [← Option.some.inj withdrawn]
      exact closed
    | clear projectKey =>
      rw [← Option.some.inj withdrawn]
      exact closed_clear closed _ _
    | dropEntries projectKey =>
      rw [← Option.some.inj withdrawn]
      exact closed
    | dropRow =>
      rw [← Option.some.inj withdrawn]
      exact inv.closed_delete closed _
    | done => cases withdrawn
  | withdrawFails call =>
    rw [branchStep, Option.bind_eq_some_iff] at stepped
    obtain ⟨discard, _, stepped⟩ := stepped
    split_ifs at stepped
    rw [← Option.some.inj stepped]
    exact iff_of_true closed rfl
  | delete sessionId =>
    rw [← Option.some.inj stepped]
    exact iff_of_true (inv.closed_delete closed _) rfl

theorem chainsSound_of_closed {s : Conversations} (inv : BranchInv s)
    (closed : Closed (successors s.sessions)) : ChainsSound s := by
  have points : ∀ origin row newId, s.sessions.get? origin = some row → Finished s origin newId →
      ¬Discarded s newId → Listed s newId → row.supersededBy = some newId := by
    intro origin row newId there finished kept listed
    obtain ⟨call, job, found, same⟩ := finished
    have phase := inv.phases call ⟨origin, .returned job⟩ found
    rw [← same] at kept listed ⊢
    exact phase kept listed row there
  constructor
  · exact closed
  · obtain ⟨_, _, ranked, _⟩ := inv.ranked
    exact ends_of_ranked ranked closed
  · intro origin row first second there finished₁ kept₁ listed₁ finished₂ kept₂ listed₂
    have toFirst := points origin row first there finished₁ kept₁ listed₁
    have toSecond := points origin row second there finished₂ kept₂ listed₂
    rw [toFirst, Option.some.injEq] at toSecond
    exact ⟨toSecond, toFirst⟩
  · intro call origin job found
    exact inv.phases call ⟨origin, .raised (some job)⟩ found

theorem chainsSound_step_iff {s t : Conversations} (inv : BranchInv s) (sound : ChainsSound s)
    {next : BranchStep} (stepped : branchStep projectKeyOf s next = some t) :
    ChainsSound t ↔ pointsAtLiving s next = true := by
  rw [← closed_step_iff inv sound.named stepped]
  exact ⟨fun after => after.named, chainsSound_of_closed (branchInv_step inv stepped)⟩

/-- Before any branch: chains that come to an end. -/
theorem branchInv_start {sessions : Sessions} (ends : Ends (successors sessions)) (entries : List Row) :
    BranchInv ⟨sessions, entries, .empty, .empty⟩ := by
  obtain ⟨rank, ranked⟩ := ranked_of_ends ends
  have nothing : ∀ {call : Nat} {branch : Branch},
      (Dict.empty : Dict Nat Branch).get? call ≠ some branch := by
    intro call branch found
    rw [Dict.get?_empty] at found
    cases found
  constructor
  · exact ⟨rank, 0, ranked, fun _ _ _ found => absurd found nothing⟩
  · exact fun _ _ _ _ _ _ found => absurd found nothing
  · exact fun _ _ _ _ _ _ found => absurd found nothing
  · exact fun _ _ _ found => absurd found nothing
  · exact fun _ _ found => absurd found nothing

/-- The chains stay sound in a run exactly if no branch sets its pointer, on an origin that is not yet
superseded, after its new row was deleted. -/
theorem chains_sound_iff {sessions : Sessions} (ends : Ends (successors sessions)) (entries : List Row)
    {steps : List BranchStep} {t : Conversations}
    (ran : runSteps (branchStep projectKeyOf) steps ⟨sessions, entries, .empty, .empty⟩ = some t) :
    allSteps (branchStep projectKeyOf) pointsAtLiving steps ⟨sessions, entries, .empty, .empty⟩ = true ↔
      ∀ front back u, steps = front ++ back →
        runSteps (branchStep projectKeyOf) front ⟨sessions, entries, .empty, .empty⟩ = some u →
          ChainsSound u := by
  have start := branchInv_start ends entries
  exact allSteps_iff (fun _ _ _ inv stepped => branchInv_step inv stepped)
    (fun _ _ _ inv sound stepped => chainsSound_step_iff inv sound stepped) start
    (chainsSound_of_closed start (closed_of_ends ends)) ran

section Runs

/-- One session with one user message. -/
def oneSession : Sessions := Dict.empty.set "origin" ⟨"demo", none, none, none⟩

def oneMessage : List Row :=
  [⟨⟨"key", "origin", ""⟩, 0, some "u", "user", .obj [("type", .str "user"), ("uuid", .str "u")], 0⟩]

/-- A branch up to its new row. -/
def toPointer (call : Nat) (newId : String) : List BranchStep :=
  [.branch call "origin", .proceed call 1 "now", .anchored call (some "u") newId, .proceed call 1 "now",
    .proceed call 1 "now"]

theorem ends_oneSession : Ends (successors oneSession) := by
  intro item present
  refine ⟨0, ?_⟩
  rw [successors, oneSession, Dict.get?_set, Dict.get?_empty] at present
  rw [EndsIn, successors, oneSession, Dict.get?_set, Dict.get?_empty]
  split
  · rfl
  · next apart =>
    rw [if_neg apart] at present
    exact absurd rfl present

def twoBranches : List BranchStep :=
  toPointer 0 "first" ++ toPointer 1 "second" ++ [.proceed 0 1 "now", .proceed 1 1 "now",
    .proceed 1 1 "now", .proceed 1 1 "now", .proceed 1 1 "now", .delete "first"]

/-- Two branches of one session, of which the second raises and is withdrawn. -/
theorem two_branches_keep_sound :
    (runSteps (branchStep fun _ => some "key") twoBranches
      ⟨oneSession, oneMessage, .empty, .empty⟩).isSome = true ∧
    ∀ front back u, twoBranches = front ++ back →
      runSteps (branchStep fun _ => some "key") front ⟨oneSession, oneMessage, .empty, .empty⟩ = some u →
        ChainsSound u := by
  have complete : (runSteps (branchStep fun _ => some "key") twoBranches
      ⟨oneSession, oneMessage, .empty, .empty⟩).isSome = true := by
    decide
  obtain ⟨t, ran⟩ := Option.isSome_iff_exists.mp complete
  exact ⟨complete, (chains_sound_iff ends_oneSession oneMessage ran).mp (by decide)⟩

/-- Another client deletes the new session between its row and the pointer to it: the origin then names
no row, and no chain from it ends. -/
theorem pointer_names_nothing : ∃ u,
    runSteps (branchStep fun _ => some "key") (toPointer 0 "first" ++ [.delete "first", .proceed 0 1 "now"])
      ⟨oneSession, oneMessage, .empty, .empty⟩ = some u ∧ ¬ChainsSound u := by
  have dangling : (runSteps (branchStep fun _ => some "key")
      (toPointer 0 "first" ++ [.delete "first", .proceed 0 1 "now"])
      ⟨oneSession, oneMessage, .empty, .empty⟩).map (fun u => u.sessions.entries) =
        some [("origin", ⟨"demo", some "first", none, none⟩)] := by
    decide
  obtain ⟨u, ran, left⟩ := Option.map_eq_some_iff.mp dangling
  refine ⟨u, ran, fun sound => ?_⟩
  apply sound.named "origin" "first"
  · rw [successors, Dict.get?, left]
    rfl
  · rw [successors, Dict.get?, left]
    rfl

end Runs

end Sound

end ArcReel.Agent
