import ArcReel.Events.Channel
import ArcReel.Lib.Run

/-! No change is absorbed: what a replaced baseline differed in is broadcast by the scan or the
sweep that replaced it, or it is left to an explicit batch in flight. A batch whose own read fails
broadcasts nothing, so the changes left to it alone are lost. -/

namespace ArcReel.Events
open ArcReel.Lib

section Statement

variable {β : Type}

def Entry.carries (identity : Identity) : Entry → Bool
  | .broadcast _ _ changes => identity ∈ changes.map changeIdentity
  | _ => false

/-- A batch in flight describes the change. -/
def Channel.Describes (s : Channel β) (identity : Identity) : Prop :=
  ∃ id batch, s.batches.get? id = some batch ∧ identity ∈ batch.identities

/-- Each change between a baseline and the snapshot that took its place is in a later broadcast, or
a batch in flight has still to broadcast it. -/
def NothingAbsorbed (s : Channel β) : Prop :=
  ∀ before changes after, s.log = before ++ .replaced changes :: after → ∀ change ∈ changes,
    (∃ entry ∈ after, entry.carries (changeIdentity change) = true) ∨ s.Describes (changeIdentity change)

def owe (owed : List Identity) : Entry → List Identity
  | .replaced changes => owed ++ changes.map changeIdentity
  | .broadcast _ _ changes => owed.filter fun identity => identity ∉ changes.map changeIdentity
  | .deleted => owed

/-- The changes that a replacement has absorbed and no later broadcast contains. -/
def owed (log : List Entry) : List Identity := log.foldl owe []

/-- The changes that each batch in flight has promised. -/
def Channel.promised (s : Channel β) : List (Nat × Multiset Identity) :=
  s.batches.entries.map fun entry => (entry.1, entry.2.identities)

/-- The batch that ends in this step without a broadcast. -/
def Step.leaves : Step β → Option Nat
  | .batchReadFails id => some id
  | .batchChecked id _ => some id
  | _ => none

/-- What is owed and promised by this batch is promised by another batch too. -/
def Channel.owesNothingAlone (s : Channel β) (id : Nat) (batch : Batch) : Bool :=
  (owed s.log).all fun identity => decide (identity ∉ batch.identities) ||
    s.promised.any fun other => decide (other.1 ≠ id) && decide (identity ∈ other.2)

/-- The step does not end a batch without a broadcast while a change is left to it alone. -/
def leavesNothing (s : Channel β) (next : Step β) : Bool :=
  (next.leaves.bind fun id => (s.batches.get? id).map (s.owesNothingAlone id)).getD true

end Statement

section Owed

variable {β : Type}

@[simp] theorem owed_append_replaced (log : List Entry) (changes : List Change) :
    owed (log ++ [.replaced changes]) = owed log ++ changes.map changeIdentity := by
  simp [owed, owe]

@[simp] theorem owed_append_broadcast (log : List Entry) (fingerprint : String) (source : Source)
    (changes : List Change) : owed (log ++ [.broadcast fingerprint source changes]) =
      (owed log).filter fun identity => identity ∉ changes.map changeIdentity := by
  simp [owed, owe]

@[simp] theorem owed_append_deleted (log : List Entry) : owed (log ++ [.deleted]) = owed log := by
  simp [owed, owe]

/-- What is owed after one more entry: what the entry replaces, and what was owed and the entry does
not carry. -/
theorem mem_owed_append (log : List Entry) (entry : Entry) (identity : Identity) :
    identity ∈ owed (log ++ [entry]) ↔
      (∃ changes, entry = .replaced changes ∧ identity ∈ changes.map changeIdentity) ∨
        identity ∈ owed log ∧ entry.carries identity = false := by
  cases entry with
  | replaced changes => simp [Entry.carries, or_comm]
  | broadcast fingerprint source changes => simp [Entry.carries]
  | deleted => simp [Entry.carries]

theorem mem_owed_iff (log : List Entry) (identity : Identity) :
    identity ∈ owed log ↔ ∃ before changes after, log = before ++ .replaced changes :: after ∧
      identity ∈ changes.map changeIdentity ∧ ∀ entry ∈ after, entry.carries identity = false := by
  induction log using List.reverseRecOn with
  | nil => simp [owed]
  | append_singleton log last ih =>
    rw [mem_owed_append, ih]
    constructor
    · rintro (⟨changes, rfl, member⟩ | ⟨⟨before, changes, after, rfl, member, silent⟩, quiet⟩)
      · exact ⟨log, changes, [], rfl, member, fun _ never => nomatch never⟩
      · refine ⟨before, changes, after ++ [last], ?_, member, ?_⟩
        · rw [List.append_assoc, List.cons_append]
        · intro entry listed
          cases List.mem_append.mp listed with
          | inl old => exact silent entry old
          | inr new => exact List.mem_singleton.mp new ▸ quiet
    · rintro ⟨before, changes, after, split, member, silent⟩
      induction after using List.reverseRecOn with
      | nil =>
        obtain ⟨-, same⟩ := List.append_inj' split rfl
        exact .inl ⟨changes, List.singleton_injective same, member⟩
      | append_singleton after final _ =>
        rw [← List.cons_append, ← List.append_assoc] at split
        obtain ⟨front, same⟩ := List.append_inj' split rfl
        have final : final = last := (List.singleton_injective same).symm
        subst final
        refine .inr ⟨⟨before, changes, after, front, member, ?_⟩, ?_⟩
        · exact fun entry listed => silent entry (List.mem_append_left _ listed)
        · exact silent _ (List.mem_append_right _ (List.mem_singleton_self _))

theorem describes_iff (s : Channel β) (identity : Identity) :
    s.Describes identity ↔ ∃ one ∈ s.promised, identity ∈ one.2 := by
  simp only [Channel.Describes, Channel.promised, List.mem_map, Dict.get?_eq_some_iff]
  constructor
  · rintro ⟨id, batch, known, member⟩
    exact ⟨(id, batch.identities), ⟨(id, batch), known, rfl⟩, member⟩
  · rintro ⟨_, ⟨entry, known, rfl⟩, member⟩
    exact ⟨entry.1, entry.2, known, member⟩

/-- Nothing is absorbed exactly if all that is owed is promised. -/
theorem nothingAbsorbed_iff (s : Channel β) :
    NothingAbsorbed s ↔ ∀ identity ∈ owed s.log, ∃ one ∈ s.promised, identity ∈ one.2 := by
  constructor
  · intro nothing identity member
    obtain ⟨before, changes, after, split, listed, silent⟩ := (mem_owed_iff _ _).mp member
    obtain ⟨change, inside, rfl⟩ := List.mem_map.mp listed
    cases nothing before changes after split change inside with
    | inl carried =>
      obtain ⟨entry, later, carries⟩ := carried
      rw [silent entry later] at carries
      cases carries
    | inr described => exact (describes_iff s _).mp described
  · intro all before changes after split change inside
    by_cases carried : ∃ entry ∈ after, entry.carries (changeIdentity change) = true
    · exact .inl carried
    · refine .inr ((describes_iff s _).mpr (all _ ((mem_owed_iff _ _).mpr ?_)))
      refine ⟨before, changes, after, split, List.mem_map_of_mem inside, fun entry later => ?_⟩
      exact Bool.eq_false_iff.mpr fun carries => carried ⟨entry, later, carries⟩

end Owed

section Outcomes

variable {β : Type} [DecidableEq β] {fingerprintOf : Snapshot β → String} {s t : Channel β}

/-- The registry of the identities in flight counts the promises of the batches in flight. -/
def Counted (s : Channel β) : Prop := s.inflightBatchIdentities = (s.promised.map Prod.snd).sum

omit [DecidableEq β] in
theorem promised_setPhase {id : Nat} {batch : Batch} (known : s.batches.get? id = some batch)
    (phase : BatchPhase) : (s.setPhase id batch phase).promised = s.promised :=
  Dict.map_entries_set known _ rfl

omit [DecidableEq β] in
theorem promised_endBatch (s : Channel β) (id : Nat) (batch : Batch) :
    (s.endBatch id batch).promised = s.promised.filter fun one => one.1 ≠ id := by
  unfold Channel.promised
  rw [List.filter_map]
  rfl

omit [DecidableEq β] in
/-- The promises, with the promise of one batch in front. -/
theorem promised_perm {id : Nat} {batch : Batch} (known : s.batches.get? id = some batch) :
    s.promised.Perm ((id, batch.identities) :: s.promised.filter fun one => one.1 ≠ id) := by
  rw [← promised_endBatch s id batch]
  exact (Dict.entries_perm_erase known).map _

omit [DecidableEq β] in
theorem counted_endBatch {id : Nat} {batch : Batch} (known : s.batches.get? id = some batch)
    (counted : Counted s) : Counted (s.endBatch id batch) := by
  have sum : (s.promised.map Prod.snd).sum =
      batch.identities + (((s.endBatch id batch).promised).map Prod.snd).sum := by
    rw [promised_endBatch, ((promised_perm known).map Prod.snd).sum_eq, List.map_cons, List.sum_cons]
  unfold Counted at counted ⊢
  change s.inflightBatchIdentities - batch.identities = _
  rw [counted, sum, add_tsub_cancel_left]

/-- What a step can do to what is owed and what is promised. -/
inductive Outcome (s : Channel β) (next : Step β) (t : Channel β) : Prop where
  | calm (safe : leavesNothing s next = true)
      (log : ∀ identity ∈ owed t.log, identity ∈ owed s.log)
      (promised : t.promised = s.promised)
      (inflight : t.inflightBatchIdentities = s.inflightBatchIdentities)
  | joins (safe : leavesNothing s next = true) (id : Nat) (batch : Batch) (log : t.log = s.log)
      (promised : t.promised = s.promised ++ [(id, batch.identities)])
      (inflight : t.inflightBatchIdentities = s.inflightBatchIdentities + batch.identities)
  | settles (safe : leavesNothing s next = true) (id : Nat) (batch : Batch)
      (known : s.batches.get? id = some batch)
      (log : ∀ identity ∈ owed t.log, identity ∉ batch.identities ∧
        (identity ∈ owed s.log ∨ identity ∈ s.inflightBatchIdentities))
      (promised : t.promised = (s.endBatch id batch).promised)
      (inflight : t.inflightBatchIdentities = (s.endBatch id batch).inflightBatchIdentities)
  | leaves (id : Nat) (batch : Batch) (known : s.batches.get? id = some batch)
      (safe : leavesNothing s next = s.owesNothingAlone id batch)
      (log : owed t.log = owed s.log)
      (promised : t.promised = (s.endBatch id batch).promised)
      (inflight : t.inflightBatchIdentities = (s.endBatch id batch).inflightBatchIdentities)

omit [DecidableEq β] in
theorem owed_handleProjectDeleted (s : Channel β) : owed s.handleProjectDeleted.log = owed s.log := by
  unfold Channel.handleProjectDeleted
  split
  · exact owed_append_deleted s.log
  · rfl

omit [DecidableEq β] in
theorem promised_handleProjectDeleted (s : Channel β) :
    s.handleProjectDeleted.promised = s.promised ∧
      s.handleProjectDeleted.inflightBatchIdentities = s.inflightBatchIdentities := by
  unfold Channel.handleProjectDeleted
  split
  · exact ⟨rfl, rfl⟩
  · exact ⟨rfl, rfl⟩

/-- A scan broadcasts all that it replaces. -/
theorem owed_applyScanResult (s : Channel β) (snapshot : Snapshot β) :
    ∀ identity ∈ owed (s.applyScanResult fingerprintOf snapshot).log, identity ∈ owed s.log := by
  intro identity member
  unfold Channel.applyScanResult at member
  split at member
  · next none =>
    simpa [Channel.replaceBaseline, none] using member
  · next previous known =>
    split at member
    · exact member
    · dsimp only at member
      split at member
      · next same => simpa [Channel.replaceBaseline, known, same] using member
      · have listed : identity ∈ (owed s.log ++
            (diffSnapshots previous snapshot).map changeIdentity).filter fun identity =>
              identity ∉ (diffSnapshots previous snapshot).map changeIdentity := by
          simpa only [Channel.replaceBaseline, Channel.broadcastChanges, known, Option.map_some,
            Option.toList_some, owed_append_broadcast, owed_append_replaced] using member
        obtain ⟨either, apart⟩ := List.mem_filter.mp listed
        rw [decide_eq_true_eq] at apart
        exact (List.mem_append.mp either).resolve_right apart

theorem frame_applyScanResult (s : Channel β) (snapshot : Snapshot β) :
    (s.applyScanResult fingerprintOf snapshot).promised = s.promised ∧
      (s.applyScanResult fingerprintOf snapshot).inflightBatchIdentities =
        s.inflightBatchIdentities := by
  unfold Channel.applyScanResult
  split
  · exact ⟨rfl, rfl⟩
  · split
    · exact ⟨rfl, rfl⟩
    · dsimp only
      split
      · exact ⟨rfl, rfl⟩
      · exact ⟨rfl, rfl⟩

/-- A change that a batch replaces and neither it nor its sweep broadcasts is in flight. -/
theorem owed_settleBatch (s : Channel β) (id : Nat) (batch : Batch) (coveredSources : Finset Source)
    (snapshot : Snapshot β) :
    ∀ identity ∈ owed (s.settleBatch fingerprintOf id batch coveredSources snapshot).log,
      identity ∉ batch.identities ∧
        (identity ∈ owed s.log ∨ identity ∈ s.inflightBatchIdentities) := by
  intro identity member
  have own (log : List Entry) (fingerprint : String)
      (listed : identity ∈ owed (log ++ [.broadcast fingerprint batch.source batch.changes])) :
      identity ∉ batch.identities ∧ identity ∈ owed log := by
    rw [owed_append_broadcast, List.mem_filter, decide_eq_true_eq] at listed
    exact ⟨listed.2, listed.1⟩
  cases known : s.snapshot with
  | none =>
    have listed : identity ∈ owed (s.log ++
        [.broadcast (fingerprintOf snapshot) batch.source batch.changes]) := by
      simpa [Channel.settleBatch, sweepUncoveredChanges, known, Channel.endBatch,
        Channel.broadcastChanges, Channel.replaceBaseline] using member
    exact ⟨(own _ _ listed).1, .inl (own _ _ listed).2⟩
  | some previous =>
    have log : ((s.replaceBaseline fingerprintOf snapshot).broadcastChanges batch.source
        batch.changes).log = s.log ++ [.replaced (diffSnapshots previous snapshot)] ++
          [.broadcast (fingerprintOf snapshot) batch.source batch.changes] := by
      simp [Channel.broadcastChanges, Channel.replaceBaseline, known]
    have holds : identity ∈ owed (s.log ++ [.replaced (diffSnapshots previous snapshot)] ++
        [.broadcast (fingerprintOf snapshot) batch.source batch.changes]) ∧
          identity ∉ (sweepUncoveredChanges s.snapshot snapshot
            s.inflightBatchIdentities).map changeIdentity := by
      unfold Channel.settleBatch at member
      dsimp only at member
      split at member
      · next empty =>
        rw [empty, ← log]
        exact ⟨member, List.not_mem_nil⟩
      · change identity ∈ owed (_ ++ [.broadcast _ _ _]) at member
        rw [owed_append_broadcast, List.mem_filter, decide_eq_true_eq, log] at member
        exact member
    obtain ⟨listed, unswept⟩ := holds
    obtain ⟨apart, before⟩ := own _ _ listed
    refine ⟨apart, ?_⟩
    rw [owed_append_replaced] at before
    cases List.mem_append.mp before with
    | inl old => exact .inl old
    | inr new =>
      right
      obtain ⟨change, inside, rfl⟩ := List.mem_map.mp new
      by_contra free
      refine unswept (List.mem_map.mpr ⟨change, ?_, rfl⟩)
      rw [known]
      exact List.mem_filter.mpr ⟨inside, decide_eq_true free⟩

theorem step_outcome {next : Step β} (stepped : step fingerprintOf s next = some t) :
    Outcome s next t := by
  cases next with
  | applyHint source =>
    simp only [step] at stepped
    split at stepped
    · cases stepped
      exact .calm rfl (fun _ member => member) rfl rfl
    · cases stepped
      exact .calm rfl (fun _ member => member) rfl rfl
  | applyEmittedBatch id source changes =>
    simp only [step, Channel.applyEmittedBatch] at stepped
    split at stepped
    · cases stepped
      exact .calm rfl (fun _ member => member) rfl rfl
    · split at stepped
      · cases stepped
      · next new =>
        cases stepped
        refine .joins rfl id ⟨source, changes, .waiting⟩ rfl ?_ rfl
        unfold Channel.promised
        rw [Dict.entries_set_new new, List.map_append]
        rfl
  | batchReads id =>
    obtain ⟨batch, known, taken⟩ := Option.bind_eq_some_iff.mp stepped
    split at taken
    · cases taken
      exact .calm rfl (fun _ member => member) (promised_setPhase known _) rfl
    · cases taken
  | batchSettles id snapshot =>
    obtain ⟨batch, known, taken⟩ := Option.bind_eq_some_iff.mp stepped
    split at taken
    · next coveredSources _ =>
      cases taken
      refine .settles rfl id batch known (owed_settleBatch s id batch coveredSources snapshot) ?_ ?_
      · unfold Channel.settleBatch
        dsimp only
        split
        · rfl
        · rfl
      · unfold Channel.settleBatch
        dsimp only
        split
        · rfl
        · rfl
    · cases taken
  | batchReadFails id =>
    obtain ⟨batch, known, taken⟩ := Option.bind_eq_some_iff.mp stepped
    split at taken
    · cases taken
      refine .leaves id batch known ?_ rfl rfl rfl
      simp [leavesNothing, Step.leaves, known]
    · cases taken
  | batchReadMissing id =>
    obtain ⟨batch, known, taken⟩ := Option.bind_eq_some_iff.mp stepped
    split at taken
    · cases taken
      exact .calm rfl (fun _ member => member) (promised_setPhase known _) rfl
    · cases taken
  | batchChecked id gone =>
    obtain ⟨batch, known, taken⟩ := Option.bind_eq_some_iff.mp stepped
    split at taken
    · cases taken
      have safe : leavesNothing s (.batchChecked id gone) = s.owesNothingAlone id batch := by
        simp [leavesNothing, Step.leaves, known]
      cases gone with
      | false => exact .leaves id batch known safe rfl rfl rfl
      | true =>
        obtain ⟨promised, inflight⟩ := promised_handleProjectDeleted s
        refine .leaves id batch known safe (owed_handleProjectDeleted s) ?_ ?_
        · rw [promised_endBatch, promised_endBatch]
          exact congrArg _ promised
        · exact congrArg (· - batch.identities) inflight
    · cases taken
  | startWatch =>
    simp only [step] at stepped
    split at stepped
    · cases stepped
      exact .calm rfl (fun _ member => member) rfl rfl
    · cases stepped
  | stopWatch =>
    simp only [step] at stepped
    split at stepped
    · cases stepped
      exact .calm rfl (fun _ member => member) rfl rfl
    · cases stepped
  | watchLoops hasSubscribers =>
    simp only [step] at stepped
    split at stepped
    · cases stepped
      exact .calm rfl (fun _ member => member) rfl rfl
    · cases stepped
  | watchReads =>
    simp only [step] at stepped
    split at stepped
    · cases stepped
      exact .calm rfl (fun _ member => member) rfl rfl
    · cases stepped
  | scanSettles snapshot =>
    simp only [step] at stepped
    split at stepped
    · cases stepped
      obtain ⟨promised, inflight⟩ := @frame_applyScanResult _ _ fingerprintOf s snapshot
      exact .calm rfl (owed_applyScanResult s snapshot) promised inflight
    · cases stepped
  | scanFails =>
    simp only [step] at stepped
    split at stepped
    · cases stepped
      exact .calm rfl (fun _ member => member) rfl rfl
    · cases stepped
  | scanMissing =>
    simp only [step] at stepped
    split at stepped
    · cases stepped
      exact .calm rfl (fun _ member => member) rfl rfl
    · cases stepped
  | scanChecked gone =>
    simp only [step] at stepped
    split at stepped
    · cases stepped
      cases gone with
      | false => exact .calm rfl (fun _ member => member) rfl rfl
      | true =>
        obtain ⟨promised, inflight⟩ := promised_handleProjectDeleted s
        refine .calm rfl (fun identity member => ?_) promised inflight
        rwa [← owed_handleProjectDeleted s]
    · cases stepped
  | watchWakes =>
    simp only [step] at stepped
    split at stepped
    · cases stepped
      exact .calm rfl (fun _ member => member) rfl rfl
    · cases stepped

theorem counted_step {next : Step β} (counted : Counted s)
    (stepped : step fingerprintOf s next = some t) : Counted t := by
  cases step_outcome stepped with
  | calm safe log promised inflight =>
    unfold Counted
    rw [inflight, promised]
    exact counted
  | joins safe id batch log promised inflight =>
    unfold Counted at counted ⊢
    rw [inflight, promised, List.map_append, List.sum_append, counted]
    simp
  | settles safe id batch known log promised inflight =>
    unfold Counted
    rw [inflight, promised]
    exact counted_endBatch known counted
  | leaves id batch known safe log promised inflight =>
    unfold Counted
    rw [inflight, promised]
    exact counted_endBatch known counted

omit [DecidableEq β] in
/-- What is in flight is promised by a batch. -/
theorem promised_of_inflight (counted : Counted s) {identity : Identity}
    (member : identity ∈ s.inflightBatchIdentities) : ∃ one ∈ s.promised, identity ∈ one.2 := by
  rw [counted] at member
  generalize s.promised = promised at member ⊢
  induction promised with
  | nil => exact absurd member (Multiset.notMem_zero identity)
  | cons one rest ih =>
    rw [List.map_cons, List.sum_cons, Multiset.mem_add] at member
    cases member with
    | inl inside => exact ⟨one, List.mem_cons_self, inside⟩
    | inr later =>
      obtain ⟨other, listed, inside⟩ := ih later
      exact ⟨other, List.mem_cons_of_mem _ listed, inside⟩

omit [DecidableEq β] in
/-- The end of a batch leaves the promises of the others. -/
theorem promised_of_foreign {id : Nat} {batch : Batch} (known : s.batches.get? id = some batch)
    {identity : Identity} (foreign : identity ∉ batch.identities)
    (promised : ∃ one ∈ s.promised, identity ∈ one.2) :
    ∃ one ∈ (s.endBatch id batch).promised, identity ∈ one.2 := by
  obtain ⟨one, listed, inside⟩ := promised
  refine ⟨one, ?_, inside⟩
  rw [promised_endBatch]
  cases List.mem_cons.mp ((promised_perm known).mem_iff.mp listed) with
  | inl same =>
    rw [same] at inside
    exact absurd inside foreign
  | inr other => exact other

omit [DecidableEq β] in
theorem owesNothingAlone_iff (nothing : NothingAbsorbed s) {id : Nat} {batch : Batch}
    (known : s.batches.get? id = some batch) :
    s.owesNothingAlone id batch = true ↔ ∀ identity ∈ owed s.log,
      ∃ one ∈ (s.endBatch id batch).promised, identity ∈ one.2 := by
  have kept (identity : Identity) : (∃ one ∈ (s.endBatch id batch).promised, identity ∈ one.2) ↔
      s.promised.any (fun other => decide (other.1 ≠ id) && decide (identity ∈ other.2)) = true := by
    simp only [promised_endBatch, List.mem_filter, List.any_eq_true, Bool.and_eq_true,
      decide_eq_true_eq, and_assoc]
  rw [Channel.owesNothingAlone, List.all_eq_true]
  refine forall₂_congr fun identity member => ?_
  rw [kept, Bool.or_eq_true, decide_eq_true_eq]
  refine ⟨fun either => ?_, Or.inr⟩
  cases either with
  | inl foreign =>
    have promised := (nothingAbsorbed_iff s).mp nothing identity member
    exact (kept identity).mp (promised_of_foreign known foreign promised)
  | inr other => exact other

/-- A step keeps the property exactly if it does not lose what is left to one batch. -/
theorem absorbs_step {next : Step β} (counted : Counted s) (nothing : NothingAbsorbed s)
    (stepped : step fingerprintOf s next = some t) :
    NothingAbsorbed t ↔ leavesNothing s next = true := by
  have all := (nothingAbsorbed_iff s).mp nothing
  cases step_outcome stepped with
  | calm safe log promised inflight =>
    refine iff_of_true ((nothingAbsorbed_iff t).mpr fun identity member => ?_) safe
    rw [promised]
    exact all identity (log identity member)
  | joins safe id batch log promised inflight =>
    refine iff_of_true ((nothingAbsorbed_iff t).mpr fun identity member => ?_) safe
    rw [log] at member
    obtain ⟨one, listed, inside⟩ := all identity member
    exact ⟨one, promised ▸ List.mem_append_left _ listed, inside⟩
  | settles safe id batch known log promised inflight =>
    refine iff_of_true ((nothingAbsorbed_iff t).mpr fun identity member => ?_) safe
    obtain ⟨foreign, either⟩ := log identity member
    have described : ∃ one ∈ s.promised, identity ∈ one.2 :=
      either.elim (all identity) (promised_of_inflight counted)
    rw [promised]
    exact promised_of_foreign known foreign described
  | leaves id batch known safe log promised inflight =>
    rw [safe, owesNothingAlone_iff nothing known, nothingAbsorbed_iff, log, promised]

/-- Along every run, nothing is absorbed in any state exactly if no batch ends without a broadcast
while a change is left to it alone. -/
theorem nothing_absorbed_iff (fingerprintOf : Snapshot β → String) (steps : List (Step β))
    (s : Channel β) (ran : runSteps (step fingerprintOf) steps .start = some s) :
    allSteps (step fingerprintOf) leavesNothing steps .start = true ↔
      ∀ front back t, steps = front ++ back → runSteps (step fingerprintOf) front .start = some t →
        NothingAbsorbed t := by
  have start : NothingAbsorbed (.start : Channel β) :=
    (nothingAbsorbed_iff _).mpr fun _ never => nomatch never
  exact allSteps_iff (fun _ _ _ counted stepped => counted_step counted stepped)
    (fun _ _ _ counted nothing stepped => absorbs_step counted nothing stepped) rfl start ran

end Outcomes

section Lost

/-- A project of one script with one item; its records are texts. -/
private def oneItem (character storyboardImage videoClip : String) : Snapshot String where
  projectMeta := ""
  characters := Dict.empty.set "甲" character
  scenes := .empty
  props := .empty
  overview := ""
  episodes := .empty
  scripts := Dict.empty.set "episode_1.json"
    ⟨some 1, .segments, Dict.empty.set "E1S01" ⟨storyboardImage, videoClip, ""⟩⟩

private def taskDone (entityType action entityId : String) : Change where
  entityType := entityType
  action := action
  entityId := entityId
  label := entityId
  focus := none
  important := true

/-- Two tasks end one after the other. The rebuild for the first reads a disk that has the video of
the second, and leaves it to the second; the read of the second fails. -/
private def secondReadFails : List (Step String) :=
  [.startWatch, .watchLoops true, .watchReads, .scanSettles (oneItem "" "" ""),
    .applyEmittedBatch 1 .worker [taskDone "character" "updated" "甲"],
    .applyEmittedBatch 2 .worker [taskDone "segment" "video_ready" "E1S01"],
    .batchReads 1, .batchSettles 1 (oneItem "sheet" "" "videos/E1S01.mp4"),
    .batchReads 2, .batchReadFails 2]

private def textOf (snapshot : Snapshot String) : String := String.join snapshot.characters.values

private theorem secondReadFails_run : (runSteps (step textOf) secondReadFails .start).isSome := by
  decide

/-- The video of the second task is owed, and no batch is left to broadcast it. -/
theorem second_read_absorbs : ∃ s, runSteps (step textOf) secondReadFails .start = some s ∧
    ¬ NothingAbsorbed s := by
  refine ⟨_, (Option.some_get secondReadFails_run).symm, ?_⟩
  rw [nothingAbsorbed_iff]
  decide

/-- With a second read that succeeds, nothing is absorbed. -/
private def secondReadSettles : List (Step String) :=
  secondReadFails.dropLast ++ ([.batchSettles 2 (oneItem "sheet" "" "videos/E1S01.mp4")] : List (Step String))

private theorem secondReadSettles_run : (runSteps (step textOf) secondReadSettles .start).isSome := by
  decide

theorem second_read_broadcasts :
    allSteps (step textOf) leavesNothing secondReadSettles .start = true ∧
      ∀ front back t, secondReadSettles = front ++ back →
        runSteps (step textOf) front .start = some t → NothingAbsorbed t := by
  have all : allSteps (step textOf) leavesNothing secondReadSettles .start = true := by decide
  exact ⟨all, (nothing_absorbed_iff textOf secondReadSettles _
    (Option.some_get secondReadSettles_run).symm).mp all⟩

end Lost

end ArcReel.Events
