import ArcReel.Queue.BatchEnqueue

/-! The rollback of an atomic batch, and when it is all or nothing. -/

namespace ArcReel.Queue
open ArcReel.Lib ArcReel.Lib.SqlSession

section Rollback

variable {codec : TextCodec} {weather : CancelWeather} {mine : String → Prop}

theorem Cancels.trans {t u v : Task} (first : Cancels mine t u) (second : Cancels mine u v) :
    Cancels mine t v := by
  refine ⟨second.taskId.trans first.taskId, second.dependencyTaskId.trans first.dependencyTaskId, ?_⟩
  rcases first.changed with rfl | ⟨within, queued, cancelled⟩
  · exact second.changed
  · rcases second.changed with rfl | ⟨-, queued', -⟩
    · exact .inr ⟨within, queued, cancelled⟩
    · rw [cancelled] at queued'
      cases queued'

theorem Cancels.keeps_cancelled {t u : Task} (cancels : Cancels mine t u)
    (cancelled : t.status = .cancelled) : u.status = .cancelled := by
  rcases cancels.changed with rfl | ⟨-, queued, -⟩
  · exact cancelled
  · rw [cancelled] at queued
    cases queued

/-- Rows that a rollback has left. -/
def CancelledWithin (mine : String → Prop) (before after : List Task) : Prop :=
  ∃ g, after = before.map g ∧ ∀ t ∈ before, Cancels mine t (g t)

theorem CancelledWithin.trans {a b c : List Task} (first : CancelledWithin mine a b)
    (second : CancelledWithin mine b c) : CancelledWithin mine a c := by
  obtain ⟨g, rfl, each⟩ := first
  obtain ⟨h, rfl, each'⟩ := second
  exact ⟨fun t => h (g t), by rw [List.map_map]; rfl, fun t member =>
    (each t member).trans (each' _ (List.mem_map_of_mem member))⟩

theorem CancelledWithin.present {a b : List Task} (moved : CancelledWithin mine a b) {k : String}
    (found : ∃ t ∈ a, t.taskId = k) : ∃ t ∈ b, t.taskId = k := by
  obtain ⟨g, rfl, each⟩ := moved
  obtain ⟨t, member, named⟩ := found
  exact ⟨g t, List.mem_map_of_mem member, (each t member).taskId.trans named⟩

theorem CancelledWithin.stays {a b : List Task} (moved : CancelledWithin mine a b) {k : String}
    (cancelled : ∀ t ∈ a, t.taskId = k → t.status = .cancelled) :
    ∀ u ∈ b, u.taskId = k → u.status = .cancelled := by
  obtain ⟨g, rfl, each⟩ := moved
  intro u member named
  obtain ⟨t, old, rfl⟩ := List.mem_map.mp member
  exact (each t old).keeps_cancelled (cancelled t old ((each t old).taskId.symm.trans named))

theorem rollback_spec (taskIds : List String) :
    ∀ {table : List Task}, Separate mine table →
      (∀ k ∈ taskIds, mine k ∧ ∃ t ∈ table, t.taskId = k) →
      ∀ rolledBack orphaned left,
        rollbackEnqueued codec weather taskIds table = (rolledBack, orphaned, left) →
        CancelledWithin mine table left ∧ Separate mine left ∧
          (rolledBack ++ orphaned).Perm taskIds ∧
          ∀ k ∈ taskIds, weather.raises k = false →
            ∀ u ∈ left, u.taskId = k → u.status = .cancelled := by
  induction taskIds with
  | nil =>
    intro table separate _ rolledBack orphaned left ran
    cases ran
    exact ⟨⟨id, by simp, fun t _ => ⟨rfl, rfl, .inl rfl⟩⟩, separate, .refl _, by simp⟩
  | cons taskId later ih =>
    intro table separate ours rolledBack orphaned left ran
    obtain ⟨within, found⟩ := ours taskId (.head _)
    simp only [rollbackEnqueued] at ran
    by_cases raising : weather.raises taskId = true
    · rw [if_pos raising] at ran
      cases rest : rollbackEnqueued codec weather later table with
      | mk r others =>
        obtain ⟨o, left'⟩ := others
        simp only [rest, Prod.mk.injEq] at ran
        obtain ⟨rfl, rfl, rfl⟩ := ran
        obtain ⟨moved, separate', perm, ended⟩ :=
          ih separate (fun k member => ours k (.tail _ member)) _ _ _ rest
        refine ⟨moved, separate', List.perm_middle.trans (perm.cons _), fun k member calm => ?_⟩
        rcases List.mem_cons.mp member with rfl | deeper
        · rw [raising] at calm
          cases calm
        · exact ended k deeper calm
    · rw [if_neg raising] at ran
      obtain ⟨moved, separate', cancelled, -⟩ :=
        cancelTask_spec codec separate within found (weather.clock taskId)
      have moved : CancelledWithin mine table _ := moved
      cases rest : rollbackEnqueued codec weather later
          (runOp codec (weather.clock taskId) (.cancelTask taskId) table).committed with
      | mk r others =>
        obtain ⟨o, left'⟩ := others
        obtain ⟨moved', separate'', perm, ended⟩ := ih separate' (fun k member =>
          ⟨(ours k (.tail _ member)).1, moved.present (ours k (.tail _ member)).2⟩) _ _ _ rest
        have all : ∀ k ∈ taskId :: later, weather.raises k = false →
            ∀ u ∈ left', u.taskId = k → u.status = .cancelled := by
          intro k member calm
          rcases List.mem_cons.mp member with rfl | deeper
          · exact moved'.stays cancelled
          · exact ended k deeper calm
        simp only [rest] at ran
        split_ifs at ran <;> simp only [Prod.mk.injEq] at ran <;> obtain ⟨rfl, rfl, rfl⟩ := ran
        · exact ⟨moved.trans moved', separate'', perm.cons _, all⟩
        · exact ⟨moved.trans moved', separate'', List.perm_middle.trans (perm.cons _), all⟩

theorem rollback_append (first second : List String) (table : List Task) :
    rollbackEnqueued codec weather (first ++ second) table =
      let (r, o, between) := rollbackEnqueued codec weather first table
      let (r', o', left) := rollbackEnqueued codec weather second between
      (r ++ r', o ++ o', left) := by
  induction first generalizing table with
  | nil => simp [rollbackEnqueued]
  | cons taskId first ih =>
    simp only [List.cons_append, rollbackEnqueued, ih]
    split_ifs <;> rfl

theorem CancelledWithin.mono {ours : String → Prop} {a b : List Task}
    (moved : CancelledWithin mine a b) (wider : ∀ k, mine k → ours k) : CancelledWithin ours a b := by
  obtain ⟨g, rows, each⟩ := moved
  refine ⟨g, rows, fun t member => ⟨(each t member).taskId, (each t member).dependencyTaskId, ?_⟩⟩
  exact (each t member).changed.imp_right fun changed => ⟨wider _ changed.1, changed.2⟩

theorem CancelledWithin.distinct {a b : List Task} (moved : CancelledWithin mine a b)
    (distinct : (a.map Task.taskId).Nodup) : (b.map Task.taskId).Nodup := by
  obtain ⟨g, rows, each⟩ := moved
  rw [working_ids rows each]
  exact distinct

/-- A rollback in which nothing waits for a task that it can cancel. -/
theorem rollback_clean (taskIds : List String) :
    ∀ {table : List Task}, taskIds.Nodup → (table.map Task.taskId).Nodup →
      (∀ k ∈ taskIds, ∃ t ∈ table, t.taskId = k) →
      (∀ t ∈ table, t.taskId ∈ taskIds → t.status = .queued) →
      (∀ t ∈ table, ∀ k ∈ taskIds, t.dependencyTaskId = some k → weather.raises k = true) →
      ∀ rolledBack orphaned left,
        rollbackEnqueued codec weather taskIds table = (rolledBack, orphaned, left) →
        rolledBack = taskIds.filter (fun k => !weather.raises k) ∧
          orphaned = taskIds.filter weather.raises ∧
          CancelledWithin (fun k => k ∈ taskIds ∧ weather.raises k = false) table left := by
  induction taskIds with
  | nil =>
    intro table _ _ _ _ _ rolledBack orphaned left ran
    cases ran
    exact ⟨rfl, rfl, id, by simp, fun t _ => ⟨rfl, rfl, .inl rfl⟩⟩
  | cons taskId later ih =>
    intro table nodup distinct present queued waits rolledBack orphaned left ran
    obtain ⟨absent, nodup'⟩ := List.nodup_cons.mp nodup
    simp only [rollbackEnqueued] at ran
    by_cases raising : weather.raises taskId = true
    · rw [if_pos raising] at ran
      cases rest : rollbackEnqueued codec weather later table with
      | mk r others =>
        obtain ⟨o, left'⟩ := others
        simp only [rest, Prod.mk.injEq] at ran
        obtain ⟨rfl, rfl, rfl⟩ := ran
        obtain ⟨rfl, rfl, moved⟩ := ih nodup' distinct (fun k member => present k (.tail _ member))
          (fun t member listed => queued t member (.tail _ listed))
          (fun t member k listed => waits t member k (.tail _ listed)) _ _ _ rest
        refine ⟨by simp [raising], by simp [raising], ?_⟩
        exact moved.mono fun k both => ⟨.tail _ both.1, both.2⟩
    · rw [if_neg raising] at ran
      have calm : weather.raises taskId = false := by simpa using raising
      have separate : Separate (· = taskId) table := by
        refine ⟨distinct, ?_, ?_, ?_⟩
        · rintro t member d depends rfl
          exact absurd (waits t member _ (.head _) depends) raising
        · rintro t member rfl
          exact .inl (queued t member (.head _))
        · rintro t _ q _ rfl stranded
          exact absurd (waits t ‹_› _ (.head _) stranded.depends) raising
      obtain ⟨moved, -, cancelled, reported⟩ := cancelTask_spec codec separate rfl
        (present taskId (.head _)) (weather.clock taskId)
      have moved : CancelledWithin (· = taskId) table _ := moved
      have effective : reportsCancelled (runOp codec (weather.clock taskId) (.cancelTask taskId)
          table).out taskId = true := by
        rw [reported taskId]
        obtain ⟨t, member, named⟩ := present taskId (.head _)
        obtain ⟨u, member', named'⟩ := moved.present ⟨t, member, named⟩
        exact ⟨⟨t, member, named, queued t member (named ▸ .head _)⟩, u, member', named',
          cancelled u member' named'⟩
      cases rest : rollbackEnqueued codec weather later
          (runOp codec (weather.clock taskId) (.cancelTask taskId) table).committed with
      | mk r others =>
        obtain ⟨o, left'⟩ := others
        simp only [rest, effective, if_true, Prod.mk.injEq] at ran
        obtain ⟨rfl, rfl, rfl⟩ := ran
        obtain ⟨g, rows, each⟩ := moved
        have old : ∀ u ∈ (runOp codec (weather.clock taskId) (.cancelTask taskId) table).committed,
            ∃ t ∈ table, u.taskId = t.taskId ∧ u.dependencyTaskId = t.dependencyTaskId ∧
              (t.taskId ≠ taskId → u = t) := by
          intro u member
          obtain ⟨t, inTable, -, cancels⟩ := working_mem rows each member
          refine ⟨t, inTable, cancels.taskId, cancels.dependencyTaskId, fun other => ?_⟩
          exact cancels.changed.resolve_right fun changed => other changed.1
        obtain ⟨rfl, rfl, moved'⟩ := ih nodup' (CancelledWithin.distinct ⟨g, rows, each⟩ distinct)
          (fun k member => CancelledWithin.present ⟨g, rows, each⟩ (present k (.tail _ member)))
          (fun u member listed => by
            obtain ⟨t, inTable, named, -, same⟩ := old u member
            have other : t.taskId ≠ taskId := by
              rw [← named]
              rintro rfl
              exact absent listed
            rw [same other]
            exact queued t inTable (.tail _ (named ▸ listed)))
          (fun u member k listed depends => by
            obtain ⟨t, inTable, -, dependency, -⟩ := old u member
            exact waits t inTable k (.tail _ listed) (dependency ▸ depends)) _ _ _ rest
        refine ⟨by simp [calm], by simp [calm], ?_⟩
        refine CancelledWithin.trans (CancelledWithin.mono ⟨g, rows, each⟩ ?_)
          (moved'.mono fun k both => ⟨.tail _ both.1, both.2⟩)
        rintro k rfl
        exact ⟨.head _, calm⟩

/-- A task that an earlier cancellation has reached is reported as orphaned. -/
theorem rollback_orphans (codec : TextCodec) (weather : CancelWeather) {table : List Task} (separate : Separate mine table) {taskId : String}
    (within : mine taskId) {u : Task} (member : u ∈ table) (named : u.taskId = taskId)
    (cancelled : u.status = .cancelled) (later : List String) :
    taskId ∈ (rollbackEnqueued codec weather (taskId :: later) table).2.1 := by
  simp only [rollbackEnqueued]
  split_ifs with raising reported
  · exact .head _
  · obtain ⟨-, -, -, reports⟩ := cancelTask_spec codec separate within
      ⟨u, member, named⟩ (weather.clock taskId)
    obtain ⟨⟨t, inTable, same, queued⟩, -⟩ := (reports taskId).mp reported
    obtain rfl := List.inj_on_of_nodup_map separate.distinct inTable member (same.trans named.symm)
    rw [cancelled] at queued
    cases queued
  · exact .head _

end Rollback

/-! The rows that the batch remembers, by resource. -/

section Remembered

/-- `created_task_ids` after the plans. -/
def remembered (plans : List Planned) : Dict String String :=
  plans.foldl (fun dict plan => dict.set plan.resourceId plan.taskId) .empty

theorem remembered_snoc (plans : List Planned) (plan : Planned) :
    remembered (plans ++ [plan]) = (remembered plans).set plan.resourceId plan.taskId := by
  simp [remembered, List.foldl_append]

theorem remembered_keys (plans : List Planned) (name : String) :
    name ∈ (remembered plans).keys ↔ name ∈ plans.map Planned.resourceId := by
  induction plans using List.reverseRecOn with
  | nil => simp [remembered]
  | append_singleton plans plan ih =>
    rw [remembered_snoc, Dict.mem_keys_set, ih, List.map_append, List.mem_append]
    simp

theorem remembered_values (plans : List Planned) :
    ∀ k ∈ (remembered plans).values, k ∈ plans.map Planned.taskId := by
  induction plans using List.reverseRecOn with
  | nil => simp [remembered, Dict.values, Dict.empty]
  | append_singleton plans plan ih =>
    intro k listed
    obtain ⟨entry, member, named⟩ := List.mem_map.mp listed
    rw [remembered_snoc, Dict.mem_entries_set] at member
    rw [List.map_append, List.mem_append, ← named]
    cases member with
    | inl new => simp [new]
    | inr old => exact .inl (ih entry.2 (List.mem_map_of_mem old.1))

/-- With one row for each resource, everything is remembered in order. -/
theorem remembered_eq {plans : List Planned} (nodup : (plans.map Planned.resourceId).Nodup) :
    (remembered plans).entries = plans.map fun plan => (plan.resourceId, plan.taskId) := by
  induction plans using List.reverseRecOn with
  | nil => rfl
  | append_singleton plans plan ih =>
    rw [List.map_append, List.nodup_append] at nodup
    have unknown : plan.resourceId ∉ (remembered plans).keys := by
      intro known
      have member := (remembered_keys plans plan.resourceId).mp known
      exact nodup.2.2 _ member plan.resourceId (.head _) rfl
    rw [remembered_snoc, Dict.entries_set_new unknown, ih nodup.1]
    simp

/-- If every row is remembered, no two share a resource. -/
theorem resources_nodup {plans : List Planned} (distinct : (plans.map Planned.taskId).Nodup)
    (all : ∀ k ∈ plans.map Planned.taskId, k ∈ (remembered plans).values) :
    (plans.map Planned.resourceId).Nodup := by
  have enough : plans.length ≤ (remembered plans).size := by
    have sub := (List.subperm_of_subset distinct all).length_le
    simpa [Dict.values, Dict.size] using sub
  have perm : (remembered plans).keys.Perm (plans.map Planned.resourceId) := by
    apply (List.subperm_of_subset (remembered plans).keys_nodup _).perm_of_length_le
    · simpa using enough
    · exact fun name member => (remembered_keys plans name).mp member
  exact perm.nodup_iff.mp (remembered plans).keys_nodup

end Remembered

/-! All or nothing. -/

/-- Every row that the call has created is reported once, as rolled back exactly when it is
cancelled and as orphaned otherwise, and no older row has changed. -/
def AllOrNothing (before after : List Task) (error : BatchEnqueueAborted) : Prop :=
  (∀ t ∈ after, t.taskId ∉ before.map Task.taskId →
    (error.rolledBack ++ error.orphaned).count t.taskId = 1 ∧
      (t.taskId ∈ error.rolledBack ↔ t.status = .cancelled) ∧
      (t.taskId ∈ error.orphaned ↔ t.status ≠ .cancelled)) ∧
  ∀ t ∈ before, t ∈ after

section Abort

variable {codec : TextCodec} {projectName userId : String} {weather : CancelWeather}
  {members done : List Member} {table : List Task} {batch : Batch}

theorem planned_sublist (projectName : String) (table : List Task) (done later : List Member) :
    ((planned projectName table done later).map Planned.member).Sublist later := by
  induction later generalizing done with
  | nil => exact .slnil
  | cons member later ih =>
    simp only [planned]
    split_ifs
    · exact (ih _).cons_cons member
    · exact (ih _).cons member

theorem admitted_prefix (done later : List Member) :
    (admitted projectName table done later).Sublist later := by
  induction later generalizing done with
  | nil => exact .slnil
  | cons member later ih =>
    simp only [admitted]
    split_ifs
    · exact (ih _).cons_cons member
    · exact List.nil_sublist _

/-- The row of the batch that a resource resolves to was planned. -/
theorem batchRow_planned {name k : String} (found : batchRow projectName table done name = some k) :
    k ∈ (planned projectName table [] done).map Planned.taskId := by
  unfold batchRow at found
  obtain ⟨last, -, found⟩ := Option.bind_eq_some_iff.mp found
  split_ifs at found with known
  obtain ⟨owner, first, rfl⟩ := Option.map_eq_some_iff.mp found
  have key : owner.key projectName = last.key projectName := by simpa using List.find?_some first
  obtain ⟨plan, listed, same⟩ : ∃ plan ∈ planned projectName table [] done,
      plan.member.key projectName = last.key projectName :=
    planned_key.mpr ⟨by simpa using known, ⟨owner, List.mem_of_find?_eq_some first, key⟩, by simp⟩
  have here := planned_first listed
  rw [List.nil_append, same, first] at here
  rw [Option.some.inj here]
  exact List.mem_map.mpr ⟨plan, listed, rfl⟩

theorem dependsOn_planned {later : List Member} :
    ∀ {done : List Member} {front back : List Planned} {plan : Planned},
      planned projectName table done later = front ++ plan :: back → ∀ {k : String},
      plan.dependsOn = some k →
        k ∈ (planned projectName table [] done ++ front).map Planned.taskId := by
  induction later with
  | nil =>
    intro done front back plan split
    simp [planned] at split
  | cons member later ih =>
    intro done front back plan split k waits
    have grown := planned_append projectName table [] done [member]
    simp only [planned, List.nil_append] at split grown
    split_ifs at split grown with creating
    · cases front with
      | nil =>
        obtain ⟨rfl, -⟩ := List.cons.inj split
        obtain ⟨name, -, found⟩ := Option.bind_eq_some_iff.mp waits
        simpa using batchRow_planned found
      | cons first front =>
        obtain ⟨rfl, behind⟩ := List.cons.inj split
        have deeper := ih behind waits
        rw [grown, List.append_assoc] at deeper
        exact deeper
    · have deeper := ih split waits
      rw [grown, List.append_nil] at deeper
      exact deeper

/-- A plan waits for a row that an earlier plan creates. -/
theorem dependsOn_earlier {later : List Member} {front back : List Planned} {plan : Planned}
    (split : planned projectName table [] later = front ++ plan :: back) {k : String}
    (waits : plan.dependsOn = some k) : k ∈ front.map Planned.taskId :=
  dependsOn_planned split waits

theorem made_ids {plans : List Planned} {made : List Task}
    (matched : List.Forall₂ (Planned.Made projectName members) plans made) :
    made.map Task.taskId = plans.map Planned.taskId := by
  induction matched with
  | nil => rfl
  | cons head _ ih => rw [List.map_cons, List.map_cons, head.taskId, ih]

section Made

variable {made : List Task} (fresh : FreshIds members table) (inside : done.Sublist members)
  (matched : List.Forall₂ (Planned.Made projectName members)
    (planned projectName table [] done) made)

include fresh inside

theorem planned_ids_nodup (projectName : String) : ((planned projectName table [] done).map Planned.taskId).Nodup := by
  have sublist := (planned_sublist projectName table [] done).trans inside
  have ids := (sublist.map fun member => member.attempt.taskId).nodup fresh.nodup
  rwa [List.map_map] at ids

omit fresh in
theorem planned_member {k : String}
    (listed : k ∈ (planned projectName table [] done).map Planned.taskId) :
    ∃ member ∈ members, k = member.attempt.taskId := by
  obtain ⟨plan, inPlans, rfl⟩ := List.mem_map.mp listed
  exact ⟨plan.member, inside.subset (planned_mem inPlans), rfl⟩

theorem planned_unused {t : Task} (old : t ∈ table) :
    t.taskId ∉ (planned projectName table [] done).map Planned.taskId := by
  intro listed
  obtain ⟨owner, inMembers, same⟩ := planned_member inside listed
  exact (fresh.unused owner inMembers t old).1 same

include matched

theorem made_queued {t : Task} (member : t ∈ table ++ made)
    (listed : t.taskId ∈ (planned projectName table [] done).map Planned.taskId) :
    t ∈ made ∧ t.status = .queued := by
  rcases List.mem_append.mp member with old | new
  · exact absurd listed (planned_unused fresh inside old)
  · obtain ⟨plan, -, same⟩ := exists_plan matched new
    exact ⟨new, same.queued⟩

/-- The rows of the batch are separate from the table before it. -/
theorem separate_made :
    Separate (fun k => k ∈ (planned projectName table [] done).map Planned.taskId)
      (table ++ made) := by
  refine ⟨?_, ?_, fun t member listed => .inl (made_queued fresh inside matched member listed).2, ?_⟩
  · rw [List.map_append, made_ids matched]
    refine List.nodup_append.mpr ⟨fresh.distinct, planned_ids_nodup fresh inside projectName, ?_⟩
    rintro _ inTable k inPlans rfl
    obtain ⟨t, member, rfl⟩ := List.mem_map.mp inTable
    exact planned_unused fresh inside member inPlans
  · intro t member d depends listed
    rcases List.mem_append.mp member with old | new
    · obtain ⟨owner, inMembers, rfl⟩ := planned_member inside listed
      exact absurd depends (fresh.unused owner inMembers t old).2
    · rw [← made_ids matched]
      exact List.mem_map_of_mem new
  · intro t _ q member listed stranded
    have dead := stranded.dead
    rw [(made_queued fresh inside matched member listed).2] at dead
    cases dead

omit fresh inside in
theorem made_present {k : String}
    (listed : k ∈ (planned projectName table [] done).map Planned.taskId) :
    ∃ t ∈ table ++ made, t.taskId = k := by
  obtain ⟨plan, inPlans, rfl⟩ := List.mem_map.mp listed
  obtain ⟨row, inMade, same⟩ := exists_row matched inPlans
  exact ⟨row, List.mem_append.mpr (.inr inMade), same.taskId⟩

/-- What the batch has created is what the plan names. -/
theorem created_iff {mine : String → Prop} {left : List Task}
    (moved : CancelledWithin mine (table ++ made) left) {u : Task} (member : u ∈ left) :
    u.taskId ∉ table.map Task.taskId ↔
      u.taskId ∈ (planned projectName table [] done).map Planned.taskId := by
  obtain ⟨g, rfl, each⟩ := moved
  obtain ⟨t, inTable, rfl⟩ := List.mem_map.mp member
  rw [(each t inTable).taskId]
  rcases List.mem_append.mp inTable with old | new
  · exact iff_of_false (fun absent => absent (List.mem_map_of_mem old))
      (planned_unused fresh inside old)
  · have listed : t.taskId ∈ (planned projectName table [] done).map Planned.taskId := by
      rw [← made_ids matched]
      exact List.mem_map_of_mem new
    refine iff_of_true (fun known => ?_) listed
    obtain ⟨old, inOld, same⟩ := List.mem_map.mp known
    exact planned_unused fresh inside inOld (same ▸ listed)

theorem made_waits {t : Task} (member : t ∈ table ++ made) {k : String}
    (listed : k ∈ (planned projectName table [] done).map Planned.taskId)
    (depends : t.dependencyTaskId = some k) :
    ∃ plan ∈ planned projectName table [] done, plan.dependsOn = some k := by
  obtain ⟨owner, inMembers, rfl⟩ := planned_member inside listed
  rcases List.mem_append.mp member with old | new
  · exact absurd depends (fresh.unused owner inMembers t old).2
  · obtain ⟨plan, inPlans, same⟩ := exists_plan matched new
    exact ⟨plan, inPlans, (same.depends owner inMembers).mp depends⟩

theorem allOrNothing_of_rollsBack {error : BatchEnqueueAborted} {left : List Task}
    (ran : rollbackEnqueued codec weather
      (remembered (planned projectName table [] done)).values (table ++ made) =
        (error.rolledBack, error.orphaned, left))
    (clean : rollsBack weather (planned projectName table [] done) = true) :
    AllOrNothing table left error := by
  obtain ⟨alone, calm⟩ : ((planned projectName table [] done).map Planned.resourceId).Nodup ∧
      ∀ plan ∈ planned projectName table [] done, plan.dependsOn.all weather.raises = true := by
    simpa only [rollsBack, Bool.and_eq_true, decide_eq_true_eq, List.all_eq_true] using clean
  have ids := planned_ids_nodup fresh inside projectName
  have separate := separate_made fresh inside matched
  have present := fun k listed => made_present matched (k := k) listed
  have values : (remembered (planned projectName table [] done)).values =
      (planned projectName table [] done).map Planned.taskId := by
    rw [Dict.values, remembered_eq alone, List.map_map]
    rfl
  rw [values] at ran
  obtain ⟨-, -, perm, ended⟩ := rollback_spec _ separate
    (fun k listed => ⟨listed, present k listed⟩) _ _ _ ran
  obtain ⟨rolledBack, orphaned, moved⟩ := rollback_clean _ ids separate.distinct present
    (fun t member listed => (made_queued fresh inside matched member listed).2)
    (fun t member k listed depends => by
      obtain ⟨plan, inPlans, waits⟩ := made_waits fresh inside matched member listed depends
      simpa [waits] using calm plan inPlans) _ _ _ ran
  have status : ∀ u ∈ left, u.taskId ∈ (planned projectName table [] done).map Planned.taskId →
      (u.status = .cancelled ↔ weather.raises u.taskId = false) := by
    intro u member listed
    refine ⟨fun cancelled => ?_, fun quiet => ended u.taskId listed quiet u member rfl⟩
    obtain ⟨g, rfl, each⟩ := moved
    obtain ⟨t, inTable, rfl⟩ := List.mem_map.mp member
    have same := (each t inTable).taskId
    rcases (each t inTable).changed with kept | ⟨within, -⟩
    · rw [kept] at cancelled listed
      rw [(made_queued fresh inside matched inTable listed).2] at cancelled
      cases cancelled
    · rw [same]
      exact within.2
  constructor
  · intro u member new
    have listed := (created_iff fresh inside matched moved member).mp new
    refine ⟨?_, ?_, ?_⟩
    · rw [perm.count_eq]
      exact List.count_eq_one_of_mem ids listed
    · rw [rolledBack, List.mem_filter, status u member listed]
      simp only [listed, true_and, Bool.not_eq_true']
    · rw [orphaned, List.mem_filter, ne_eq, status u member listed]
      simp only [listed, true_and, Bool.not_eq_false]
  · intro t old
    obtain ⟨g, rfl, each⟩ := moved
    have member : t ∈ table ++ made := List.mem_append.mpr (.inl old)
    have kept : g t = t := (each t member).changed.resolve_right fun changed =>
      planned_unused fresh inside old changed.1.1
    exact List.mem_map.mpr ⟨t, member, kept⟩

/-- A created row that waits for a row the rollback can cancel ends cancelled and orphaned. -/
theorem dependent_orphaned {front back : List Planned} {plan : Planned}
    (split : planned projectName table [] done = front ++ plan :: back) {k : String}
    (waits : plan.dependsOn = some k) (calm : weather.raises k = false)
    {rolledBack orphaned : List String} {left : List Task}
    (ran : rollbackEnqueued codec weather ((planned projectName table [] done).map Planned.taskId)
      (table ++ made) = (rolledBack, orphaned, left)) :
    plan.taskId ∈ orphaned ∧ ∀ u ∈ left, u.taskId = plan.taskId → u.status = .cancelled := by
  have separate := separate_made fresh inside matched
  have listed : plan ∈ planned projectName table [] done := by simp [split]
  have within : ∀ other ∈ front ++ plan :: back,
      other.taskId ∈ (planned projectName table [] done).map Planned.taskId := by
    intro other inPlans
    rw [split]
    exact List.mem_map_of_mem inPlans
  have earlier := dependsOn_earlier split waits
  rw [split, List.map_append, List.map_cons, rollback_append] at ran
  cases first : rollbackEnqueued codec weather (front.map Planned.taskId) (table ++ made) with
  | mk r others =>
    obtain ⟨o, between⟩ := others
    obtain ⟨moved, separate', -, ended⟩ := rollback_spec _ separate (fun j inFront => by
      obtain ⟨other, member, rfl⟩ := List.mem_map.mp inFront
      have ours := within other (List.mem_append.mpr (.inl member))
      exact ⟨ours, made_present matched ours⟩) _ _ _ first
    obtain ⟨row, inMade, same⟩ := exists_row matched listed
    obtain ⟨owner, inMembers, rfl⟩ : ∃ member ∈ members, k = member.attempt.taskId := by
      obtain ⟨other, member, rfl⟩ := List.mem_map.mp earlier
      exact planned_member inside (within other (List.mem_append.mpr (.inl member)))
    have present : row ∈ table ++ made := List.mem_append.mpr (.inr inMade)
    obtain ⟨u, inBetween, named, depends⟩ : ∃ u ∈ between, u.taskId = plan.taskId ∧
        u.dependencyTaskId = some owner.attempt.taskId := by
      obtain ⟨g, rfl, each⟩ := moved
      exact ⟨g row, List.mem_map_of_mem present, (each row present).taskId.trans same.taskId,
        (each row present).dependencyTaskId.trans ((same.depends owner inMembers).mpr waits)⟩
    have cancelled : u.status = .cancelled := by
      obtain ⟨other, member, owned⟩ := List.mem_map.mp earlier
      have ours := within other (List.mem_append.mpr (.inl member))
      obtain ⟨q, inBetween', named'⟩ := moved.present (made_present matched ours)
      have gone := ended _ earlier calm q inBetween' (named'.trans owned)
      refine (separate'.idle u inBetween (named ▸ within plan (by simp))).resolve_left fun queued => ?_
      exact separate'.alive u inBetween q inBetween' (named' ▸ ours)
        ⟨queued, by rw [gone]; rfl, by rw [depends, named', owned]⟩
    have orphans := rollback_orphans codec weather separate'
      (within plan (by simp)) inBetween named cancelled (back.map Planned.taskId)
    cases second : rollbackEnqueued codec weather (plan.taskId :: back.map Planned.taskId)
        between with
    | mk r' others =>
      obtain ⟨o', left'⟩ := others
      rw [second] at orphans
      simp only [first, second, Prod.mk.injEq] at ran
      obtain ⟨-, rfl, rfl⟩ := ran
      refine ⟨List.mem_append.mpr (.inr orphans), ?_⟩
      obtain ⟨moved', -⟩ := rollback_spec _ separate' (fun j inBack => by
        have ours : j ∈ (planned projectName table [] done).map Planned.taskId := by
          rw [split, List.map_append, List.map_cons]
          exact List.mem_append.mpr (.inr inBack)
        exact ⟨ours, moved.present (made_present matched ours)⟩) _ _ _ second
      refine moved'.stays fun t member same' => ?_
      rwa [List.inj_on_of_nodup_map separate'.distinct member inBetween (same'.trans named.symm)]

theorem rollsBack_of_allOrNothing {error : BatchEnqueueAborted} {left : List Task}
    (ran : rollbackEnqueued codec weather
      (remembered (planned projectName table [] done)).values (table ++ made) =
        (error.rolledBack, error.orphaned, left))
    (holds : AllOrNothing table left error) :
    rollsBack weather (planned projectName table [] done) = true := by
  have separate := separate_made fresh inside matched
  have present := fun k listed => made_present matched (k := k) listed
  obtain ⟨moved, -, perm, -⟩ := rollback_spec _ separate (fun k listed => by
    have ours := remembered_values _ k listed
    exact ⟨ours, present k ours⟩) _ _ _ ran
  have ends : ∀ k ∈ (planned projectName table [] done).map Planned.taskId,
      ∃ u ∈ left, u.taskId = k ∧ u.taskId ∉ table.map Task.taskId := by
    intro k listed
    obtain ⟨u, member, rfl⟩ := moved.present (present k listed)
    exact ⟨u, member, rfl, (created_iff fresh inside matched moved member).mpr listed⟩
  have alone : ((planned projectName table [] done).map Planned.resourceId).Nodup := by
    refine resources_nodup (planned_ids_nodup fresh inside projectName) fun k listed => ?_
    obtain ⟨u, member, rfl, new⟩ := ends k listed
    have once := (holds.1 u member new).1
    exact perm.mem_iff.mp (List.count_pos_iff.mp (by omega))
  have values : (remembered (planned projectName table [] done)).values =
      (planned projectName table [] done).map Planned.taskId := by
    rw [Dict.values, remembered_eq alone, List.map_map]
    rfl
  rw [values] at ran
  simp only [rollsBack, Bool.and_eq_true, decide_eq_true_eq, List.all_eq_true]
  refine ⟨alone, fun plan inPlans => ?_⟩
  cases waits : plan.dependsOn with
  | none => rfl
  | some k =>
    by_contra quiet
    obtain ⟨front, back, split⟩ := List.append_of_mem inPlans
    obtain ⟨orphans, cancelled⟩ := dependent_orphaned fresh inside matched split waits
      (by simpa using quiet) ran
    obtain ⟨u, member, named, new⟩ := ends plan.taskId (List.mem_map_of_mem inPlans)
    exact (holds.1 u member new).2.2.mp (named ▸ orphans) (cancelled u member named)

end Made

end Abort

private def shot (taskType resourceId : String) (dependency : Option String) (taskId : String)
    (failure : Option Failure) : Member :=
  ⟨⟨taskType, "video", resourceId, none, none, "agent", dependency, none, none⟩,
    ⟨taskId, "", none, failure, none, fun n => n⟩⟩

private def twoShots : List Member :=
  [shot "video" "E1S01" none "t1" none, shot "video" "E1S02" none "t2" none,
    shot "video" "E1S03" none "t3" (some (.error "no such asset"))]

private def secondStuck : CancelWeather := ⟨fun taskId => taskId == "t2", fun _ n => n⟩

private def twoShotsAborted : BatchEnqueueAborted := ⟨"E1S03", "no such asset", ["t1"], ["t2"]⟩

private theorem twoShots_fresh : FreshIds twoShots [] := ⟨by decide, by simp, by simp⟩

private theorem twoShots_aborted :
    enqueueSequentially plainCodec "demo" "user" secondStuck true twoShots (Batch.start []) =
      (.aborted twoShotsAborted, (enqueueSequentially plainCodec "demo" "user" secondStuck true
        twoShots (Batch.start [])).2) :=
  Prod.ext (by decide) rfl

/-- A shot that waits for the shot before it, and a failing third one. -/
private def chainedShots : List Member :=
  [shot "video" "E1S01" none "t1" none, shot "video" "E1S02" (some "E1S01") "t2" none,
    shot "video" "E1S03" none "t3" (some (.error "no such asset"))]

/-- The image and the video of one shot, and a failing third task. -/
private def sameShot : List Member :=
  [shot "image" "E1S01" none "t1" none, shot "video" "E1S01" none "t2" none,
    shot "video" "E1S03" none "t3" (some (.error "no such asset"))]

private def abortedRun (members : List Member) : BatchOutcome × List Task :=
  enqueueSequentially plainCodec "demo" "user" ⟨fun _ => false, fun _ n => n⟩ true members
    (Batch.start [])

end ArcReel.Queue
