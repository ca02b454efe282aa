import ArcReel.Manifest.Rollback

/-! Plans over the claims of several keys: a commit is rolled back when its write fails, and a
compensation restores what the commit replaced. -/

namespace ArcReel.Manifest
open Lib Project

variable {p : Primitives} {codec : DocumentCodec} {file left : File codec}
variable {entries held : Entries} {fault rollback : Fault}

section Plans

variable {before after : Changes p}

theorem matchesExpected_iff {expected : List (Str × Option ManifestEntry)} :
    matchesExpected entries expected = true ↔
      ∀ change ∈ expected, entries.get? change.1 = change.2 := by
  rw [matchesExpected, List.all_eq_true]
  exact forall₂_congr fun change _ => decide_eq_true_iff

theorem wireKeys_congr {other : Changes p} (aligned : before.keys = other.keys) :
    (wireChanges before).map Prod.fst = (wireChanges other).map Prod.fst := by
  have wired (changes : Changes p) :
      (wireChanges changes).map Prod.fst = changes.keys.map ArtifactKey.wire := by
    rw [wireChanges, List.map_map, Dict.keys, List.map_map]
    rfl
  rw [wired, wired, aligned]

/-- What has been replaced is found. -/
theorem matchesExpected_applyChanges (valid : ValidChanges after) :
    matchesExpected (applyChanges entries (wireChanges after)) (wireChanges after) = true :=
  matchesExpected_iff.mpr fun _ member => get?_applyChanges_of_mem (nodup_wireChanges valid) member _

/-- Putting the claims of a plan back restores the entries, whether the plan has replaced them or
not. -/
theorem applyChanges_restores (valid : ValidChanges before)
    (aligned : before.keys = after.keys)
    (matched : matchesExpected entries (wireChanges before) = true)
    (either : held = entries ∨ held = applyChanges entries (wireChanges after)) (key : Str) :
    (applyChanges held (wireChanges before)).get? key = entries.get? key := by
  by_cases named : key ∈ (wireChanges before).map Prod.fst
  · obtain ⟨change, member, rfl⟩ := List.mem_map.mp named
    rw [get?_applyChanges_of_mem (nodup_wireChanges valid) member]
    exact (matchesExpected_iff.mp matched change member).symm
  · rw [get?_applyChanges_of_not_mem named]
    cases either with
    | inl same => rw [same]
    | inr changed =>
      rw [changed]
      exact get?_applyChanges_of_not_mem (wireKeys_congr aligned ▸ named) entries

/-- `_entries_match` on a manifest. -/
theorem entriesMatch_eq (represents : Represents p file entries)
    {changes : List (ArtifactKey p × Option ManifestEntry)}
    (valid : ∀ change ∈ changes, change.1.Encodable) :
    entriesMatch file changes =
      .ok (matchesExpected entries (changes.map fun change => (change.1.wire, change.2))) := by
  induction changes with
  | nil => rfl
  | cons change changes ih =>
    obtain ⟨encodable, later⟩ := List.forall_mem_cons.mp valid
    simp only [entriesMatch, getEntry_eq represents encodable, ih later, matchesExpected,
      List.map_cons, List.all_cons]
    split
    · next same => simp [same]
    · next apart => simp [apart]

end Plans

section Commits

variable {plan : RekeyPlan p}

/-- After a commit that raised, the claims before it are there or the rollback is incomplete. -/
theorem rollBack_rolledBack {names : ArtifactKey p → Prop} (represents : Represents p left held)
    (valid : ValidChanges plan.before) (valid' : ValidChanges plan.after)
    (matched : matchesExpected entries (wireChanges plan.before) = true)
    (either : held = entries ∨ held = applyChanges entries (wireChanges plan.after))
    (untouched : Untouched names entries held) (raised : PyError) :
    RolledBack names entries (rollBack rollback left plan raised) := by
  have restores := applyChanges_restores valid plan.aligned matched either
  rw [rollBack]
  rcases replaceEntriesIfMatches_outcome rollback represents valid' valid with
    ⟨mismatch, returned⟩ | ⟨-, outcome⟩
  · -- the claims after the plan are not there, so nothing has been replaced
    have same : held = entries := by
      refine either.resolve_right fun changed => ?_
      rw [changed, matchesExpected_applyChanges valid'] at mismatch
      cases mismatch
    rw [same] at represents
    rw [returned]
    dsimp only
    split
    · exact .same represents
    · exact .same represents
  · have restored := outcome.congr restores
    generalize replaceEntriesIfMatches rollback left plan.after plan.before = result at restored
    obtain ⟨reply, after⟩ := result
    cases reply with
    | error e =>
      refine ⟨?_, fun e never => by cases never⟩
      rcases restored.held represents with same | back
      · exact ⟨held, same, untouched⟩
      · exact .same back
    | ok value =>
      have back := restored.returned represents rfl
      cases value with
      | true => exact .same back
      | false =>
        dsimp only
        split
        · exact .same back
        · exact .same back

theorem rollBack_raises (raised : PyError) (value : Bool) :
    (rollBack rollback left plan raised).1 ≠ .ok value := by
  rw [rollBack]
  split
  · exact fun never => by cases never
  · split
    · exact fun never => by cases never
    · exact fun never => by cases never
  · exact fun never => by cases never

/-- A plan over claims that cannot be written is neither committed nor rolled back. -/
theorem commit_invalid (changed : plan.changed = true)
    (invalid : ¬(ValidChanges plan.before ∧ ValidChanges plan.after)) :
    commit fault rollback file plan = (.error .rollbackIncomplete, file) := by
  obtain ⟨e, raised⟩ := @replaceEntriesIfMatches_invalid _ _ file fault _ _ invalid
  obtain ⟨e', raised'⟩ := @replaceEntriesIfMatches_invalid _ _ file rollback _ _ fun both =>
    invalid both.symm
  rw [commit, if_pos changed, raised]
  dsimp only
  rw [rollBack, raised']

theorem commit_rolledBack (represents : Represents p file entries) :
    RolledBack (· ∈ plan.before.keys) entries (commit fault rollback file plan) := by
  by_cases changed : plan.changed = true
  · by_cases valid : ValidChanges plan.before ∧ ValidChanges plan.after
    · rw [commit, if_pos changed]
      rcases replaceEntriesIfMatches_outcome fault represents valid.1 valid.2 with
        ⟨-, mismatch⟩ | ⟨matched, outcome⟩
      · rw [mismatch]
        exact .same represents
      · have untouched : Untouched (· ∈ plan.before.keys) entries
            (applyChanges entries (wireChanges plan.after)) := by
          rw [plan.aligned]
          exact untouched_applyChanges valid.2
        generalize replaceEntriesIfMatches fault file plan.before plan.after = result at outcome
        obtain ⟨reply, after⟩ := result
        cases reply with
        | error raised =>
          cases outcome.held represents with
          | inl same =>
            exact rollBack_rolledBack same valid.1 valid.2 matched (Or.inl rfl) (fun _ _ _ => rfl) raised
          | inr done =>
            exact rollBack_rolledBack done valid.1 valid.2 matched (Or.inr rfl) untouched raised
        | ok value =>
          cases value with
          | true =>
            refine ⟨⟨_, outcome.returned represents rfl, untouched⟩, ?_⟩
            exact fun e never => by cases never
          | false =>
            have idle : after = file := outcome.idle rfl
            rw [idle]
            exact .same represents
    · rw [commit_invalid changed valid]
      exact .same represents
  · rw [commit, if_neg changed]
    exact .same represents

/-- A commit that returns has found the claims before the plan and left those after it. -/
theorem commit_returned (represents : Represents p file entries) {value : Bool}
    (changed : plan.changed = true) (returned : (commit fault rollback file plan).1 = .ok value) :
    (ValidChanges plan.before ∧ ValidChanges plan.after) ∧
      matchesExpected entries (wireChanges plan.before) = true ∧
      Represents p (commit fault rollback file plan).2
        (applyChanges entries (wireChanges plan.after)) := by
  by_cases valid : ValidChanges plan.before ∧ ValidChanges plan.after
  · rw [commit, if_pos changed] at returned ⊢
    rcases replaceEntriesIfMatches_outcome fault represents valid.1 valid.2 with
      ⟨-, mismatch⟩ | ⟨matched, outcome⟩
    · rw [mismatch] at returned
      cases returned
    · refine ⟨valid, matched, ?_⟩
      generalize replaceEntriesIfMatches fault file plan.before plan.after = result at outcome returned
      obtain ⟨reply, after⟩ := result
      cases reply with
      | error raised => exact absurd returned (rollBack_raises raised value)
      | ok done =>
        cases done with
        | true => exact outcome.returned represents rfl
        | false => cases returned
  · rw [commit_invalid changed valid] at returned
    cases returned

/-- A compensation that returns leaves the entries before the commit. -/
theorem compensate_restores (represents : Represents p left (applyChanges entries
      (wireChanges plan.after)))
    (prior : entries.Valid p) (valid : ValidChanges plan.before ∧ ValidChanges plan.after)
    (matched : matchesExpected entries (wireChanges plan.before) = true)
    (changed : plan.changed = true) :
    (∀ value, (compensate fault left plan).1 = .ok value →
      Represents p (compensate fault left plan).2 entries) ∧
      ∃ value, (compensate .none left plan).1 = .ok value := by
  have restores := applyChanges_restores valid.1 plan.aligned matched (Or.inr rfl)
  have outcomes (fault : Fault) : Outcome p fault left (applyChanges entries (wireChanges plan.after)) entries
      (replaceEntriesIfMatches fault left plan.after plan.before) := by
    rcases replaceEntriesIfMatches_outcome fault represents valid.2 valid.1 with
      ⟨mismatch, -⟩ | ⟨-, outcome⟩
    · rw [matchesExpected_applyChanges valid.2] at mismatch
      cases mismatch
    · exact outcome.congr restores
  have compared (back : Represents p left entries) :
      entriesMatch left plan.before.entries = .ok true := by
    rw [entriesMatch_eq back fun change member => (valid.1 change member).1]
    exact congrArg Except.ok matched
  constructor
  · intro value returned
    rw [compensate, if_pos changed] at returned ⊢
    have outcome := outcomes fault
    generalize replaceEntriesIfMatches fault left plan.after plan.before = result at outcome returned
    obtain ⟨reply, after⟩ := result
    cases reply with
    | error e => cases returned
    | ok done =>
      have back := outcome.returned represents rfl
      cases done with
      | true => exact back
      | false =>
        have idle : after = left := outcome.idle rfl
        subst idle
        simpa only [compared back] using back
  · have outcome := outcomes .none
    obtain ⟨done, returned⟩ := outcome.returns prior.unique
    rw [compensate, if_pos changed]
    generalize replaceEntriesIfMatches .none left plan.after plan.before = result at outcome returned
    obtain ⟨reply, after⟩ := result
    cases returned
    cases done with
    | true => exact ⟨true, rfl⟩
    | false =>
      have back := outcome.returned represents rfl
      have idle : after = left := outcome.idle rfl
      subst idle
      exact ⟨false, by simp only [compared back]⟩

/-- A compensation changes nothing but the claims of its keys. -/
theorem compensate_kept (represents : Represents p file entries) :
    Kept (· ∈ plan.before.keys) entries (compensate fault file plan).2 := by
  rw [compensate]
  split
  · by_cases valid : ValidChanges plan.after ∧ ValidChanges plan.before
    · have kept : Kept (· ∈ plan.before.keys) entries
          (replaceEntriesIfMatches fault file plan.after plan.before).2 := by
        rcases replaceEntriesIfMatches_outcome fault represents valid.1 valid.2 with
          ⟨-, mismatch⟩ | ⟨-, outcome⟩
        · rw [mismatch]
          exact .same represents
        · exact outcome.kept represents (untouched_applyChanges valid.2)
      generalize replaceEntriesIfMatches fault file plan.after plan.before = result at kept
      obtain ⟨reply, after⟩ := result
      cases reply with
      | error e => exact kept
      | ok done =>
        cases done with
        | true => exact kept
        | false =>
          dsimp only
          split <;> exact kept
    · obtain ⟨e, raised⟩ := @replaceEntriesIfMatches_invalid _ _ file fault _ _ valid
      rw [raised]
      exact .same represents
  · exact .same represents

/-- The claims to forget are of keys that were given. -/
theorem claimsOf_keys {keys : List (ArtifactKey p)} {claims : Claims p}
    (read : claimsOf file keys = .ok claims) : ∀ key ∈ claims.keys, key ∈ keys := by
  induction keys generalizing claims with
  | nil =>
    cases Except.ok.inj read
    exact fun key member => nomatch member
  | cons first keys ih =>
    obtain ⟨found, -, rest⟩ := bind_eq_ok.mp read
    obtain ⟨later, reads, whole⟩ := bind_eq_ok.mp rest
    intro key member
    cases found with
    | none =>
      cases Except.ok.inj whole
      exact List.mem_cons_of_mem _ (ih reads key member)
    | some entry =>
      cases Except.ok.inj whole
      rcases (Dict.mem_keys_set _ _ _ _).mp member with known | same
      · exact List.mem_cons_of_mem _ (ih reads key known)
      · exact same ▸ List.mem_cons_self

theorem forgetEntriesTransactionally_rolledBack (represents : Represents p file entries)
    (keys : List (ArtifactKey p)) :
    RolledBack (· ∈ keys) entries (forgetEntriesTransactionally fault rollback file keys) := by
  rw [forgetEntriesTransactionally]
  split
  · exact .same represents
  · next claims read =>
    split
    · exact .same represents
    · have rolledBack : RolledBack (· ∈ (forgetPlan claims).before.keys) entries
          (commit fault rollback file (forgetPlan claims)) := commit_rolledBack represents
      obtain ⟨⟨held, left, untouched⟩, restored⟩ := rolledBack
      refine ⟨⟨held, left, fun key encodable apart => untouched key encodable fun member => ?_⟩, restored⟩
      refine apart (claimsOf_keys read key ?_)
      rwa [forgetPlan, Dict.keys_mapValues] at member

end Commits

end ArcReel.Manifest
