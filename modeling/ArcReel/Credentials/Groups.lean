import ArcReel.Credentials.Providers

/-! The groups of secrets of which a provider needs only one, and the requests that switch a
credential from one group to another. -/

namespace ArcReel.Credentials
open Lib

/-- No two groups of the provider are complete. -/
def Unmixed (info : ProviderMeta) (values : SecretField → Option String) : Prop :=
  info.credentialGroups.Pairwise fun one other =>
    ¬(covers values one = true ∧ covers values other = true)

/-- The secrets that a `PATCH` submits. -/
def patched (info : ProviderMeta) (body : SecretField → Option (Option String)) :
    SecretField → Option String :=
  submittedSecretValues info fun key => (body key).join

/-- A change that fills in anything of a group fills in all of it. -/
def wholeGroups (registry : Registry) (_rows : Table) : Request → Bool
  | .update provider _ body => (registry provider).all fun info =>
      info.credentialGroups.all fun group =>
        !touches (patched info body.secret) group || covers (patched info body.secret) group
  | _ => true

section Groups

variable {info : ProviderMeta} {body : SecretField → Option (Option String)}
  {stored : SecretField → Option String}

/-- What a changed row holds. -/
def changed (clearKeys : List SecretField) (body : SecretField → Option (Option String))
    (stored : SecretField → Option String) (key : SecretField) : Option String :=
  (if key ∈ clearKeys then some none else body key).getD (stored key)

theorem secret_apply (row : ProviderCredential) (request : UpdateCredentialRequest)
    (clearKeys : List SecretField) :
    ((updateChanges request clearKeys).apply row).secret =
      changed clearKeys request.secret row.secret := by
  funext key
  cases key with
  | apiKey => rfl
  | accessKey => rfl
  | secretKey => rfl

/-- A complete group that the request does not touch was complete before. -/
theorem covers_stored {group clearKeys : List SecretField} (listed : group ∈ info.credentialGroups)
    (untouched : touches (patched info body) group = false)
    (complete : covers (changed clearKeys body stored) group = true) :
    covers stored group = true := by
  refine List.all_eq_true.mpr fun key member => ?_
  have filled := List.all_eq_true.mp complete key member
  have missing := List.any_eq_false.mp untouched key member
  rw [patched, submittedSecretValues,
    if_pos (info.groupsSecret group listed key member)] at missing
  rw [changed] at filled
  split at filled
  next cleared => exact (Bool.false_ne_true filled).elim
  next kept =>
    cases sent : body key with
    | none =>
      rw [sent] at filled
      exact filled
    | some value =>
      rw [sent] at filled missing
      exact (missing filled).elim

/-- A cleared field makes its groups incomplete. -/
theorem not_covers_cleared {group clearKeys : List SecretField} {key : SecretField}
    (member : key ∈ group) (cleared : key ∈ clearKeys) :
    covers (changed clearKeys body stored) group = false := by
  refine Bool.eq_false_iff.mpr fun complete => ?_
  have filled := List.all_eq_true.mp complete key member
  rw [changed, if_pos cleared] at filled
  exact Bool.false_ne_true filled

theorem touches_of_covers {values : SecretField → Option String} {group : List SecretField}
    (listed : group ∈ info.credentialGroups) (complete : covers values group = true) :
    touches values group = true := by
  obtain ⟨key, member⟩ := List.exists_mem_of_ne_nil group (info.groupsFilled group listed)
  exact List.any_eq_true.mpr ⟨key, member, List.all_eq_true.mp complete key member⟩

theorem eq_of_touched {values : SecretField → Option String} {one other : List SecretField}
    (single : ¬1 < (info.credentialGroups.filter (touches values)).length)
    (first : one ∈ info.credentialGroups) (second : other ∈ info.credentialGroups)
    (touched : touches values one = true) (also_ : touches values other = true) : one = other := by
  have mine := List.mem_filter.mpr ⟨first, touched⟩
  have its := List.mem_filter.mpr ⟨second, also_⟩
  obtain ⟨only, alone⟩ := List.length_eq_one_iff.mp
    (le_antisymm (not_lt.mp single) (List.length_pos_of_mem mine))
  rw [alone, List.mem_singleton] at mine its
  exact mine.trans its.symm

/-- What an accepted request leaves complete: nothing new, or only the group that it switches to. -/
theorem covers_changed (disjoint : info.credentialGroups.Pairwise List.Disjoint)
    {clearKeys : List SecretField}
    (whole : ∀ group ∈ info.credentialGroups, touches (patched info body) group = true →
      covers (patched info body) group = true)
    (accepted : resolveCredentialGroupSwitch info (patched info body)
      (some (submittedSecretValues info stored)) = some clearKeys) :
    (∀ group ∈ info.credentialGroups, covers (changed clearKeys body stored) group = true →
        covers stored group = true) ∨
      ∃ target, ∀ group ∈ info.credentialGroups,
        covers (changed clearKeys body stored) group = true → group = target := by
  rw [resolveCredentialGroupSwitch] at accepted
  dsimp only at accepted
  split at accepted
  next several => cases accepted
  next single =>
    split at accepted
    next nothing =>
      -- no group is filled in completely, hence none is touched
      refine Or.inl fun group listed complete => covers_stored listed ?_ complete
      refine Bool.eq_false_iff.mpr fun touched => ?_
      have covered : group ∈ info.fullyCoveredCredentialGroups (patched info body) :=
        List.mem_filter.mpr ⟨listed, whole group listed touched⟩
      rw [nothing] at covered
      exact List.not_mem_nil covered
    next target rest found =>
      have covered : target ∈ info.fullyCoveredCredentialGroups (patched info body) := by
        rw [found]
        exact List.mem_cons_self ..
      obtain ⟨listed, full⟩ := List.mem_filter.mp covered
      split at accepted
      next kept =>
        rw [Option.any_some, List.any_eq_true] at kept
        obtain ⟨group, pre, same⟩ := kept
        rw [Bool.and_eq_true, decide_eq_true_eq, decide_eq_true_eq] at same
        have before : covers stored target = true := by
          refine List.all_eq_true.mpr fun key member => ?_
          have held := List.all_eq_true.mp (List.mem_filter.mp pre).2 key (same.2 member)
          rw [submittedSecretValues,
            if_pos (info.groupsSecret target listed key member)] at held
          exact held
        refine Or.inl fun other member complete => ?_
        by_cases mine : other = target
        · exact mine ▸ before
        · refine covers_stored member (Bool.eq_false_iff.mpr fun touched => mine ?_) complete
          exact eq_of_touched single member listed touched (touches_of_covers listed full)
      next switched =>
        refine Or.inr ⟨target, fun group member complete => ?_⟩
        by_contra else_
        have symm : Std.Symm (@List.Disjoint SecretField) := ⟨fun _ _ => List.Disjoint.symm⟩
        have apart := disjoint.forall member listed else_
        obtain ⟨key, inside⟩ := List.exists_mem_of_ne_nil group (info.groupsFilled group member)
        have cleared : key ∈ clearKeys := by
          rw [← Option.some.inj accepted]
          exact List.mem_filter.mpr
            ⟨List.mem_flatten.mpr ⟨group, member, inside⟩, decide_eq_true (apart inside)⟩
        rw [not_covers_cleared inside cleared] at complete
        exact Bool.false_ne_true complete

theorem Unmixed.change (disjoint : info.credentialGroups.Pairwise List.Disjoint)
    (before : Unmixed info stored) {clearKeys : List SecretField}
    (whole : ∀ group ∈ info.credentialGroups, touches (patched info body) group = true →
      covers (patched info body) group = true)
    (accepted : resolveCredentialGroupSwitch info (patched info body)
      (some (submittedSecretValues info stored)) = some clearKeys) :
    Unmixed info (changed clearKeys body stored) := by
  refine (disjoint.and before).imp_of_mem fun {one other} first second both complete => ?_
  cases covers_changed disjoint whole accepted with
  | inl old => exact both.2 ⟨old one first complete.1, old other second complete.2⟩
  | inr switched =>
    obtain ⟨target, only⟩ := switched
    obtain ⟨key, member⟩ := List.exists_mem_of_ne_nil one (info.groupsFilled one first)
    have same := (only one first complete.1).trans (only other second complete.2).symm
    exact both.1 member (same ▸ member)

/-- A new row fills in at most one group. -/
theorem unmixed_created (disjoint : info.credentialGroups.Pairwise List.Disjoint)
    {values : SecretField → Option String}
    (accepted : (resolveCredentialGroupSwitch info (submittedSecretValues info values) none).isSome) :
    Unmixed info values := by
  have single : ¬1 < (info.credentialGroups.filter
      (touches (submittedSecretValues info values))).length := by
    intro several
    rw [resolveCredentialGroupSwitch, if_pos several] at accepted
    cases accepted
  have sent : ∀ group ∈ info.credentialGroups, covers values group = true →
      touches (submittedSecretValues info values) group = true := by
    intro group listed complete
    refine touches_of_covers listed (List.all_eq_true.mpr fun key member => ?_)
    rw [submittedSecretValues, if_pos (info.groupsSecret group listed key member)]
    exact List.all_eq_true.mp complete key member
  refine disjoint.imp_of_mem fun {one other} first second apart complete => ?_
  obtain ⟨key, member⟩ := List.exists_mem_of_ne_nil one (info.groupsFilled one first)
  have same := eq_of_touched single first second (sent one first complete.1)
    (sent other second complete.2)
  exact apart member (same ▸ member)

end Groups

/-- No credential holds two complete groups of its provider. -/
def AllUnmixed (registry : Registry) (rows : Table) : Prop :=
  ∀ row ∈ rows, ∀ info, registry row.provider = some info → Unmixed info row.secret

section UnmixedRuns

variable {registry : Registry} {rows : Table}

/-- Statements that only drop and mark rows. -/
theorem AllUnmixed.of_rows {rows' : Table} (unmixed : AllUnmixed registry rows)
    (from_ : ∀ row' ∈ rows', ∃ row ∈ rows, row.provider = row'.provider ∧ row.secret = row'.secret) :
    AllUnmixed registry rows' := by
  intro row' member info known
  obtain ⟨row, old, provider, secret⟩ := from_ row' member
  exact secret ▸ unmixed row old info (provider ▸ known)

theorem from_raise {id : Nat} {row' : ProviderCredential} (member : row' ∈ byProvider.raise id rows) :
    ∃ row ∈ rows, row.provider = row'.provider ∧ row.secret = row'.secret := by
  obtain ⟨row, old, rfl⟩ := List.mem_map.mp member
  refine ⟨row, old, ?_⟩
  split
  next => exact ⟨rfl, rfl⟩
  next => exact ⟨rfl, rfl⟩

theorem from_clear {provider : String} {row' : ProviderCredential}
    (member : row' ∈ byProvider.clear provider rows) :
    ∃ row ∈ rows, row.provider = row'.provider ∧ row.secret = row'.secret := by
  obtain ⟨row, old, rfl⟩ := List.mem_map.mp member
  refine ⟨row, old, ?_⟩
  split
  next => exact ⟨rfl, rfl⟩
  next => exact ⟨rfl, rfl⟩

theorem AllUnmixed.activate (unmixed : AllUnmixed registry rows) (credId : Nat) (provider : String) :
    AllUnmixed registry ((activate rows credId provider).getLastD rows) := by
  have cleared : AllUnmixed registry (byProvider.clear provider rows) :=
    unmixed.of_rows fun _ => from_clear
  exact cleared.of_rows fun _ => from_raise

theorem AllUnmixed.delete (unmixed : AllUnmixed registry rows) (credId : Nat) :
    AllUnmixed registry ((delete rows credId).getLastD rows) := by
  have remaining : AllUnmixed registry (byProvider.remove credId rows) :=
    unmixed.of_rows fun row member => ⟨row, (List.mem_filter.mp member).1, rfl, rfl⟩
  unfold Credentials.delete
  split
  next absent => exact unmixed
  next cred found =>
    dsimp only
    split
    next active =>
      split
      next next_ promoted => exact remaining.of_rows fun _ => from_raise
      next nobody => exact remaining
    next inactive => exact remaining

theorem AllUnmixed.create (unmixed : AllUnmixed registry rows) (id createdAt : Nat) (provider : String)
    (body : CreateCredentialRequest)
    (own : ∀ info, registry provider = some info → Unmixed info body.secret) :
    AllUnmixed registry ((create rows id createdAt provider body).getLastD rows) := by
  intro row member info known
  cases List.mem_append.mp member with
  | inl old => exact unmixed row old info known
  | inr new =>
    rw [List.mem_singleton.mp new] at known ⊢
    have same : (newCredential rows id createdAt provider body).secret = body.secret := by
      funext key
      cases key with
      | apiKey => rfl
      | accessKey => rfl
      | secretKey => rfl
    rw [same]
    exact own info known

theorem AllUnmixed.update (unmixed : AllUnmixed registry rows) {credId : Nat} (changes : Update)
    (own : ∀ row ∈ rows, row.id = credId → ∀ info, registry row.provider = some info →
      Unmixed info (changes.apply row).secret) :
    AllUnmixed registry ((update rows credId changes).getLastD rows) := by
  intro row member info known
  obtain ⟨old, before, rfl⟩ := List.mem_map.mp member
  by_cases mine : old.id = credId
  · rw [if_pos mine] at known ⊢
    exact own old before mine info known
  · rw [if_neg mine] at known ⊢
    exact unmixed old before info known

theorem unmixed_empty {info : ProviderMeta} : Unmixed info fun _ => none := by
  refine List.Pairwise.imp_of_mem (R := fun _ _ => True) (fun {one _} first _ _ complete => ?_)
    (List.pairwise_of_forall fun _ _ => trivial)
  obtain ⟨key, member⟩ := List.exists_mem_of_ne_nil one (info.groupsFilled one first)
  exact Bool.false_ne_true (List.all_eq_true.mp complete.1 key member)

theorem allUnmixed_step
    (disjoint : ∀ provider info, registry provider = some info →
      info.credentialGroups.Pairwise List.Disjoint)
    (rows : Table) (request : Request) (rows' : Table)
    (inv : Chosen rows ∧ AllUnmixed registry rows) (whole : wholeGroups registry rows request = true)
    (stepped : step registry rows request = some rows') :
    Chosen rows' ∧ AllUnmixed registry rows' := by
  obtain ⟨chosen, unmixed⟩ := inv
  refine ⟨chosen_step rows request rows' chosen stepped, ?_⟩
  rw [step] at stepped
  split at stepped
  next fresh =>
    rw [← Option.some.inj stepped]
    cases request with
    | create provider body id createdAt =>
      simp only [statements]
      split
      next unknown => exact unmixed
      next info known =>
        split
        next accepted =>
          refine unmixed.create id createdAt provider body fun other found => ?_
          obtain rfl : info = other := Option.some.inj (known.symm.trans found)
          exact unmixed_created (disjoint provider info known) accepted
        next ambiguous => exact unmixed
    | uploadVertex name credentialsPath id createdAt =>
      have none_ : (⟨name, none, none, none, none⟩ : CreateCredentialRequest).secret = fun _ => none := by
        funext key
        cases key with
        | apiKey => rfl
        | accessKey => rfl
        | secretKey => rfl
      have added := unmixed.create id createdAt "gemini-vertex" ⟨name, none, none, none, none⟩
        fun info _ => none_ ▸ unmixed_empty
      exact added.update ⟨none, none, some credentialsPath, none, none, none⟩
        fun row member _ info known => added row member info known
    | update provider credId body =>
      simp only [statements]
      split
      next info cred known found =>
        split
        next clearKeys accepted =>
          refine unmixed.update _ fun row member same other found' => ?_
          obtain ⟨listed, own⟩ := getCredential_some found
          obtain ⟨there, id⟩ := getById_some listed
          obtain rfl : row = cred :=
            List.inj_on_of_nodup_map chosen.distinct member there (same.trans id.symm)
          rw [own] at found'
          obtain rfl : info = other := Option.some.inj (known.symm.trans found')
          rw [secret_apply]
          refine Unmixed.change (disjoint provider info known)
            (unmixed row member info (own ▸ known)) (fun group among touched => ?_) accepted
          rw [wholeGroups, known, Option.all_some, List.all_eq_true] at whole
          have all := whole group among
          rw [touched] at all
          exact all
        next ambiguous => exact unmixed
      next missing => exact unmixed
    | delete provider credId =>
      simp only [statements]
      split
      next info cred known found => exact unmixed.delete credId
      next missing => exact unmixed
    | activate provider credId =>
      simp only [statements]
      split
      next info cred known found => exact unmixed.activate credId provider
      next missing => exact unmixed
  next taken => cases stepped

end UnmixedRuns

/-- As long as every change fills in whole groups, no credential comes to hold two complete groups of
its provider: a switch clears the group that was filled in before. -/
theorem credentials_hold_one_group {registry : Registry} {requests : List Request} {rows : Table}
    (disjoint : ∀ provider info, registry provider = some info →
      info.credentialGroups.Pairwise List.Disjoint)
    (whole : allSteps (step registry) (wholeGroups registry) requests [] = true)
    (ran : runSteps (step registry) requests [] = some rows) : AllUnmixed registry rows := by
  have start : Chosen [] ∧ AllUnmixed registry [] :=
    ⟨⟨.nil, fun _ => Nat.zero_le 1, fun _ member => (List.not_mem_nil member).elim⟩,
      fun _ member => (List.not_mem_nil member).elim⟩
  exact (runSteps_induct_of (allUnmixed_step disjoint) start whole ran).2

/-- A provider with one key, or with two that belong together. -/
private def klingRegistry : Registry := fun _ =>
  some ⟨[.apiKey, .accessKey, .secretKey], [[.apiKey], [.accessKey, .secretKey]], by decide, by decide⟩

private theorem klingRegistry_disjoint (provider : String) (info : ProviderMeta)
    (known : klingRegistry provider = some info) :
    info.credentialGroups.Pairwise List.Disjoint := by
  obtain rfl := Option.some.inj known
  simp [List.Disjoint]

/-- A credential that is switched from the one key to the two. -/
private def switching : List Request :=
  [.create "kling" ⟨"a", some "k", none, none, none⟩ 1 10,
    .update "kling" 1 ⟨none, none, none, some (some "x"), some (some "y")⟩]

theorem credentials_hold_one_group_switched : ∃ rows : Table,
    runSteps (step klingRegistry) switching [] = some rows ∧
      rows.map ProviderCredential.secretKey = [some "y"] ∧ AllUnmixed klingRegistry rows := by
  refine ⟨_, rfl, rfl, ?_⟩
  exact @credentials_hold_one_group klingRegistry switching _ klingRegistry_disjoint (by decide) rfl

end ArcReel.Credentials
