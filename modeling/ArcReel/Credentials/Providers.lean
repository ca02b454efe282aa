import ArcReel.Lib.Exclusive
import ArcReel.Lib.PyText
import ArcReel.Lib.Run
import Mathlib.Data.List.MinMax

/-! The credentials of the providers: `CredentialRepository` and the requests of the router that
create, change, delete and activate them. -/

namespace ArcReel.Credentials
open Lib

/-- A row of `provider_credential`. -/
structure ProviderCredential where
  id : Nat
  provider : String
  name : String
  apiKey : Option String
  credentialsPath : Option String
  baseUrl : Option String
  accessKey : Option String
  secretKey : Option String
  isActive : Bool
  createdAt : Nat
  deriving DecidableEq, Repr

abbrev Table := List ProviderCredential

def byProvider : Flagging ProviderCredential String where
  id := ProviderCredential.id
  group := ProviderCredential.provider
  flag := ProviderCredential.isActive
  setFlag isActive row := { row with isActive }
  id_set _ _ := rfl
  group_set _ _ := rfl
  flag_set _ _ := rfl

/-- The secret fields that a request can carry. -/
inductive SecretField where
  | apiKey
  | accessKey
  | secretKey
  deriving DecidableEq, Repr

def ProviderCredential.secret (row : ProviderCredential) : SecretField → Option String
  | .apiKey => row.apiKey
  | .accessKey => row.accessKey
  | .secretKey => row.secretKey

/-- What `PROVIDER_REGISTRY` declares of a provider's secrets. -/
structure ProviderMeta where
  secretKeys : List SecretField
  credentialGroups : List (List SecretField)
  groupsFilled : ∀ group ∈ credentialGroups, group ≠ []
  groupsSecret : ∀ group ∈ credentialGroups, ∀ key ∈ group, key ∈ secretKeys

abbrev Registry := String → Option ProviderMeta

/-- A secret that is neither missing nor empty. -/
def given (value : Option String) : Bool := value.any (· ≠ "")

def covers (values : SecretField → Option String) (group : List SecretField) : Bool :=
  group.all fun key => given (values key)

def touches (values : SecretField → Option String) (group : List SecretField) : Bool :=
  group.any fun key => given (values key)

def ProviderMeta.fullyCoveredCredentialGroups (info : ProviderMeta)
    (values : SecretField → Option String) : List (List SecretField) :=
  info.credentialGroups.filter (covers values)

/-- The fields to be cleared; `none` is the answer 422 to a request for several groups. -/
def resolveCredentialGroupSwitch (info : ProviderMeta) (submitted : SecretField → Option String)
    (current : Option (SecretField → Option String)) : Option (List SecretField) :=
  let touched := info.credentialGroups.filter (touches submitted)
  if 1 < touched.length then none
  else match info.fullyCoveredCredentialGroups submitted with
    | [] => some []
    | target :: _ =>
        let kept := current.any fun values =>
          (info.fullyCoveredCredentialGroups values).any fun group =>
            decide (group ⊆ target) && decide (target ⊆ group)
        if kept then some []
        else some (info.credentialGroups.flatten.filter fun key => key ∉ target)

def normalizeBaseUrl (url : Option String) : Option String :=
  url.bind fun url =>
    let url := PyText.strip url.toList
    if url = [] then none
    else some (String.ofList (if url.getLast? = some '/' then url else url ++ ['/']))

/-- `CreateCredentialRequest`. -/
structure CreateCredentialRequest where
  name : String
  apiKey : Option String
  baseUrl : Option String
  accessKey : Option String
  secretKey : Option String

/-- `UpdateCredentialRequest`; a field that is not in the body is `none`. -/
structure UpdateCredentialRequest where
  name : Option String
  apiKey : Option (Option String)
  baseUrl : Option (Option String)
  accessKey : Option (Option String)
  secretKey : Option (Option String)

def CreateCredentialRequest.secret (body : CreateCredentialRequest) : SecretField → Option String
  | .apiKey => body.apiKey
  | .accessKey => body.accessKey
  | .secretKey => body.secretKey

def UpdateCredentialRequest.secret (body : UpdateCredentialRequest) :
    SecretField → Option (Option String)
  | .apiKey => body.apiKey
  | .accessKey => body.accessKey
  | .secretKey => body.secretKey

/-- `_submitted_secret_values`. -/
def submittedSecretValues (info : ProviderMeta) (body : SecretField → Option String)
    (key : SecretField) : Option String :=
  if key ∈ info.secretKeys then body key else none

/-! The repository: the table after each statement of an operation. -/

section Repository

variable (rows : Table)

def getActive (provider : String) : Option ProviderCredential :=
  rows.find? fun row => row.provider = provider && row.isActive

def getById (credId : Nat) : Option ProviderCredential := rows.find? fun row => row.id = credId

/-- The first credential of a provider is active; the key and the time are the database's. -/
def newCredential (id createdAt : Nat) (provider : String) (body : CreateCredentialRequest) :
    ProviderCredential where
  id
  provider
  name := body.name
  apiKey := body.apiKey
  credentialsPath := none
  baseUrl := normalizeBaseUrl body.baseUrl
  accessKey := body.accessKey
  secretKey := body.secretKey
  isActive := (getActive rows provider).isNone
  createdAt

def create (id createdAt : Nat) (provider : String) (body : CreateCredentialRequest) : List Table :=
  [rows ++ [newCredential rows id createdAt provider body]]

def activate (credId : Nat) (provider : String) : List Table :=
  let cleared := byProvider.clear provider rows
  [cleared, byProvider.raise credId cleared]

/-- The values that `repo.update` is given; a missing one is kept. -/
structure Update where
  name : Option String
  apiKey : Option (Option String)
  credentialsPath : Option String
  baseUrl : Option (Option String)
  accessKey : Option (Option String)
  secretKey : Option (Option String)

def Update.apply (changes : Update) (row : ProviderCredential) : ProviderCredential :=
  { row with
    name := changes.name.getD row.name
    apiKey := changes.apiKey.getD row.apiKey
    credentialsPath := changes.credentialsPath.or row.credentialsPath
    baseUrl := (changes.baseUrl.map normalizeBaseUrl).getD row.baseUrl
    accessKey := changes.accessKey.getD row.accessKey
    secretKey := changes.secretKey.getD row.secretKey }

def update (credId : Nat) (changes : Update) : List Table :=
  [rows.map fun row => if row.id = credId then changes.apply row else row]

/-- The earliest other credential takes the place of a deleted active one. -/
def delete (credId : Nat) : List Table :=
  match getById rows credId with
  | none => []
  | some cred =>
      let remaining := byProvider.remove credId rows
      if cred.isActive then
        match (remaining.filter fun row => row.provider = cred.provider).argmin
            ProviderCredential.createdAt with
        | some next => [remaining, byProvider.raise next.id remaining]
        | none => [remaining]
      else [remaining]

end Repository

/-! The router. -/

inductive Request where
  | create (provider : String) (body : CreateCredentialRequest) (id createdAt : Nat)
  | uploadVertex (name credentialsPath : String) (id createdAt : Nat)
  | update (provider : String) (credId : Nat) (body : UpdateCredentialRequest)
  | delete (provider : String) (credId : Nat)
  | activate (provider : String) (credId : Nat)

section Router

variable (registry : Registry) (rows : Table)

/-- `_get_credential_or_404`. -/
def getCredential (provider : String) (credId : Nat) : Option ProviderCredential :=
  (getById rows credId).filter fun cred => cred.provider = provider

/-- The changes of a `PATCH`: what the body holds, and nothing for the fields to be cleared. -/
def updateChanges (body : UpdateCredentialRequest) (clearKeys : List SecretField) : Update :=
  let value (key : SecretField) := if key ∈ clearKeys then some none else body.secret key
  { name := body.name
    apiKey := value .apiKey
    credentialsPath := none
    baseUrl := body.baseUrl
    accessKey := value .accessKey
    secretKey := value .secretKey }

/-- The table after each statement that the request makes; a refused request makes none. -/
def statements : Request → List Table
  | .create provider body id createdAt =>
      match registry provider with
      | none => []
      | some info =>
          if (resolveCredentialGroupSwitch info (submittedSecretValues info body.secret) none).isSome
          then create rows id createdAt provider body
          else []
  | .uploadVertex name credentialsPath id createdAt =>
      let added := create rows id createdAt "gemini-vertex" ⟨name, none, none, none, none⟩
      added ++ update (added.getLastD rows) id ⟨none, none, some credentialsPath, none, none, none⟩
  | .update provider credId body =>
      match registry provider, getCredential rows provider credId with
      | some info, some cred =>
          match resolveCredentialGroupSwitch info
              (submittedSecretValues info fun key => (body.secret key).join)
              (some (submittedSecretValues info cred.secret)) with
          | some clearKeys => update rows credId (updateChanges body clearKeys)
          | none => []
      | _, _ => []
  | .delete provider credId =>
      match registry provider, getCredential rows provider credId with
      | some _, some _ => delete rows credId
      | _, _ => []
  | .activate provider credId =>
      match registry provider, getCredential rows provider credId with
      | some _, some _ => activate rows credId provider
      | _, _ => []

/-- The database gives every new row a key of its own. -/
def Request.fresh (rows : Table) : Request → Bool
  | .create _ _ id _ | .uploadVertex _ _ id _ => decide (id ∉ byProvider.ids rows)
  | _ => true

def step (rows : Table) (request : Request) : Option Table :=
  if request.fresh rows then some ((statements registry rows request).getLastD rows) else none

end Router

/-! One active credential a provider. -/

/-- The unique index `uq_provider_credential_one_active`. -/
def OneActive (rows : Table) : Prop := ∀ provider, (byProvider.flagged provider rows).length ≤ 1

structure Chosen (rows : Table) : Prop where
  distinct : (byProvider.ids rows).Nodup
  one : OneActive rows
  some_ : ∀ row ∈ rows, byProvider.flagged row.provider rows ≠ []

/-- What an operation does to a table with its active credentials chosen. -/
structure Keeps (rows : Table) (tables : List Table) : Prop where
  index : ∀ table ∈ tables, OneActive table
  chosen : Chosen (tables.getLastD rows)

section Operations

variable {rows : Table}

theorem isNone_getActive (rows : Table) (provider : String) :
    (getActive rows provider).isNone = true ↔ byProvider.flagged provider rows = [] := by
  rw [getActive, Option.isNone_iff_eq_none, List.find?_eq_none, Flagging.flagged,
    List.map_eq_nil_iff, List.filter_eq_nil_iff]
  rfl

theorem getById_some {credId : Nat} {cred : ProviderCredential}
    (found : getById rows credId = some cred) : cred ∈ rows ∧ cred.id = credId :=
  ⟨List.mem_of_find?_eq_some found, by simpa using List.find?_some found⟩

theorem getCredential_some {provider : String} {credId : Nat} {cred : ProviderCredential}
    (found : getCredential rows provider credId = some cred) :
    getById rows credId = some cred ∧ cred.provider = provider := by
  obtain ⟨listed, own⟩ := Option.filter_eq_some_iff.mp found
  exact ⟨listed, of_decide_eq_true own⟩

/-- The only flagged row of a provider. -/
theorem Chosen.active (chosen : Chosen rows) {row : ProviderCredential} (member : row ∈ rows)
    (active : row.isActive = true) : byProvider.flagged row.provider rows = [row.id] := by
  have listed : row.id ∈ byProvider.flagged row.provider rows :=
    Flagging.mem_flagged.mpr ⟨row, member, rfl, active, rfl⟩
  obtain ⟨id, only⟩ := List.length_eq_one_iff.mp
    (le_antisymm (chosen.one row.provider) (List.length_pos_of_mem listed))
  rw [only] at listed ⊢
  rw [List.mem_singleton.mp listed]

theorem Keeps.none_ (chosen : Chosen rows) : Keeps rows [] where
  index _ member := (List.not_mem_nil member).elim
  chosen := chosen

theorem create_keeps (chosen : Chosen rows) {id : Nat} (new : id ∉ byProvider.ids rows)
    (createdAt : Nat) (provider : String) (body : CreateCredentialRequest) :
    Keeps rows (create rows id createdAt provider body) := by
  have flags : ∀ other, byProvider.flagged other
      (rows ++ [newCredential rows id createdAt provider body]) =
        byProvider.flagged other rows ++
          if provider = other && (getActive rows provider).isNone then [id] else [] :=
    fun other => Flagging.flagged_append other rows _
  have one : OneActive (rows ++ [newCredential rows id createdAt provider body]) := by
    intro other
    rw [flags]
    split
    next first =>
      rw [Bool.and_eq_true, decide_eq_true_eq, isNone_getActive] at first
      rw [← first.1, first.2]
      exact le_rfl
    next later =>
      rw [List.append_nil]
      exact chosen.one other
  refine ⟨fun table member => List.mem_singleton.mp member ▸ one, ?_, one, ?_⟩
  · change (byProvider.ids (rows ++ [newCredential rows id createdAt provider body])).Nodup
    rw [Flagging.ids, List.map_append]
    exact List.nodup_append.mpr ⟨chosen.distinct, List.nodup_singleton _,
      fun old member added only same => by
        rw [same, List.mem_singleton.mp only] at member
        exact new member⟩
  · intro row member
    change byProvider.flagged row.provider (rows ++ _) ≠ []
    rw [flags]
    cases List.mem_append.mp member with
    | inl old =>
      intro nil
      exact chosen.some_ row old (List.append_eq_nil_iff.mp nil).1
    | inr added =>
      rw [List.mem_singleton.mp added]
      intro nil
      obtain ⟨none_, -⟩ := List.append_eq_nil_iff.mp nil
      change byProvider.flagged provider rows = [] at none_
      change byProvider.flagged provider rows ++ (if provider = provider && _ then _ else _) = [] at nil
      rw [(isNone_getActive rows provider).mpr none_, none_] at nil
      simp at nil

theorem activate_keeps (chosen : Chosen rows) {provider : String} {credId : Nat}
    {cred : ProviderCredential} (found : getCredential rows provider credId = some cred) :
    Keeps rows (activate rows credId provider) := by
  obtain ⟨listed, own⟩ := getCredential_some found
  obtain ⟨member, same⟩ := getById_some listed
  have cleared : OneActive (byProvider.clear provider rows) := by
    intro other
    rw [Flagging.flagged_clear]
    split
    next => exact Nat.zero_le 1
    next => exact chosen.one other
  have distinct : (byProvider.ids (byProvider.clear provider rows)).Nodup := by
    rw [Flagging.ids_clear]
    exact chosen.distinct
  -- the row of the credential after the first statement
  have there : { cred with isActive := false } ∈ byProvider.clear provider rows :=
    List.mem_map.mpr ⟨cred, member, if_pos own⟩
  have raised : ∀ other, byProvider.flagged other
      (byProvider.raise credId (byProvider.clear provider rows)) =
        if other = provider then [credId] else byProvider.flagged other rows := by
    intro other
    by_cases mine : other = provider
    · have free : byProvider.flagged other (byProvider.clear provider rows) = [] := by
        rw [Flagging.flagged_clear, if_pos mine]
      have set := Flagging.flagged_raise distinct there (own.trans mine.symm) free
      rw [if_pos mine, ← same]
      exact set
    · have kept := @Flagging.flagged_raise_other _ _ byProvider _ other _ _ distinct there
        fun else_ => mine (else_.symm.trans own)
      rw [if_neg mine, ← same]
      exact kept.trans ((Flagging.flagged_clear provider other rows).trans (if_neg mine))
  have one : OneActive (byProvider.raise credId (byProvider.clear provider rows)) := by
    intro other
    rw [raised]
    split
    next => exact le_rfl
    next => exact chosen.one other
  refine ⟨fun table member => ?_, ?_, one, ?_⟩
  · cases List.mem_cons.mp member with
    | inl first => exact first ▸ cleared
    | inr second => exact List.mem_singleton.mp second ▸ one
  · change (byProvider.ids (byProvider.raise credId _)).Nodup
    rw [Flagging.ids_raise]
    exact distinct
  · intro row kept
    change byProvider.flagged row.provider (byProvider.raise credId _) ≠ []
    rw [raised]
    split
    next => exact List.cons_ne_nil _ _
    next other =>
      obtain ⟨middle, between, rfl⟩ := List.mem_map.mp kept
      obtain ⟨old, before, rfl⟩ := List.mem_map.mp between
      have provider_ : ∀ value (row : ProviderCredential),
          (byProvider.setFlag value row).provider = row.provider := fun _ _ => rfl
      have group : ∀ (c : Prop) [Decidable c] value (row : ProviderCredential),
          (if c then byProvider.setFlag value row else row).provider = row.provider := by
        intro c _ value row
        split <;> rfl
      rw [group, group]
      exact chosen.some_ old before

theorem update_keeps (chosen : Chosen rows) (credId : Nat) (changes : Update) :
    Keeps rows (update rows credId changes) := by
  have keeps : byProvider.Keeps fun row => if row.id = credId then changes.apply row else row := by
    intro row
    dsimp only
    split
    next => exact ⟨rfl, rfl, rfl⟩
    next => exact ⟨rfl, rfl, rfl⟩
  have flags := fun provider => Flagging.flagged_keeps keeps provider rows
  have one : OneActive (rows.map fun row => if row.id = credId then changes.apply row else row) :=
    fun provider => (flags provider).symm ▸ chosen.one provider
  refine ⟨fun table member => List.mem_singleton.mp member ▸ one, ?_, one, ?_⟩
  · change (byProvider.ids (rows.map _)).Nodup
    rw [Flagging.ids_map fun row => (keeps row).1]
    exact chosen.distinct
  · intro row member
    obtain ⟨old, before, rfl⟩ := List.mem_map.mp member
    have own : (if old.id = credId then changes.apply old else old).provider = old.provider :=
      (keeps old).2.1
    change byProvider.flagged _ (rows.map _) ≠ []
    rw [flags, own]
    exact chosen.some_ old before

theorem delete_keeps (chosen : Chosen rows) (credId : Nat) : Keeps rows (delete rows credId) := by
  unfold delete
  split
  next absent => exact .none_ chosen
  next cred found =>
    obtain ⟨member, same⟩ := getById_some found
    have remaining : OneActive (byProvider.remove credId rows) := fun provider => by
      rw [Flagging.flagged_remove]
      exact (List.length_filter_le _ _).trans (chosen.one provider)
    have distinct : (byProvider.ids (byProvider.remove credId rows)).Nodup := by
      rw [Flagging.ids_remove]
      exact chosen.distinct.filter _
    -- a row that stays keeps the active one of its provider, unless that was deleted
    have stays : ∀ row ∈ byProvider.remove credId rows,
        cred.isActive = false ∨ row.provider ≠ cred.provider →
          byProvider.flagged row.provider (byProvider.remove credId rows) ≠ [] := by
      intro row kept apart
      obtain ⟨active, listed⟩ := List.exists_mem_of_ne_nil _
        (chosen.some_ row (List.mem_filter.mp kept).1)
      obtain ⟨holder, there, group, flag, id⟩ := Flagging.mem_flagged.mp listed
      have other : holder.id ≠ credId := by
        intro equal
        have self : holder = cred :=
          List.inj_on_of_nodup_map chosen.distinct there member (equal.trans same.symm)
        cases apart with
        | inl inactive => exact Bool.false_ne_true (inactive.symm.trans (self ▸ flag))
        | inr elsewhere => exact elsewhere (group.symm.trans (congrArg _ self))
      refine List.ne_nil_of_mem (a := holder.id) ?_
      exact Flagging.mem_flagged.mpr
        ⟨holder, List.mem_filter.mpr ⟨there, decide_eq_true other⟩, group, flag, rfl⟩
    dsimp only
    split
    next active =>
      have gone : byProvider.flagged cred.provider (byProvider.remove credId rows) = [] := by
        rw [Flagging.flagged_remove, chosen.active member active, same]
        simp
      split
      next next_ promoted =>
        have candidate := List.mem_filter.mp (List.argmin_mem promoted)
        have own : next_.provider = cred.provider := of_decide_eq_true candidate.2
        have raised : ∀ provider, byProvider.flagged provider
            (byProvider.raise next_.id (byProvider.remove credId rows)) =
              if provider = cred.provider then [next_.id]
              else byProvider.flagged provider (byProvider.remove credId rows) := by
          intro provider
          by_cases mine : provider = cred.provider
          · rw [if_pos mine, mine]
            exact Flagging.flagged_raise distinct candidate.1 own gone
          · rw [if_neg mine]
            exact Flagging.flagged_raise_other distinct candidate.1
              fun else_ => mine (else_.symm.trans own)
        have one : OneActive (byProvider.raise next_.id (byProvider.remove credId rows)) := by
          intro provider
          rw [raised]
          split
          next => exact le_rfl
          next => exact remaining provider
        refine ⟨fun table among => ?_, ?_, one, ?_⟩
        · cases List.mem_cons.mp among with
          | inl first => exact first ▸ remaining
          | inr second => exact List.mem_singleton.mp second ▸ one
        · change (byProvider.ids (byProvider.raise next_.id _)).Nodup
          rw [Flagging.ids_raise]
          exact distinct
        · intro row kept
          change byProvider.flagged row.provider (byProvider.raise next_.id _) ≠ []
          rw [raised]
          split
          next => exact List.cons_ne_nil _ _
          next elsewhere =>
            obtain ⟨old, before, rfl⟩ := List.mem_map.mp kept
            have group : (if byProvider.id old = next_.id then byProvider.setFlag true old
                else old).provider = old.provider := by
              split <;> rfl
            rw [group] at elsewhere ⊢
            exact stays old before (Or.inr elsewhere)
      next nobody =>
        refine ⟨fun table among => List.mem_singleton.mp among ▸ remaining, distinct, remaining, ?_⟩
        intro row kept
        refine stays row kept (Or.inr fun mine => ?_)
        have listed : row ∈ (byProvider.remove credId rows).filter
            fun row => row.provider = cred.provider :=
          List.mem_filter.mpr ⟨kept, decide_eq_true mine⟩
        rw [List.argmin_eq_none.mp nobody] at listed
        exact List.not_mem_nil listed
    next inactive =>
      refine ⟨fun table among => List.mem_singleton.mp among ▸ remaining, distinct, remaining, ?_⟩
      exact fun row kept => stays row kept (Or.inl (Bool.eq_false_iff.mpr inactive))

theorem statements_keep (registry : Registry) (chosen : Chosen rows) {request : Request}
    (fresh : request.fresh rows = true) : Keeps rows (statements registry rows request) := by
  cases request with
  | create provider body id createdAt =>
    simp only [statements]
    split
    next unknown => exact .none_ chosen
    next info known =>
      split
      next accepted => exact create_keeps chosen (of_decide_eq_true fresh) createdAt provider body
      next ambiguous => exact .none_ chosen
  | uploadVertex name credentialsPath id createdAt =>
    have added := create_keeps chosen (of_decide_eq_true fresh) createdAt "gemini-vertex"
      ⟨name, none, none, none, none⟩
    have filled := update_keeps added.chosen id ⟨none, none, some credentialsPath, none, none, none⟩
    refine ⟨fun table member => ?_, filled.chosen⟩
    cases List.mem_append.mp member with
    | inl first => exact added.index table first
    | inr second => exact filled.index table second
  | update provider credId body =>
    simp only [statements]
    split
    next info cred known found =>
      split
      next clearKeys accepted => exact update_keeps chosen credId _
      next ambiguous => exact .none_ chosen
    next missing => exact .none_ chosen
  | delete provider credId =>
    simp only [statements]
    split
    next info cred known found => exact delete_keeps chosen credId
    next missing => exact .none_ chosen
  | activate provider credId =>
    simp only [statements]
    split
    next info cred known found => exact activate_keeps chosen found
    next missing => exact .none_ chosen

end Operations

theorem chosen_step {registry : Registry} (rows : Table) (request : Request) (rows' : Table)
    (chosen : Chosen rows) (stepped : step registry rows request = some rows') : Chosen rows' := by
  rw [step] at stepped
  split at stepped
  next fresh =>
    rw [← Option.some.inj stepped]
    exact (statements_keep registry chosen fresh).chosen
  next taken => cases stepped

/-- In every run of requests each provider that has credentials has exactly one active one, and no
statement of a request meets the unique index. -/
theorem one_active_credential {registry : Registry} {requests : List Request} {rows : Table}
    (ran : runSteps (step registry) requests [] = some rows) :
    (∀ provider, (byProvider.flagged provider rows).length =
        if rows.any fun row => row.provider = provider then 1 else 0) ∧
      ∀ request, request.fresh rows = true → ∀ table ∈ statements registry rows request,
        OneActive table := by
  have start : Chosen [] := ⟨.nil, fun _ => Nat.zero_le 1, fun _ member => (List.not_mem_nil member).elim⟩
  have chosen := runSteps_induct chosen_step start ran
  refine ⟨fun provider => ?_, fun request fresh => (statements_keep registry chosen fresh).index⟩
  split
  next has =>
    obtain ⟨row, member, own⟩ := List.any_eq_true.mp has
    have some_ := chosen.some_ row member
    rw [of_decide_eq_true own] at some_
    exact le_antisymm (chosen.one provider) (List.length_pos_of_ne_nil some_)
  next hasNot =>
    refine List.length_eq_zero_iff.mpr (List.eq_nil_iff_forall_not_mem.mpr fun id listed => ?_)
    obtain ⟨row, member, own, -⟩ := Flagging.mem_flagged.mp listed
    exact hasNot (List.any_eq_true.mpr ⟨row, member, decide_eq_true own⟩)

/-- Providers with one secret and no groups. -/
private def plainRegistry : Registry := fun _ =>
  some ⟨[.apiKey], [], fun _ member => (List.not_mem_nil member).elim,
    fun _ member => (List.not_mem_nil member).elim⟩

/-- Two credentials, the first of which is deleted while active. -/
private def promotion : List Request :=
  [.create "ark" ⟨"a", some "k", none, none, none⟩ 1 10,
    .create "ark" ⟨"b", some "l", none, none, none⟩ 2 20, .delete "ark" 1]

theorem one_active_credential_promoted : ∃ rows : Table,
    runSteps (step plainRegistry) promotion [] = some rows ∧
      (byProvider.flagged "ark" rows).length = 1 := by
  refine ⟨_, rfl, ?_⟩
  exact (@one_active_credential plainRegistry promotion _ rfl).1 "ark"

end ArcReel.Credentials
