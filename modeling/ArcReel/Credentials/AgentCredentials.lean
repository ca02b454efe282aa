import ArcReel.Lib.Exclusive
import ArcReel.Lib.Run

/-! The credentials of the agent: `AgentCredentialRepository` and the requests of the router that
create, change, delete and activate them. -/

namespace ArcReel.Credentials.Agent
open Lib

structure AgentAnthropicCredential where
  id : Nat
  userId : String
  presetId : String
  displayName : String
  baseUrl : String
  apiKey : String
  model : Option String
  haikuModel : Option String
  sonnetModel : Option String
  opusModel : Option String
  subagentModel : Option String
  isActive : Bool
  deriving DecidableEq, Repr

abbrev Table := List AgentAnthropicCredential

def byUser : Flagging AgentAnthropicCredential String where
  id := AgentAnthropicCredential.id
  group := AgentAnthropicCredential.userId
  flag := AgentAnthropicCredential.isActive
  setFlag isActive row := { row with isActive }
  id_set _ _ := rfl
  group_set _ _ := rfl
  flag_set _ _ := rfl

def defaultUserId : String := "default"

def customSentinelId : String := "__custom__"

/-- What a request takes from a preset provider. -/
structure PresetProvider where
  messagesUrl : String
  displayName : String
  defaultModel : String

structure CreateCredentialRequest where
  presetId : String
  displayName : Option String
  baseUrl : Option String
  apiKey : String
  model : Option String
  haikuModel : Option String
  sonnetModel : Option String
  opusModel : Option String
  subagentModel : Option String
  activate : Option Bool

/-- `UpdateCredentialRequest`; a field that is not in the body is `none`. -/
structure UpdateCredentialRequest where
  displayName : Option (Option String)
  baseUrl : Option (Option String)
  apiKey : Option (Option String)
  model : Option (Option String)
  haikuModel : Option (Option String)
  sonnetModel : Option (Option String)
  opusModel : Option (Option String)
  subagentModel : Option (Option String)

/-- `value or fallback`. -/
def orElse (value : Option String) (fallback : String) : String :=
  match value with
  | some text => if text = "" then fallback else text
  | none => fallback

/-- The new row, or none if the preset is unknown or the address is missing. -/
def newCredential (getPreset : String → Option PresetProvider) (id : Nat)
    (body : CreateCredentialRequest) : Option AgentAnthropicCredential :=
  let row (baseUrl displayName : String) (model : Option String) : AgentAnthropicCredential :=
    { id
      userId := defaultUserId
      presetId := body.presetId
      displayName
      baseUrl
      apiKey := body.apiKey
      model
      haikuModel := body.haikuModel
      sonnetModel := body.sonnetModel
      opusModel := body.opusModel
      subagentModel := body.subagentModel
      isActive := false }
  if body.presetId ≠ customSentinelId then
    (getPreset body.presetId).map fun preset =>
      row (orElse body.baseUrl preset.messagesUrl) (orElse body.displayName preset.displayName)
        (some (orElse body.model preset.defaultModel))
  else if orElse body.baseUrl "" = "" then none
  else some (row (orElse body.baseUrl "") (orElse body.displayName "Custom") body.model)

/-- The row after `repo.update`; the required fields are not set to nothing. -/
def UpdateCredentialRequest.apply (body : UpdateCredentialRequest)
    (row : AgentAnthropicCredential) : AgentAnthropicCredential :=
  { row with
    displayName := body.displayName.join.getD row.displayName
    baseUrl := body.baseUrl.join.getD row.baseUrl
    apiKey := body.apiKey.join.getD row.apiKey
    model := body.model.getD row.model
    haikuModel := body.haikuModel.getD row.haikuModel
    sonnetModel := body.sonnetModel.getD row.sonnetModel
    opusModel := body.opusModel.getD row.opusModel
    subagentModel := body.subagentModel.getD row.subagentModel }

section Repository

variable (rows : Table)

def get (credId : Nat) : Option AgentAnthropicCredential := rows.find? fun row => row.id = credId

def getActive (userId : String) : Option AgentAnthropicCredential :=
  rows.find? fun row => row.userId = userId && row.isActive

/-- The table after each statement of `set_active`; a foreign credential is refused. -/
def setActive (credId : Nat) (userId : String) : List Table :=
  match (get rows credId).filter fun cred => cred.userId = userId with
  | none => []
  | some cred =>
      let cleared := byUser.clear userId rows
      [cleared, byUser.raise cred.id cleared]

/-- The active credential is not deleted. -/
def delete (credId : Nat) : List Table :=
  match get rows credId with
  | none => []
  | some cred => if cred.isActive then [] else [byUser.remove credId rows]

end Repository

inductive Request where
  | create (body : CreateCredentialRequest) (id : Nat)
  | update (credId : Nat) (body : UpdateCredentialRequest)
  | delete (credId : Nat)
  | activate (credId : Nat)

section Router

variable (getPreset : String → Option PresetProvider) (rows : Table)

/-- The table after each statement that the request makes. -/
def statements : Request → List Table
  | .create body id =>
      match newCredential getPreset id body with
      | none => []
      | some row =>
          let added := rows ++ [row]
          let shouldActivate := body.activate.getD (getActive added defaultUserId).isNone
          added :: if shouldActivate then setActive added id defaultUserId else []
  | .update credId body => [rows.map fun row => if row.id = credId then body.apply row else row]
  | .delete credId => delete rows credId
  | .activate credId => setActive rows credId defaultUserId

/-- The database gives every new row a key of its own. -/
def Request.fresh (rows : Table) : Request → Bool
  | .create _ id => decide (id ∉ byUser.ids rows)
  | _ => true

def step (rows : Table) (request : Request) : Option Table :=
  if request.fresh rows then some ((statements getPreset rows request).getLastD rows) else none

end Router

/-- The unique index `uq_agent_credential_one_active_per_user`. -/
def OneActive (rows : Table) : Prop := ∀ userId, (byUser.flagged userId rows).length ≤ 1

/-- The statements keep the index and the keys, and a user who has an active credential has one
after them. -/
structure Keeps (rows : Table) (tables : List Table) : Prop where
  index : ∀ table ∈ tables, OneActive table
  distinct : (byUser.ids (tables.getLastD rows)).Nodup
  one : OneActive (tables.getLastD rows)
  active : ∀ userId, byUser.flagged userId rows ≠ [] →
    byUser.flagged userId (tables.getLastD rows) ≠ []

section Statements

variable {rows : Table}

theorem get_some {credId : Nat} {cred : AgentAnthropicCredential}
    (found : get rows credId = some cred) : cred ∈ rows ∧ cred.id = credId :=
  ⟨List.mem_of_find?_eq_some found, by simpa using List.find?_some found⟩

theorem Keeps.none_ (distinct : (byUser.ids rows).Nodup) (one : OneActive rows) : Keeps rows [] where
  index _ member := (List.not_mem_nil member).elim
  distinct := distinct
  one := one
  active _ some_ := some_

theorem setActive_keeps (distinct : (byUser.ids rows).Nodup) (one : OneActive rows) (credId : Nat)
    (userId : String) : Keeps rows (setActive rows credId userId) := by
  unfold setActive
  split
  next refused => exact .none_ distinct one
  next cred found =>
    obtain ⟨listed, own⟩ := Option.filter_eq_some_iff.mp found
    obtain ⟨member, -⟩ := get_some listed
    have mine : cred.userId = userId := of_decide_eq_true own
    have cleared : OneActive (byUser.clear userId rows) := by
      intro other
      rw [Flagging.flagged_clear]
      split
      next => exact Nat.zero_le 1
      next => exact one other
    have distinct' : (byUser.ids (byUser.clear userId rows)).Nodup := by
      rw [Flagging.ids_clear]
      exact distinct
    have there : { cred with isActive := false } ∈ byUser.clear userId rows :=
      List.mem_map.mpr ⟨cred, member, if_pos mine⟩
    have raised : ∀ other, byUser.flagged other
        (byUser.raise cred.id (byUser.clear userId rows)) =
          if other = userId then [cred.id] else byUser.flagged other rows := by
      intro other
      by_cases same : other = userId
      · have free : byUser.flagged other (byUser.clear userId rows) = [] := by
          rw [Flagging.flagged_clear, if_pos same]
        have set := Flagging.flagged_raise distinct' there (mine.trans same.symm) free
        rw [if_pos same]
        exact set
      · have kept := @Flagging.flagged_raise_other _ _ byUser _ other _ _ distinct' there
          fun else_ => same (else_.symm.trans mine)
        rw [if_neg same]
        exact kept.trans ((Flagging.flagged_clear userId other rows).trans (if_neg same))
    have one' : OneActive (byUser.raise cred.id (byUser.clear userId rows)) := by
      intro other
      rw [raised]
      split
      next => exact le_rfl
      next => exact one other
    refine ⟨fun table among => ?_, ?_, one', fun other some_ => ?_⟩
    · cases List.mem_cons.mp among with
      | inl first => exact first ▸ cleared
      | inr second => exact List.mem_singleton.mp second ▸ one'
    · change (byUser.ids (byUser.raise cred.id _)).Nodup
      rw [Flagging.ids_raise]
      exact distinct'
    · change byUser.flagged other (byUser.raise cred.id _) ≠ []
      rw [raised]
      split
      next => exact List.cons_ne_nil _ _
      next => exact some_

theorem delete_keeps (distinct : (byUser.ids rows).Nodup) (one : OneActive rows) (credId : Nat) :
    Keeps rows (delete rows credId) := by
  unfold delete
  split
  next absent => exact .none_ distinct one
  next cred found =>
    split
    next active => exact .none_ distinct one
    next inactive =>
      obtain ⟨member, same⟩ := get_some found
      have remaining : OneActive (byUser.remove credId rows) := fun userId => by
        rw [Flagging.flagged_remove]
        exact (List.length_filter_le _ _).trans (one userId)
      refine ⟨fun table among => List.mem_singleton.mp among ▸ remaining, ?_, remaining, ?_⟩
      · change (byUser.ids (byUser.remove credId rows)).Nodup
        rw [Flagging.ids_remove]
        exact distinct.filter _
      · intro userId some_
        obtain ⟨id, listed⟩ := List.exists_mem_of_ne_nil _ some_
        obtain ⟨row, there, own, flag, rfl⟩ := Flagging.mem_flagged.mp listed
        have other : row.id ≠ credId := by
          intro equal
          have self : row = cred :=
            List.inj_on_of_nodup_map distinct there member (equal.trans same.symm)
          exact inactive (self ▸ flag)
        refine List.ne_nil_of_mem (a := row.id) ?_
        exact Flagging.mem_flagged.mpr
          ⟨row, List.mem_filter.mpr ⟨there, decide_eq_true other⟩, own, flag, rfl⟩

theorem update_keeps (distinct : (byUser.ids rows).Nodup) (one : OneActive rows) (credId : Nat)
    (body : UpdateCredentialRequest) :
    Keeps rows [rows.map fun row => if row.id = credId then body.apply row else row] := by
  have keeps : byUser.Keeps fun row => if row.id = credId then body.apply row else row := by
    intro row
    dsimp only
    split
    next => exact ⟨rfl, rfl, rfl⟩
    next => exact ⟨rfl, rfl, rfl⟩
  have flags := fun userId => Flagging.flagged_keeps keeps userId rows
  have one' : OneActive (rows.map fun row => if row.id = credId then body.apply row else row) :=
    fun userId => (flags userId).symm ▸ one userId
  refine ⟨fun table among => List.mem_singleton.mp among ▸ one', ?_, one', ?_⟩
  · change (byUser.ids (rows.map _)).Nodup
    rw [Flagging.ids_map fun row => (keeps row).1]
    exact distinct
  · exact fun userId some_ => (flags userId).symm ▸ some_

theorem create_keeps (getPreset : String → Option PresetProvider)
    (distinct : (byUser.ids rows).Nodup) (one : OneActive rows) (body : CreateCredentialRequest)
    {id : Nat} (new : id ∉ byUser.ids rows) :
    Keeps rows (statements getPreset rows (.create body id)) := by
  simp only [statements]
  split
  next refused => exact .none_ distinct one
  next row made =>
    have fresh : row.id = id ∧ row.isActive = false := by
      unfold newCredential at made
      dsimp only at made
      split at made
      next =>
        obtain ⟨preset, -, rfl⟩ := Option.map_eq_some_iff.mp made
        exact ⟨rfl, rfl⟩
      next =>
        split at made
        next => cases made
        next =>
          rw [← Option.some.inj made]
          exact ⟨rfl, rfl⟩
    have flags : ∀ userId, byUser.flagged userId (rows ++ [row]) = byUser.flagged userId rows := by
      intro userId
      have off : (byUser.group row = userId && byUser.flag row) = false := by
        rw [show byUser.flag row = false from fresh.2, Bool.and_false]
      rw [Flagging.flagged_append, off]
      exact List.append_nil _
    have added : OneActive (rows ++ [row]) := fun userId => (flags userId).symm ▸ one userId
    have distinct' : (byUser.ids (rows ++ [row])).Nodup := by
      rw [Flagging.ids, List.map_append]
      refine List.nodup_append.mpr ⟨distinct, List.nodup_singleton _, fun old member other only same => ?_⟩
      rw [same, List.mem_singleton.mp only] at member
      exact new (fresh.1 ▸ member)
    split
    next activates =>
      have set := setActive_keeps distinct' added id defaultUserId
      refine ⟨fun table among => ?_, ?_, ?_, ?_⟩
      · cases List.mem_cons.mp among with
        | inl first => exact first ▸ added
        | inr later => exact set.index table later
      · rw [List.getLastD_cons]
        exact set.distinct
      · rw [List.getLastD_cons]
        exact set.one
      · intro userId some_
        rw [List.getLastD_cons]
        exact set.active userId ((flags userId).symm ▸ some_)
    next leaves =>
      refine ⟨fun table among => List.mem_singleton.mp among ▸ added, distinct', added, ?_⟩
      exact fun userId some_ => (flags userId).symm ▸ some_

theorem statements_keep (getPreset : String → Option PresetProvider)
    (distinct : (byUser.ids rows).Nodup) (one : OneActive rows) {request : Request}
    (fresh : request.fresh rows = true) : Keeps rows (statements getPreset rows request) := by
  cases request with
  | create body id => exact create_keeps getPreset distinct one body (of_decide_eq_true fresh)
  | update credId body => exact update_keeps distinct one credId body
  | delete credId => exact delete_keeps distinct one credId
  | activate credId => exact setActive_keeps distinct one credId defaultUserId

end Statements

theorem step_keeps {getPreset : String → Option PresetProvider} {rows rows' : Table}
    {request : Request} (distinct : (byUser.ids rows).Nodup) (one : OneActive rows)
    (stepped : step getPreset rows request = some rows') :
    (byUser.ids rows').Nodup ∧ OneActive rows' ∧
      ∀ userId, byUser.flagged userId rows ≠ [] → byUser.flagged userId rows' ≠ [] := by
  rw [step] at stepped
  split at stepped
  next fresh =>
    rw [← Option.some.inj stepped]
    have keeps := statements_keep getPreset distinct one fresh
    exact ⟨keeps.distinct, keeps.one, keeps.active⟩
  next taken => cases stepped

/-- In every run of requests a user has at most one active credential, also between the statements
of a request, and once there is one there always is exactly one. -/
theorem active_credential_stays {getPreset : String → Option PresetProvider}
    {before after : List Request} {rows rows' : Table}
    (ran : runSteps (step getPreset) before [] = some rows)
    (rest : runSteps (step getPreset) after rows = some rows') :
    (∀ request, request.fresh rows = true → ∀ table ∈ statements getPreset rows request,
        OneActive table) ∧
      ∀ userId, byUser.flagged userId rows ≠ [] → (byUser.flagged userId rows').length = 1 := by
  have start : (byUser.ids []).Nodup ∧ OneActive [] := ⟨.nil, fun _ => Nat.zero_le 1⟩
  have valid : ∀ (rows : Table) request rows', (byUser.ids rows).Nodup ∧ OneActive rows →
      step getPreset rows request = some rows' → (byUser.ids rows').Nodup ∧ OneActive rows' :=
    fun rows request rows' inv stepped =>
      have keeps := step_keeps inv.1 inv.2 stepped
      ⟨keeps.1, keeps.2.1⟩
  have reached := runSteps_induct valid start ran
  refine ⟨fun request fresh => (statements_keep getPreset reached.1 reached.2 fresh).index,
    fun userId some_ => ?_⟩
  have holds : ∀ (rows : Table) request rows',
      ((byUser.ids rows).Nodup ∧ OneActive rows) ∧ byUser.flagged userId rows ≠ [] →
      step getPreset rows request = some rows' →
      ((byUser.ids rows').Nodup ∧ OneActive rows') ∧ byUser.flagged userId rows' ≠ [] :=
    fun rows request rows' inv stepped =>
      ⟨valid rows request rows' inv.1 stepped,
        (step_keeps inv.1.1 inv.1.2 stepped).2.2 userId inv.2⟩
  have later := runSteps_induct holds ⟨reached, some_⟩ rest
  exact le_antisymm (later.1.2 userId) (List.length_pos_of_ne_nil later.2)

/-- The first credential becomes active by itself, and is not deleted. -/
private def firstCredential : List Request :=
  [.create ⟨"__custom__", none, some "https://a", "k", none, none, none, none, none, none⟩ 1]

private def afterFirst : List Request :=
  [.delete 1, .create ⟨"__custom__", none, some "https://b", "l", none, none, none, none, none,
    some true⟩ 2, .delete 1]

theorem active_credential_stays_switched : ∃ rows rows' : Table,
    runSteps (step fun _ => none) firstCredential [] = some rows ∧
      runSteps (step fun _ => none) afterFirst rows = some rows' ∧
      (byUser.flagged "default" rows').length = 1 := by
  refine ⟨_, _, rfl, rfl, ?_⟩
  exact (@active_credential_stays (fun _ => none) firstCredential afterFirst _ _ rfl rfl).2 "default"
    (by decide)

end ArcReel.Credentials.Agent
