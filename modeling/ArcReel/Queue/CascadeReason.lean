import ArcReel.Queue.PlainReason
import ArcReel.Queue.Repository

/-! The reason that a failed task leaves with the tasks that wait for it: how it is nested in an
envelope of bounded length, and when the nested text stays structured. -/

namespace ArcReel.Queue.TaskFailure
open ArcReel.Lib

def cascadeCode : String := "cascade_blocked_dependency"

/-- `_MAX_CASCADE_UNWRAP`. -/
def maxCascadeUnwrap : Nat := 100

/-- The loop of `collapse_cascade_reason`, with the layers that it may still unwrap. -/
def unwrapCascade (json : Json.Module) : Nat → List Char → List Char
  | 0, reason => reason
  | layers + 1, reason =>
      match parseFailure json reason with
      | none => reason
      | some (code, params) =>
          if code ≠ cascadeCode then reason
          else
            match params.get? "reason" with
            | some (.str nested) => unwrapCascade json layers nested.toList
            | _ => reason

def collapseCascadeReason (json : Json.Module) (reason : List Char) : List Char :=
  unwrapCascade json (maxCascadeUnwrap + 1) reason

/-- `encode_failure("cascade_blocked_dependency", …)`. -/
def cascadeEnvelope (json : Json.Module) (dependencyTaskId reason : List Char) : List Char :=
  envelope json cascadeCode
    [("dependency_task_id", .str (String.ofList dependencyTaskId)), ("reason", .str (String.ofList reason))]

/-- The rounds of `_encode_bounded_cascade_failure`. -/
def boundRounds (json : Json.Module) (dependencyTaskId : List Char) :
    Nat → List Char → Nat → Option (List Char)
  | 0, reason, _ => some (cascadeEnvelope json dependencyTaskId reason)
  | rounds + 1, reason, budget => do
      let reason ← boundReason json reason budget
      let encoded := cascadeEnvelope json dependencyTaskId reason
      let overflow := encoded.length - maxErrorMessageLen
      if overflow = 0 ∨ budget = 0 then some encoded
      else boundRounds json dependencyTaskId rounds reason (budget - overflow)

def encodeBoundedCascadeFailure (json : Json.Module) (dependencyTaskId reason : List Char) :
    Option (List Char) :=
  let reason := collapseCascadeReason json reason
  let encoded := cascadeEnvelope json dependencyTaskId reason
  if encoded.length ≤ maxErrorMessageLen then some encoded
  else
    let overhead := (cascadeEnvelope json dependencyTaskId []).length
    boundRounds json dependencyTaskId 5 reason (maxErrorMessageLen - overhead)

/-- The `error_message` of a task that waited for a failed one, as `_mark_failed_queued_dep` stores
it. -/
def storedMessage (json : Json.Module) (dependencyTaskId reason : List Char) : Option (List Char) := do
  let blocked ← encodeBoundedCascadeFailure json dependencyTaskId reason
  boundReason json blocked maxErrorMessageLen

/-- The id of a task, `uuid4().hex`: 32 characters that JSON does not escape. -/
structure IsTaskId (id : List Char) : Prop where
  length : id.length = 32
  plain : Json.escaped id = id

section Lengths

variable {json : Json.Module}

theorem cascadeCode_known : cascadeCode ∈ failureCodes := by decide

theorem cascade_sorted (first second : Json) :
    byKey [("dependency_task_id", first), ("reason", second)] =
      [("dependency_task_id", first), ("reason", second)] := by
  apply byKey_of_ordered
  rw [List.pairwise_pair]
  change "dependency_task_id" ≤ "reason"
  decide

theorem length_cascadeEnvelope (id reason : List Char) :
    (cascadeEnvelope json id reason).length =
      69 + (Json.escaped id).length + (Json.escaped reason).length := by
  have nonempty : [("dependency_task_id", Json.str (String.ofList id)),
      ("reason", Json.str (String.ofList reason))].isEmpty = false := rfl
  have code : cascadeCode.toList.length = 26 := by decide
  have first : (Json.escaped "dependency_task_id".toList).length = 18 := by decide
  have second : (Json.escaped "reason".toList).length = 6 := by decide
  unfold cascadeEnvelope envelope
  rw [cascade_sorted, nonempty]
  simp only [Json.dumps_obj, Json.dumps_str, Json.dumpsFields, List.length_cons, List.length_append, List.length_nil,
    Json.length_quote, String.toList_ofList, Bool.false_eq_true, if_false, code, first, second]
  omega

/-- The length of an envelope is the same for all task ids. -/
theorem length_of_taskId {id : List Char} (isId : IsTaskId id) (reason : List Char) :
    (cascadeEnvelope json id reason).length = 101 + (Json.escaped reason).length := by
  rw [length_cascadeEnvelope, isId.plain, isId.length]

theorem length_escaped_le (text : List Char) : (Json.escaped text).length ≤ 6 * text.length := by
  have each : ∀ c, (Json.escape c).length ≤ 6 := by
    intro c
    unfold Json.escape
    repeat' split
    all_goals simp only [List.length_cons, List.length_nil, Nat.reduceAdd, Nat.reduceLeDiff]
  induction text with
  | nil => exact Nat.le_refl 0
  | cons c text ih =>
    have split : Json.escaped (c :: text) = Json.escape c ++ Json.escaped text := List.flatMap_cons
    have first := each c
    rw [split, List.length_append, List.length_cons]
    omega

end Lengths

/-! The nested reason does not depend on the task id. -/

/-- The rounds, as far as they change the nested reason. -/
def nestedRounds (json : Json.Module) : Nat → List Char → Nat → Option (List Char)
  | 0, reason, _ => some reason
  | rounds + 1, reason, budget => do
      let reason ← boundReason json reason budget
      let overflow := 101 + (Json.escaped reason).length - maxErrorMessageLen
      if overflow = 0 ∨ budget = 0 then some reason
      else nestedRounds json rounds reason (budget - overflow)

/-- The loop of the last cut, as far as it changes the nested reason. -/
def cutText : Nat → List Char → List Char
  | 0, reason => reason
  | fuel + 1, reason =>
      let encoded := 101 + (Json.escaped reason).length
      if encoded ≤ maxErrorMessageLen then reason
      else cutText fuel (reason.take (reason.length -
        dropCount (encoded - maxErrorMessageLen) reason.length))

/-- The reason that is nested in the stored messages. -/
def nestedReason (json : Json.Module) (root : List Char) : Option (List Char) :=
  let reason := collapseCascadeReason json root
  (if 101 + (Json.escaped reason).length ≤ maxErrorMessageLen then some reason
    else nestedRounds json 5 reason 1899).map fun reason => cutText (reason.length + 33) reason

section Nested

variable {json : Json.Module} {id : List Char} (isId : IsTaskId id)

include isId

theorem boundRounds_eq (rounds : Nat) (reason : List Char) (budget : Nat) :
    boundRounds json id rounds reason budget =
      (nestedRounds json rounds reason budget).map (cascadeEnvelope json id) := by
  induction rounds generalizing reason budget with
  | zero => rfl
  | succ rounds ih =>
    unfold boundRounds nestedRounds
    cases boundReason json reason budget with
    | none => rfl
    | some shorter =>
      simp only [Option.bind_eq_bind, Option.bind_some, length_of_taskId isId]
      split_ifs with stops
      · rfl
      · exact ih _ _

theorem longest_cascade {reason : String} (long : 32 < reason.length) :
    longest [("dependency_task_id", .str (String.ofList id)), ("reason", .str reason)] =
      some ("reason", reason) := by
  have params : stringParams [("dependency_task_id", .str (String.ofList id)), ("reason", .str reason)] =
      [("dependency_task_id", String.ofList id), ("reason", reason)] := rfl
  have shorter : id.length < reason.length := isId.length ▸ long
  rw [longest, params, List.argmax_cons, List.argmax_singleton]
  simp [shorter]

theorem shrink_cascade {whole : List Char} (fuel : Nat) (reason : List Char)
    (enough : reason.length < fuel) :
    shrink json cascadeCode whole maxErrorMessageLen fuel
        [("dependency_task_id", .str (String.ofList id)), ("reason", .str (String.ofList reason))] =
      some (cascadeEnvelope json id (cutText fuel reason)) := by
  induction fuel generalizing reason with
  | zero => exact absurd enough (Nat.not_lt_zero _)
  | succ fuel ih =>
    have encoded : envelope json cascadeCode [("dependency_task_id", .str (String.ofList id)),
        ("reason", .str (String.ofList reason))] = cascadeEnvelope json id reason := rfl
    unfold shrink cutText
    simp only [encoded, length_of_taskId isId]
    by_cases fits : 101 + (Json.escaped reason).length ≤ maxErrorMessageLen
    · rw [if_pos fits, if_pos fits]
    · have six := length_escaped_le reason
      have bound : maxErrorMessageLen = 2000 := rfl
      have long : 32 < (String.ofList reason).length := by
        rw [String.length_ofList]
        omega
      have open_ : ¬(String.ofList reason).isEmpty = true := by
        intro empty
        rw [String.isEmpty_iff.mp empty] at long
        cases long
      rw [if_neg fits, if_neg fits]
      simp only [longest_cascade isId long, if_neg open_, String.length_ofList, String.toList_ofList]
      have set_ : ∀ value : Json, Dict.setEntries [("dependency_task_id", .str (String.ofList id)),
          ("reason", .str (String.ofList reason))] "reason" value =
            [("dependency_task_id", .str (String.ofList id)), ("reason", value)] := fun value => rfl
      have drops : 0 < dropCount (101 + (Json.escaped reason).length - maxErrorMessageLen)
          reason.length ∧ _ := dropCount_pos (by omega) (by omega)
      rw [set_, ih]
      rw [List.length_take]
      omega

/-- The last cut leaves the task id whole. -/
theorem boundReason_cascade (reason : List Char) :
    boundReason json (cascadeEnvelope json id reason) maxErrorMessageLen =
      some (cascadeEnvelope json id (cutText (reason.length + 33) reason)) := by
  by_cases fits : 101 + (Json.escaped reason).length ≤ maxErrorMessageLen
  · have same : cutText (reason.length + 33) reason = reason := if_pos fits
    rw [same, boundReason, length_of_taskId isId, if_pos fits]
  · have distinct : (List.map Prod.fst [("dependency_task_id", Json.str (String.ofList id)),
        ("reason", Json.str (String.ofList reason))]).Nodup := by
      change ["dependency_task_id", "reason"].Nodup
      decide
    have parses : ∃ dict : Dict String Json, parseFailure json (cascadeEnvelope json id reason) =
        some (cascadeCode, dict) ∧ dict.entries = _ :=
      parseFailure_envelope cascadeCode_known (List.cons_ne_nil _ _) distinct
        (by simp [Json.isScalar])
    obtain ⟨dict, parsed, entries⟩ := parses
    rw [cascade_sorted] at entries
    have long : maxErrorMessageLen < (cascadeEnvelope json id reason).length := by
      rw [length_of_taskId isId]
      omega
    have texts : ∃ key, (key, .str "") ∈ skeleton dict.entries := by
      rw [entries]
      exact ⟨"reason", List.mem_cons_of_mem _ List.mem_cons_self⟩
    have total : stringTotal (shrinkables json dict.entries) + 1 = reason.length + 33 := by
      rw [entries]
      change (String.ofList id).length + ((String.ofList reason).length + 0) + 1 = _
      rw [String.length_ofList, String.length_ofList, isId.length]
      omega
    rw [(boundReason_eq json long parsed texts).2, total, entries]
    exact shrink_cascade isId _ _ (by omega)

/-- What is stored is an envelope of the task id and of a reason that does not depend on it. -/
theorem storedMessage_eq (root : List Char) :
    storedMessage json id root = (nestedReason json root).map (cascadeEnvelope json id) := by
  have overhead : maxErrorMessageLen - (101 + (Json.escaped []).length) = 1899 := rfl
  unfold storedMessage encodeBoundedCascadeFailure nestedReason
  simp only [length_of_taskId isId, boundRounds_eq isId, overhead]
  split_ifs with fits
  · exact boundReason_cascade isId _
  · cases nestedRounds json 5 (collapseCascadeReason json root) 1899 with
    | none => rfl
    | some reason => exact boundReason_cascade isId reason

end Nested

theorem nestedRounds_isSome (json : Json.Module) (rounds : Nat) (reason : List Char) (budget : Nat) :
    ∃ nested, nestedRounds json rounds reason budget = some nested := by
  induction rounds generalizing reason budget with
  | zero => exact ⟨reason, rfl⟩
  | succ rounds ih =>
    obtain ⟨shorter, cut, -⟩ := boundReason_short json reason budget
    unfold nestedRounds
    simp only [cut, Option.bind_eq_bind, Option.bind_some]
    split_ifs
    · exact ⟨shorter, rfl⟩
    · exact ih _ _

theorem nestedReason_isSome (json : Json.Module) (root : List Char) :
    ∃ nested, nestedReason json root = some nested := by
  unfold nestedReason
  by_cases fits : 101 + (Json.escaped (collapseCascadeReason json root)).length ≤ maxErrorMessageLen
  · simp only [if_pos fits]
    exact ⟨_, rfl⟩
  · simp only [if_neg fits]
    obtain ⟨reason, ends⟩ := nestedRounds_isSome json 5 (collapseCascadeReason json root) 1899
    exact ⟨_, by rw [ends]; rfl⟩

/-! The rounds on a plain reason. -/

section PlainRounds

variable {json : Json.Module} {code : String} {params left : List (String × Json)}

/-- What an envelope costs more when it is nested: the same for all texts that are left. -/
def nestingCost (json : Json.Module) (code : String) (params : List (String × Json)) : Nat :=
  (Json.escaped (envelope json code (skeleton params))).length -
    (envelope json code (skeleton params)).length

theorem nestingCost_cuts (cuts : Cuts params left) :
    nestingCost json code left = nestingCost json code params := by
  rw [nestingCost, nestingCost, skeleton_cuts cuts]

theorem length_escaped_envelope (json : Json.Module) (code : String) (plain : PlainParams params) :
    (Json.escaped (envelope json code params)).length =
      (envelope json code params).length + nestingCost json code params := by
  have nested : (Json.escaped (envelope json code params)).length =
      (Json.escaped (envelope json code (skeleton params))).length + stringTotal params :=
    measure_envelope measure_escaped plain
  have single := length_envelope json code plain
  have costs := Json.length_escaped (envelope json code (skeleton params))
  unfold nestingCost
  omega

/-- The rounds end with a reason that fits when it is nested. -/
def Settles (json : Json.Module) (code : String) (rounds : Nat) (params : List (String × Json))
    (budget : Nat) : Prop :=
  ∃ left, nestedRounds json rounds (envelope json code params) budget = some (envelope json code left) ∧
    Cuts params left ∧ (Json.escaped (envelope json code left)).length ≤ 1899

theorem settles_of_fits (known : code ∈ failureCodes) (plain : PlainParams params) {rounds budget : Nat}
    (room : (envelope json code (skeleton params)).length ≤ budget)
    (fits : min (envelope json code params).length budget + nestingCost json code params ≤ 1899) :
    Settles json code (rounds + 1) params budget := by
  obtain ⟨left, cut, cuts, length⟩ := boundReason_plain known plain room
  have nested := length_escaped_envelope json code (plain_cuts cuts plain)
  rw [nestingCost_cuts cuts, length] at nested
  refine ⟨left, ?_, cuts, by omega⟩
  have stops : 101 + (Json.escaped (envelope json code left)).length - maxErrorMessageLen = 0 := by
    have bound : maxErrorMessageLen = 2000 := rfl
    omega
  unfold nestedRounds
  simp only [cut, Option.bind_eq_bind, Option.bind_some, stops, true_or, if_true]

theorem settles_of_later (known : code ∈ failureCodes) (plain : PlainParams params) {rounds budget : Nat}
    (room : (envelope json code (skeleton params)).length ≤ budget)
    (beyond : 1899 < min (envelope json code params).length budget + nestingCost json code params)
    (later : ∀ left, Cuts params left →
      (envelope json code left).length = min (envelope json code params).length budget →
      Settles json code rounds left
        (budget - (min (envelope json code params).length budget + nestingCost json code params - 1899))) :
    Settles json code (rounds + 1) params budget := by
  obtain ⟨left, cut, cuts, length⟩ := boundReason_plain known plain room
  have nested := length_escaped_envelope json code (plain_cuts cuts plain)
  rw [nestingCost_cuts cuts, length] at nested
  obtain ⟨final, ends, cuts', fits⟩ := later left cuts length
  refine ⟨final, ?_, cuts_trans cuts cuts', fits⟩
  have bound : maxErrorMessageLen = 2000 := rfl
  have overflow : 101 + (Json.escaped (envelope json code left)).length - maxErrorMessageLen =
      min (envelope json code params).length budget + nestingCost json code params - 1899 := by
    omega
  have open_ : 0 < (envelope json code (skeleton params)).length := List.length_pos_iff.mpr (List.cons_ne_nil _ _)
  have goes : ¬(min (envelope json code params).length budget + nestingCost json code params - 1899 = 0 ∨
      budget = 0) := by
    omega
  unfold nestedRounds
  simp only [cut, Option.bind_eq_bind, Option.bind_some, overflow, if_neg goes]
  exact ends

/-- A reason above the budget is cut to it, and once more by what the nesting costs. -/
theorem settles_cut (known : code ∈ failureCodes) (plain : PlainParams params) {rounds budget : Nat}
    (room : (Json.escaped (envelope json code (skeleton params))).length ≤ 1899)
    (long : budget < (envelope json code params).length)
    (beyond : 1899 < budget + nestingCost json code params) (within : budget ≤ 1899) :
    Settles json code (rounds + 2) params budget := by
  have costs := Json.length_escaped (envelope json code (skeleton params))
  have cost : nestingCost json code params = (Json.escaped (envelope json code (skeleton params))).length -
    (envelope json code (skeleton params)).length := rfl
  apply settles_of_later known plain (by omega) (by omega)
  intro left cuts length
  have same : nestingCost json code left = nestingCost json code params := nestingCost_cuts cuts
  have blank := skeleton_cuts cuts
  apply settles_of_fits known (plain_cuts cuts plain)
  · rw [blank]
    omega
  · rw [same]
    omega

/-- A reason within the budget stays as it is until the budget has fallen below it. -/
theorem settles_steps (known : code ∈ failureCodes) (rounds : Nat) {params : List (String × Json)}
    (plain : PlainParams params) {budget : Nat}
    (room : (Json.escaped (envelope json code (skeleton params))).length ≤ 1899)
    (short : (envelope json code params).length ≤ budget) (within : budget ≤ 1899)
    (beyond : 1899 < (envelope json code params).length + nestingCost json code params)
    (enough : budget + nestingCost json code params ≤ 1899 +
      rounds * ((envelope json code params).length + nestingCost json code params - 1899)) :
    Settles json code (rounds + 1) params budget := by
  induction rounds generalizing params budget with
  | zero => omega
  | succ rounds ih =>
    have costs := Json.length_escaped (envelope json code (skeleton params))
    have cost : nestingCost json code params =
      (Json.escaped (envelope json code (skeleton params))).length -
        (envelope json code (skeleton params)).length := rfl
    have total := length_envelope json code plain
    have more : (rounds + 1) * ((envelope json code params).length + nestingCost json code params - 1899) =
        rounds * ((envelope json code params).length + nestingCost json code params - 1899) +
          ((envelope json code params).length + nestingCost json code params - 1899) :=
      Nat.succ_mul _ _
    apply settles_of_later known plain (by omega) (by omega)
    intro left cuts length
    rw [Nat.min_eq_left short] at length ⊢
    have plain' := plain_cuts cuts plain
    have same : nestingCost json code left = nestingCost json code params := nestingCost_cuts cuts
    have blank := skeleton_cuts cuts
    by_cases again : (envelope json code left).length ≤ budget -
        ((envelope json code params).length + nestingCost json code params - 1899)
    · apply ih plain' (by rw [blank]; exact room) again (by omega) (by rw [same]; omega)
      rw [same, length]
      omega
    · by_cases fits : budget - ((envelope json code params).length + nestingCost json code params - 1899) +
          nestingCost json code params ≤ 1899
      · apply settles_of_fits known plain'
        · rw [blank]
          omega
        · rw [same]
          omega
      · cases rounds with
        | zero => omega
        | succ rounds =>
          apply settles_cut known plain' (by rw [blank]; exact room) (by omega)
          · rw [same]
            omega
          · omega

/-- A plain root whose envelope does not exceed the stored length, or exceeds it by enough for the
rounds to notice. -/
structure Eases (json : Json.Module) (code : String) (params : List (String × Json)) : Prop where
  room : (Json.escaped (envelope json code (skeleton params))).length ≤ 1899
  eases : (Json.escaped (envelope json code params)).length ≤ 1899 ∨
    1899 < (envelope json code params).length ∨
    nestingCost json code params ≤ 4 * ((Json.escaped (envelope json code params)).length - 1899)

theorem nestedReason_of_fits {root : List Char}
    (fits : 101 + (Json.escaped (collapseCascadeReason json root)).length ≤ maxErrorMessageLen) :
    nestedReason json root = some (collapseCascadeReason json root) := by
  have same : cutText ((collapseCascadeReason json root).length + 33) (collapseCascadeReason json root) =
      collapseCascadeReason json root := if_pos fits
  simp only [nestedReason, if_pos fits, Option.map_some, same]

/-- The nested reason of a plain root is the root with its texts cut. -/
theorem nestedReason_plain {root : List Char}
    (collapsed : collapseCascadeReason json root = envelope json code params)
    (known : code ∈ failureCodes) (plain : PlainParams params) (eases : Eases json code params) :
    ∃ left, nestedReason json root = some (envelope json code left) ∧ Cuts params left := by
  have bound : maxErrorMessageLen = 2000 := rfl
  by_cases fits : (Json.escaped (envelope json code params)).length ≤ 1899
  · refine ⟨params, ?_, cuts_refl⟩
    rw [← collapsed]
    apply nestedReason_of_fits
    rw [collapsed]
    omega
  · have nested := length_escaped_envelope json code plain
    have settles : Settles json code 5 params 1899 := by
      by_cases long : 1899 < (envelope json code params).length
      · by_cases free : nestingCost json code params = 0
        · have room := eases.room
          have costs := Json.length_escaped (envelope json code (skeleton params))
          exact settles_of_fits known plain (by omega) (by omega)
        · exact settles_cut known plain eases.room long (by omega) (Nat.le_refl _)
      · apply settles_steps known 4 plain eases.room (by omega) (Nat.le_refl _) (by omega)
        rcases eases.eases with small | large | enough
        · omega
        · omega
        · rw [nested] at enough
          omega
    obtain ⟨left, ends, cuts, small⟩ := settles
    refine ⟨left, ?_, cuts⟩
    have same : cutText ((envelope json code left).length + 33) (envelope json code left) =
        envelope json code left := if_pos (by omega)
    have more : ¬101 + (Json.escaped (envelope json code params)).length ≤ maxErrorMessageLen := by
      omega
    simp only [nestedReason, collapsed, if_neg more, ends, Option.map_some, same]

end PlainRounds

end ArcReel.Queue.TaskFailure
