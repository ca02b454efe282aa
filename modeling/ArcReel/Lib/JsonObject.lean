import ArcReel.Lib.Dict
import ArcReel.Lib.Json

/-! The fields of a JSON object, as a program reads and changes them in place. -/

namespace ArcReel.Lib.Json

/-- `key in json`. -/
def has : Json → String → Bool
  | obj fields, key => decide (key ∈ fields.map Prod.fst)
  | _, _ => false

/-- `json[key] = value`. -/
def put : Json → String → Json → Json
  | obj fields, key, value => obj (Dict.setEntries fields key value)
  | json, _, _ => json

/-- `json.pop(key, None)`. -/
def del : Json → String → Json
  | obj fields, key => obj (fields.filter fun field => field.1 ≠ key)
  | json, _ => json

/-- The number that a value is as a key of a dictionary. -/
def keyNumber : Json → Option ℚ
  | bool value => some (if value then 1 else 0)
  | int value => some value
  | float value => value
  | _ => none

/-- Two hashable values are one key. -/
def sameKey (a b : Json) : Bool :=
  match keyNumber a, keyNumber b with
  | some x, some y => x = y
  | none, none =>
    match a, b with
    | str x, str y => x = y
    | null, null => true
    | _, _ => false
  | _, _ => false

/-- `json.get(key, default)`. -/
def getOr (json : Json) (key : String) (default : Json) : Json :=
  if json.has key then json.get key else default

section Fields

variable {json value : Json} {key other : String}

@[simp] theorem isObj_put (json value : Json) (key : String) : (json.put key value).isObj = json.isObj := by
  cases json <;> rfl

@[simp] theorem isObj_del (json : Json) (key : String) : (json.del key).isObj = json.isObj := by
  cases json <;> rfl

theorem lookup_setEntries_self (fields : List (String × Json)) (key : String) (value : Json) :
    (Dict.setEntries fields key value).lookup key = some value := by
  unfold Dict.setEntries
  split_ifs with known
  · induction fields with
    | nil => cases known
    | cons field fields ih =>
      rw [List.map_cons, List.lookup_cons]
      by_cases here : field.1 = key
      · rw [if_pos here, beq_self_eq_true]
      · rw [if_neg here, beq_false_of_ne (Ne.symm here)]
        rw [List.map_cons, List.mem_cons] at known
        cases known with
        | inl same => exact absurd same.symm here
        | inr later => exact ih later
  · induction fields with
    | nil => simp
    | cons field fields ih =>
      rw [List.map_cons, List.mem_cons, not_or] at known
      rw [List.cons_append, List.lookup_cons, beq_false_of_ne known.1]
      exact ih known.2

theorem get_put_self (object : json.isObj = true) : (json.put key value).get key = value := by
  cases json with
  | obj fields =>
    show ((Dict.setEntries fields key value).lookup key).getD null = value
    rw [lookup_setEntries_self, Option.getD_some]
  | _ => cases object

theorem get_put_of_ne (apart : other ≠ key) : (json.put key value).get other = json.get other := by
  cases json with
  | obj fields =>
    show ((Dict.setEntries fields key value).lookup other).getD null = (fields.lookup other).getD null
    rw [Dict.lookup_setEntries_of_ne fields apart]
  | _ => rfl

theorem has_put_of_ne (apart : other ≠ key) : (json.put key value).has other = json.has other := by
  cases json with
  | obj fields =>
    simp only [put, has, Dict.keys_setEntries]
    split_ifs with known
    · rfl
    · simp [apart]
  | _ => rfl

theorem lookup_filter_of_ne (fields : List (String × Json)) (apart : other ≠ key) :
    (fields.filter fun field => field.1 ≠ key).lookup other = fields.lookup other := by
  induction fields with
  | nil => rfl
  | cons field fields ih =>
    by_cases here : field.1 = key
    · rw [List.filter_cons_of_neg (by simpa using here), ih, List.lookup_cons,
        beq_false_of_ne (by rwa [here])]
    · rw [List.filter_cons_of_pos (by simpa using here), List.lookup_cons, List.lookup_cons, ih]

theorem get_del_of_ne (apart : other ≠ key) : (json.del key).get other = json.get other := by
  cases json with
  | obj fields =>
    show ((fields.filter fun field => field.1 ≠ key).lookup other).getD null = _
    rw [lookup_filter_of_ne fields apart]
    rfl
  | _ => rfl

theorem has_del_self (json : Json) (key : String) : (json.del key).has key = false := by
  cases json with
  | obj fields => simp [del, has]
  | _ => rfl

theorem has_del_of_ne (apart : other ≠ key) : (json.del key).has other = json.has other := by
  cases json with
  | obj fields =>
    simp only [del, has, List.mem_map, List.mem_filter, decide_eq_decide]
    constructor
    · rintro ⟨field, ⟨member, -⟩, same⟩
      exact ⟨field, member, same⟩
    · rintro ⟨field, member, same⟩
      exact ⟨field, ⟨member, by simpa [same] using apart⟩, same⟩
  | _ => rfl

theorem get_of_not_has (missing : json.has key = false) : json.get key = null := by
  cases json with
  | obj fields =>
    have absent : fields.lookup key = none := by
      rw [List.lookup_eq_none_iff]
      intro field member
      have apart := of_decide_eq_false missing
      apply bne_iff_ne.mpr
      intro same
      exact apart (List.mem_map.mpr ⟨field, member, same.symm⟩)
    show (fields.lookup key).getD null = null
    rw [absent, Option.getD_none]
  | _ => rfl

theorem get_del_self (json : Json) (key : String) : (json.del key).get key = null :=
  get_of_not_has (has_del_self json key)

theorem isObj_of_has (present : json.has key = true) : json.isObj = true := by
  cases json with
  | obj fields => rfl
  | _ => cases present

end Fields

end ArcReel.Lib.Json
