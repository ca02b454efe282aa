import Mathlib.Data.List.Nodup
import Mathlib.Tactic

/-! Dictionaries that keep the order in which their keys were first set. -/

namespace ArcReel.Lib

/-- Entries in insertion order, with distinct keys. -/
structure Dict (κ ν : Type) where
  entries : List (κ × ν)
  distinct : (entries.map Prod.fst).Nodup
  deriving DecidableEq, Repr

namespace Dict

variable {κ ν μ : Type}

def empty : Dict κ ν := ⟨[], .nil⟩

def keys (dict : Dict κ ν) : List κ := dict.entries.map Prod.fst

def values (dict : Dict κ ν) : List ν := dict.entries.map Prod.snd

def size (dict : Dict κ ν) : Nat := dict.entries.length

/-- The entries that `keep` accepts. -/
def filter (keep : κ → ν → Bool) (dict : Dict κ ν) : Dict κ ν where
  entries := dict.entries.filter fun entry => keep entry.1 entry.2
  distinct := (List.filter_sublist.map Prod.fst).nodup dict.distinct

def mapValues (f : κ → ν → μ) (dict : Dict κ ν) : Dict κ μ where
  entries := dict.entries.map fun entry => (entry.1, f entry.1 entry.2)
  distinct := by
    rw [List.map_map]
    exact dict.distinct

/-- Without the first entries. -/
def drop (dict : Dict κ ν) (count : Nat) : Dict κ ν where
  entries := dict.entries.drop count
  distinct := ((List.drop_sublist count dict.entries).map Prod.fst).nodup dict.distinct

@[simp] theorem keys_empty : (empty : Dict κ ν).keys = [] := rfl

@[simp] theorem size_empty : (empty : Dict κ ν).size = 0 := rfl

theorem keys_nodup (dict : Dict κ ν) : dict.keys.Nodup := dict.distinct

@[simp] theorem length_keys (dict : Dict κ ν) : dict.keys.length = dict.size := by
  simp [keys, size]

@[simp] theorem keys_mapValues (f : κ → ν → μ) (dict : Dict κ ν) :
    (dict.mapValues f).keys = dict.keys := by
  simp [keys, mapValues]

variable [DecidableEq κ]

def get? (dict : Dict κ ν) (key : κ) : Option ν := dict.entries.lookup key

def erase (dict : Dict κ ν) (key : κ) : Dict κ ν := dict.filter fun other _ => other ≠ key

/-- A known key keeps its place; a new one goes to the end. -/
def setEntries (entries : List (κ × ν)) (key : κ) (value : ν) : List (κ × ν) :=
  if key ∈ entries.map Prod.fst then
    entries.map fun entry => if entry.1 = key then (key, value) else entry
  else entries ++ [(key, value)]

theorem keys_setEntries (entries : List (κ × ν)) (key : κ) (value : ν) :
    (setEntries entries key value).map Prod.fst =
      if key ∈ entries.map Prod.fst then entries.map Prod.fst
      else entries.map Prod.fst ++ [key] := by
  unfold setEntries
  by_cases known : key ∈ entries.map Prod.fst
  · rw [if_pos known, if_pos known, List.map_map]
    apply List.map_congr_left
    intro entry member
    by_cases same : entry.1 = key <;> simp [same]
  · rw [if_neg known, if_neg known]
    simp

def set (dict : Dict κ ν) (key : κ) (value : ν) : Dict κ ν where
  entries := setEntries dict.entries key value
  distinct := by
    rw [keys_setEntries]
    by_cases known : key ∈ dict.entries.map Prod.fst
    · rw [if_pos known]
      exact dict.distinct
    · rw [if_neg known]
      have apart : ∀ other ∈ dict.entries.map Prod.fst, ∀ new ∈ [key], other ≠ new := by
        intro other member new only same
        rw [same, List.mem_singleton.mp only] at member
        exact known member
      exact List.nodup_append.mpr ⟨dict.distinct, List.nodup_singleton key, apart⟩

theorem entries_set_new {dict : Dict κ ν} {key : κ} (new : key ∉ dict.keys) (value : ν) :
    (dict.set key value).entries = dict.entries ++ [(key, value)] := if_neg new

theorem keys_set (dict : Dict κ ν) (key : κ) (value : ν) :
    (dict.set key value).keys = if key ∈ dict.keys then dict.keys else dict.keys ++ [key] :=
  keys_setEntries dict.entries key value

theorem mem_keys_set (dict : Dict κ ν) (key other : κ) (value : ν) :
    other ∈ (dict.set key value).keys ↔ other ∈ dict.keys ∨ other = key := by
  rw [keys_set]
  by_cases known : key ∈ dict.keys
  · rw [if_pos known]
    constructor
    · exact Or.inl
    · intro either
      cases either with
      | inl member => exact member
      | inr same => rwa [same]
  · rw [if_neg known, List.mem_append, List.mem_singleton]

@[simp] theorem get?_empty (key : κ) : (empty : Dict κ ν).get? key = none := rfl

theorem lookup_eq_some_iff {entries : List (κ × ν)} (distinct : (entries.map Prod.fst).Nodup)
    (key : κ) (value : ν) : entries.lookup key = some value ↔ (key, value) ∈ entries := by
  induction entries with
  | nil => simp
  | cons entry entries ih =>
    cases entry with
    | mk first old =>
      rw [List.map_cons, List.nodup_cons] at distinct
      by_cases same : key = first
      · subst same
        have absent : (key, value) ∉ entries := fun member =>
          distinct.1 (List.mem_map.mpr ⟨(key, value), member, rfl⟩)
        simp [absent, eq_comm]
      · have apart : (key == first) = false := by simpa using same
        simp [List.lookup_cons, apart, ih distinct.2, same]

theorem get?_eq_some_iff (dict : Dict κ ν) (key : κ) (value : ν) :
    dict.get? key = some value ↔ (key, value) ∈ dict.entries :=
  lookup_eq_some_iff dict.distinct key value

theorem mem_keys_iff (dict : Dict κ ν) (key : κ) :
    key ∈ dict.keys ↔ ∃ value, dict.get? key = some value := by
  simp only [get?_eq_some_iff, keys, List.mem_map]
  constructor
  · intro found
    obtain ⟨entry, member, named⟩ := found
    exact ⟨entry.2, by rw [← named]; exact member⟩
  · intro found
    obtain ⟨value, member⟩ := found
    exact ⟨(key, value), member, rfl⟩

theorem get?_eq_none_iff (dict : Dict κ ν) (key : κ) :
    dict.get? key = none ↔ key ∉ dict.keys := by
  rw [mem_keys_iff, Option.eq_none_iff_forall_ne_some, not_exists]

theorem mem_entries_setEntries (entries : List (κ × ν)) (key : κ) (value : ν) (entry : κ × ν) :
    entry ∈ setEntries entries key value ↔
      entry = (key, value) ∨ entry ∈ entries ∧ entry.1 ≠ key := by
  unfold setEntries
  by_cases known : key ∈ entries.map Prod.fst
  · rw [if_pos known, List.mem_map]
    constructor
    · intro found
      obtain ⟨old, member, changed⟩ := found
      by_cases same : old.1 = key
      · rw [if_pos same] at changed
        exact .inl changed.symm
      · rw [if_neg same] at changed
        exact .inr ⟨changed ▸ member, changed ▸ same⟩
    · intro either
      cases either with
      | inl new =>
        obtain ⟨old, member, named⟩ := List.mem_map.mp known
        exact ⟨old, member, by rw [if_pos named, new]⟩
      | inr old => exact ⟨entry, old.1, if_neg old.2⟩
  · rw [if_neg known, List.mem_append, List.mem_singleton]
    constructor
    · intro either
      cases either with
      | inl old =>
        refine .inr ⟨old, fun same => known ?_⟩
        rw [← same]
        exact List.mem_map_of_mem old
      | inr new => exact .inl new
    · intro either
      cases either with
      | inl new => exact .inr new
      | inr old => exact .inl old.1

theorem lookup_setEntries_of_ne (entries : List (κ × ν)) {key other : κ} (apart : other ≠ key)
    (value : ν) : (setEntries entries key value).lookup other = entries.lookup other := by
  have unnamed : (other == key) = false := by simpa using apart
  unfold setEntries
  by_cases known : key ∈ entries.map Prod.fst
  · rw [if_pos known]
    clear known
    induction entries with
    | nil => rfl
    | cons entry entries ih =>
      by_cases same : entry.1 = key
      · rw [List.map_cons, if_pos same, List.lookup_cons, List.lookup_cons, unnamed, same, unnamed, ih]
      · rw [List.map_cons, if_neg same, List.lookup_cons, List.lookup_cons, ih]
  · rw [if_neg known, List.lookup_append, List.lookup_cons, unnamed]
    simp

/-- Distinct keys have different values under `f`. -/
theorem nodup_map_values (dict : Dict κ ν) (f : ν → μ) :
    (dict.values.map f).Nodup ↔ ∀ key value other found, dict.get? key = some value →
      dict.get? other = some found → f value = f found → key = other := by
  have listed : dict.entries.Nodup := List.Nodup.of_map _ dict.distinct
  rw [values, List.map_map, List.nodup_map_iff_inj_on listed]
  constructor
  · intro injective key value other found known present same
    rw [get?_eq_some_iff] at known present
    exact congrArg Prod.fst (injective _ known _ present same)
  · intro separated entry member entry' member' same
    have known := (get?_eq_some_iff dict _ _).mpr member
    have present := (get?_eq_some_iff dict _ _).mpr member'
    have named := separated _ _ _ _ known present same
    have valued : entry.2 = entry'.2 := by
      rw [named, present] at known
      exact (Option.some.inj known).symm
    exact Prod.ext named valued

theorem mem_entries_set (dict : Dict κ ν) (key : κ) (value : ν) (entry : κ × ν) :
    entry ∈ (dict.set key value).entries ↔
      entry = (key, value) ∨ entry ∈ dict.entries ∧ entry.1 ≠ key :=
  mem_entries_setEntries dict.entries key value entry

theorem get?_set (dict : Dict κ ν) (key other : κ) (value : ν) :
    (dict.set key value).get? other = if other = key then some value else dict.get? other := by
  ext found
  rw [get?_eq_some_iff, mem_entries_set]
  by_cases same : other = key
  · simp [same, eq_comm]
  · simp [same, get?_eq_some_iff]

theorem set_eq_self {dict : Dict κ ν} {key : κ} {value : ν} (known : dict.get? key = some value) :
    dict.set key value = dict := by
  have member := (get?_eq_some_iff dict key value).mp known
  have listed : key ∈ dict.entries.map Prod.fst := List.mem_map_of_mem member
  have same : setEntries dict.entries key value = dict.entries := by
    rw [setEntries, if_pos listed]
    conv => rhs; rw [← List.map_id dict.entries]
    apply List.map_congr_left
    intro entry present
    by_cases isKey : entry.1 = key
    · have found : dict.get? key = some entry.2 := by
        rw [get?_eq_some_iff, ← isKey]
        exact present
      rw [if_pos isKey, Option.some.inj (known.symm.trans found), ← isKey]
      rfl
    · rw [if_neg isKey]
      rfl
  cases dict
  unfold set
  congr

theorem size_set (dict : Dict κ ν) (key : κ) (value : ν) :
    (dict.set key value).size = if key ∈ dict.keys then dict.size else dict.size + 1 := by
  rw [← length_keys, keys_set]
  by_cases known : key ∈ dict.keys <;> simp [known]

theorem size_set_le (dict : Dict κ ν) (key : κ) (value : ν) :
    (dict.set key value).size ≤ dict.size + 1 := by
  rw [size_set]
  split_ifs <;> omega

theorem size_set_known {dict : Dict κ ν} {key : κ} {old : ν} (known : dict.get? key = some old)
    (value : ν) : (dict.set key value).size = dict.size := by
  rw [size_set, if_pos ((mem_keys_iff dict key).mpr ⟨old, known⟩)]

omit [DecidableEq κ] in
theorem mem_entries_filter (dict : Dict κ ν) (keep : κ → ν → Bool) (entry : κ × ν) :
    entry ∈ (dict.filter keep).entries ↔ entry ∈ dict.entries ∧ keep entry.1 entry.2 = true := by
  simp [filter]

omit [DecidableEq κ] in
theorem size_filter_le (dict : Dict κ ν) (keep : κ → ν → Bool) :
    (dict.filter keep).size ≤ dict.size := List.length_filter_le _ _

theorem get?_filter (dict : Dict κ ν) (keep : κ → ν → Bool) (key : κ) :
    (dict.filter keep).get? key = (dict.get? key).filter (keep key) := by
  ext found
  rw [get?_eq_some_iff, mem_entries_filter, Option.filter_eq_some_iff, get?_eq_some_iff]

theorem get?_erase (dict : Dict κ ν) (key other : κ) :
    (dict.erase key).get? other = if other = key then none else dict.get? other := by
  rw [erase, get?_filter]
  by_cases same : other = key
  · simp [same]
  · cases dict.get? other <;> simp [same]

theorem keys_erase (dict : Dict κ ν) (key : κ) :
    (dict.erase key).keys = dict.keys.filter fun other => other ≠ key := by
  unfold keys erase filter
  rw [List.filter_map]
  rfl

theorem get?_of_drop {dict : Dict κ ν} {count : Nat} {key : κ} {value : ν}
    (found : (dict.drop count).get? key = some value) : dict.get? key = some value := by
  rw [get?_eq_some_iff] at found ⊢
  exact List.mem_of_mem_drop found

theorem get?_mapValues (f : κ → ν → μ) (dict : Dict κ ν) (key : κ) :
    (dict.mapValues f).get? key = (dict.get? key).map (f key) := by
  ext found
  rw [get?_eq_some_iff, Option.map_eq_some_iff]
  simp only [mapValues, List.mem_map, Prod.mk.injEq, get?_eq_some_iff]
  constructor
  · intro mapped
    obtain ⟨entry, member, named, value⟩ := mapped
    subst named
    exact ⟨entry.2, member, value⟩
  · intro known
    obtain ⟨value, member, same⟩ := known
    exact ⟨(key, value), member, rfl, same⟩

/-- A new value that `f` does not tell from the old one. -/
theorem map_entries_set {dict : Dict κ ν} {key : κ} {old value : ν} (known : dict.get? key = some old)
    (f : κ × ν → μ) (same : f (key, value) = f (key, old)) :
    (dict.set key value).entries.map f = dict.entries.map f := by
  have member := (get?_eq_some_iff dict key old).mp known
  have listed : key ∈ dict.entries.map Prod.fst := List.mem_map_of_mem member
  have kept : (dict.set key value).entries =
      dict.entries.map fun entry => if entry.1 = key then (key, value) else entry := if_pos listed
  rw [kept, List.map_map]
  apply List.map_congr_left
  intro entry present
  by_cases isKey : entry.1 = key
  · have found : dict.get? key = some entry.2 := by
      rw [get?_eq_some_iff, ← isKey]
      exact present
    rw [known] at found
    rw [Function.comp_apply, if_pos isKey, same, ← isKey, Option.some.inj found]
  · rw [Function.comp_apply, if_neg isKey]

theorem mem_entries_erase (dict : Dict κ ν) (key : κ) (entry : κ × ν) :
    entry ∈ (dict.erase key).entries ↔ entry ∈ dict.entries ∧ entry.1 ≠ key := by
  refine (mem_entries_filter dict _ entry).trans ?_
  rw [decide_eq_true_eq]

theorem entries_perm_erase {dict : Dict κ ν} {key : κ} {value : ν} (known : dict.get? key = some value) :
    dict.entries.Perm ((key, value) :: (dict.erase key).entries) := by
  have listed : dict.entries.Nodup := .of_map _ dict.distinct
  have rest : ((key, value) :: (dict.erase key).entries).Nodup := by
    refine List.nodup_cons.mpr ⟨fun found => ?_, .of_map _ (dict.erase key).distinct⟩
    exact ((mem_entries_erase dict key _).mp found).2 rfl
  refine (List.perm_ext_iff_of_nodup listed rest).mpr fun entry => ?_
  rw [List.mem_cons, mem_entries_erase]
  by_cases isKey : entry.1 = key
  · have valued : entry ∈ dict.entries ↔ entry = (key, value) := by
      rw [← Prod.mk.eta (p := entry), isKey, ← get?_eq_some_iff, known, Prod.mk.injEq,
        Option.some.injEq, eq_self, true_and, eq_comm]
    simp [isKey, valued]
  · have different : entry ≠ (key, value) := fun same => isKey (congrArg Prod.fst same)
    simp [isKey, different]

end Dict

end ArcReel.Lib
