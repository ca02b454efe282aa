import ArcReel.Lib.Dict
import Mathlib.Data.List.Sort
import Mathlib.Data.List.Lex

/-! Entries in the order of their keys, and the dictionary of a list of entries. -/

namespace ArcReel.Lib

section KeyOrder

variable {κ ν μ : Type} [LinearOrder κ]

/-- `sorted(entries.items())`, as far as the keys decide. -/
def byKey (entries : List (κ × ν)) : List (κ × ν) := entries.insertionSort fun a b => a.1 ≤ b.1

theorem byKey_perm (entries : List (κ × ν)) : (byKey entries).Perm entries :=
  List.perm_insertionSort _ entries

theorem byKey_ordered (entries : List (κ × ν)) :
    (byKey entries).Pairwise fun a b => a.1 ≤ b.1 := by
  have : IsTrans (κ × ν) fun a b => a.1 ≤ b.1 := ⟨fun _ _ _ first second => first.trans second⟩
  exact List.pairwise_insertionSort _ entries

theorem byKey_of_ordered {entries : List (κ × ν)} (ordered : entries.Pairwise fun a b => a.1 ≤ b.1) :
    byKey entries = entries :=
  ordered.insertionSort_eq

theorem byKey_byKey (entries : List (κ × ν)) : byKey (byKey entries) = byKey entries :=
  byKey_of_ordered (byKey_ordered entries)

/-- A change of the values does not touch the order. -/
theorem byKey_map (f : κ × ν → κ × μ) (keeps : ∀ entry, (f entry).1 = entry.1)
    (entries : List (κ × ν)) : byKey (entries.map f) = (byKey entries).map f := by
  refine (List.map_insertionSort _ _ f entries ?_).symm
  intro a _ b _
  rw [keeps a, keeps b]

/-- Two ordered lists of the same entries are the same list when no key comes twice. -/
theorem eq_of_ordered_perm {entries other : List (κ × ν)} (same : entries.Perm other)
    (distinct : (entries.map Prod.fst).Nodup) (ordered : entries.Pairwise fun a b => a.1 ≤ b.1)
    (ordered' : other.Pairwise fun a b => a.1 ≤ b.1) : entries = other := by
  refine same.eq_of_pairwise ?_ ordered ordered'
  intro a b first second below above
  have keys : a.1 = b.1 := le_antisymm below above
  exact List.inj_on_of_nodup_map distinct first (same.mem_iff.mpr second) keys

end KeyOrder

namespace Dict

variable {κ ν : Type} [DecidableEq κ]

/-- The dictionary that a loop builds by setting one entry after another. -/
def ofEntries (entries : List (κ × ν)) : Dict κ ν :=
  entries.foldl (fun dict entry => dict.set entry.1 entry.2) empty

theorem foldl_set_entries {entries : List (κ × ν)} (dict : Dict κ ν)
    (distinct : (dict.keys ++ entries.map Prod.fst).Nodup) :
    (entries.foldl (fun dict entry => dict.set entry.1 entry.2) dict).entries =
      dict.entries ++ entries := by
  induction entries generalizing dict with
  | nil => rw [List.foldl_nil, List.append_nil]
  | cons entry entries ih =>
    have new : entry.1 ∉ dict.keys := by
      intro member
      have apart := (List.nodup_append.mp distinct).2.2 _ member entry.1 List.mem_cons_self
      exact apart rfl
    have rest : ((dict.set entry.1 entry.2).keys ++ entries.map Prod.fst).Nodup := by
      rw [keys_set, if_neg new, List.append_assoc]
      exact distinct
    rw [List.foldl_cons, ih _ rest, entries_set_new new, List.append_assoc]
    rfl

theorem entries_ofEntries {entries : List (κ × ν)} (distinct : (entries.map Prod.fst).Nodup) :
    (ofEntries entries).entries = entries :=
  foldl_set_entries empty distinct

/-- A dictionary is known by which entries it has. -/
theorem get?_eq_of_perm {dict other : Dict κ ν} (same : dict.entries.Perm other.entries) (key : κ) :
    dict.get? key = other.get? key := by
  apply Option.ext
  intro value
  rw [get?_eq_some_iff, get?_eq_some_iff]
  exact same.mem_iff

theorem perm_of_get?_eq {dict other : Dict κ ν} (same : ∀ key, dict.get? key = other.get? key) :
    dict.entries.Perm other.entries := by
  refine (List.perm_ext_iff_of_nodup dict.distinct.of_map other.distinct.of_map).mpr ?_
  intro entry
  rw [← get?_eq_some_iff dict entry.1 entry.2, ← get?_eq_some_iff other entry.1 entry.2, same]

/-- Each key is set to what `f` has for it. -/
def setAll (dict : Dict κ ν) (keys : List κ) (f : κ → ν) : Dict κ ν :=
  keys.foldl (fun dict key => dict.set key (f key)) dict

theorem get?_setAll (dict : Dict κ ν) (keys : List κ) (f : κ → ν) (key : κ) :
    (dict.setAll keys f).get? key = if key ∈ keys then some (f key) else dict.get? key := by
  unfold setAll
  induction keys generalizing dict with
  | nil => rfl
  | cons first keys ih =>
    rw [List.foldl_cons, ih, get?_set]
    by_cases later : key ∈ keys
    · rw [if_pos later, if_pos (List.mem_cons_of_mem _ later)]
    · by_cases same : key = first
      · rw [if_neg later, if_pos same, if_pos (same ▸ List.mem_cons_self), same]
      · rw [if_neg later, if_neg same, if_neg (List.not_mem_cons_of_ne_of_not_mem same later)]

end Dict

end ArcReel.Lib
