import ArcReel.Lib.Dict

/-! Sums over the entries of a dictionary. -/

namespace ArcReel.Lib.Dict

section Totals

variable {κ ν : Type}

/-- The sum of the weights of the values. -/
def total (weight : ν → Int) (dict : Dict κ ν) : Int := (dict.values.map weight).sum

@[simp] theorem total_empty (weight : ν → Int) : (empty : Dict κ ν).total weight = 0 := rfl

variable [DecidableEq κ]

theorem total_set_new {dict : Dict κ ν} {key : κ} (new : dict.get? key = none) (weight : ν → Int)
    (value : ν) : (dict.set key value).total weight = dict.total weight + weight value := by
  have entries := entries_set_new ((get?_eq_none_iff dict key).mp new) value
  simp [total, values, entries]

theorem values_perm_erase {dict : Dict κ ν} {key : κ} {value : ν} (known : dict.get? key = some value) :
    dict.values.Perm (value :: (dict.erase key).values) :=
  (entries_perm_erase known).map Prod.snd

theorem erase_set (dict : Dict κ ν) (key : κ) (value : ν) :
    ((dict.set key value).erase key).entries.Perm (dict.erase key).entries := by
  have left : ((dict.set key value).erase key).entries.Nodup := .of_map _ (Dict.distinct _)
  have right : (dict.erase key).entries.Nodup := .of_map _ (Dict.distinct _)
  refine (List.perm_ext_iff_of_nodup left right).mpr fun entry => ?_
  rw [mem_entries_erase, mem_entries_erase, mem_entries_set]
  constructor
  · rintro ⟨rfl | ⟨member, _⟩, apart⟩
    · exact absurd rfl apart
    · exact ⟨member, apart⟩
  · rintro ⟨member, apart⟩
    exact ⟨.inr ⟨member, apart⟩, apart⟩

/-- The new value takes the place of the old one. -/
theorem total_set (dict : Dict κ ν) (key : κ) (value : ν) (weight : ν → Int) :
    (dict.set key value).total weight =
      dict.total weight + weight value - ((dict.get? key).map weight).getD 0 := by
  cases known : dict.get? key with
  | none =>
    rw [total_set_new known, Option.map_none, Option.getD_none, Int.sub_zero]
  | some old =>
    have now : (dict.set key value).get? key = some value := by rw [get?_set, if_pos rfl]
    have before := ((values_perm_erase known).map weight).sum_eq
    have after := ((values_perm_erase now).map weight).sum_eq
    have rest : (((dict.set key value).erase key).values.map weight).sum =
        ((dict.erase key).values.map weight).sum := (((erase_set dict key value).map Prod.snd).map weight).sum_eq
    rw [List.map_cons, List.sum_cons] at before after
    rw [Option.map_some, Option.getD_some, total, total, before, after]
    omega

/-- A dictionary without values of weight but under the given keys. -/
theorem total_eq_sum {dict : Dict κ ν} {keys : List κ} (distinct : keys.Nodup) (weight : ν → Int)
    (within : ∀ key value, dict.get? key = some value → key ∈ keys) :
    dict.total weight = (keys.map fun key => ((dict.get? key).map weight).getD 0).sum := by
  have listed : dict.total weight =
      (dict.keys.map fun key => ((dict.get? key).map weight).getD 0).sum := by
    rw [total, values, Dict.keys, List.map_map, List.map_map]
    congr 1
    apply List.map_congr_left
    intro entry member
    rw [Function.comp_apply, Function.comp_apply, (get?_eq_some_iff dict entry.1 entry.2).mpr member,
      Option.map_some, Option.getD_some]
  have missing : ∀ key ∈ keys.filter fun key => key ∉ dict.keys,
      ((dict.get? key).map weight).getD 0 = 0 := by
    intro key member
    rw [List.mem_filter, decide_eq_true_eq] at member
    rw [(get?_eq_none_iff dict key).mpr member.2]
    rfl
  have parted := List.filter_append_perm (fun key => decide (key ∈ dict.keys)) keys
  have inside : (keys.filter fun key => decide (key ∈ dict.keys)).Perm dict.keys := by
    refine (List.perm_ext_iff_of_nodup (distinct.filter _) (keys_nodup dict)).mpr fun key => ?_
    rw [List.mem_filter, decide_eq_true_eq]
    refine ⟨fun both => both.2, fun known => ⟨?_, known⟩⟩
    obtain ⟨value, found⟩ := (mem_keys_iff dict key).mp known
    exact within key value found
  have sums := (parted.map fun key => ((dict.get? key).map weight).getD 0).sum_eq
  rw [List.map_append, List.sum_append, (inside.map _).sum_eq] at sums
  rw [listed, ← sums]
  have nothing : ((keys.filter fun key => !decide (key ∈ dict.keys)).map fun key =>
      ((dict.get? key).map weight).getD 0).sum = 0 := by
    apply List.sum_eq_zero
    intro amount member
    obtain ⟨key, among, same⟩ := List.mem_map.mp member
    rw [← same]
    apply missing
    simpa using among
  rw [nothing, Int.add_zero]

end Totals

section Groups

open scoped List

variable {κ α : Type} [DecidableEq κ]

/-- `groups.setdefault(key, []).append(item)`. -/
def addTo (groups : Dict κ (List α)) (key : κ) (item : α) : Dict κ (List α) :=
  groups.set key ((groups.get? key).getD [] ++ [item])

theorem flatten_addTo (groups : Dict κ (List α)) (key : κ) (item : α) :
    (groups.addTo key item).values.flatten.Perm (item :: groups.values.flatten) := by
  unfold addTo
  cases known : groups.get? key with
  | none =>
    have entries := entries_set_new ((get?_eq_none_iff groups key).mp known) [item]
    rw [Option.getD_none, List.nil_append, values, entries, List.map_append, List.flatten_append]
    exact List.perm_append_singleton item _
  | some group =>
    have now : (groups.set key (group ++ [item])).get? key = some (group ++ [item]) := by
      rw [get?_set, if_pos rfl]
    have before := (values_perm_erase known).flatten
    have after := (values_perm_erase now).flatten
    have rest := ((erase_set groups key (group ++ [item])).map Prod.snd).flatten
    rw [List.flatten_cons] at before after
    rw [Option.getD_some]
    calc (groups.set key (group ++ [item])).values.flatten
        _ ~ (group ++ [item]) ++ ((groups.set key (group ++ [item])).erase key).values.flatten := after
        _ ~ (group ++ [item]) ++ (groups.erase key).values.flatten := rest.append_left _
        _ = group ++ item :: (groups.erase key).values.flatten := by simp
        _ ~ item :: (group ++ (groups.erase key).values.flatten) := List.perm_middle
        _ ~ item :: groups.values.flatten := before.symm.cons item

theorem mem_addTo {groups : Dict κ (List α)} {key : κ} {item : α} {group : List α}
    (member : group ∈ (groups.addTo key item).values) : group ∈ groups.values ∨ item ∈ group := by
  obtain ⟨entry, among, same⟩ := List.mem_map.mp member
  rcases (mem_entries_set groups key _ entry).mp among with here | ⟨old, _⟩
  · rw [← same, here]
    exact .inr (List.mem_append_right _ List.mem_cons_self)
  · rw [← same]
    exact .inl (List.mem_map_of_mem old)

end Groups

end ArcReel.Lib.Dict
