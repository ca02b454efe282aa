import Mathlib.Data.List.Sort
import Mathlib.Logic.Relation
import Mathlib.Tactic

/-! Depth-first listings: the items below a key, each before the items below its own key. -/

namespace ArcReel.Lib.DepthFirst

variable {κ ν : Type} (children : κ → List ν) (key : ν → κ)

/-- The items of a list, each with what `below` finds under its key. -/
def collectAll (below : κ → Option (List ν)) : List ν → Option (List ν)
  | [] => some []
  | item :: later => do
      let under ← below (key item)
      let rest ← collectAll below later
      some (item :: under ++ rest)

/-- The items below a key; the fuel bounds the depth. -/
def collect : Nat → κ → Option (List ν)
  | 0, _ => none
  | fuel + 1, above => collectAll key (collect fuel) (children above)

/-- A key right below another one. -/
def Below (low high : κ) : Prop := ∃ item ∈ children high, key item = low

variable {children key}

theorem collectAll_eq_some {below : κ → Option (List ν)} {items found : List ν} :
    collectAll key below items = some found ↔
      (∀ item ∈ items, (below (key item)).isSome = true) ∧
        found = items.flatMap fun item => item :: (below (key item)).getD [] := by
  induction items generalizing found with
  | nil =>
    constructor
    · intro same
      exact ⟨nofun, (Option.some.inj same).symm⟩
    · rintro ⟨-, same⟩
      rw [same]
      rfl
  | cons item later ih =>
    simp only [collectAll, Option.bind_eq_bind, Option.bind_eq_some_iff]
    constructor
    · rintro ⟨under, here, rest, listed, same⟩
      obtain ⟨all, spelled⟩ := ih.mp listed
      refine ⟨?_, ?_⟩
      · intro other member
        cases List.mem_cons.mp member with
        | inl isItem => rw [isItem, here]; rfl
        | inr inside => exact all other inside
      · rw [← Option.some.inj same, spelled, List.flatMap_cons, here]
        rfl
    · rintro ⟨all, spelled⟩
      obtain ⟨under, here⟩ := Option.isSome_iff_exists.mp (all item (.head _))
      refine ⟨under, here, _, ih.mpr ⟨fun other member => all other (.tail _ member), rfl⟩, ?_⟩
      rw [spelled, List.flatMap_cons, here]
      rfl

theorem collectAll_mono {below deeper : κ → Option (List ν)} {items found : List ν}
    (more : ∀ low found, below low = some found → deeper low = some found)
    (listed : collectAll key below items = some found) :
    collectAll key deeper items = some found := by
  induction items generalizing found with
  | nil => exact listed
  | cons item later ih =>
    simp only [collectAll, Option.bind_eq_bind, Option.bind_eq_some_iff] at listed ⊢
    obtain ⟨under, here, rest, inside, same⟩ := listed
    exact ⟨under, more _ _ here, rest, ih inside, same⟩

theorem collect_succ (fuel : Nat) : ∀ {above : κ} {found : List ν},
    collect children key fuel above = some found → collect children key (fuel + 1) above = some found := by
  induction fuel with
  | zero => intro above found none; cases none
  | succ fuel ih =>
    intro above found listed
    exact collectAll_mono (fun _ _ => ih) listed

theorem collect_mono {fuel more : Nat} (le : fuel ≤ more) {above : κ} {found : List ν}
    (listed : collect children key fuel above = some found) :
    collect children key more above = some found := by
  induction le with
  | refl => exact listed
  | step _ ih => exact collect_succ _ ih

/-- Where the listing runs out of fuel, a path of that length goes down. -/
theorem path_of_none (fuel : Nat) : ∀ {above : κ}, collect children key fuel above = none →
    ∃ path : List κ, path.length = fuel ∧
      List.IsChain (fun high low => Below children key low high) (above :: path) := by
  induction fuel with
  | zero => exact fun _ => ⟨[], rfl, .singleton _⟩
  | succ fuel ih =>
    intro above none
    have stuck : ∃ item ∈ children above, collect children key fuel (key item) = Option.none := by
      by_contra free
      push Not at free
      have whole := collectAll_eq_some.mpr ⟨fun item member =>
        Option.isSome_iff_ne_none.mpr (free item member), rfl⟩
      rw [collect, whole] at none
      cases none
    obtain ⟨item, member, deeper⟩ := stuck
    obtain ⟨path, length, chain⟩ := ih deeper
    exact ⟨key item :: path, congrArg Nat.succ length,
      List.isChain_cons_cons.mpr ⟨⟨item, member, rfl⟩, chain⟩⟩

theorem below_of_chain {path : List κ} : ∀ {above : κ},
    List.IsChain (fun high low => Below children key low high) (above :: path) →
      ∀ low ∈ path, ∃ high, Below children key low high := by
  induction path with
  | nil => exact fun _ _ none => nomatch none
  | cons next path ih =>
    intro above chain low member
    obtain ⟨step, later⟩ := List.isChain_cons_cons.mp chain
    cases List.mem_cons.mp member with
    | inl same => exact ⟨above, same ▸ step⟩
    | inr inside => exact ih later low inside

section Acyclic

variable (acyclic : ∀ node, ¬Relation.TransGen (Below children key) node node)

include acyclic

theorem path_nodup {path : List κ}
    (chain : List.IsChain (fun high low => Below children key low high) path) : path.Nodup := by
  have steps : List.IsChain (fun high low => Relation.TransGen (Below children key) low high) path :=
    chain.imp fun _ _ step => .single step
  have ordered := List.isChain_iff_pairwise (R := fun high low =>
    Relation.TransGen (Below children key) low high) |>.mp steps
  apply ordered.imp
  intro high low down same
  rw [same] at down
  exact acyclic low down

/-- A listing over finitely many keys ends. -/
theorem collect_isSome {nodes : List κ} (finite : ∀ above, ∀ item ∈ children above, key item ∈ nodes)
    (above : κ) : (collect children key (nodes.length + 1) above).isSome = true := by
  by_contra none
  rw [Bool.not_eq_true, Option.isSome_eq_false_iff, Option.isNone_iff_eq_none] at none
  obtain ⟨path, length, chain⟩ := path_of_none _ none
  have distinct := (List.nodup_cons.mp (path_nodup acyclic chain)).2
  have inside : ∀ low ∈ path, low ∈ nodes := by
    intro low member
    obtain ⟨high, item, listed, same⟩ := below_of_chain chain low member
    exact same ▸ finite high item listed
  have fits := (distinct.subperm inside).length_le
  omega

/-- What is below a key, with fuel for as many keys as there are. -/
def listing (children : κ → List ν) (key : ν → κ) (nodes : List κ) (above : κ) : List ν :=
  (collect children key (nodes.length + 1) above).getD []

theorem collect_listing {nodes : List κ} (finite : ∀ above, ∀ item ∈ children above, key item ∈ nodes)
    (above : κ) :
    collect children key (nodes.length + 1) above = some (listing children key nodes above) := by
  obtain ⟨found, listed⟩ := Option.isSome_iff_exists.mp (collect_isSome acyclic finite above)
  rw [listing, listed]
  rfl

theorem listing_eq {nodes : List κ} (finite : ∀ above, ∀ item ∈ children above, key item ∈ nodes)
    (above : κ) : listing children key nodes above =
      (children above).flatMap fun item => item :: listing children key nodes (key item) := by
  have more : collect children key (nodes.length + 2) above =
      some (listing children key nodes above) := collect_succ _ (collect_listing acyclic finite above)
  obtain ⟨-, spelled⟩ := collectAll_eq_some.mp more
  rw [spelled]
  apply List.flatMap_congr
  intro item _
  rw [collect_listing acyclic finite (key item)]
  rfl

omit acyclic in
theorem below_collect (fuel : Nat) : ∀ {above : κ} {found : List ν},
    collect children key fuel above = some found → ∀ item ∈ found,
      Relation.TransGen (Below children key) (key item) above := by
  induction fuel with
  | zero => intro above found none; cases none
  | succ fuel ih =>
    intro above found listed item member
    obtain ⟨all, spelled⟩ := collectAll_eq_some.mp listed
    rw [spelled, List.mem_flatMap] at member
    obtain ⟨first, child, inside⟩ := member
    have step : Below children key (key first) above := ⟨first, child, rfl⟩
    cases List.mem_cons.mp inside with
    | inl same => exact same ▸ .single step
    | inr under =>
      obtain ⟨rest, here⟩ := Option.isSome_iff_exists.mp (all first child)
      rw [here] at under
      exact .tail (ih here item under) step

section Unique

variable (distinct : ∀ above, ((children above).map key).Nodup)
  (unique : ∀ low first second, Below children key low first → Below children key low second →
    first = second)

include distinct unique

omit distinct in
/-- What is below two keys that are right below the same one makes them equal. -/
theorem eq_of_both_below {above low first second : κ} (isFirst : Below children key first above)
    (isSecond : Below children key second above)
    (toFirst : Relation.ReflTransGen (Below children key) low first)
    (toSecond : Relation.ReflTransGen (Below children key) low second) : first = second := by
  have rightUnique : Relator.RightUnique (Below children key) :=
    fun low first second => unique low first second
  have climbs : ∀ {a b}, Below children key a above → Below children key b above →
      Relation.ReflTransGen (Below children key) a b → a = b := by
    intro a b isA isB reaches
    cases Relation.ReflTransGen.cases_head reaches with
    | inl same => exact same
    | inr path =>
      obtain ⟨next, step, later⟩ := path
      rw [unique a next above step isA] at later
      exact absurd (Relation.TransGen.tail' later isB) (acyclic above)
  cases Relation.ReflTransGen.total_of_right_unique rightUnique toFirst toSecond with
  | inl reaches => exact climbs isFirst isSecond reaches
  | inr reaches => exact (climbs isSecond isFirst reaches).symm

theorem collect_nodup (fuel : Nat) : ∀ {above : κ} {found : List ν},
    collect children key fuel above = some found → (above :: found.map key).Nodup := by
  induction fuel with
  | zero => intro above found none; cases none
  | succ fuel ih =>
    intro above found listed
    have under := below_collect (fuel + 1) listed
    obtain ⟨all, spelled⟩ := collectAll_eq_some.mp listed
    have reaches : ∀ item ∈ children above, ∀ low ∈ (item :: (collect children key fuel
        (key item)).getD []).map key, Relation.ReflTransGen (Below children key) low (key item) := by
      intro item child low member
      obtain ⟨found, here⟩ := Option.isSome_iff_exists.mp (all item child)
      rw [here, Option.getD_some, List.map_cons] at member
      cases List.mem_cons.mp member with
      | inl same => rw [same]
      | inr inside =>
        obtain ⟨other, listed, rfl⟩ := List.mem_map.mp inside
        exact (below_collect fuel here other listed).to_reflTransGen
    rw [List.nodup_cons]
    constructor
    · intro member
      obtain ⟨item, listed, same⟩ := List.mem_map.mp member
      have cycle := under item listed
      rw [same] at cycle
      exact acyclic above cycle
    · rw [spelled, List.map_flatMap, List.nodup_flatMap]
      constructor
      · intro item child
        obtain ⟨found, here⟩ := Option.isSome_iff_exists.mp (all item child)
        rw [here]
        exact ih here
      · have apart := List.pairwise_map.mp (distinct above)
        apply apart.imp_of_mem
        intro first second isFirst isSecond differ
        change List.Disjoint _ _
        intro low inFirst inSecond
        exact differ (eq_of_both_below acyclic unique ⟨first, isFirst, rfl⟩ ⟨second, isSecond, rfl⟩
          (reaches first isFirst low inFirst) (reaches second isSecond low inSecond))

end Unique

end Acyclic

end ArcReel.Lib.DepthFirst
