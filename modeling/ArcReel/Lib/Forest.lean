import Mathlib.Logic.Relation
import Mathlib.Tactic

/-! Forests given by a partial parent function: depth, ancestors, and the link of a root
to a node that it is not above of. -/

namespace ArcReel.Lib

variable {κ : Type}

/-- One step towards the root. -/
def Up (parent : κ → Option κ) (node above : κ) : Prop := parent node = some above

/-- A depth that counts the steps to the root. -/
structure Forest (parent : κ → Option κ) (depth : κ → Nat) : Prop where
  root : ∀ {node}, parent node = none → depth node = 0
  child : ∀ {node above}, parent node = some above → depth node = depth above + 1

theorem up_unique (parent : κ → Option κ) : Relator.RightUnique (Up parent) :=
  fun _ _ _ first second => Option.some.inj (first.symm.trans second)

/-- There is nothing above a root. -/
theorem eq_of_root {parent : κ → Option κ} {root above : κ} (isRoot : parent root = none)
    (reaches : Relation.ReflTransGen (Up parent) root above) : above = root := by
  cases Relation.ReflTransGen.cases_head reaches with
  | inl same => exact same.symm
  | inr path =>
    obtain ⟨next, step, _⟩ := path
    exact nomatch isRoot.symm.trans step

theorem root_unique {parent : κ → Option κ} {node first second : κ}
    (toFirst : Relation.ReflTransGen (Up parent) node first) (isFirst : parent first = none)
    (toSecond : Relation.ReflTransGen (Up parent) node second) (isSecond : parent second = none) :
    first = second := by
  cases Relation.ReflTransGen.total_of_right_unique (up_unique parent) toFirst toSecond with
  | inl reaches => exact (eq_of_root isFirst reaches).symm
  | inr reaches => exact eq_of_root isSecond reaches

namespace Forest

variable {parent : κ → Option κ} {depth : κ → Nat}

theorem depth_le_of_reflTransGen (forest : Forest parent depth) {node above : κ}
    (reaches : Relation.ReflTransGen (Up parent) node above) : depth above ≤ depth node := by
  induction reaches with
  | refl => exact le_refl _
  | tail _ step ih =>
    have deeper := forest.child step
    omega

theorem depth_lt_of_transGen (forest : Forest parent depth) {node above : κ}
    (reaches : Relation.TransGen (Up parent) node above) : depth above < depth node := by
  induction reaches with
  | single step =>
    have deeper := forest.child step
    omega
  | tail _ step ih =>
    have deeper := forest.child step
    omega

theorem acyclic (forest : Forest parent depth) (node : κ) : ¬Relation.TransGen (Up parent) node node :=
  fun cycle => lt_irrefl _ (forest.depth_lt_of_transGen cycle)

/-- Two nodes above one node and below the same node are equal. -/
theorem eq_of_common (forest : Forest parent depth) {node first second above : κ}
    (isFirst : parent first = some above) (isSecond : parent second = some above)
    (toFirst : Relation.ReflTransGen (Up parent) node first)
    (toSecond : Relation.ReflTransGen (Up parent) node second) : first = second := by
  have firstDepth := forest.child isFirst
  have secondDepth := forest.child isSecond
  cases Relation.ReflTransGen.total_of_right_unique (up_unique parent) toFirst toSecond with
  | inl reaches =>
    cases Relation.ReflTransGen.cases_head reaches with
    | inl same => exact same
    | inr path =>
      obtain ⟨next, step, later⟩ := path
      have shallow := forest.depth_le_of_reflTransGen later
      have isNext := forest.child step
      rw [Option.some.inj (isFirst.symm.trans step)] at firstDepth secondDepth
      omega
  | inr reaches =>
    cases Relation.ReflTransGen.cases_head reaches with
    | inl same => exact same.symm
    | inr path =>
      obtain ⟨next, step, later⟩ := path
      have shallow := forest.depth_le_of_reflTransGen later
      rw [Option.some.inj (isSecond.symm.trans step)] at firstDepth secondDepth
      omega

theorem exists_root (forest : Forest parent depth) (node : κ) :
    ∃ root, Relation.ReflTransGen (Up parent) node root ∧ parent root = none := by
  induction found : depth node generalizing node with
  | zero =>
    cases up : parent node with
    | none => exact ⟨node, .refl, up⟩
    | some above =>
      have deeper := forest.child up
      omega
  | succ n ih =>
    cases up : parent node with
    | none => exact ⟨node, .refl, up⟩
    | some above =>
      have deeper := forest.child up
      obtain ⟨root, reaches, isRoot⟩ := ih above (by omega)
      exact ⟨root, .head (show Up parent node above from up) reaches, isRoot⟩

/-- The inner nodes on the way to the root are distinct. -/
theorem exists_path (forest : Forest parent depth) (node : κ) :
    ∃ path : List κ, path.Nodup ∧ path.length = depth node ∧
      ∀ inner ∈ path, (parent inner).isSome = true ∧ depth inner ≤ depth node := by
  induction found : depth node generalizing node with
  | zero => exact ⟨[], .nil, rfl, nofun⟩
  | succ n ih =>
    cases up : parent node with
    | none =>
      rw [forest.root up] at found
      omega
    | some above =>
      have deeper := forest.child up
      obtain ⟨path, distinct, length, inner⟩ := ih above (by omega)
      refine ⟨node :: path, List.nodup_cons.mpr ⟨?_, distinct⟩, congrArg Nat.succ length, ?_⟩
      · intro member
        have shallow := (inner node member).2
        omega
      · intro other member
        cases member with
        | head => exact ⟨by rw [up]; rfl, le_of_eq found⟩
        | tail _ later =>
          have shallow := inner other later
          exact ⟨shallow.1, by omega⟩

theorem depth_le (forest : Forest parent depth) {nodes : List κ}
    (inner : ∀ node, (parent node).isSome = true → node ∈ nodes) (node : κ) :
    depth node ≤ nodes.length := by
  obtain ⟨path, distinct, length, members⟩ := forest.exists_path node
  rw [← length]
  exact (distinct.subperm fun other member => inner other (members other member).1).length_le

/-- A root may be linked to a node that it is not above of. -/
theorem link [DecidableEq κ] (forest : Forest parent depth) {root target : κ}
    (isRoot : parent root = none) (apart : ¬Relation.ReflTransGen (Up parent) target root) :
    ∃ deeper, Forest (Function.update parent root (some target)) deeper := by
  classical
  refine ⟨fun node => if Relation.ReflTransGen (Up parent) node root then
    depth node + depth target + 1 else depth node, ?_, ?_⟩
  · intro node none
    by_cases isNode : node = root
    · rw [isNode, Function.update_self] at none
      cases none
    · rw [Function.update_of_ne isNode] at none
      have below : ¬Relation.ReflTransGen (Up parent) node root := by
        intro reaches
        cases Relation.ReflTransGen.cases_head reaches with
        | inl same => exact isNode same
        | inr path =>
          obtain ⟨next, step, _⟩ := path
          exact nomatch none.symm.trans step
      simp only [if_neg below]
      exact forest.root none
  · intro node above up
    by_cases isNode : node = root
    · rw [isNode, Function.update_self] at up
      rw [← Option.some.inj up, isNode]
      simp only [if_neg apart, if_pos Relation.ReflTransGen.refl, forest.root isRoot]
      omega
    · rw [Function.update_of_ne isNode] at up
      have deeper := forest.child up
      by_cases reaches : Relation.ReflTransGen (Up parent) above root
      · have below : Relation.ReflTransGen (Up parent) node root := .head (show Up parent node above from up) reaches
        simp only [if_pos reaches, if_pos below]
        omega
      · have below : ¬Relation.ReflTransGen (Up parent) node root := by
          intro path
          cases Relation.ReflTransGen.cases_head path with
          | inl same => exact isNode same
          | inr path =>
            obtain ⟨next, step, later⟩ := path
            rw [Option.some.inj (up.symm.trans step)] at reaches
            exact reaches later
        simp only [if_neg reaches, if_neg below]
        exact deeper

end Forest

section Climbing

variable [DecidableEq κ]

/-- The nodes that a loop towards the root visits; it stops at a node that it has seen. -/
def climb (parent : κ → Option κ) : Nat → List κ → κ → List κ
  | 0, _, _ => []
  | fuel + 1, seen, node =>
      if node ∈ seen then []
      else node :: (parent node).elim [] (climb parent fuel (node :: seen))

variable {parent : κ → Option κ} {depth : κ → Nat}

/-- In a forest the loop visits everything above its start. -/
theorem mem_climb (forest : Forest parent depth) {fuel : Nat} {seen : List κ} {node : κ}
    (enough : depth node < fuel) (below : ∀ other ∈ seen, depth node < depth other) (above : κ) :
    above ∈ climb parent fuel seen node ↔ Relation.ReflTransGen (Up parent) node above := by
  induction fuel generalizing seen node with
  | zero => omega
  | succ fuel ih =>
    have new : node ∉ seen := fun member => lt_irrefl _ (below node member)
    rw [climb, if_neg new, List.mem_cons, Relation.ReflTransGen.cases_head_iff, eq_comm]
    refine or_congr_right ?_
    cases up : parent node with
    | none =>
      constructor
      · intro member
        cases member
      · intro path
        obtain ⟨next, step, _⟩ := path
        exact nomatch up.symm.trans step
    | some next =>
      have deeper := forest.child up
      have later := @ih (node :: seen) next (by omega) (by
        intro other member
        cases member with
        | head => omega
        | tail _ old =>
          have lower := below other old
          omega)
      rw [Option.elim_some, later]
      constructor
      · intro reaches
        exact ⟨next, up, reaches⟩
      · intro path
        obtain ⟨other, step, reaches⟩ := path
        rwa [Option.some.inj (up.symm.trans step)]

end Climbing

end ArcReel.Lib
