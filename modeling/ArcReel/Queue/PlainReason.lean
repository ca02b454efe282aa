import ArcReel.Queue.BoundReason

/-! Reasons whose texts JSON writes as they are: a cut meets the limit exactly, and what it takes to
nest them does not depend on how much of the texts is left. -/

namespace ArcReel.Queue.TaskFailure
open ArcReel.Lib

/-- JSON writes the text as it is. -/
def IsPlain (text : List Char) : Prop := ∀ c ∈ text, Json.escape c = [c]

theorem escaped_plain {text : List Char} (plain : IsPlain text) : Json.escaped text = text := by
  induction text with
  | nil => rfl
  | cons c text ih =>
    obtain ⟨first, later⟩ := List.forall_mem_cons.mp plain
    have split : Json.escaped (c :: text) = Json.escape c ++ Json.escaped text := List.flatMap_cons
    rw [split, first, ih later]
    rfl

theorem escaped_append (front back : List Char) :
    Json.escaped (front ++ back) = Json.escaped front ++ Json.escaped back :=
  List.flatMap_append

/-- Parameters in order, each a plain text or a scalar, with a text among them. -/
structure PlainParams (params : List (String × Json)) : Prop where
  ordered : params.Pairwise fun a b => a.1 ≤ b.1
  distinct : (params.map Prod.fst).Nodup
  scalars : ∀ param ∈ params, param.2.isScalar = true
  plain : ∀ key text, (key, .str text) ∈ params → IsPlain text.toList
  texts : ∃ key, (key, .str "") ∈ skeleton params

/-- A way to measure texts that counts plain characters once. -/
structure Measure (μ : List Char → Nat) : Prop where
  append : ∀ front back, μ (front ++ back) = μ front + μ back
  plain : ∀ text, IsPlain text → μ text = text.length

theorem measure_length : Measure List.length := ⟨fun _ _ => List.length_append, fun _ _ => rfl⟩

theorem measure_escaped : Measure fun text => (Json.escaped text).length where
  append front back := by rw [escaped_append, List.length_append]
  plain text plain := by rw [escaped_plain plain]

section Measured

variable {μ : List Char → Nat} (measure : Measure μ) {json : Json.Module} {code : String}
  {params left : List (String × Json)}

include measure

theorem measure_value {value : Json} (scalar : value.isScalar = true)
    (plain : ∀ text, value = .str text → IsPlain text.toList) :
    μ (Json.dumps json.floatText value) =
      μ (Json.dumps json.floatText (emptied value)) + weight value := by
  cases value with
  | str text =>
    have here := plain text rfl
    have spelled : Json.dumps json.floatText (.str text) = ['"'] ++ (text.toList ++ ['"']) := by
      rw [Json.dumps_str, Json.quote, escaped_plain here]
      rfl
    have blank : Json.dumps json.floatText (emptied (.str text)) = ['"'] ++ ['"'] := rfl
    have length : weight (.str text) = text.toList.length := String.length_toList.symm
    rw [spelled, blank, length, measure.append, measure.append, measure.plain _ here, measure.append]
    omega
  | arr _ | obj _ => cases scalar
  | _ => rfl

theorem measure_fields (params : List (String × Json))
    (scalars : ∀ param ∈ params, param.2.isScalar = true)
    (plain : ∀ key text, (key, .str text) ∈ params → IsPlain text.toList) :
    μ (Json.dumpsFields json.floatText params) =
      μ (Json.dumpsFields json.floatText (skeleton params)) + stringTotal params := by
  induction params with
  | nil => rfl
  | cons param params ih =>
    obtain ⟨key, value⟩ := param
    have first : μ (Json.dumps json.floatText value) =
        μ (Json.dumps json.floatText (emptied value)) + weight value :=
      measure_value measure (scalars _ List.mem_cons_self)
        fun text same => plain key text (same ▸ List.mem_cons_self)
    have later := ih (fun param member => scalars param (List.mem_cons_of_mem _ member))
      fun key text member => plain key text (List.mem_cons_of_mem _ member)
    have total : stringTotal ((key, value) :: params) = weight value + stringTotal params :=
      stringTotal_cons _ _
    rw [total]
    cases params with
    | nil =>
      have none : stringTotal [] = 0 := rfl
      have spelled (value : Json) : Json.dumpsFields json.floatText [(key, value)] =
          Json.quote key.toList ++ ([':', ' '] ++ Json.dumps json.floatText value) := rfl
      simp only [skeleton, List.map_cons, List.map_nil, spelled, measure.append, none]
      omega
    | cons next params =>
      have spelled (value : Json) (next : String × Json) (params : List (String × Json)) :
          Json.dumpsFields json.floatText ((key, value) :: next :: params) =
            Json.quote key.toList ++ ([':', ' '] ++ (Json.dumps json.floatText value ++
              ([',', ' '] ++ Json.dumpsFields json.floatText (next :: params)))) := rfl
      simp only [skeleton, List.map_cons, spelled, measure.append] at later ⊢
      omega

/-- An envelope measures as its skeleton and the texts in it. -/
theorem measure_envelope (plain : PlainParams params) :
    μ (envelope json code params) = μ (envelope json code (skeleton params)) + stringTotal params := by
  have blank : (skeleton params).Pairwise fun a b => a.1 ≤ b.1 := by
    rw [skeleton, List.pairwise_map]
    exact plain.ordered
  obtain ⟨key, text⟩ := plain.texts
  have nonempty : (skeleton params).isEmpty = false := by
    rw [List.isEmpty_eq_false_iff]
    exact List.ne_nil_of_mem text
  have nonempty' : params.isEmpty = false := by
    rw [skeleton, List.isEmpty_map] at nonempty
    exact nonempty
  have fields : μ (Json.dumpsFields json.floatText params) =
      μ (Json.dumpsFields json.floatText (skeleton params)) + stringTotal params :=
    measure_fields measure params plain.scalars plain.plain
  have spelled (params : List (String × Json)) (some_ : params.isEmpty = false)
      (ordered : params.Pairwise fun a b => a.1 ≤ b.1) : envelope json code params =
        ('[' :: code.toList ++ [']', ' ', '\x7b']) ++
          (Json.dumpsFields json.floatText params ++ ['\x7d']) := by
    rw [envelope, byKey_of_ordered ordered, some_, if_neg Bool.false_ne_true, List.append_assoc]
    rfl
  rw [spelled params nonempty' plain.ordered, spelled _ nonempty blank]
  simp only [measure.append]
  omega

end Measured

section Exact

variable {json : Json.Module} {code : String} {reason : List Char} {limit : Nat}
  {params left : List (String × Json)}

theorem cuts_text (cuts : Cuts params left) {key text : String} (member : (key, .str text) ∈ left)
    (scalars : ∀ param ∈ params, param.2.isScalar = true) :
    ∃ whole : String, (key, .str whole) ∈ params ∧ text.toList <+: whole.toList := by
  induction cuts with
  | nil => cases member
  | @cons before after _ _ head _ ih =>
    obtain ⟨first, later⟩ := List.forall_mem_cons.mp scalars
    cases List.mem_cons.mp member with
    | inl here =>
      obtain ⟨key', value⟩ := before
      obtain ⟨rfl, cut⟩ := here ▸ head
      cases value with
      | str whole =>
        obtain ⟨part, same, shorter⟩ := cut
        obtain rfl := Json.str.inj same
        exact ⟨whole, List.mem_cons_self, shorter⟩
      | arr _ | obj _ => cases first
      | _ => cases cut
    | inr inside =>
      obtain ⟨whole, old, shorter⟩ := ih inside later
      exact ⟨whole, List.mem_cons_of_mem _ old, shorter⟩

theorem plain_cuts (cuts : Cuts params left) (plain : PlainParams params) : PlainParams left := by
  have keys := cuts_keys cuts
  refine ⟨?_, keys ▸ plain.distinct, scalars_cuts cuts plain.scalars, ?_, ?_⟩
  · have ordered := plain.ordered
    rw [← List.pairwise_map (f := Prod.fst) (R := fun a b : String => a ≤ b)] at ordered ⊢
    rwa [keys]
  · intro key text member
    obtain ⟨whole, inside, shorter⟩ := cuts_text cuts member plain.scalars
    exact fun c inText => plain.plain key whole inside c (shorter.subset inText)
  · rw [skeleton_cuts cuts]
    exact plain.texts

/-- The length of an envelope, in terms of what is left of the texts. -/
theorem length_envelope (json : Json.Module) (code : String) (plain : PlainParams params) :
    (envelope json code params).length =
      (envelope json code (skeleton params)).length + stringTotal params :=
  measure_envelope measure_length plain

theorem dropCount_le (deficit length : Nat) : dropCount deficit length ≤ max deficit 1 := by
  unfold dropCount
  split_ifs <;> omega

/-- The loop meets the limit exactly. -/
theorem shrink_exact (fuel : Nat) (plain : PlainParams params) (enough : stringTotal params < fuel)
    (room : (envelope json code (skeleton params)).length ≤ limit)
    (long : limit ≤ (envelope json code params).length) :
    ∃ left, shrink json code reason limit fuel params = some (envelope json code left) ∧
      Cuts params left ∧ (envelope json code left).length = limit := by
  induction fuel generalizing params with
  | zero => exact absurd enough (Nat.not_lt_zero _)
  | succ fuel ih =>
    unfold shrink
    by_cases fits : (envelope json code params).length ≤ limit
    · exact ⟨params, if_pos fits, cuts_refl, by omega⟩
    · have total := length_envelope json code plain
      simp only [if_neg fits]
      cases isLongest : longest params with
      | none =>
        obtain ⟨key, member⟩ := plain.texts
        obtain ⟨text, isText⟩ := text_of_skeleton plain.scalars member
        have inside := mem_stringParams.mpr isText
        rw [List.argmax_eq_none.mp isLongest] at inside
        cases inside
      | some param =>
        obtain ⟨key, text⟩ := param
        by_cases blank : text.length = 0
        · rw [skeleton_of_longest isLongest blank plain.scalars] at room
          exact absurd room fits
        · have open_ : ¬text.isEmpty = true := by
            intro empty
            rw [String.isEmpty_iff.mp empty] at blank
            exact blank rfl
          simp only [if_neg open_]
          have beyond : 0 < (envelope json code params).length - limit := by omega
          have drops := dropCount_pos beyond (Nat.pos_of_ne_zero blank)
          have most := dropCount_le ((envelope json code params).length - limit) text.length
          obtain ⟨cuts, less⟩ := shrink_step plain.distinct isLongest drops.2
          have plain' := plain_cuts cuts plain
          have total' := length_envelope json code plain'
          rw [skeleton_cuts cuts] at total'
          obtain ⟨left, ended, cuts', exactly⟩ := ih plain' (by omega)
            (by rw [skeleton_cuts cuts]; exact room) (by omega)
          exact ⟨left, ended, cuts_trans cuts cuts', exactly⟩

theorem plain_nonempty (plain : PlainParams params) : params ≠ [] := by
  rintro rfl
  obtain ⟨key, member⟩ := plain.texts
  cases member

/-- A cut of a plain reason. -/
theorem boundReason_plain (known : code ∈ failureCodes) (plain : PlainParams params)
    (room : (envelope json code (skeleton params)).length ≤ limit) :
    ∃ left, boundReason json (envelope json code params) limit = some (envelope json code left) ∧
      Cuts params left ∧
      (envelope json code left).length = min (envelope json code params).length limit := by
  by_cases fits : (envelope json code params).length ≤ limit
  · exact ⟨params, if_pos fits, cuts_refl, (Nat.min_eq_left fits).symm⟩
  · have parses : ∃ dict : Dict String Json, parseFailure json (envelope json code params) =
        some (code, dict) ∧ dict.entries = byKey params :=
      parseFailure_envelope known (plain_nonempty plain) plain.distinct plain.scalars
    obtain ⟨dict, parsed, entries⟩ := parses
    rw [byKey_of_ordered plain.ordered] at entries
    have same : shrinkables json params = params := by
      unfold shrinkables
      conv_rhs => rw [← List.map_id params]
      apply List.map_congr_left
      rintro ⟨key, value⟩ member
      have scalar := plain.scalars _ member
      cases value with
      | arr _ | obj _ => cases scalar
      | _ => rfl
    have long : limit < (envelope json code params).length := by omega
    obtain ⟨-, loops⟩ := boundReason_eq json long parsed (entries ▸ plain.texts)
    rw [entries, same] at loops
    have exactly : ∃ left, shrink json code (envelope json code params) limit
        (stringTotal params + 1) params = some (envelope json code left) ∧ Cuts params left ∧ _ :=
      shrink_exact _ plain (Nat.lt_succ_self _) room (Nat.le_of_lt long)
    obtain ⟨left, ended, cuts, length⟩ := exactly
    refine ⟨left, loops.trans ended, cuts, ?_⟩
    rw [length]
    omega

end Exact

end ArcReel.Queue.TaskFailure
