import ArcReel.Queue.TaskFailure

/-! `bound_reason` ends within the limit, and a structured reason that it cuts keeps its code, its
keys and a prefix of each text. -/

namespace ArcReel.Queue.TaskFailure
open ArcReel.Lib

/-- A string or a container, which a cut may shorten. -/
def isShrinkable : Json → Bool
  | .str _ | .arr _ | .obj _ => true
  | _ => false

/-- What is left of a value when nothing is left of its text. -/
def emptied : Json → Json
  | .str _ | .arr _ | .obj _ => .str ""
  | value => value

/-- What a cut leaves of a parameter: a prefix of the string or of the container's text. -/
def ShrunkFrom (json : Json.Module) (value left : Json) : Prop :=
  match value with
  | .str whole => ∃ part, left = .str part ∧ part.toList <+: whole.toList
  | .arr _ | .obj _ => ∃ part, left = .str part ∧
      (json.tooDeep value = false → part.toList <+: Json.dumps json.floatText value)
  | _ => left = value

/-- What a cut leaves of a value that is no container. -/
def Cut (value left : Json) : Prop :=
  match value with
  | .str whole => ∃ part, left = .str part ∧ part.toList <+: whole.toList
  | _ => left = value

def Cuts (params left : List (String × Json)) : Prop :=
  List.Forall₂ (fun before after => after.1 = before.1 ∧ Cut before.2 after.2) params left

section Envelope

variable {json : Json.Module} {code : String} {params : List (String × Json)}

theorem word_ofList (letters : List Char) (words : letters.all isWord = true) (nonempty : letters ≠ []) :
    (String.ofList letters).toList.all isWord = true ∧ (String.ofList letters).toList ≠ [] := by
  rw [String.toList_ofList]
  exact ⟨words, nonempty⟩

theorem failureCodes_word : ∀ code ∈ failureCodes, code.toList.all isWord = true ∧ code.toList ≠ [] := by
  unfold failureCodes capabilityFailureCodes referenceProjectionFailureCodes narrationDeliveryFailureCodes
  simp only [List.cons_append, List.nil_append, List.forall_mem_cons]
  repeat' apply And.intro (word_ofList _ (by decide) (List.cons_ne_nil _ _))
  exact fun code none => absurd none List.not_mem_nil

theorem structured_envelope (known : code ∈ failureCodes) (nonempty : params ≠ []) :
    structured (envelope json code params) =
      some (code, some (Json.dumps json.floatText (.obj (byKey params)))) := by
  obtain ⟨words, written⟩ := failureCodes_word code known
  have word : ∀ c ∈ code.toList, isWord c = true := List.all_eq_true.mp words
  have some_ : params.isEmpty = false := List.isEmpty_eq_false_iff.mpr nonempty
  have stops : isWord ']' = false := by decide
  have spelled : Json.dumps json.floatText (.obj (byKey params)) =
      '\x7b' :: (Json.dumpsFields json.floatText (byKey params) ++ ['\x7d']) := rfl
  have group : objectGroup (' ' :: Json.dumps json.floatText (.obj (byKey params))) =
      some (Json.dumps json.floatText (.obj (byKey params))) := by
    rw [spelled]
    simp [objectGroup]
  have front (tail : List Char) : (code.toList ++ ']' :: tail).takeWhile isWord = code.toList ∧
      (code.toList ++ ']' :: tail).dropWhile isWord = ']' :: tail := by
    rw [List.takeWhile_append_of_pos word, List.dropWhile_append_of_pos word,
      List.takeWhile_cons_of_neg (by rw [stops]; decide),
      List.dropWhile_cons_of_neg (by rw [stops]; decide), List.append_nil]
    exact ⟨rfl, rfl⟩
  have open_ : code.toList.isEmpty = false := List.isEmpty_eq_false_iff.mpr written
  have further : atEnd (' ' :: Json.dumps json.floatText (.obj (byKey params))) = false := by
    rw [spelled]
    simp [atEnd]
  simp only [envelope, some_, structured, (front _).1, (front _).2, open_, further, group,
    Bool.false_eq_true, if_false, Option.map_some, String.ofList_toList]

theorem byKey_keys_nodup (distinct : (params.map Prod.fst).Nodup) :
    ((byKey params).map Prod.fst).Nodup :=
  ((byKey_perm params).map Prod.fst).nodup_iff.mpr distinct

/-- What `encode_failure` writes is parsed to the same code and parameters. -/
theorem parseFailure_envelope (known : code ∈ failureCodes) (nonempty : params ≠ [])
    (distinct : (params.map Prod.fst).Nodup) (scalars : ∀ param ∈ params, param.2.isScalar = true) :
    ∃ dict : Dict String Json, parseFailure json (envelope json code params) = some (code, dict) ∧
      dict.entries = byKey params := by
  have sorted := byKey_keys_nodup distinct
  have read := json.loads_dumps (byKey params) sorted fun param member =>
    scalars param ((byKey_perm params).mem_iff.mp member)
  refine ⟨Dict.ofEntries (byKey params), ?_, ?_⟩
  · simp only [parseFailure, structured_envelope known nonempty, if_pos known, loadsDict, read,
      Option.map_some]
  · exact Dict.entries_ofEntries sorted

end Envelope

section Loop

variable {json : Json.Module} {code : String} {reason : List Char} {limit : Nat}
  {params left : List (String × Json)} {key text : String}

theorem mem_stringParams : (key, text) ∈ stringParams params ↔ (key, .str text) ∈ params := by
  unfold stringParams
  rw [List.mem_filterMap]
  constructor
  · rintro ⟨⟨name, value⟩, member, read⟩
    cases value with
    | str value =>
      simp only [textOf, Option.map_some, Option.some.injEq, Prod.mk.injEq] at read
      rw [← read.1, ← read.2]
      exact member
    | _ => cases read
  · intro member
    exact ⟨_, member, rfl⟩

theorem cuts_refl : Cuts params params := by
  apply List.forall₂_same.mpr
  intro param _
  refine ⟨rfl, ?_⟩
  cases param.2 with
  | str whole => exact ⟨whole, rfl, List.prefix_refl _⟩
  | _ => rfl

theorem cut_trans {first second third : Json} (one : Cut first second) (two : Cut second third) :
    Cut first third := by
  cases first with
  | str whole =>
    obtain ⟨part, rfl, shorter⟩ := one
    obtain ⟨part', rfl, shorter'⟩ := two
    exact ⟨part', rfl, shorter'.trans shorter⟩
  | _ =>
    cases one
    exact two

theorem cuts_trans {first second third : List (String × Json)} (one : Cuts first second)
    (two : Cuts second third) : Cuts first third := by
  induction one generalizing third with
  | nil => exact two
  | cons head tail ih =>
    cases two with
    | cons head' tail' =>
      exact .cons ⟨head'.1.trans head.1, cut_trans head.2 head'.2⟩ (ih tail')

theorem cuts_keys (cuts : Cuts params left) : left.map Prod.fst = params.map Prod.fst := by
  induction cuts with
  | nil => rfl
  | cons head _ ih => rw [List.map_cons, List.map_cons, head.1, ih]

theorem emptied_cut {value left : Json} (cut : Cut value left) : emptied left = emptied value := by
  cases value with
  | str whole =>
    obtain ⟨part, rfl, -⟩ := cut
    rfl
  | _ => rw [show left = _ from cut]

/-- The parameters when nothing is left of their texts. -/
def skeleton (params : List (String × Json)) : List (String × Json) :=
  params.map fun param => (param.1, emptied param.2)

theorem skeleton_cuts (cuts : Cuts params left) : skeleton left = skeleton params := by
  induction cuts with
  | nil => rfl
  | cons head _ ih =>
    unfold skeleton at ih ⊢
    rw [List.map_cons, List.map_cons, head.1, emptied_cut head.2, ih]

theorem scalar_cut {value left : Json} (cut : Cut value left) (scalar : value.isScalar = true) :
    left.isScalar = true := by
  cases value with
  | str whole =>
    obtain ⟨part, rfl, -⟩ := cut
    rfl
  | arr _ | obj _ => cases scalar
  | _ => rw [show left = _ from cut]; rfl

theorem scalars_cuts (cuts : Cuts params left) (scalars : ∀ param ∈ params, param.2.isScalar = true) :
    ∀ param ∈ left, param.2.isScalar = true := by
  induction cuts with
  | nil => exact scalars
  | cons head _ ih =>
    obtain ⟨first, later⟩ := List.forall_mem_cons.mp scalars
    exact List.forall_mem_cons.mpr ⟨scalar_cut head.2 first, ih later⟩

def weight : Json → Nat
  | .str text => text.length
  | _ => 0

theorem stringTotal_cons (param : String × Json) (params : List (String × Json)) :
    stringTotal (param :: params) = weight param.2 + stringTotal params := by
  obtain ⟨key, value⟩ := param
  cases value with
  | str text => exact List.sum_cons
  | _ => exact (Nat.zero_add _).symm

theorem dropCount_pos {deficit length : Nat} (beyond : 0 < deficit) (nonempty : 0 < length) :
    0 < dropCount deficit length ∧ dropCount deficit length ≤ length := by
  unfold dropCount
  split_ifs
  · omega
  · omega

theorem stringTotal_replace (distinct : (params.map Prod.fst).Nodup)
    (member : (key, .str text) ∈ params) (shorter : String) :
    stringTotal (params.map fun param => if param.1 = key then (key, .str shorter) else param) +
      text.length = stringTotal params + shorter.length := by
  induction params with
  | nil => cases member
  | cons param params ih =>
    rw [List.map_cons, List.nodup_cons] at distinct
    rw [List.map_cons, stringTotal_cons, stringTotal_cons]
    by_cases same : param.1 = key
    · have here : param = (key, .str text) := by
        cases List.mem_cons.mp member with
        | inl first => exact first.symm
        | inr later => exact absurd (List.mem_map.mpr ⟨_, later, same.symm⟩) distinct.1
      have others : params.map (fun param => if param.1 = key then (key, Json.str shorter) else param) =
          params := by
        conv_rhs => rw [← List.map_id params]
        apply List.map_congr_left
        intro other inside
        apply if_neg
        intro again
        exact distinct.1 (List.mem_map.mpr ⟨other, inside, again.trans same.symm⟩)
      rw [others, here, if_pos rfl]
      simp only [weight]
      omega
    · have later : (key, Json.str text) ∈ params := by
        cases List.mem_cons.mp member with
        | inl first => exact absurd (first ▸ rfl) same
        | inr later => exact later
      have rest := ih distinct.2 later
      rw [if_neg same]
      omega

/-- What one iteration of the loop does to the parameters. -/
theorem shrink_step (distinct : (params.map Prod.fst).Nodup) (isLongest : longest params = some (key, text))
    {drop : Nat} (inside : drop ≤ text.length) :
    let next := Dict.setEntries params key
      (.str (String.ofList (text.toList.take (text.length - drop))))
    Cuts params next ∧ stringTotal next + drop = stringTotal params := by
  intro next
  have member : (key, .str text) ∈ params := mem_stringParams.mp (List.argmax_mem isLongest)
  have known : key ∈ params.map Prod.fst := List.mem_map.mpr ⟨_, member, rfl⟩
  have spelled : next = params.map fun param => if param.1 = key then
      (key, .str (String.ofList (text.toList.take (text.length - drop)))) else param := if_pos known
  have only : ∀ param ∈ params, param.1 = key → param = (key, .str text) :=
    fun param inside same => List.inj_on_of_nodup_map distinct inside member same
  constructor
  · rw [spelled, Cuts, List.forall₂_map_right_iff, List.forall₂_same]
    intro param inside
    by_cases same : param.1 = key
    · rw [if_pos same, only param inside same]
      refine ⟨rfl, _, rfl, ?_⟩
      rw [String.toList_ofList]
      exact List.take_prefix _ _
    · rw [if_neg same]
      refine ⟨rfl, ?_⟩
      cases param.2 with
      | str whole => exact ⟨whole, rfl, List.prefix_refl _⟩
      | _ => rfl
  · have replaced := stringTotal_replace distinct member
      (String.ofList (text.toList.take (text.length - drop)))
    rw [String.length_ofList, List.length_take, String.length_toList] at replaced
    rw [spelled]
    omega

theorem text_of_skeleton (scalars : ∀ param ∈ params, param.2.isScalar = true)
    (member : (key, .str "") ∈ skeleton params) : ∃ text, (key, .str text) ∈ params := by
  obtain ⟨⟨name, value⟩, inside, same⟩ := List.mem_map.mp member
  obtain ⟨rfl, isText⟩ := Prod.mk.inj same
  cases value with
  | str text => exact ⟨text, inside⟩
  | arr _ | obj _ => cases scalars _ inside
  | _ => cases isText

/-- When the longest text is empty, nothing is left of any of them. -/
theorem skeleton_of_longest (isLongest : longest params = some (key, text)) (blank : text.length = 0)
    (scalars : ∀ param ∈ params, param.2.isScalar = true) : skeleton params = params := by
  unfold skeleton
  conv_rhs => rw [← List.map_id params]
  apply List.map_congr_left
  intro param member
  obtain ⟨name, value⟩ := param
  cases value with
  | str whole =>
    have most := List.le_of_mem_argmax (mem_stringParams.mpr member) isLongest
    have none : whole = "" := by
      apply String.length_eq_zero_iff.mp
      exact Nat.le_zero.mp (blank ▸ most)
    rw [none]
    rfl
  | arr _ | obj _ => cases scalars _ member
  | _ => rfl

/-- The loop ends within the limit; it keeps the envelope if its skeleton fits. -/
theorem shrink_spec (fuel : Nat) (distinct : (params.map Prod.fst).Nodup)
    (scalars : ∀ param ∈ params, param.2.isScalar = true) (enough : stringTotal params < fuel) :
    ∃ result, shrink json code reason limit fuel params = some result ∧ result.length ≤ limit ∧
      ((∃ key, (key, .str "") ∈ skeleton params) →
        (envelope json code (skeleton params)).length ≤ limit →
        ∃ left, Cuts params left ∧ result = envelope json code left) := by
  induction fuel generalizing params with
  | zero => exact absurd enough (Nat.not_lt_zero _)
  | succ fuel ih =>
    have raw : (reason.take limit).length ≤ limit := by
      rw [List.length_take]
      exact Nat.min_le_left _ _
    unfold shrink
    by_cases fits : (envelope json code params).length ≤ limit
    · exact ⟨_, if_pos fits, fits, fun _ _ => ⟨params, cuts_refl, rfl⟩⟩
    · simp only [if_neg fits]
      cases isLongest : longest params with
      | none =>
        refine ⟨_, rfl, raw, ?_⟩
        rintro ⟨key, member⟩ _
        have nothing : stringParams params = [] := List.argmax_eq_none.mp isLongest
        obtain ⟨text, isText⟩ := text_of_skeleton scalars member
        have some_ := mem_stringParams.mpr isText
        rw [nothing] at some_
        cases some_
      | some param =>
        obtain ⟨key, text⟩ := param
        by_cases blank : text.length = 0
        · have empty : text.isEmpty = true := by rw [String.length_eq_zero_iff.mp blank]; rfl
          simp only [if_pos empty]
          refine ⟨_, rfl, raw, fun _ skeletonFits => ?_⟩
          rw [skeleton_of_longest isLongest blank scalars] at skeletonFits
          exact absurd skeletonFits fits
        · have open_ : ¬text.isEmpty = true := by
            intro empty
            rw [String.isEmpty_iff.mp empty] at blank
            exact blank rfl
          simp only [if_neg open_]
          have beyond : 0 < (envelope json code params).length - limit := by omega
          have drops := dropCount_pos beyond (Nat.pos_of_ne_zero blank)
          obtain ⟨cuts, less⟩ := shrink_step distinct isLongest drops.2
          have distinct' := cuts_keys cuts ▸ distinct
          obtain ⟨result, ended, short, kept⟩ := ih distinct' (scalars_cuts cuts scalars) (by omega)
          refine ⟨result, ended, short, fun texts skeletonFits => ?_⟩
          rw [← skeleton_cuts cuts] at texts skeletonFits
          obtain ⟨left, cuts', same⟩ := kept texts skeletonFits
          exact ⟨left, cuts_trans cuts cuts', same⟩

theorem cuts_mem (cuts : Cuts params left) {value : Json} (member : (key, value) ∈ params) :
    ∃ value', (key, value') ∈ left ∧ Cut value value' := by
  induction cuts with
  | nil => cases member
  | @cons before after _ _ head _ ih =>
    cases List.mem_cons.mp member with
    | inl first =>
      subst first
      have named : after.1 = key := head.1
      refine ⟨after.2, ?_, head.2⟩
      rw [← named]
      exact List.mem_cons_self
    | inr later =>
      obtain ⟨value', inside, cut⟩ := ih later
      exact ⟨value', List.mem_cons_of_mem _ inside, cut⟩

end Loop

section Reason

variable (json : Json.Module)

/-- The parameters with their containers as texts. -/
def shrinkables (params : List (String × Json)) : List (String × Json) :=
  params.map fun param => (param.1, asShrinkable json param.2)

theorem keys_shrinkables (params : List (String × Json)) :
    (shrinkables json params).map Prod.fst = params.map Prod.fst := by
  rw [shrinkables, List.map_map]
  rfl

theorem nodup_shrinkables (params : Dict String Json) :
    ((shrinkables json params.entries).map Prod.fst).Nodup := by
  rw [keys_shrinkables]
  exact params.distinct

theorem scalars_shrinkables (params : List (String × Json)) :
    ∀ param ∈ shrinkables json params, param.2.isScalar = true := by
  intro param member
  obtain ⟨⟨key, value⟩, -, rfl⟩ := List.mem_map.mp member
  cases value <;> rfl

theorem skeleton_shrinkables (params : List (String × Json)) :
    skeleton (shrinkables json params) = skeleton params := by
  rw [skeleton, shrinkables, List.map_map]
  apply List.map_congr_left
  rintro ⟨key, value⟩ -
  cases value <;> rfl

theorem shrunk_of_cut {value left : Json} (cut : Cut (asShrinkable json value) left) :
    ShrunkFrom json value left := by
  have container : ∀ value, Cut (.str (String.ofList (containerText json value))) left →
      ∃ part, left = .str part ∧
        (json.tooDeep value = false → part.toList <+: Json.dumps json.floatText value) := by
    rintro value ⟨part, rfl, shorter⟩
    refine ⟨part, rfl, fun shallow => ?_⟩
    rw [String.toList_ofList, containerText, shallow, if_neg Bool.false_ne_true] at shorter
    exact shorter
  cases value with
  | arr items => exact container _ cut
  | obj fields => exact container _ cut
  | _ => exact cut

theorem shrinkable_text {params : List (String × Json)}
    (some_ : ∃ param ∈ params, isShrinkable param.2 = true) :
    ∃ key, (key, .str "") ∈ skeleton params := by
  obtain ⟨⟨key, value⟩, member, shrinks⟩ := some_
  refine ⟨key, List.mem_map.mpr ⟨_, member, ?_⟩⟩
  cases value with
  | str _ | arr _ | obj _ => rfl
  | _ => cases shrinks

/-- `bound_reason` ends, within the limit. -/
theorem boundReason_short (reason : List Char) (limit : Nat) :
    ∃ result, boundReason json reason limit = some result ∧ result.length ≤ limit := by
  have raw : (reason.take limit).length ≤ limit := by
    rw [List.length_take]
    exact Nat.min_le_left _ _
  unfold boundReason
  split_ifs with fits
  · exact ⟨reason, rfl, fits⟩
  cases structured reason with
  | none => exact ⟨_, rfl, raw⟩
  | some parts =>
    obtain ⟨code, object⟩ := parts
    by_cases known : code ∈ failureCodes
    · simp only [if_pos known]
      cases object.bind (loadsDict json) with
      | none => exact ⟨_, rfl, raw⟩
      | some parsed =>
        by_cases none : (stringParams (shrinkables json parsed.entries)).isEmpty = true
        · exact ⟨_, if_pos none, raw⟩
        · have loops : ∃ result, shrink json code reason limit
              (stringTotal (shrinkables json parsed.entries) + 1)
              (shrinkables json parsed.entries) = some result ∧ result.length ≤ limit ∧ _ :=
            shrink_spec _ (nodup_shrinkables json parsed)
              (scalars_shrinkables json parsed.entries) (Nat.lt_succ_self _)
          obtain ⟨result, ended, short, -⟩ := loops
          exact ⟨result, (if_neg none).trans ended, short⟩
    · exact ⟨_, if_neg known, raw⟩

/-- A structured reason with a text is cut by the loop. -/
theorem boundReason_eq {reason : List Char} {limit : Nat} {code : String}
    {params : Dict String Json} (long : limit < reason.length)
    (parsed : parseFailure json reason = some (code, params))
    (texts : ∃ key, (key, .str "") ∈ skeleton params.entries) :
    code ∈ failureCodes ∧ boundReason json reason limit = shrink json code reason limit
      (stringTotal (shrinkables json params.entries) + 1) (shrinkables json params.entries) := by
  obtain ⟨key, member⟩ := texts
  have shaped : structured reason ≠ none := by
    intro none
    simp only [parseFailure, none] at parsed
    cases parsed
  obtain ⟨⟨code', object⟩, shape⟩ := Option.ne_none_iff_exists'.mp shaped
  simp only [parseFailure, shape] at parsed
  split_ifs at parsed with known
  cases object with
  | none =>
    obtain ⟨rfl, rfl⟩ := Prod.mk.inj (Option.some.inj parsed)
    cases member
  | some object =>
    obtain ⟨loaded, reads, same⟩ := Option.map_eq_some_iff.mp parsed
    obtain ⟨rfl, rfl⟩ := Prod.mk.inj same
    have nonempty : ¬(stringParams (shrinkables json loaded.entries)).isEmpty = true := by
      intro none
      rw [← skeleton_shrinkables json] at member
      obtain ⟨text, isText⟩ := text_of_skeleton (scalars_shrinkables json loaded.entries) member
      have inside := mem_stringParams.mpr isText
      rw [List.isEmpty_iff.mp none] at inside
      cases inside
    refine ⟨known, ?_⟩
    unfold boundReason
    rw [if_neg (Nat.not_le.mpr long), shape]
    simp only [if_pos known, Option.bind_some, reads]
    exact if_neg nonempty

/-- `bound_reason` ends within the limit: what fits is returned as it is, and of a structured reason
whose skeleton fits the code, the keys, the other scalars and a prefix of each text are kept. -/
theorem bound_reason_keeps_structure (reason : List Char) (limit : Nat) :
    ∃ result, boundReason json reason limit = some result ∧ result.length ≤ limit ∧
      (reason.length ≤ limit → result = reason) ∧
      (limit < reason.length → ∀ code (params : Dict String Json),
        parseFailure json reason = some (code, params) →
        (∃ param ∈ params.entries, isShrinkable param.2 = true) →
        (envelope json code (skeleton params.entries)).length ≤ limit →
        ∃ left : Dict String Json, parseFailure json result = some (code, left) ∧
          left.keys.Perm params.keys ∧
          ∀ key value, params.get? key = some value →
            ∃ value', left.get? key = some value' ∧ ShrunkFrom json value value') := by
  obtain ⟨result, ended, short⟩ := boundReason_short json reason limit
  refine ⟨result, ended, short, ?_, ?_⟩
  · intro fits
    rw [boundReason, if_pos fits] at ended
    exact (Option.some.inj ended).symm
  · intro long code params parsed shrinks fits
    obtain ⟨known, loops⟩ := boundReason_eq json long parsed (shrinkable_text shrinks)
    obtain ⟨key, text⟩ := shrinkable_text shrinks
    rw [← skeleton_shrinkables json] at text fits
    have spec : ∃ result, shrink json code reason limit
        (stringTotal (shrinkables json params.entries) + 1) (shrinkables json params.entries) =
          some result ∧ result.length ≤ limit ∧ _ :=
      shrink_spec _ (nodup_shrinkables json params) (scalars_shrinkables json params.entries)
        (Nat.lt_succ_self _)
    obtain ⟨result', ended', -, kept⟩ := spec
    obtain ⟨left, cuts, written⟩ := kept ⟨key, text⟩ fits
    rw [loops, ended', Option.some.injEq] at ended
    subst ended
    subst written
    have distinct : (left.map Prod.fst).Nodup := cuts_keys cuts ▸ nodup_shrinkables json params
    have nonempty : left ≠ [] := by
      rintro rfl
      rw [List.forall₂_nil_right_iff.mp cuts] at text
      cases text
    obtain ⟨dict, again, sorted⟩ := parseFailure_envelope known nonempty distinct
      (scalars_cuts cuts (scalars_shrinkables json params.entries))
    have same : dict.entries.Perm left := sorted ▸ byKey_perm left
    refine ⟨dict, again, ?_, ?_⟩
    · have keys := same.map Prod.fst
      rw [cuts_keys cuts, keys_shrinkables] at keys
      exact keys
    · intro name value found
      rw [Dict.get?_eq_some_iff] at found
      have inside : (name, asShrinkable json value) ∈ shrinkables json params.entries :=
        List.mem_map.mpr ⟨_, found, rfl⟩
      obtain ⟨value', stays, cut⟩ := cuts_mem cuts inside
      refine ⟨value', ?_, shrunk_of_cut json cut⟩
      rw [Dict.get?_eq_some_iff]
      exact same.mem_iff.mpr stays

end Reason

/-- A reason that fits keeps its container as it is. -/
theorem fitting_reason_keeps_container :
    boundReason Json.flatModule "[video_duration_invalid] \x7b\"value\": []\x7d".toList 2000 =
        some "[video_duration_invalid] \x7b\"value\": []\x7d".toList ∧
      (∃ params, parseFailure Json.flatModule
          "[video_duration_invalid] \x7b\"value\": []\x7d".toList =
            some ("video_duration_invalid", params) ∧
        params.get? "value" = some (.arr []) ∧
        (envelope Json.flatModule "video_duration_invalid" (skeleton params.entries)).length ≤ 2000) ∧
      ¬ShrunkFrom Json.flatModule (.arr []) (.arr []) := by
  refine ⟨rfl, ⟨Dict.ofEntries [("value", .arr [])], ?_, ?_, ?_⟩, ?_⟩
  · rfl
  · rfl
  · decide
  · rintro ⟨part, other, -⟩
    cases other

end ArcReel.Queue.TaskFailure
