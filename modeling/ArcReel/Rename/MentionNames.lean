import ArcReel.Rename.MentionRewrite

/-! A rename rewrites exactly the renamed mentions of a text, where it makes no further mention. -/

namespace ArcReel.Rename
open Lib PyText Mention Speech

section Rewrite

/-- The spans of the mentions among tokens that start at a position. -/
def spansOf : Nat → List Token → List MentionSpan
  | _, [] => []
  | position, .plain _ :: rest => spansOf (position + 1) rest
  | position, .mention raw name :: rest =>
      ⟨position, position + raw.length, name⟩ :: spansOf (position + raw.length) rest

theorem spans_tokensFrom (previous : Option Char) (position skip : Nat) (text : List Char)
    (inside : skip ≤ text.length) : iterFrom previous position skip text =
      spansOf (position + skip) (tokensFrom previous skip text) := by
  induction text generalizing previous position skip with
  | nil => rw [iterFrom, tokensFrom, spansOf]
  | cons c text ih =>
    cases skip with
    | succ skip =>
      rw [iterFrom, tokensFrom, ih _ _ _ (Nat.le_of_succ_le_succ inside)]
      congr 1
      omega
    | zero =>
      rw [iterFrom, tokensFrom]
      have bounded : ∀ length name, (if c = '@' ∧ previous.any isAsciiWordChar = false
          then mentionAt text else none) = some (length, name) → length ≤ text.length := by
        intro length name found
        split_ifs at found
        exact length_of_mentionAt found
      generalize (if c = '@' ∧ previous.any isAsciiWordChar = false then mentionAt text
        else none) = found at bounded ⊢
      cases found with
      | some pair =>
        have fits := bounded pair.1 pair.2 rfl
        have size : (c :: text.take pair.1).length = 1 + pair.1 := by
          rw [List.length_cons, List.length_take, Nat.min_eq_left fits, Nat.add_comm]
        simp only [spansOf, size, ih _ _ _ fits, Nat.add_zero, Nat.add_assoc]
      | none =>
        dsimp only
        rw [spansOf, ih _ _ _ (Nat.zero_le _)]

theorem iterMentions_eq (text : List Char) : iterMentions text = spansOf 0 (tokensOf text) :=
  spans_tokensFrom none 0 0 text (Nat.zero_le _)

theorem names_spansOf (position : Nat) (tokens : List Token) :
    (spansOf position tokens).map MentionSpan.name = tokens.filterMap Token.name? := by
  induction tokens generalizing position with
  | nil => rfl
  | cons token tokens ih =>
    cases token with
    | plain c => exact ih (position + 1)
    | mention raw name =>
      rw [spansOf, List.map_cons, ih]
      rfl

/-- A text and the text in which the spans are replaced, from a position on. -/
inductive Replaced (replacement : List Char) : Nat → List Char → List MentionSpan → List Char → Prop
  | done (position : Nat) : Replaced replacement position [] [] []
  | keep {position : Nat} {text text' : List Char} {spans : List MentionSpan} (c : Char) :
      Replaced replacement (position + 1) text spans text' →
      Replaced replacement position (c :: text) spans (c :: text')
  | span {position : Nat} {text text' : List Char} {spans : List MentionSpan} (raw name : List Char) :
      Replaced replacement (position + raw.length) text spans text' →
      Replaced replacement position (raw ++ text) (⟨position, position + raw.length, name⟩ :: spans)
        (replacement ++ text')

theorem Replaced.keep_all {replacement : List Char} (kept : List Char) {position : Nat}
    {text text' : List Char} {spans : List MentionSpan}
    (later : Replaced replacement (position + kept.length) text spans text') :
    Replaced replacement position (kept ++ text) spans (kept ++ text') := by
  induction kept generalizing position with
  | nil => exact later
  | cons c kept ih =>
    apply Replaced.keep c
    apply ih
    rwa [List.length_cons, Nat.add_comm kept.length, ← Nat.add_assoc] at later

variable {renamed : List Char → Bool} {new : List Char}

theorem replaced_tokens (position : Nat) (tokens : List Token) :
    Replaced ('@' :: '[' :: (new ++ [']'])) position (written tokens)
      ((spansOf position tokens).filter fun span => renamed span.name)
      (rewrittenText renamed new tokens) := by
  induction tokens generalizing position with
  | nil => exact .done position
  | cons token tokens ih =>
    cases token with
    | plain c => exact .keep c (ih (position + 1))
    | mention raw name =>
      rw [written_mention, spansOf]
      by_cases change : renamed name = true
      · rw [List.filter_cons_of_pos (p := fun span : MentionSpan => renamed span.name) change, rewrittenText, List.map_cons, Token.rewrite, if_pos change]
        exact .span raw name (ih (position + raw.length))
      · rw [List.filter_cons_of_neg (p := fun span : MentionSpan => renamed span.name) change, rewritten_kept (eq_false_of_ne_true change)]
        exact .keep_all raw (ih (position + raw.length))

variable (u : Unicode) (oldName : String)

/-- A name that is renamed. -/
def isRenamed (name : List Char) : Bool :=
  assetNameComparisonKey u name = assetNameComparisonKey u oldName.toList

theorem isRenamed_iff (name : List Char) : isRenamed u oldName name = true ↔
    comparisonKey u (String.ofList name) = comparisonKey u oldName := by
  rw [isRenamed, decide_eq_true_eq, comparisonKey, comparisonKey, String.ofList_inj, String.toList_ofList]

/-- The loop of `rewrite_mentions` writes the tokens under the new name and counts the renamed ones. -/
theorem go_tokens (before : List Char) (last : Nat) (tokens : List Token)
    (place : last ≤ before.length)
    (changes : ∀ raw name, .mention raw name ∈ tokens → isRenamed u oldName name = true →
      raw ≠ '@' :: '[' :: (new ++ [']'])) :
    rewriteMentions.go u oldName (before ++ written tokens) ('@' :: '[' :: (new ++ [']'])) last
        (spansOf before.length tokens) =
      (before.drop last ++ rewrittenText (isRenamed u oldName) new tokens,
        (tokens.filterMap Token.name?).countP (isRenamed u oldName)) := by
  induction tokens generalizing before last with
  | nil =>
    rw [spansOf, rewriteMentions.go]
    simp [rewrittenText]
  | cons token tokens ih =>
    have rest := fun raw name member => changes raw name (List.mem_cons_of_mem _ member)
    cases token with
    | plain c =>
      have later := ih (before ++ [c]) last (by rw [List.length_append]; omega) rest
      rw [List.append_assoc, List.length_append, List.drop_append_of_le_length place,
        List.append_assoc] at later
      exact later
    | mention raw name =>
      have whole : before ++ written (.mention raw name :: tokens) = before ++ raw ++ written tokens := by
        rw [written_mention, List.append_assoc]
      have here : ((before ++ raw ++ written tokens).take (before.length + raw.length)).drop
          before.length = raw := by
        rw [List.take_left' (by rw [List.length_append]), List.drop_left]
      have front : (before ++ raw ++ written tokens).take before.length = before := by
        rw [List.append_assoc, List.take_left]
      rw [whole, spansOf, rewriteMentions.go]
      dsimp only
      rw [here, front]
      by_cases change : isRenamed u oldName name = true
      · have other := changes raw name List.mem_cons_self change
        have same := (isRenamed_iff u oldName name).mp change
        have later := ih (before ++ raw) (before.length + raw.length) (by rw [List.length_append]) rest
        rw [List.length_append, List.drop_of_length_le (by rw [List.length_append]),
          List.nil_append] at later
        rw [if_neg (by simp [same, other]), later, rewritten_renamed change]
        simp [Token.name?, change]
      · have other := fun same => change ((isRenamed_iff u oldName name).mpr same)
        have later := ih (before ++ raw) last (by rw [List.length_append]; omega) rest
        rw [List.length_append, List.drop_append_of_le_length place] at later
        rw [if_pos (.inl other), later, rewritten_kept (eq_false_of_ne_true change)]
        simp [Token.name?, change]

end Rewrite

section Weight

/-- The `@` of mentions with these names. -/
def weight (names : List (List Char)) : Nat := (names.map fun name => 1 + name.count '@').sum

theorem weight_cons (name : List Char) (names : List (List Char)) :
    weight (name :: names) = 1 + name.count '@' + weight names := rfl

theorem count_at_raw {previous : Option Char} {raw name : List Char} {rest : List Token}
    (valid : Valid previous (.mention raw name :: rest)) : raw.count '@' = 1 + name.count '@' := by
  rcases raw_of_valid valid with ⟨shape, _⟩ | ⟨shape, _⟩
  · rw [shape]
    simp [List.count_append, Nat.add_comm]
  · rw [shape, List.count_cons_self, Nat.add_comm]

theorem strays_plain (c : Char) (tokens : List Token) :
    strays (.plain c :: tokens) = strays tokens + if c = '@' then 1 else 0 := by
  rw [strays, strays, List.countP_cons]
  simp

theorem strays_mention (raw name : List Char) (tokens : List Token) :
    strays (.mention raw name :: tokens) = strays tokens := List.countP_cons_of_neg (by simp)

theorem rewrite_unchanged {renamed : List Char → Bool} {new : List Char} {tokens : List Token}
    (none : (tokens.filterMap Token.name?).countP renamed = 0) :
    tokens.map (Token.rewrite renamed new) = tokens := by
  conv_rhs => rw [← List.map_id tokens]
  apply List.map_congr_left
  intro token member
  cases token with
  | plain c => rfl
  | mention raw name =>
    have inside : name ∈ tokens.filterMap Token.name? := List.mem_filterMap.mpr ⟨_, member, rfl⟩
    rw [Token.rewrite, if_neg (List.countP_eq_zero.mp none name inside)]
    rfl

/-- Every `@` of the new text is a stray one of the old text or in a mention. -/
theorem count_at_rewritten (renamed : List Char → Bool) (new : List Char) {previous : Option Char}
    {tokens : List Token} (valid : Valid previous tokens) :
    (rewrittenText renamed new tokens).count '@' = strays tokens +
      weight ((tokens.filterMap Token.name?).map fun name => if renamed name then new else name) := by
  induction tokens generalizing previous with
  | nil => rfl
  | cons token tokens ih =>
    cases token with
    | plain c =>
      have later := ih valid.2
      rw [rewritten_plain, List.count_cons, later, strays_plain]
      simp only [Token.name?, List.filterMap_cons, beq_iff_eq]
      omega
    | mention raw name =>
      have later := ih valid.2.2
      rw [strays_mention, List.filterMap_cons_some (show Token.name? (.mention raw name) = some name from rfl),
        List.map_cons, weight_cons]
      by_cases change : renamed name = true
      · rw [rewritten_renamed change, if_pos change, List.count_cons_self, List.count_cons,
          List.count_append, List.count_cons, later]
        simp
        omega
      · rw [rewritten_kept (eq_false_of_ne_true change), if_neg change, List.count_append,
          count_at_raw valid, later]
        omega

theorem count_at_written {previous : Option Char} {tokens : List Token} (valid : Valid previous tokens) :
    (written tokens).count '@' = strays tokens + weight (tokens.filterMap Token.name?) := by
  have unchanged := count_at_rewritten (fun _ => false) [] valid
  rw [rewrittenText, rewrite_unchanged (List.countP_eq_zero.mpr fun _ _ => Bool.false_ne_true)] at unchanged
  simpa using unchanged

/-- Normalization makes no `@` and no `]` and loses none. -/
structure KeepsMarks (u : Unicode) : Prop where
  count : ∀ c, c = '@' ∨ c = ']' → ∀ text, (u.nfc text).count c = text.count c

theorem weight_keys {u : Unicode} (keeps : KeepsMarks u) (names : List (List Char)) :
    weight (names.map (assetNameComparisonKey u)) = weight names := by
  unfold weight
  rw [List.map_map]
  congr 1
  apply List.map_congr_left
  intro name _
  rw [Function.comp_apply, assetNameComparisonKey, keeps.count '@' (.inl rfl),
    count_strip (by decide)]

theorem names_rewrite (renamed : List Char → Bool) (new : List Char) (tokens : List Token) :
    (tokens.map (Token.rewrite renamed new)).filterMap Token.name? =
      (tokens.filterMap Token.name?).map fun name => if renamed name then new else name := by
  induction tokens with
  | nil => rfl
  | cons token tokens ih =>
    cases token with
    | plain c => exact ih
    | mention raw name =>
      rw [List.map_cons, Token.rewrite]
      by_cases change : renamed name = true
      · simp [change, Token.name?, ih]
      · simp [change, Token.name?, ih]

end Weight

section Renaming

variable (u : Unicode)

/-- The names of the mentions of a text, as they are compared. -/
def mentionKeys (text : List Char) : List (List Char) :=
  (iterMentions text).map fun mention => assetNameComparisonKey u mention.name

/-- Exactly the mentions of the old name are rewritten: the names are those before with the new for the
old, that many rewrites are counted, and all other characters are kept in place. -/
def RenamesExactly (text oldName newName : String) : Prop :=
  let result := rewriteMentions u text oldName newName
  let oldKey := assetNameComparisonKey u oldName.toList
  mentionKeys u result.1.toList = (mentionKeys u text.toList).map (fun key =>
      if key = oldKey then assetNameComparisonKey u newName.toList else key) ∧
    result.2 = (mentionKeys u text.toList).count oldKey ∧
    Replaced ('@' :: '[' :: (newName.toList ++ [']'])) 0 text.toList
      ((iterMentions text.toList).filter fun mention => isRenamed u oldName mention.name)
      result.1.toList

/-- No `@` outside of the mentions becomes one by the rename, and where there is something to rename the
new name has no line break around it. -/
def KeepsMentions (text oldName newName : String) : Prop :=
  Stable (isRenamed u oldName) none (tokensOf text.toList) ∧
    (assetNameComparisonKey u oldName.toList ∈ mentionKeys u text.toList →
      '\r' ∉ newName.toList ∧ '\n' ∉ newName.toList)

variable {u}

theorem mentionKeys_eq (text : List Char) : mentionKeys u text =
    ((tokensOf text).filterMap Token.name?).map (assetNameComparisonKey u) := by
  rw [mentionKeys, iterMentions_eq, ← names_spansOf 0, List.map_map]
  rfl

theorem count_mentionKeys (text : List Char) (oldName : String) :
    (mentionKeys u text).count (assetNameComparisonKey u oldName.toList) =
      ((tokensOf text).filterMap Token.name?).countP (isRenamed u oldName) := by
  rw [mentionKeys_eq, List.count, List.countP_map]
  apply List.countP_congr
  intro name _
  simp [isRenamed]

theorem wrapped_name {raw name new : List Char} {previous : Option Char} {rest : List Token}
    (valid : Valid previous (.mention raw name :: rest)) (same : raw = '@' :: '[' :: (new ++ [']'])) :
    name = new := by
  rcases raw_of_valid valid with ⟨shape, _⟩ | ⟨shape, bare⟩
  · rw [same] at shape
    simp only [List.cons.injEq, true_and] at shape
    exact (List.append_inj' shape rfl).1.symm
  · rw [same, List.cons.injEq] at shape
    have legacy := bare.2.1 '[' (by rw [← shape.2]; exact List.mem_cons_self)
    rw [not_legacy_bracket] at legacy
    cases legacy

theorem name_of_replacement {raw name new : List Char} {previous : Option Char} {tokens : List Token}
    (valid : Valid previous tokens) (member : .mention raw name ∈ tokens)
    (same : raw = '@' :: '[' :: (new ++ [']'])) : name = new := by
  induction tokens generalizing previous with
  | nil => cases member
  | cons token tokens ih =>
    rcases List.mem_cons.mp member with here | later
    · rw [← here] at valid
      exact wrapped_name valid same
    · cases token with
      | plain c => exact ih valid.2 later
      | mention raw' name' => exact ih valid.2.2 later

/-- What `rewrite_mentions` gives. -/
theorem rewriteMentions_eq {oldName newName : String}
    (different : comparisonKey u oldName ≠ comparisonKey u newName) (text : String) :
    (rewriteMentions u text oldName newName).1.toList =
        rewrittenText (isRenamed u oldName) newName.toList (tokensOf text.toList) ∧
      (rewriteMentions u text oldName newName).2 =
        ((tokensOf text.toList).filterMap Token.name?).countP (isRenamed u oldName) := by
  have gone := @go_tokens newName.toList u oldName [] 0 (tokensOf text.toList) le_rfl (by
    intro raw name member change same
    apply different
    have names := name_of_replacement (valid_tokensFrom none text.toList) member same
    rw [← (isRenamed_iff u oldName name).mp change, names, String.ofList_toList])
  rw [List.nil_append, written_tokensOf, List.drop_nil, List.nil_append] at gone
  have result : rewriteMentions.go u oldName text.toList
      ("@[".toList ++ newName.toList ++ [']']) 0 (iterMentions text.toList) =
        (rewrittenText (isRenamed u oldName) newName.toList (tokensOf text.toList),
          ((tokensOf text.toList).filterMap Token.name?).countP (isRenamed u oldName)) := by
    rw [iterMentions_eq]
    exact gone
  unfold rewriteMentions
  dsimp only
  rw [result]
  by_cases none : ((tokensOf text.toList).filterMap Token.name?).countP (isRenamed u oldName) = 0
  · rw [if_pos none, none]
    rw [rewrittenText, rewrite_unchanged none, written_tokensOf]
    exact ⟨rfl, rfl⟩
  · rw [if_neg none]
    exact ⟨String.toList_ofList, rfl⟩

/-- A name that is accepted is not empty and closes no bracket. -/
theorem accepted_name (keeps : KeepsMarks u) {name : String}
    (accepted : (validateAssetName u name).isSome = true) :
    name.toList ≠ [] ∧ ']' ∉ name.toList := by
  unfold validateAssetName at accepted
  dsimp only at accepted
  split at accepted
  · cases accepted
  · next filled =>
    split at accepted
    · cases accepted
    · next legal =>
      constructor
      · intro none
        rw [none] at filled
        apply filled
        rw [show strip [] = [] from rfl, nfc_nil]
        rfl
      · intro member
        apply legal
        have stripped := mem_strip (by decide) member
        have counted := List.count_pos_iff.mpr stripped
        rw [← keeps.count ']' (.inr rfl)] at counted
        have inside := List.count_pos_iff.mp counted
        have illegal : (u.nfc (strip name.toList)).any (· ∈ illegalAssetNameChars) = true :=
          List.any_eq_true.mpr ⟨']', inside, by decide⟩
        rw [illegal, Bool.or_true, Bool.true_or]

theorem keys_rewrite (names : List (List Char)) (oldName newName : String) :
    (names.map fun name => if isRenamed u oldName name then newName.toList else name).map
        (assetNameComparisonKey u) =
      (names.map (assetNameComparisonKey u)).map fun key =>
        if key = assetNameComparisonKey u oldName.toList then
          assetNameComparisonKey u newName.toList else key := by
  rw [List.map_map, List.map_map]
  apply List.map_congr_left
  intro name _
  by_cases change : assetNameComparisonKey u name = assetNameComparisonKey u oldName.toList
  · simp [isRenamed, change]
  · simp [isRenamed, change]

/-- A rename rewrites exactly the renamed mentions of a text if it keeps the other mentions, and only
then if the new name has no line break around it. -/
theorem renames_exactly_iff (keeps : KeepsMarks u) {oldName newName : String}
    (accepted : (validateAssetName u newName).isSome = true)
    (different : comparisonKey u oldName ≠ comparisonKey u newName) (text : String) :
    (KeepsMentions u text oldName newName → RenamesExactly u text oldName newName) ∧
      ('\r' ∉ newName.toList → '\n' ∉ newName.toList →
        RenamesExactly u text oldName newName → KeepsMentions u text oldName newName) := by
  obtain ⟨written_eq, count_eq⟩ := rewriteMentions_eq different text
  obtain ⟨filled, closed⟩ := accepted_name keeps accepted
  have valid : Valid none (tokensOf text.toList) := valid_tokensFrom none text.toList
  have wrappable : '\r' ∉ newName.toList → '\n' ∉ newName.toList → Wrappable newName.toList :=
    fun carriage newline => ⟨filled, fun c member =>
      ⟨fun same => closed (same ▸ member), fun same => carriage (same ▸ member),
        fun same => newline (same ▸ member)⟩⟩
  constructor
  · rintro ⟨stable, unbroken⟩
    have tokens : tokensOf (rewrittenText (isRenamed u oldName) newName.toList (tokensOf text.toList)) =
        (tokensOf text.toList).map (Token.rewrite (isRenamed u oldName) newName.toList) := by
      apply tokensFrom_written
      by_cases none : ((tokensOf text.toList).filterMap Token.name?).countP (isRenamed u oldName) = 0
      · rw [rewrite_unchanged none]
        exact valid
      · have present : assetNameComparisonKey u oldName.toList ∈ mentionKeys u text.toList := by
          rw [← List.count_pos_iff, count_mentionKeys]
          exact Nat.pos_of_ne_zero none
        obtain ⟨carriage, newline⟩ := unbroken present
        exact valid_rewritten (wrappable carriage newline) valid stable id rfl
    refine ⟨?_, ?_, ?_⟩
    · rw [written_eq, mentionKeys_eq, tokens, names_rewrite, keys_rewrite, ← mentionKeys_eq]
    · rw [count_eq, count_mentionKeys]
    · rw [written_eq, iterMentions_eq]
      conv => arg 3; rw [← written_tokensOf text.toList]
      exact replaced_tokens 0 (tokensOf text.toList)
  · rintro carriage newline ⟨keys, _⟩
    refine ⟨?_, fun _ => ⟨carriage, newline⟩⟩
    apply (strays_rewritten (wrappable carriage newline) valid id).2
    have before := count_at_rewritten (isRenamed u oldName) newName.toList valid
    have after := count_at_written (valid_tokensFrom none
      (rewrittenText (isRenamed u oldName) newName.toList (tokensOf text.toList)))
    have weights : weight (((tokensOf text.toList).filterMap Token.name?).map fun name =>
        if isRenamed u oldName name then newName.toList else name) =
          weight ((tokensFrom none 0 (rewrittenText (isRenamed u oldName) newName.toList
            (tokensOf text.toList))).filterMap Token.name?) := by
      rw [← weight_keys keeps, keys_rewrite, ← mentionKeys_eq, ← keys, written_eq, mentionKeys_eq,
        weight_keys keeps]
      rfl
    rw [written_tokensFrom, List.drop_zero] at after
    omega

private theorem keepsMarks_plain : KeepsMarks plainUnicode := ⟨fun _ _ _ => rfl⟩

private theorem keepsMentions_walk : KeepsMentions plainUnicode "@[甲]走向@乙" "甲" "丙" := by
  have tokens : tokensOf "@[甲]走向@乙".toList = [.mention "@[甲]".toList ['甲'], .plain '走',
      .plain '向', .mention "@乙".toList ['乙']] := by decide
  constructor
  · rw [tokens]
    exact ⟨fun mark => absurd mark (by decide), fun mark => absurd mark (by decide), trivial⟩
  · intro _
    decide

theorem walk_renames_exactly : RenamesExactly plainUnicode "@[甲]走向@乙" "甲" "丙" :=
  (@renames_exactly_iff plainUnicode keepsMarks_plain "甲" "丙" (by decide)
    (by decide) "@[甲]走向@乙").1 keepsMentions_walk

/-- The bracket after a renamed bare mention: what stood behind a word character is a mention now. -/
theorem rename_makes_a_mention :
    ¬∀ text oldName newName, (validateAssetName plainUnicode oldName).isSome = true →
      (validateAssetName plainUnicode newName).isSome = true →
        comparisonKey plainUnicode oldName ≠ comparisonKey plainUnicode newName →
          RenamesExactly plainUnicode text oldName newName := by
  intro exactly
  have keys := (exactly "@Tom@Amy" "Tom" "Bob" (by decide) (by decide)
    (by decide)).1
  revert keys
  decide

end Renaming

end ArcReel.Rename
