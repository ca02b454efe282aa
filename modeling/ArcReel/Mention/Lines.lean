import ArcReel.Mention.ShotParser

/-! The lines of a text and the lines of its normalization, which are the same but for empty lines,
and the names in them. -/

namespace ArcReel.Mention
open ArcReel.Lib
open PyText

def filled (line : List Char) : Bool := !line.isEmpty

/-- Two lists of lines with the same first line that differ later by empty lines only. -/
def SameLines (first second : List (List Char)) : Prop :=
  first.headD [] = second.headD [] ∧ first.tail.filter filled = second.tail.filter filled

theorem filter_filled (lines : List (List Char)) :
    lines.filter filled = [lines.headD []].filter filled ++ lines.tail.filter filled := by
  cases lines with
  | nil => rfl
  | cons line later =>
    rw [List.headD_cons, List.tail_cons, ← List.filter_append]
    rfl

theorem SameLines.filter_eq {first second : List (List Char)} (same : SameLines first second) :
    first.filter filled = second.filter filled := by
  rw [filter_filled first, filter_filled second, same.1, same.2]

theorem sameLines_consLine {first second : List (List Char)} (same : SameLines first second)
    (c : Char) : SameLines (consLine c first) (consLine c second) := by
  cases first with
  | nil =>
    cases second with
    | nil => exact ⟨rfl, rfl⟩
    | cons line later =>
      rw [SameLines, List.headD_nil, List.headD_cons] at same
      exact ⟨by rw [← same.1]; rfl, same.2⟩
  | cons line later =>
    cases second with
    | nil =>
      rw [SameLines, List.headD_nil, List.headD_cons] at same
      exact ⟨by rw [same.1]; rfl, same.2⟩
    | cons other others =>
      rw [SameLines, List.headD_cons, List.headD_cons] at same
      exact ⟨by rw [same.1]; rfl, same.2⟩

theorem splitOnP_cons_of_break {c : Char} (isBreak : isLineBreak c = true) (rest : List Char) :
    (c :: rest).splitOnP isLineBreak = [] :: rest.splitOnP isLineBreak := by
  rw [List.splitOnP_cons_eq_if_modifyHead, if_pos isBreak]

theorem splitOnP_cons_of_plain {c : Char} (plain : isLineBreak c = false) (rest : List Char) :
    (c :: rest).splitOnP isLineBreak = consLine c (rest.splitOnP isLineBreak) := by
  rw [List.splitOnP_cons_eq_if_modifyHead, if_neg (by simp [plain])]
  cases lines : rest.splitOnP isLineBreak with
  | nil => exact absurd lines (List.splitOnP_ne_nil _ _)
  | cons line later => rfl

theorem sameLines_break {first second : List (List Char)} (same : SameLines first second) :
    SameLines ([] :: first) ([] :: second) := ⟨rfl, same.filter_eq⟩

/-- `\r\n` is one break for `splitlines` and two for the split at every break. -/
theorem sameLines_splitlines (text : List Char) :
    SameLines (splitlines text) (text.splitOnP isLineBreak) := by
  induction text using splitlines.induct with
  | case1 => exact ⟨rfl, rfl⟩
  | case2 rest ih =>
    rw [splitlines, splitOnP_cons_of_break (by decide), splitOnP_cons_of_break (by decide)]
    refine ⟨rfl, ?_⟩
    rw [List.tail_cons, List.tail_cons, ih.filter_eq]
    rfl
  | case3 c rest notPair isBreak ih =>
    rw [splitlines, if_pos isBreak, splitOnP_cons_of_break isBreak]
    · exact sameLines_break ih
    · exact notPair
  | case4 c rest notPair plain ih =>
    rw [splitlines, if_neg plain, splitOnP_cons_of_plain (eq_false_of_ne_true plain)]
    · exact sameLines_consLine ih c
    · exact notPair

theorem splitlines_filled (text : List Char) :
    (splitlines text).filter filled = (text.splitOnP isLineBreak).filter filled :=
  (sameLines_splitlines text).filter_eq

section Normalize

variable (u : Unicode)

theorem ne_bom_of_break {c : Char} (isBreak : isLineBreak c = true) : c ≠ bom := by
  intro same
  rw [same] at isBreak
  revert isBreak
  decide

theorem normalizeSource_break {c : Char} (isBreak : isLineBreak c = true) (before after : List Char) :
    normalizeSource u (before ++ c :: after) =
      normalizeSource u before ++ c :: normalizeSource u after := by
  unfold normalizeSource
  rw [List.filter_append, List.filter_cons_of_pos (by simpa using ne_bom_of_break isBreak),
    u.nfc_break _ _ _ isBreak]

theorem plain_normalizeSource {line : List Char} (plain : ∀ c ∈ line, isLineBreak c = false) :
    ∀ c ∈ normalizeSource u line, isLineBreak c = false := by
  intro c member
  by_contra isBreak
  have inside := u.mem_of_mem_nfc c _ (.inl (eq_true_of_ne_false isBreak)) member
  exact isBreak (plain c (List.mem_of_mem_filter inside))

/-- The pieces between line breaks are normalized one by one. -/
theorem splitOnP_normalizeSource (text : List Char) :
    (normalizeSource u text).splitOnP isLineBreak =
      (text.splitOnP isLineBreak).map (normalizeSource u) := by
  induction length : text.length using Nat.strong_induction_on generalizing text with
  | _ size ih =>
    by_cases plain : ∀ c ∈ text, isLineBreak c = false
    · rw [List.splitOnP_eq_singleton plain, List.splitOnP_eq_singleton (plain_normalizeSource u plain)]
      rfl
    · have split : text = text.takeWhile (fun c => !isLineBreak c) ++
          text.dropWhile (fun c => !isLineBreak c) := List.takeWhile_append_dropWhile.symm
      cases after : text.dropWhile (fun c => !isLineBreak c) with
      | nil =>
        exfalso
        apply plain
        intro c member
        simpa using List.dropWhile_eq_nil_iff.mp after c member
      | cons c rest =>
        have isBreak : isLineBreak c = true := by
          have stops := @List.head_dropWhile_not _ (fun c => !isLineBreak c) text (by rw [after]; simp)
          simpa [after] using stops
        rw [after] at split
        have shorter : rest.length < size := by
          rw [← length, split, List.length_append, List.length_cons]
          omega
        rw [split, normalizeSource_break u isBreak, List.splitOnP_append_cons _ _ isBreak,
          List.splitOnP_append_cons _ _ isBreak, ih _ shorter rest rfl, List.map_append]
        congr 1
        have first : ∀ c ∈ text.takeWhile (fun c => !isLineBreak c), isLineBreak c = false := by
          intro c member
          simpa using List.mem_takeWhile_imp member
        rw [List.splitOnP_eq_singleton first,
          List.splitOnP_eq_singleton (plain_normalizeSource u first)]
        rfl

theorem nfc_nil : u.nfc [] = [] := by
  have := u.nfc_part [] [] [] (u.nfc []) rfl
  exact this

theorem normalizeSource_nil : normalizeSource u [] = [] := nfc_nil u

/-- Normalizing the lines of a text gives the lines of the normalized text. -/
theorem splitlines_normalizeSource (text : List Char) :
    (splitlines (normalizeSource u text)).filter filled =
      ((splitlines text).map (normalizeSource u)).filter filled := by
  have dropEmpty : ∀ lines : List (List Char), (lines.map (normalizeSource u)).filter filled =
      ((lines.filter filled).map (normalizeSource u)).filter filled := by
    intro lines
    induction lines with
    | nil => rfl
    | cons line lines ih =>
      cases line with
      | nil => simpa [filled, normalizeSource_nil] using ih
      | cons c line =>
        rw [List.filter_cons_of_pos (by rfl), List.map_cons, List.map_cons, List.filter_cons,
          List.filter_cons, ih]
  rw [splitlines_filled, splitOnP_normalizeSource, dropEmpty, dropEmpty (splitlines text),
    splitlines_filled]

/-- A normalized text is left alone by normalization, and so is every part of it. -/
theorem normalizeSource_part {text before part after : List Char}
    (inside : normalizeSource u text = before ++ part ++ after) : normalizeSource u part = part := by
  have noBom : ∀ c ∈ part, c ≠ bom := by
    intro c member same
    have found : c ∈ u.nfc (text.filter (· ≠ bom)) := by
      change c ∈ normalizeSource u text
      rw [inside]
      simp [member]
    have := u.mem_of_mem_nfc c _ (.inr (.inl same)) found
    simp [same] at this
  unfold normalizeSource
  rw [List.filter_eq_self.mpr (by simpa using noBom)]
  exact u.nfc_part _ _ _ _ inside

theorem normalizeSource_idem (text : List Char) :
    normalizeSource u (normalizeSource u text) = normalizeSource u text :=
  @normalizeSource_part u text [] _ [] (by simp)

/-- The mentions of one normalized line that count. -/
def lineMentions (line : List Char) : List (List Char) :=
  if (matchDialogueLine u (stripShotHeader u line)).isSome then []
  else (iterMentions line).map fun mention => assetNameComparisonKey u mention.name

theorem extractMentions_eq (text : List Char) :
    extractMentions u text =
      firstSeen ((splitlines text).flatMap fun raw => lineMentions u (normalizeSource u raw)) := rfl

theorem lineMentions_nil : lineMentions u [] = [] := by
  unfold lineMentions
  split
  · rfl
  · rfl

theorem flatMap_filled {α : Type} {f : List Char → List α} (empty : f [] = [])
    (lines : List (List Char)) : (lines.filter filled).flatMap f = lines.flatMap f := by
  induction lines with
  | nil => rfl
  | cons line lines ih =>
    cases line with
    | nil =>
      rw [List.filter_cons_of_neg (by decide), List.flatMap_cons, empty, List.nil_append, ih]
    | cons c line => rw [List.filter_cons_of_pos (by rfl), List.flatMap_cons, List.flatMap_cons, ih]

/-- The mentions of a text are those of its normalization. -/
theorem extractMentions_normalizeSource (text : List Char) :
    extractMentions u (normalizeSource u text) = extractMentions u text := by
  have empty : lineMentions u (normalizeSource u []) = [] := by
    rw [normalizeSource_nil, lineMentions_nil]
  have byLine : ∀ lines : List (List Char),
      (lines.map (normalizeSource u)).flatMap (fun raw => lineMentions u (normalizeSource u raw)) =
        lines.flatMap fun raw => lineMentions u (normalizeSource u raw) := by
    intro lines
    rw [List.flatMap_map]
    congr 1
    funext raw
    rw [normalizeSource_idem]
  rw [extractMentions_eq, extractMentions_eq, ← flatMap_filled empty, splitlines_normalizeSource,
    flatMap_filled empty, byLine]

theorem nfc_nfc (text : List Char) : u.nfc (u.nfc text) = u.nfc text :=
  u.nfc_part text [] (u.nfc text) [] (by simp)

/-- A name that is compared is compared as it is. -/
theorem key_key (name : List Char) :
    assetNameComparisonKey u (assetNameComparisonKey u name) = assetNameComparisonKey u name := by
  unfold assetNameComparisonKey
  rw [u.nfc_strip, strip_strip, nfc_nfc]

end Normalize

/-- Texts that are normalized already, with the ASCII digits. -/
def plainUnicode : Unicode where
  nfc := id
  decimal := Char.isDigit
  nfc_header := fun _ _ _ => rfl
  decimal_plain := by
    intro c digit
    refine ⟨?_, ?_, ?_⟩ <;>
    · intro same
      rw [same] at digit
      revert digit
      decide
  decimal_digit := fun _ digit => digit
  nfc_part := fun _ _ _ _ _ => rfl
  nfc_break := fun _ _ _ _ => rfl
  mem_of_mem_nfc := fun _ _ _ member => member
  nfc_strip := fun _ => rfl
  decimal_ne := by
    intro c digit
    have range : 48 ≤ c.toNat ∧ c.toNat ≤ 57 := by
      simp only [Char.isDigit, Bool.and_eq_true, decide_eq_true_eq] at digit
      exact digit
    refine ⟨?_, ?_, ?_⟩
    · simp only [isSpace, Bool.or_eq_false_iff, Bool.and_eq_false_iff, decide_eq_false_iff_not,
        beq_eq_false_iff_ne]
      omega
    · intro same
      rw [same] at range
      revert range
      decide
    · intro same
      rw [same] at range
      revert range
      decide

section FirstSeen

variable {α : Type} [DecidableEq α]

theorem foldl_firstSeen (names seen : List α) (nodup : seen.Nodup) :
    (names.foldl (fun seen name => if name ∈ seen then seen else seen ++ [name]) seen).Nodup ∧
      ∀ name, name ∈ names.foldl (fun seen name => if name ∈ seen then seen else seen ++ [name]) seen ↔
        name ∈ seen ∨ name ∈ names := by
  induction names generalizing seen with
  | nil => exact ⟨nodup, by simp⟩
  | cons first names ih =>
    rw [List.foldl_cons]
    by_cases known : first ∈ seen
    · rw [if_pos known]
      refine ⟨(ih seen nodup).1, fun name => ?_⟩
      rw [(ih seen nodup).2, List.mem_cons]
      constructor
      · exact Or.imp_right .inr
      · rintro (old | same | later)
        · exact .inl old
        · exact .inl (same ▸ known)
        · exact .inr later
    · rw [if_neg known]
      have longer : (seen ++ [first]).Nodup := by
        rw [List.nodup_append]
        exact ⟨nodup, List.nodup_singleton _, fun name old other only same =>
          known (List.mem_singleton.mp only ▸ same ▸ old)⟩
      refine ⟨(ih _ longer).1, fun name => ?_⟩
      rw [(ih _ longer).2, List.mem_append, List.mem_singleton, List.mem_cons, or_assoc]

theorem nodup_firstSeen (names : List α) : (firstSeen names).Nodup :=
  (foldl_firstSeen names [] List.nodup_nil).1

theorem mem_firstSeen {names : List α} {name : α} : name ∈ firstSeen names ↔ name ∈ names := by
  simpa [firstSeen] using (foldl_firstSeen names [] List.nodup_nil).2 name

theorem firstSeen_of_nodup {names : List α} (nodup : names.Nodup) : firstSeen names = names := by
  have grows : ∀ names seen : List α, (seen ++ names).Nodup →
      names.foldl (fun seen name => if name ∈ seen then seen else seen ++ [name]) seen =
        seen ++ names := by
    intro names
    induction names with
    | nil => simp
    | cons first names ih =>
      intro seen distinct
      have new : first ∉ seen := fun old =>
        (List.nodup_append.mp distinct).2.2 first old first List.mem_cons_self rfl
      rw [List.foldl_cons, if_neg new, ih _ (by simpa using distinct)]
      simp
  simpa [firstSeen] using grows names [] (by simpa using nodup)

end FirstSeen

end ArcReel.Mention
