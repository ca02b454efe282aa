import ArcReel.Mention.Lines

/-! The shot header without its regular expression: what comes before the body of a header line. -/

namespace ArcReel.Mention
open ArcReel.Lib
open PyText

/-- What follows the spaces, the digits and the spaces of a header, from the colon on. -/
def afterNumber (space digit : Char → Bool) (text : List Char) : Option (List Char) :=
  if (text.dropWhile space).takeWhile digit = [] then none
  else some (((text.dropWhile space).dropWhile digit).dropWhile space)

/-- What follows the colon, if the text starts with one. -/
def afterColon : List Char → Option (List Char)
  | c :: body => if isColon c then some body else none
  | [] => none

/-- What follows `镜头N：`. -/
def headerBody (space digit : Char → Bool) : List Char → Option (List Char)
  | '镜' :: '头' :: rest => (afterNumber space digit rest).bind afterColon
  | _ => none

section Number

variable {space digit : Char → Bool} {next : Regex.State → List Regex.State}

/-- The pattern of the number and the colon before a continuation. -/
def numberThen (space digit : Char → Bool) (next : Regex) : Regex :=
  .seq (.star space) (.seq (.plus digit) (.seq (.star space) (.seq (.char isColon) next)))

theorem run_numberThen {next : Regex} (apart : ∀ c, digit c = true → space c = false)
    (colon : ∀ c, isColon c = true → space c = false ∧ digit c = false)
    (behind text : List Char) :
    ∃ before, (numberThen space digit next).run ⟨behind, text, []⟩ =
      match (afterNumber space digit text).bind afterColon with
      | some body => next.run ⟨before, body, []⟩
      | none => [] := by
  have noColon : Regex.Blocked space fun state =>
      (Regex.run (.char isColon) state).flatMap next.run := by
    intro behind c rest groups isSpaceChar
    beta_reduce
    rw [Regex.flatMap_char, if_neg]
    intro isColonChar
    rw [(colon c isColonChar).1] at isSpaceChar
    cases isSpaceChar
  have noDigit : Regex.Blocked digit fun state =>
      (Regex.run (.star space) state).flatMap fun state =>
        (Regex.run (.char isColon) state).flatMap next.run := by
    intro behind c rest groups isDigit
    beta_reduce
    rw [Regex.flatMap_star noColon, List.dropWhile_cons_of_neg (by simp [apart c isDigit]),
      Regex.flatMap_char, if_neg]
    intro isColonChar
    rw [(colon c isColonChar).2] at isDigit
    cases isDigit
  have noSpace : Regex.Blocked space fun state =>
      (Regex.run (.plus digit) state).flatMap fun state =>
        (Regex.run (.star space) state).flatMap fun state =>
          (Regex.run (.char isColon) state).flatMap next.run := by
    intro behind c rest groups isSpaceChar
    beta_reduce
    rw [Regex.flatMap_plus noDigit, if_pos]
    rw [List.takeWhile_cons_of_neg]
    intro isDigit
    rw [apart c isDigit] at isSpaceChar
    cases isSpaceChar
  have unfolded : (numberThen space digit next).run ⟨behind, text, []⟩ =
      (Regex.run (.star space) ⟨behind, text, []⟩).flatMap fun state =>
        (Regex.run (.plus digit) state).flatMap fun state =>
          (Regex.run (.star space) state).flatMap fun state =>
            (Regex.run (.char isColon) state).flatMap next.run := rfl
  rw [unfolded, Regex.flatMap_star noSpace, Regex.flatMap_plus noDigit, afterNumber]
  by_cases none : (text.dropWhile space).takeWhile digit = []
  · exact ⟨[], by rw [if_pos none, if_pos none]; rfl⟩
  · rw [if_neg none, if_neg none, Regex.flatMap_star noColon, Option.bind_some]
    cases ((text.dropWhile space).dropWhile digit).dropWhile space with
    | nil => exact ⟨[], rfl⟩
    | cons c body =>
      rw [Regex.flatMap_char, afterColon]
      by_cases isColonChar : isColon c = true
      · exact ⟨_, by rw [if_pos isColonChar, if_pos isColonChar]⟩
      · exact ⟨[], by rw [if_neg isColonChar, if_neg isColonChar]⟩

end Number

section Python

variable {u : Unicode}

theorem colon_apart (c : Char) (colon : isColon c = true) :
    isSpace c = false ∧ u.decimal c = false := by
  have either : c = ':' ∨ c = '：' := by simpa [isColon] using colon
  constructor
  · rcases either with same | same <;> rw [same] <;> decide
  · by_contra digit
    have apart := u.decimal_ne c (eq_true_of_ne_false digit)
    rcases either with same | same
    · exact apart.2.1 same
    · exact apart.2.2 same

theorem atEnd_run (state : Regex.State) :
    Regex.run .atEnd state = if state.rest.isEmpty then [state] else [] := by
  rw [Regex.run]

/-- The rest of the line, which has no newline in it. -/
theorem run_bodyGroup (behind body : List Char) :
    ((Regex.run (.seq (.group 1 (.star (· ≠ '\n'))) .atEnd) ⟨behind, body, []⟩).head?).bind
      (·.group? 1) = if '\n' ∈ body then none else some body := by
  have blocked : Regex.Blocked (fun c => decide (c ≠ '\n')) (Regex.run .atEnd) := by
    intro behind c rest groups _
    rfl
  have evaluated := Regex.flatMap_group_star blocked 1 behind body []
  change (((Regex.run (.group 1 (.star (· ≠ '\n'))) ⟨behind, body, []⟩).flatMap
    (Regex.run .atEnd)).head?).bind (·.group? 1) = _
  rw [evaluated]
  by_cases broken : '\n' ∈ body
  · have rest : body.dropWhile (fun c => decide (c ≠ '\n')) ≠ [] := by
      rw [Ne, List.dropWhile_eq_nil_iff]
      intro all
      simpa using all '\n' broken
    rw [if_pos broken, atEnd_run, if_neg (by simpa using rest)]
    rfl
  · have all : ∀ c ∈ body, decide (c ≠ '\n') = true := by
      intro c member
      rw [decide_eq_true_eq]
      intro same
      exact broken (same ▸ member)
    rw [if_neg broken, atEnd_run, List.dropWhile_eq_nil_iff.mpr all,
      List.takeWhile_eq_self_iff.mpr all]
    rfl

theorem literal_run (c : Char) (next : Regex) (behind : List Char) (d : Char) (rest : List Char) :
    (Regex.seq (literal c) next).run ⟨behind, d :: rest, []⟩ =
      if d = c then next.run ⟨d :: behind, rest, []⟩ else [] := by
  change ((Regex.char (· == c)).run ⟨behind, d :: rest, []⟩).flatMap next.run = _
  rw [Regex.flatMap_char]
  simp

/-- The header of a line that has no newline in it. -/
theorem shotHeader?_eq (line : List Char) :
    shotHeader? u line = ((headerBody isSpace u.decimal (strip line)).filter
      fun body => '\n' ∉ body).map lstrip := by
  unfold shotHeader?
  generalize strip line = text
  have grouped : ((shotHeaderRe u).exec? text).bind (fun found => (found.group? 1).map lstrip) =
      ((((shotHeaderRe u).exec? text).bind (·.group? 1)).map lstrip) := by
    cases (shotHeaderRe u).exec? text <;> rfl
  rw [grouped]
  congr 1
  unfold Regex.exec? shotHeaderRe
  rw [Regex.find?_atStart, Option.map_map]
  change (((Regex.seq (literal '镜') (.seq (literal '头') (numberThen isSpace u.decimal
    (.seq (.group 1 (.star (· ≠ '\n'))) .atEnd)))).run ⟨[], text, []⟩).head?.map _).bind _ = _
  rw [Function.comp_def, Option.map_id']
  cases text with
  | nil => rfl
  | cons first rest =>
    rw [literal_run]
    by_cases isFirst : first = '镜'
    · subst isFirst
      rw [if_pos rfl]
      cases rest with
      | nil => rfl
      | cons second rest =>
        rw [literal_run]
        by_cases isSecond : second = '头'
        · subst isSecond
          rw [if_pos rfl, headerBody]
          obtain ⟨before, run⟩ := @run_numberThen isSpace u.decimal
            (.seq (.group 1 (.star (· ≠ '\n'))) .atEnd) (fun c digit => (u.decimal_ne c digit).1)
            colon_apart ['头', '镜'] rest
          rw [run]
          cases (afterNumber isSpace u.decimal rest).bind afterColon with
          | none => rfl
          | some body =>
            simp only [run_bodyGroup]
            by_cases broken : '\n' ∈ body <;> simp [broken, Option.filter]
        · rw [if_neg isSecond]
          simp [headerBody, isSecond]
    · rw [if_neg isFirst]
      simp [headerBody, isFirst]

end Python

end ArcReel.Mention
