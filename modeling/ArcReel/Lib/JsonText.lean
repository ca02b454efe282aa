import ArcReel.Lib.Json

/-! The text that `json.dumps` writes for a value, and a reader of flat objects. -/

namespace ArcReel.Lib.Json

def hexDigit (n : Nat) : Char := Char.ofNat (if n < 10 then 0x30 + n else 0x57 + n)

/-- A character as it is written within a string, with `ensure_ascii=False`. -/
def escape (c : Char) : List Char :=
  if c = '"' then ['\\', '"']
  else if c = '\\' then ['\\', '\\']
  else if c = '\n' then ['\\', 'n']
  else if c = '\r' then ['\\', 'r']
  else if c = '\t' then ['\\', 't']
  else if c.toNat = 0x8 then ['\\', 'b']
  else if c.toNat = 0xC then ['\\', 'f']
  else if c.toNat < 0x20 then ['\\', 'u', '0', '0', hexDigit (c.toNat / 16), hexDigit (c.toNat % 16)]
  else [c]

def escaped (text : List Char) : List Char := text.flatMap escape

def quote (text : List Char) : List Char := '"' :: (escaped text ++ ['"'])

mutual

/-- `json.dumps(value, ensure_ascii=False)`; how a float is written is a parameter. -/
def dumps (floatText : Option ℚ → List Char) : Json → List Char
  | null => "null".toList
  | bool true => "true".toList
  | bool false => "false".toList
  | int value => (toString value).toList
  | float value => floatText value
  | str value => quote value.toList
  | arr items => '[' :: (dumpsItems floatText items ++ [']'])
  | obj fields => '\x7b' :: (dumpsFields floatText fields ++ ['\x7d'])

def dumpsItems (floatText : Option ℚ → List Char) : List Json → List Char
  | [] => []
  | [item] => dumps floatText item
  | item :: next :: items =>
      dumps floatText item ++ (',' :: ' ' :: dumpsItems floatText (next :: items))

def dumpsFields (floatText : Option ℚ → List Char) : List (String × Json) → List Char
  | [] => []
  | [(key, value)] => quote key.toList ++ (':' :: ' ' :: dumps floatText value)
  | (key, value) :: next :: fields =>
      quote key.toList ++ (':' :: ' ' :: (dumps floatText value ++
        (',' :: ' ' :: dumpsFields floatText (next :: fields))))

end

def isScalar : Json → Bool
  | arr _ | obj _ => false
  | _ => true

/-- The `json` module: how it writes floats, which values are nested too deeply for it to write,
and its reader, which reads back every flat object that it has written. -/
structure Module where
  floatText : Option ℚ → List Char
  tooDeep : Json → Bool
  loads : List Char → Option Json
  loads_dumps : ∀ fields : List (String × Json), (fields.map Prod.fst).Nodup →
    (∀ field ∈ fields, field.2.isScalar = true) →
    loads (dumps floatText (obj fields)) = some (obj fields)

theorem dumps_str (floatText : Option ℚ → List Char) (value : String) :
    dumps floatText (str value) = quote value.toList := rfl

theorem dumps_obj (floatText : Option ℚ → List Char) (fields : List (String × Json)) :
    dumps floatText (obj fields) = '\x7b' :: (dumpsFields floatText fields ++ ['\x7d']) := rfl

theorem escape_ne_nil (c : Char) : escape c ≠ [] := by
  unfold escape
  repeat' split
  all_goals exact List.cons_ne_nil _ _

/-- Each character costs at least one. -/
theorem length_escaped (text : List Char) : text.length ≤ (escaped text).length := by
  induction text with
  | nil => exact Nat.le_refl 0
  | cons c text ih =>
    have costs : 0 < (escape c).length := List.length_pos_iff.mpr (escape_ne_nil c)
    have split : escaped (c :: text) = escape c ++ escaped text := List.flatMap_cons
    rw [split, List.length_append, List.length_cons]
    omega

@[simp] theorem length_quote (text : List Char) : (quote text).length = (escaped text).length + 2 := by
  simp [quote]

/-! A reader of what `dumps` writes for a flat object; a float is a fraction here. -/

section Reader

def unhex (c : Char) : Nat := if c.toNat < 0x3A then c.toNat - 0x30 else c.toNat - 0x57

def unescape (c : Char) : Char :=
  if c = 'n' then '\n'
  else if c = 'r' then '\r'
  else if c = 't' then '\t'
  else if c = 'b' then Char.ofNat 0x8
  else if c = 'f' then Char.ofNat 0xC
  else c

/-- The string up to its closing quote, and what follows. -/
def readString : List Char → Option (List Char × List Char)
  | [] => none
  | '"' :: rest => some ([], rest)
  | '\\' :: 'u' :: _ :: _ :: high :: low :: rest =>
      (readString rest).map fun read => (Char.ofNat (16 * unhex high + unhex low) :: read.1, read.2)
  | '\\' :: d :: rest => (readString rest).map fun read => (unescape d :: read.1, read.2)
  | c :: rest => (readString rest).map fun read => (c :: read.1, read.2)

theorem unhex_hexDigit : ∀ n < 16, unhex (hexDigit n) = n := by decide

theorem readString_escape (c : Char) (rest : List Char) :
    readString (escape c ++ rest) = (readString rest).map fun read => (c :: read.1, read.2) := by
  unfold escape
  split
  next isQuote => subst isQuote; rfl
  split
  next isBackslash => subst isBackslash; rfl
  next isBackslash =>
  split
  next isLine => subst isLine; rfl
  split
  next isReturn => subst isReturn; rfl
  split
  next isTab => subst isTab; rfl
  split
  next isBack =>
    have same : Char.ofNat 0x8 = c := by rw [← isBack, Char.ofNat_toNat]
    subst same
    rfl
  split
  next isFeed =>
    have same : Char.ofNat 0xC = c := by rw [← isFeed, Char.ofNat_toNat]
    subst same
    rfl
  split
  next isLow =>
    have high := unhex_hexDigit (c.toNat / 16) (by omega)
    have low := unhex_hexDigit (c.toNat % 16) (by omega)
    have whole : 16 * (c.toNat / 16) + c.toNat % 16 = c.toNat := by omega
    simp only [List.cons_append, List.nil_append, readString, high, low, whole, Char.ofNat_toNat]
  next => simp [readString, isBackslash]

theorem readString_quote (text rest : List Char) :
    readString (escaped text ++ '"' :: rest) = some (text, rest) := by
  induction text with
  | nil => rfl
  | cons c text ih =>
    have split : escaped (c :: text) = escape c ++ escaped text := List.flatMap_cons
    rw [split, List.append_assoc, readString_escape, ih]
    rfl

def fractionText (value : Option ℚ) : List Char :=
  match value with
  | none => "NaN".toList
  | some q => (toString q.num).toList ++ '/' :: Nat.toDigits 10 q.den

def readInt : List Char → Int
  | '-' :: digits => -(Nat.ofDigitChars 10 digits 0 : Int)
  | digits => Nat.ofDigitChars 10 digits 0

theorem toString_negSucc_toList (n : Nat) :
    (toString (Int.negSucc n)).toList = '-' :: Nat.toDigits 10 (n + 1) := by
  have spelled : toString (Int.negSucc n) = "-" ++ toString (n + 1) := rfl
  rw [spelled, String.toList_append, Nat.toString_eq_repr, Nat.toList_repr]
  rfl

theorem toString_ofNat_toList (n : Nat) : (toString (Int.ofNat n)).toList = Nat.toDigits 10 n := by
  have spelled : toString (Int.ofNat n) = toString n := rfl
  rw [spelled, Nat.toString_eq_repr, Nat.toList_repr]

theorem digit_of_toDigits {n : Nat} {c : Char} (member : c ∈ Nat.toDigits 10 n) : c.isDigit = true :=
  Nat.isDigit_of_mem_toDigits (by decide) (by decide) member

theorem readInt_toString (value : Int) : readInt (toString value).toList = value := by
  cases value with
  | ofNat n =>
    rw [toString_ofNat_toList]
    have read : readInt (Nat.toDigits 10 n) = (Nat.ofDigitChars 10 (Nat.toDigits 10 n) 0 : Int) := by
      unfold readInt
      split
      next digits signed =>
        have digit : '-'.isDigit = true := digit_of_toDigits (n := n) (by rw [signed]; exact .head _)
        cases digit
      next => rfl
    rw [read, Nat.ofDigitChars_ten_toDigits]
    rfl
  | negSucc n =>
    rw [toString_negSucc_toList]
    simp only [readInt, Nat.ofDigitChars_ten_toDigits]
    rfl

/-- The characters of a number are digits and a sign. -/
theorem intText_char {value : Int} {c : Char} (member : c ∈ (toString value).toList) :
    c.isDigit = true ∨ c = '-' := by
  cases value with
  | ofNat n =>
    rw [toString_ofNat_toList] at member
    exact .inl (digit_of_toDigits member)
  | negSucc n =>
    rw [toString_negSucc_toList] at member
    cases List.mem_cons.mp member with
    | inl sign => exact .inr sign
    | inr digit => exact .inl (digit_of_toDigits digit)

/-- The value of a text that is not a string. -/
def readPlain (text : List Char) : Json :=
  if text = "null".toList then null
  else if text = "true".toList then bool true
  else if text = "false".toList then bool false
  else if text = "NaN".toList then float none
  else if text = "[]".toList then arr []
  else if '/' ∈ text then
    float (some (mkRat (readInt (text.takeWhile (· ≠ '/')))
      (Nat.ofDigitChars 10 ((text.dropWhile (· ≠ '/')).drop 1) 0)))
  else int (readInt text)

theorem readPlain_int (value : Int) : readPlain (toString value).toList = int value := by
  have plain : ∀ word : List Char, (∃ c ∈ word, c.isDigit = false ∧ c ≠ '-') →
      (toString value).toList ≠ word := by
    rintro word ⟨c, member, notDigit, notSign⟩ same
    cases intText_char (same ▸ member) with
    | inl digit => rw [digit] at notDigit; cases notDigit
    | inr sign => exact notSign sign
  have slash : '/' ∉ (toString value).toList := by
    intro member
    cases intText_char member with
    | inl digit => cases digit
    | inr sign => cases sign
  unfold readPlain
  rw [if_neg (plain _ ⟨'n', by decide, by decide, by decide⟩),
    if_neg (plain _ ⟨'t', by decide, by decide, by decide⟩),
    if_neg (plain _ ⟨'f', by decide, by decide, by decide⟩),
    if_neg (plain _ ⟨'N', by decide, by decide, by decide⟩),
    if_neg (plain _ ⟨'[', by decide, by decide, by decide⟩), if_neg slash, readInt_toString]

theorem readPlain_fraction (q : ℚ) : readPlain (fractionText (some q)) = float (some q) := by
  have slash : '/' ∈ fractionText (some q) := List.mem_append_right _ List.mem_cons_self
  have plain : ∀ word : List Char, '/' ∉ word → fractionText (some q) ≠ word :=
    fun word without same => without (same ▸ slash)
  have front : ∀ c ∈ (toString q.num).toList, decide (c ≠ '/') = true := by
    intro c member
    cases intText_char member with
    | inl digit =>
      apply decide_eq_true
      rintro rfl
      cases digit
    | inr sign => rw [sign]; decide
  have num : (fractionText (some q)).takeWhile (· ≠ '/') = (toString q.num).toList := by
    rw [fractionText, List.takeWhile_append_of_pos front, List.takeWhile_cons_of_neg (by decide),
      List.append_nil]
  have den : (fractionText (some q)).dropWhile (· ≠ '/') = '/' :: Nat.toDigits 10 q.den := by
    rw [fractionText, List.dropWhile_append_of_pos front, List.dropWhile_cons_of_neg (by decide)]
  unfold readPlain
  rw [if_neg (plain _ (by decide)), if_neg (plain _ (by decide)), if_neg (plain _ (by decide)),
    if_neg (plain _ (by decide)), if_neg (plain _ (by decide)), if_pos slash, num, den, readInt_toString, List.drop_one,
    List.tail_cons, Nat.ofDigitChars_ten_toDigits, Rat.mkRat_self]

/-- A character that does not end a value which is not a string. -/
def isPlain (c : Char) : Bool := c ≠ ',' && c ≠ '\x7d'

def readValue : List Char → Option (Json × List Char)
  | '"' :: rest => (readString rest).map fun read => (str (String.ofList read.1), read.2)
  | text => some (readPlain (text.takeWhile isPlain), text.dropWhile isPlain)

theorem plain_of_digit {c : Char} (either : c.isDigit = true ∨ c = '-' ∨ c = '/') :
    isPlain c = true ∧ c ≠ '"' := by
  rcases either with digit | rfl | rfl
  · refine ⟨?_, ?_⟩
    · simp only [isPlain, Bool.and_eq_true, decide_eq_true_iff]
      constructor <;> (rintro rfl; cases digit)
    · rintro rfl
      cases digit
  · decide
  · decide

theorem readValue_plain {text rest : List Char} {value : Json} (read : readPlain text = value)
    (plain : ∀ c ∈ text, isPlain c = true ∧ c ≠ '"') (nonempty : text ≠ [])
    (ends : ∀ c ∈ rest.head?, isPlain c = false) :
    readValue (text ++ rest) = some (value, rest) := by
  have stops : rest.takeWhile isPlain = [] ∧ rest.dropWhile isPlain = rest := by
    cases rest with
    | nil => exact ⟨rfl, rfl⟩
    | cons c rest =>
      have stop := ends c rfl
      exact ⟨List.takeWhile_cons_of_neg (by rw [stop]; decide),
        List.dropWhile_cons_of_neg (by rw [stop]; decide)⟩
  have each : ∀ c ∈ text, isPlain c = true := fun c member => (plain c member).1
  cases text with
  | nil => exact absurd rfl nonempty
  | cons c text =>
    have first := (plain c List.mem_cons_self).2
    have unfolded : readValue (c :: text ++ rest) = some (readPlain ((c :: text ++ rest).takeWhile isPlain),
        (c :: text ++ rest).dropWhile isPlain) := by
      rw [List.cons_append]
      unfold readValue
      split
      next quoted => exact absurd (List.cons.inj quoted).1 first
      next => rfl
    rw [unfolded, List.takeWhile_append_of_pos each, List.dropWhile_append_of_pos each, stops.1,
      stops.2, List.append_nil, read]

/-- The characters of a text are looked at one by one. -/
theorem plain_of_all {text : List Char} (all : (text.all fun c => isPlain c && c != '"') = true) :
    ∀ c ∈ text, isPlain c = true ∧ c ≠ '"' := by
  intro c member
  have both := List.all_eq_true.mp all c member
  rw [Bool.and_eq_true, bne_iff_ne] at both
  exact both

theorem readValue_dumps {value : Json} (scalar : value.isScalar = true) {rest : List Char}
    (ends : ∀ c ∈ rest.head?, isPlain c = false) :
    readValue (dumps fractionText value ++ rest) = some (value, rest) := by
  cases value with
  | null => exact readValue_plain rfl (plain_of_all (by decide)) (by decide) ends
  | bool value => cases value <;> exact readValue_plain rfl (plain_of_all (by decide)) (by decide) ends
  | int value =>
    apply readValue_plain (readPlain_int value) _ _ ends
    · intro c member
      apply plain_of_digit
      cases intText_char member with
      | inl digit => exact .inl digit
      | inr sign => exact .inr (.inl sign)
    · cases value with
      | ofNat n => rw [toString_ofNat_toList]; exact Nat.toDigits_ne_nil
      | negSucc n => rw [toString_negSucc_toList]; exact List.cons_ne_nil _ _
  | float value =>
    cases value with
    | none => exact readValue_plain rfl (plain_of_all (by decide)) (by decide) ends
    | some q =>
      apply readValue_plain (readPlain_fraction q) _ _ ends
      · intro c member
        apply plain_of_digit
        cases List.mem_append.mp member with
        | inl num => exact (intText_char num).imp_right .inl
        | inr den =>
          cases List.mem_cons.mp den with
          | inl slash => exact .inr (.inr slash)
          | inr digit => exact .inl (digit_of_toDigits digit)
      · simp [fractionText]
  | str value =>
    rw [dumps_str, quote, List.cons_append, List.append_assoc]
    simp only [readValue, List.singleton_append, readString_quote, Option.map_some, String.ofList_toList]
  | arr _ | obj _ => cases scalar

/-- The fields from a key on, up to the closing brace. -/
def readFields : Nat → List Char → Option (List (String × Json))
  | 0, _ => none
  | fuel + 1, text =>
      match text with
      | '"' :: text => do
          let (key, text) ← readString text
          let (value, text) ← readValue (text.drop 2)
          match text with
          | ',' :: _ :: text =>
              (readFields fuel text).map fun fields => (String.ofList key, value) :: fields
          | _ => some [(String.ofList key, value)]
      | _ => some []

def readObject : List Char → Option Json
  | '\x7b' :: text => (readFields text.length text).map obj
  | _ => none

theorem readFields_dumps (fuel : Nat) (fields : List (String × Json)) (enough : fields.length < fuel)
    (scalars : ∀ field ∈ fields, field.2.isScalar = true) :
    readFields fuel (dumpsFields fractionText fields ++ ['\x7d']) = some fields := by
  induction fields generalizing fuel with
  | nil =>
    obtain ⟨fuel, rfl⟩ := Nat.exists_eq_succ_of_ne_zero (Nat.ne_zero_of_lt enough)
    rfl
  | cons field fields ih =>
    obtain ⟨fuel, rfl⟩ := Nat.exists_eq_succ_of_ne_zero (Nat.ne_zero_of_lt enough)
    obtain ⟨key, value⟩ := field
    have scalar := scalars _ List.mem_cons_self
    cases fields with
    | nil =>
      have ends : ∀ c ∈ ['\x7d'].head?, isPlain c = false := by
        intro c first
        rw [← Option.some.inj first]
        decide
      have read := readValue_dumps scalar ends
      simp only [dumpsFields, quote, List.cons_append, List.append_assoc, List.nil_append, readFields,
        readString_quote, Option.bind_eq_bind, Option.bind_some, List.drop_succ_cons, List.drop_zero,
        read, String.ofList_toList]
      rfl
    | cons next fields =>
      have later := ih fuel (by simp only [List.length_cons] at enough ⊢; omega)
        fun field member => scalars field (List.mem_cons_of_mem _ member)
      have ends : ∀ c ∈ (',' :: ' ' :: (dumpsFields fractionText (next :: fields) ++ ['\x7d'])).head?,
          isPlain c = false := by
        intro c first
        rw [← Option.some.inj first]
        decide
      have read := readValue_dumps scalar ends
      simp only [dumpsFields, quote, List.cons_append, List.append_assoc, List.nil_append, readFields,
        readString_quote, Option.bind_eq_bind, Option.bind_some, List.drop_succ_cons, List.drop_zero,
        read, later, Option.map_some, String.ofList_toList]

theorem length_dumpsFields (floatText : Option ℚ → List Char) (fields : List (String × Json)) :
    fields.length ≤ (dumpsFields floatText fields).length := by
  induction fields with
  | nil => exact Nat.zero_le _
  | cons field fields ih =>
    cases fields with
    | nil =>
      simp only [dumpsFields, List.length_append, length_quote, List.length_cons, List.length_nil]
      omega
    | cons next fields =>
      simp only [dumpsFields, List.length_append, length_quote, List.length_cons] at ih ⊢
      omega

theorem readObject_dumps (fields : List (String × Json))
    (scalars : ∀ field ∈ fields, field.2.isScalar = true) :
    readObject (dumps fractionText (obj fields)) = some (obj fields) := by
  have enough : fields.length < (dumpsFields fractionText fields ++ ['\x7d']).length := by
    have shorter := length_dumpsFields fractionText fields
    rw [List.length_append, List.length_singleton]
    omega
  change (readFields _ (dumpsFields fractionText fields ++ ['\x7d'])).map obj = _
  rw [readFields_dumps _ fields enough scalars]
  rfl

/-- A `json` module that reads flat objects only. -/
def flatModule : Module where
  floatText := fractionText
  tooDeep _ := false
  loads := readObject
  loads_dumps fields _ scalars := readObject_dumps fields scalars

end Reader

end ArcReel.Lib.Json
