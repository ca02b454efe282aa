import ArcReel.Lib.JsonText
import ArcReel.Lib.KeyOrder
import Mathlib.Data.String.Basic

/-! The canonical text of a JSON value, with sorted keys and no blanks: two values without floats
have the same text only if they are the same up to the order of their keys. -/

namespace ArcReel.Lib.Json

mutual

/-- With the keys of every object in order. -/
def sortKeys : Json → Json
  | arr items => arr (sortItems items)
  | obj fields => obj (byKey (sortFields fields))
  | other => other

def sortItems : List Json → List Json
  | [] => []
  | item :: items => sortKeys item :: sortItems items

def sortFields : List (String × Json) → List (String × Json)
  | [] => []
  | (key, value) :: fields => (key, sortKeys value) :: sortFields fields

end

mutual

/-- `json.dumps(value, ensure_ascii=False, separators=(",", ":"))`. -/
def compact (floatText : Option ℚ → List Char) : Json → List Char
  | null => ['n', 'u', 'l', 'l']
  | bool true => ['t', 'r', 'u', 'e']
  | bool false => ['f', 'a', 'l', 's', 'e']
  | int value => (toString value).toList
  | float value => floatText value
  | str value => quote value.toList
  | arr [] => ['[', ']']
  | arr (item :: items) => '[' :: (compact floatText item ++ compactItems floatText items)
  | obj [] => ['\x7b', '\x7d']
  | obj ((key, value) :: fields) =>
      '\x7b' :: (quote key.toList ++ ':' :: (compact floatText value ++ compactFields floatText fields))

/-- The items after the first, with the closing bracket. -/
def compactItems (floatText : Option ℚ → List Char) : List Json → List Char
  | [] => [']']
  | item :: items => ',' :: (compact floatText item ++ compactItems floatText items)

/-- The fields after the first, with the closing brace. -/
def compactFields (floatText : Option ℚ → List Char) : List (String × Json) → List Char
  | [] => ['\x7d']
  | (key, value) :: fields =>
      ',' :: (quote key.toList ++ ':' :: (compact floatText value ++ compactFields floatText fields))

end

/-- `json.dumps` with `sort_keys=True`. -/
def canonical (floatText : Option ℚ → List Char) (value : Json) : List Char :=
  compact floatText value.sortKeys

mutual

def floatFree : Json → Bool
  | float _ => false
  | arr items => floatFreeItems items
  | obj fields => floatFreeFields fields
  | _ => true

def floatFreeItems : List Json → Bool
  | [] => true
  | item :: items => item.floatFree && floatFreeItems items

def floatFreeFields : List (String × Json) → Bool
  | [] => true
  | (_, value) :: fields => value.floatFree && floatFreeFields fields

end

section Decoding

variable {floatText : Option ℚ → List Char}

/-- What kind of value starts with a character. -/
def kindOfHead (c : Char) : Nat :=
  if c = 'n' then 0 else if c = 't' then 1 else if c = 'f' then 2 else if c = '"' then 3
  else if c = '[' then 4 else if c = '\x7b' then 5 else if c.isDigit || c == '-' then 6 else 7

def kind : Json → Nat
  | null => 0
  | bool true => 1
  | bool false => 2
  | str _ => 3
  | arr _ => 4
  | obj _ => 5
  | int _ => 6
  | float _ => 7

/-- The end of the text, or what follows a value within another. -/
def Ends (rest : List Char) : Prop := ∀ c ∈ rest.head?, c = ',' ∨ c = ']' ∨ c = '\x7d'

theorem ends_items (items : List Json) (rest : List Char) : Ends (compactItems floatText items ++ rest) := by
  intro c first
  cases items with
  | nil => exact .inr (.inl (Option.some.inj first).symm)
  | cons item items => exact .inl (Option.some.inj first).symm

theorem ends_fields (fields : List (String × Json)) (rest : List Char) :
    Ends (compactFields floatText fields ++ rest) := by
  intro c first
  cases fields with
  | nil => exact .inr (.inr (Option.some.inj first).symm)
  | cons field fields => exact .inl (Option.some.inj first).symm

theorem intText_ne_nil (value : Int) : (toString value).toList ≠ [] := by
  cases value with
  | ofNat n => rw [toString_ofNat_toList]; exact Nat.toDigits_ne_nil
  | negSucc n => rw [toString_negSucc_toList]; exact List.cons_ne_nil _ _

theorem kindOfHead_int {c : Char} (either : c.isDigit = true ∨ c = '-') : kindOfHead c = 6 := by
  have sign : (c.isDigit || c == '-') = true := by
    cases either with
    | inl digit => rw [digit, Bool.true_or]
    | inr minus => rw [minus]; rfl
  have signless : ['n', 't', 'f', '"', '[', '\x7b'].all (fun c => !(c.isDigit || c == '-')) = true := by
    decide
  have apart : ∀ other ∈ ['n', 't', 'f', '"', '[', '\x7b'], c ≠ other := by
    intro other listed same
    have none := List.all_eq_true.mp signless other listed
    rw [← same, sign] at none
    cases none
  unfold kindOfHead
  rw [if_neg (apart _ (by decide)), if_neg (apart _ (by decide)), if_neg (apart _ (by decide)),
    if_neg (apart _ (by decide)), if_neg (apart _ (by decide)), if_neg (apart _ (by decide)), if_pos sign]

theorem compact_head {value : Json} (plain : value.floatFree = true) :
    ∃ c rest, compact floatText value = c :: rest ∧ kindOfHead c = value.kind := by
  match value with
  | null => exact ⟨_, _, rfl, rfl⟩
  | bool true => exact ⟨_, _, rfl, rfl⟩
  | bool false => exact ⟨_, _, rfl, rfl⟩
  | str _ => exact ⟨_, _, rfl, rfl⟩
  | arr [] => exact ⟨_, _, rfl, rfl⟩
  | arr (_ :: _) => exact ⟨'[', _, rfl, rfl⟩
  | obj [] => exact ⟨_, _, rfl, rfl⟩
  | obj ((_, _) :: _) => exact ⟨'\x7b', _, rfl, rfl⟩
  | float _ => cases plain
  | int value =>
    cases text : (toString value).toList with
    | nil => exact absurd text (intText_ne_nil value)
    | cons c rest =>
      have digit := @intText_char value c (by rw [text]; exact List.mem_cons_self)
      exact ⟨c, rest, text, kindOfHead_int digit⟩

/-- Texts that start alike are of values of one kind. -/
theorem kind_eq {a b : Json} (plain : a.floatFree = true) (plain' : b.floatFree = true) {r s : List Char}
    (same : compact floatText a ++ r = compact floatText b ++ s) : a.kind = b.kind := by
  obtain ⟨c, rest, text, isKind⟩ := @compact_head floatText a plain
  obtain ⟨c', rest', text', isKind'⟩ := @compact_head floatText b plain'
  rw [text, text', List.cons_append, List.cons_append] at same
  rw [← isKind, ← isKind', (List.cons.inj same).1]

/-- A value of the same kind as the first one, and the same one if there is no other of its kind. -/
def Alike : Json → Json → Prop
  | null, b => b = null
  | bool value, b => b = bool value
  | int _, b => ∃ value, b = int value
  | float _, b => ∃ value, b = float value
  | str _, b => ∃ value, b = str value
  | arr _, b => ∃ items, b = arr items
  | obj _, b => ∃ fields, b = obj fields

theorem alike_of_kind {a b : Json} (kinds : a.kind = b.kind) : Alike a b := by
  cases a with
  | bool value =>
    cases b with
    | bool value' => cases value <;> cases value' <;> first | rfl | cases kinds
    | _ => cases value <;> cases kinds
  | _ =>
    cases b with
    | bool value' => cases value' <;> cases kinds
    | _ => first | rfl | exact ⟨_, rfl⟩ | cases kinds

theorem quote_decodes {a b r s : List Char} (same : quote a ++ r = quote b ++ s) : a = b ∧ r = s := by
  unfold quote at same
  simp only [List.cons_append, List.append_assoc, List.cons.injEq, true_and, List.nil_append] at same
  have read := congrArg readString same
  rw [readString_quote, readString_quote] at read
  exact Prod.mk.inj (Option.some.inj read)

theorem int_decodes {a b : Int} {r s : List Char} (ends : Ends r) (ends' : Ends s)
    (same : (toString a).toList ++ r = (toString b).toList ++ s) : a = b ∧ r = s := by
  have isInt : ∀ (value : Int), ∀ c ∈ (toString value).toList, (c.isDigit || c == '-') = true := by
    intro value c member
    cases intText_char member with
    | inl digit => rw [digit, Bool.true_or]
    | inr sign => rw [sign]; rfl
  have stops : ∀ {rest : List Char}, Ends rest → rest.takeWhile (fun c => c.isDigit || c == '-') = [] := by
    intro rest ends
    cases rest with
    | nil => rfl
    | cons c rest =>
      rw [List.takeWhile_cons_of_neg]
      rcases ends c rfl with same | same | same <;> rw [same] <;> decide
  have taken := congrArg (List.takeWhile fun c : Char => c.isDigit || c == '-') same
  rw [List.takeWhile_append_of_pos (isInt a), List.takeWhile_append_of_pos (isInt b), stops ends,
    stops ends', List.append_nil, List.append_nil] at taken
  have equal : a = b := by rw [← readInt_toString a, taken, readInt_toString]
  rw [equal] at same
  exact ⟨equal, List.append_cancel_left same⟩

theorem cons_decodes {c : Char} {text text' : List Char} (same : c :: text = c :: text') : text = text' :=
  (List.cons.inj same).2

/-- No value starts with the bracket that closes an array. -/
theorem bracket_apart {value : Json} (plain : value.floatFree = true) (rest later : List Char) :
    compact floatText value ++ rest ≠ ']' :: later := by
  intro same
  obtain ⟨c, others, text, isKind⟩ := @compact_head floatText value plain
  rw [text, List.cons_append] at same
  rw [(List.cons.inj same).1] at isKind
  have closes : kindOfHead ']' = 7 := by decide
  rw [closes] at isKind
  match value, plain, isKind with
  | bool true, _, isKind => cases isKind
  | bool false, _, isKind => cases isKind

mutual

/-- A value can be told from the start of a longer text. -/
theorem compact_decodes (a b : Json) (plain : a.floatFree = true) (plain' : b.floatFree = true)
    {r s : List Char} (ends : Ends r) (ends' : Ends s)
    (same : compact floatText a ++ r = compact floatText b ++ s) : a = b ∧ r = s := by
  have alike := alike_of_kind (kind_eq plain plain' same)
  match a, plain, same, alike with
  | null, _, same, alike =>
    rw [alike] at same
    exact ⟨alike.symm, List.append_cancel_left same⟩
  | bool value, _, same, alike =>
    rw [alike] at same
    exact ⟨alike.symm, List.append_cancel_left same⟩
  | int value, _, same, alike =>
    obtain ⟨value', rfl⟩ := alike
    rw [compact, compact] at same
    have read := int_decodes ends ends' same
    exact ⟨by rw [read.1], read.2⟩
  | str value, _, same, alike =>
    obtain ⟨value', rfl⟩ := alike
    rw [compact, compact] at same
    have read := quote_decodes same
    exact ⟨by rw [String.toList_inj.mp read.1], read.2⟩
  | arr [], _, same, alike =>
    obtain ⟨items', rfl⟩ := alike
    cases items' with
    | nil => exact ⟨rfl, List.append_cancel_left same⟩
    | cons item' items' =>
      rw [floatFree, floatFreeItems, Bool.and_eq_true] at plain'
      simp only [compact, List.cons_append, List.nil_append, List.append_assoc] at same
      exact absurd (cons_decodes same).symm (bracket_apart plain'.1 _ _)
  | arr (item :: items), plain, same, alike =>
    obtain ⟨items', rfl⟩ := alike
    rw [floatFree, floatFreeItems, Bool.and_eq_true] at plain
    cases items' with
    | nil =>
      simp only [compact, List.cons_append, List.nil_append, List.append_assoc] at same
      exact absurd (cons_decodes same) (bracket_apart plain.1 _ _)
    | cons item' items' =>
      rw [floatFree, floatFreeItems, Bool.and_eq_true] at plain'
      rw [compact, compact, List.cons_append, List.cons_append, List.append_assoc, List.append_assoc] at same
      have first := compact_decodes item item' plain.1 plain'.1 (ends_items items r) (ends_items items' s)
        (cons_decodes same)
      have later := items_decode items items' plain.2 plain'.2 first.2
      exact ⟨by rw [first.1, later.1], later.2⟩
  | obj [], _, same, alike =>
    obtain ⟨fields', rfl⟩ := alike
    cases fields' with
    | nil => exact ⟨rfl, List.append_cancel_left same⟩
    | cons field' fields' =>
      rw [compact, compact, quote] at same
      exact absurd (List.cons.inj (cons_decodes same)).1 (by decide)
  | obj ((key, value) :: fields), plain, same, alike =>
    obtain ⟨fields', rfl⟩ := alike
    rw [floatFree, floatFreeFields, Bool.and_eq_true] at plain
    cases fields' with
    | nil =>
      rw [compact, compact, quote] at same
      exact absurd (List.cons.inj (cons_decodes same)).1 (by decide)
    | cons field' fields' =>
      rw [floatFree, floatFreeFields, Bool.and_eq_true] at plain'
      rw [compact, compact, List.cons_append, List.cons_append, List.append_assoc, List.append_assoc,
        List.cons_append, List.cons_append, List.append_assoc, List.append_assoc] at same
      have named := quote_decodes (cons_decodes same)
      have first := compact_decodes value field'.2 plain.1 plain'.1 (ends_fields fields r)
        (ends_fields fields' s) (cons_decodes named.2)
      have later := fields_decode fields fields' plain.2 plain'.2 first.2
      exact ⟨by rw [String.toList_inj.mp named.1, first.1, later.1], later.2⟩

theorem items_decode (items items' : List Json) (plain : floatFreeItems items = true)
    (plain' : floatFreeItems items' = true) {r s : List Char}
    (same : compactItems floatText items ++ r = compactItems floatText items' ++ s) :
    items = items' ∧ r = s := by
  match items, items', plain, plain', same with
  | [], [], _, _, same => exact ⟨rfl, List.append_cancel_left same⟩
  | [], _ :: _, _, _, same =>
    rw [compactItems, compactItems] at same
    exact absurd (List.cons.inj same).1 (by decide)
  | _ :: _, [], _, _, same =>
    rw [compactItems, compactItems] at same
    exact absurd (List.cons.inj same).1 (by decide)
  | item :: items, item' :: items', plain, plain', same =>
    rw [floatFreeItems, Bool.and_eq_true] at plain plain'
    rw [compactItems, compactItems, List.cons_append, List.cons_append, List.append_assoc,
      List.append_assoc] at same
    have first := compact_decodes item item' plain.1 plain'.1 (ends_items items r) (ends_items items' s)
      (cons_decodes same)
    have later := items_decode items items' plain.2 plain'.2 first.2
    exact ⟨by rw [first.1, later.1], later.2⟩

theorem fields_decode (fields fields' : List (String × Json)) (plain : floatFreeFields fields = true)
    (plain' : floatFreeFields fields' = true) {r s : List Char}
    (same : compactFields floatText fields ++ r = compactFields floatText fields' ++ s) :
    fields = fields' ∧ r = s := by
  match fields, fields', plain, plain', same with
  | [], [], _, _, same => exact ⟨rfl, List.append_cancel_left same⟩
  | [], (_, _) :: _, _, _, same =>
    rw [compactFields, compactFields] at same
    exact absurd (List.cons.inj same).1 (by decide)
  | (_, _) :: _, [], _, _, same =>
    rw [compactFields, compactFields] at same
    exact absurd (List.cons.inj same).1 (by decide)
  | (key, value) :: fields, (key', value') :: fields', plain, plain', same =>
    rw [floatFreeFields, Bool.and_eq_true] at plain plain'
    rw [compactFields, compactFields, List.cons_append, List.cons_append, List.append_assoc,
      List.append_assoc, List.cons_append, List.cons_append, List.append_assoc, List.append_assoc] at same
    have named := quote_decodes (cons_decodes same)
    have first := compact_decodes value value' plain.1 plain'.1 (ends_fields fields r)
      (ends_fields fields' s) (cons_decodes named.2)
    have later := fields_decode fields fields' plain.2 plain'.2 first.2
    exact ⟨by rw [String.toList_inj.mp named.1, first.1, later.1], later.2⟩

end

theorem compact_injective {a b : Json} (plain : a.floatFree = true) (plain' : b.floatFree = true)
    (same : compact floatText a = compact floatText b) : a = b := by
  have ended : compact floatText a ++ [] = compact floatText b ++ [] := by rw [same]
  have done : Ends [] := by
    intro c first
    cases first
  exact (compact_decodes a b plain plain' done done ended).1

end Decoding

section Sorting

theorem sortItems_eq (items : List Json) : sortItems items = items.map sortKeys := by
  induction items with
  | nil => rfl
  | cons item items ih => rw [sortItems, ih, List.map_cons]

theorem sortFields_eq (fields : List (String × Json)) :
    sortFields fields = fields.map fun field => (field.1, field.2.sortKeys) := by
  induction fields with
  | nil => rfl
  | cons field fields ih =>
    obtain ⟨key, value⟩ := field
    rw [sortFields, ih, List.map_cons]

theorem floatFreeItems_eq (items : List Json) : floatFreeItems items = items.all floatFree := by
  induction items with
  | nil => rfl
  | cons item items ih => rw [floatFreeItems, ih, List.all_cons]

theorem floatFreeFields_eq (fields : List (String × Json)) :
    floatFreeFields fields = fields.all fun field => field.2.floatFree := by
  induction fields with
  | nil => rfl
  | cons field fields ih =>
    obtain ⟨key, value⟩ := field
    rw [floatFreeFields, ih, List.all_cons]

mutual

theorem floatFree_sortKeys (value : Json) (plain : value.floatFree = true) :
    value.sortKeys.floatFree = true := by
  match value, plain with
  | null, _ => rfl
  | bool _, _ => rfl
  | int _, _ => rfl
  | str _, _ => rfl
  | arr items, plain =>
    rw [floatFree] at plain
    rw [sortKeys, floatFree]
    exact floatFree_sortItems items plain
  | obj fields, plain =>
    rw [floatFree] at plain
    have sorted := floatFree_sortFields fields plain
    rw [sortKeys, floatFree, floatFreeFields_eq, List.all_eq_true]
    rw [floatFreeFields_eq, List.all_eq_true] at sorted
    intro field member
    exact sorted field ((byKey_perm _).mem_iff.mp member)

theorem floatFree_sortItems (items : List Json) (plain : floatFreeItems items = true) :
    floatFreeItems (sortItems items) = true := by
  match items, plain with
  | [], _ => rfl
  | item :: items, plain =>
    rw [floatFreeItems, Bool.and_eq_true] at plain
    rw [sortItems, floatFreeItems, Bool.and_eq_true]
    exact ⟨floatFree_sortKeys item plain.1, floatFree_sortItems items plain.2⟩

theorem floatFree_sortFields (fields : List (String × Json)) (plain : floatFreeFields fields = true) :
    floatFreeFields (sortFields fields) = true := by
  match fields, plain with
  | [], _ => rfl
  | (_, value) :: fields, plain =>
    rw [floatFreeFields, Bool.and_eq_true] at plain
    rw [sortFields, floatFreeFields, Bool.and_eq_true]
    exact ⟨floatFree_sortKeys value plain.1, floatFree_sortFields fields plain.2⟩

end

/-- Two values with one canonical text are the same up to the order of their keys. -/
theorem sortKeys_eq_of_canonical {floatText : Option ℚ → List Char} {a b : Json}
    (plain : a.floatFree = true) (plain' : b.floatFree = true)
    (same : canonical floatText a = canonical floatText b) : a.sortKeys = b.sortKeys :=
  compact_injective (floatFree_sortKeys a plain) (floatFree_sortKeys b plain') same

theorem lookup_byKey {fields : List (String × Json)} (distinct : (fields.map Prod.fst).Nodup)
    (key : String) : (byKey fields).lookup key = fields.lookup key := by
  have distinct' : ((byKey fields).map Prod.fst).Nodup :=
    ((byKey_perm fields).map Prod.fst).nodup_iff.mpr distinct
  apply Option.ext
  intro value
  rw [Dict.lookup_eq_some_iff distinct', Dict.lookup_eq_some_iff distinct, (byKey_perm fields).mem_iff]

/-- The field of a value with distinct keys is the same field, sorted. -/
theorem get_sortKeys {fields : List (String × Json)} (distinct : (fields.map Prod.fst).Nodup)
    (key : String) : (sortKeys (obj fields)).get key = ((obj fields).get key).sortKeys := by
  have keys : (sortFields fields).map Prod.fst = fields.map Prod.fst := by
    rw [sortFields_eq, List.map_map]
    rfl
  have found : (sortFields fields).lookup key = (fields.lookup key).map sortKeys := by
    clear distinct keys
    induction fields with
    | nil => rfl
    | cons field fields ih =>
      obtain ⟨first, value⟩ := field
      rw [sortFields, List.lookup_cons, List.lookup_cons]
      cases key == first with
      | true => rfl
      | false => exact ih
  rw [sortKeys, get, get, lookup_byKey (by rw [keys]; exact distinct), found]
  cases fields.lookup key with
  | none => rfl
  | some value => rfl

end Sorting

end ArcReel.Lib.Json
