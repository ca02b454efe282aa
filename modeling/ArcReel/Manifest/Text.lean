import ArcReel.Lib.KeyOrder
import ArcReel.Lib.PyText

/-! Python texts by their code points, lone surrogates included, and the JSON values over them. -/

namespace ArcReel.Manifest
open Lib

section Texts

abbrev Str := List Nat

def text (literal : String) : Str := literal.toList.map Char.toNat

/-- A code point that UTF-8 can encode. -/
def isScalar (point : Nat) : Bool := point < 0xD800 || (0xE000 ≤ point && point < 0x110000)

def isSpacePoint (point : Nat) : Bool := isScalar point && PyText.isSpace (Char.ofNat point)

/-- What is left between the outer elements with `p`. -/
def trim {α : Type} (p : α → Bool) (l : List α) : List α := (l.dropWhile p).rdropWhile p

theorem trim_trim {α : Type} (p : α → Bool) (l : List α) : trim p (trim p l) = trim p l := by
  have front : (trim p l).dropWhile p = trim p l := by
    cases inner : trim p l with
    | nil => rfl
    | cons x rest =>
      obtain ⟨tail, whole⟩ := List.rdropWhile_prefix p (l := l.dropWhile p)
      have stops := List.head?_dropWhile_not p l
      rw [← whole, ← trim, inner, List.cons_append, List.head?_cons] at stops
      exact List.dropWhile_cons_of_neg (by simpa using stops)
  rw [trim, front, trim, List.rdropWhile_idempotent]

def strip (value : Str) : Str := trim isSpacePoint value

end Texts

section Values

/-- A JSON value in memory: the fields of an object are in insertion order, a float is its text. -/
inductive Value where
  | null
  | bool (value : Bool)
  | int (value : Int)
  | float (value : Str)
  | str (value : Str)
  | arr (items : List Value)
  | obj (fields : List (Str × Value))

/-- The integers that Python writes in decimal are below this. -/
def digitLimit : Nat := 10 ^ 4300

mutual

/-- `json.dumps(…, ensure_ascii=False).encode("utf-8")` does not raise. -/
def Value.writable : Value → Bool
  | .int value => value.natAbs < digitLimit
  | .str value => value.all isScalar
  | .arr items => writableItems items
  | .obj fields => writableFields fields
  | _ => true

def writableItems : List Value → Bool
  | [] => true
  | value :: items => value.writable && writableItems items

def writableFields : List (Str × Value) → Bool
  | [] => true
  | (key, value) :: fields => key.all isScalar && value.writable && writableFields fields

end

mutual

/-- What `sort_keys` writes. -/
def Value.sorted : Value → Value
  | .arr items => .arr (sortedItems items)
  | .obj fields => .obj (byKey (sortedFields fields))
  | value => value

def sortedItems : List Value → List Value
  | [] => []
  | value :: items => value.sorted :: sortedItems items

def sortedFields : List (Str × Value) → List (Str × Value)
  | [] => []
  | (key, value) :: fields => (key, value.sorted) :: sortedFields fields

end

mutual

/-- No object has a key twice. -/
def Value.distinct : Value → Bool
  | .arr items => distinctItems items
  | .obj fields => decide (fields.map Prod.fst).Nodup && distinctFields fields
  | _ => true

def distinctItems : List Value → Bool
  | [] => true
  | value :: items => value.distinct && distinctItems items

def distinctFields : List (Str × Value) → Bool
  | [] => true
  | (_, value) :: fields => value.distinct && distinctFields fields

end

theorem writableItems_iff {items : List Value} :
    writableItems items = true ↔ ∀ value ∈ items, value.writable = true := by
  induction items with
  | nil => simp [writableItems]
  | cons value items ih => simp [writableItems, ih]

theorem writableFields_iff {fields : List (Str × Value)} :
    writableFields fields = true ↔
      ∀ field ∈ fields, field.1.all isScalar = true ∧ field.2.writable = true := by
  induction fields with
  | nil => simp [writableFields]
  | cons field fields ih => simp [writableFields, ih, and_assoc]

theorem distinctFields_iff {fields : List (Str × Value)} :
    distinctFields fields = true ↔ ∀ field ∈ fields, field.2.distinct = true := by
  induction fields with
  | nil => simp [distinctFields]
  | cons field fields ih => simp [distinctFields, ih]

theorem sortedFields_eq_map (fields : List (Str × Value)) :
    sortedFields fields = fields.map fun field => (field.1, field.2.sorted) := by
  induction fields with
  | nil => rfl
  | cons field fields ih => rw [sortedFields, ih]; rfl

/-- An object whose keys are in order and whose values are sorted is sorted. -/
theorem sorted_obj {fields : List (Str × Value)} (ordered : fields.Pairwise fun a b => a.1 ≤ b.1)
    (values : ∀ field ∈ fields, field.2.sorted = field.2) : (Value.obj fields).sorted = .obj fields := by
  have same : sortedFields fields = fields := by
    rw [sortedFields_eq_map]
    conv_rhs => rw [← List.map_id fields]
    exact List.map_congr_left fun field member => by rw [values field member]; rfl
  rw [Value.sorted, same, byKey_of_ordered ordered]

end Values

/-- What the standard library does: NFC and case folding, and the base64 token of a JSON value.
Reading a token gives what was written. -/
structure Primitives where
  nfc : Str → Str
  casefold : Str → Str
  token : Value → Str
  untoken : Str → Option Value
  nfc_nfc : ∀ value, nfc (nfc value) = nfc value
  strip_nfc : ∀ value, strip (nfc value) = nfc (strip value)
  token_scalar : ∀ value, value.writable = true → (token value).all isScalar = true
  untoken_token : ∀ value, value.writable = true → untoken (token value) = some value

end ArcReel.Manifest
