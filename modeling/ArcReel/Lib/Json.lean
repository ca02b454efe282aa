import Mathlib.Tactic

/-! JSON values as Python reads them, and what Python does with them. -/

namespace ArcReel.Lib

/-- A parsed JSON value: the fields of an object are in file order, and a float that is not
finite has no value. -/
inductive Json where
  | null
  | bool (value : Bool)
  | int (value : Int)
  | float (value : Option ℚ)
  | str (value : String)
  | arr (items : List Json)
  | obj (fields : List (String × Json))

namespace Json

def isObj : Json → Bool
  | obj _ => true
  | _ => false

/-- `value.get(key)` of an object; `None` stands for a missing key. -/
def get (json : Json) (key : String) : Json :=
  match json with
  | obj fields => (fields.lookup key).getD null
  | _ => null

/-- An `int` that is not a `bool`. -/
def int? : Json → Option Int
  | int value => some value
  | _ => none

def str? : Json → Option String
  | str value => some value
  | _ => none

def isNull : Json → Bool
  | null => true
  | _ => false

def truthy : Json → Bool
  | null => false
  | bool value => value
  | int value => value ≠ 0
  | float value => value ≠ some 0
  | str value => value ≠ ""
  | arr items => !items.isEmpty
  | obj fields => !fields.isEmpty

/-- The elements of `value or []`; a value that cannot be iterated raises. -/
def iterate? : Json → Option (List Json)
  | null | bool false | int 0 | float (some 0) => some []
  | arr items => some items
  | str value => some (value.toList.map fun c => str (String.ofList [c]))
  | obj fields => some (fields.map fun field => str field.1)
  | bool true | int _ | float _ => none

end Json

end ArcReel.Lib
