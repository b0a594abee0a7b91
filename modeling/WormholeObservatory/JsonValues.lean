import WormholeObservatory.Floats

/-! Values that `json.loads` gives, and what Python makes of them where it expects something else.
What `str` makes of a float or a container, and which texts are numbers, stays a parameter. -/
namespace JsonValues

open Floats

inductive Value
  | null
  | bool (b : Bool)
  | int (n : ℤ)
  | float (x : PyFloat)
  | str (s : String)
  | list (items : List Value)
  | dict (fields : List (String × Value))

class ValueTexts where
  /-- `str(x)` of a float, a list or a dictionary. -/
  repr : Value → String
  /-- `float(s)`, unless that raises a `ValueError`. -/
  floatOfText : String → Option PyFloat
  /-- `int(s)`, unless that raises a `ValueError`. -/
  intOfText : String → Option ℤ

/-- The table that reads no text as a number and shows no value. -/
instance plainTexts : ValueTexts where
  repr _ := ""
  floatOfText _ := none
  intOfText _ := none

inductive ConversionError
  | type
  | value
  | overflow
  deriving DecidableEq

namespace Value

/-- `bool(x)`. -/
def truthy : Value → Bool
  | .null => false
  | .bool b => b
  | .int n => decide (n ≠ 0)
  | .float x => decide (x ≠ .finite 0)
  | .str s => decide (s ≠ "")
  | .list items => !items.isEmpty
  | .dict fields => !fields.isEmpty

/-- `for item in x`, unless that raises a `TypeError`. -/
def items : Value → Option (List Value)
  | .list items => some items
  | .str s => some (s.toList.map fun c => .str c.toString)
  | .dict fields => some (fields.map fun field => .str field.1)
  | _ => none

/-- `x or []`. -/
def orEmpty (x : Value) : Value := if x.truthy then x else .list []

variable [ValueTexts]

/-- `str(x)`. -/
def display : Value → String
  | .null => "None"
  | .bool true => "True"
  | .bool false => "False"
  | .int n => toString n
  | .str s => s
  | x => ValueTexts.repr x

/-- `str(x or default)`. -/
def textOr (default : String) (x : Value) : String := if x.truthy then x.display else default

/-- `float(x)`. -/
def toFloat : Value → Except ConversionError PyFloat
  | .bool b => .ok (.finite (if b then 1 else 0))
  | .int n =>
    match ofInt n with
    | some x => .ok x
    | none => .error .overflow
  | .float x => .ok x
  | .str s =>
    match ValueTexts.floatOfText s with
    | some x => .ok x
    | none => .error .value
  | _ => .error .type

/-- `int(x)`. -/
def toInt : Value → Except ConversionError ℤ
  | .bool b => .ok (if b then 1 else 0)
  | .int n => .ok n
  | .float (.finite q) => .ok (if 0 ≤ q then ⌊q⌋ else ⌈q⌉)
  | .float .nan => .error .value
  | .float _ => .error .overflow
  | .str s =>
    match ValueTexts.intOfText s with
    | some n => .ok n
    | none => .error .value
  | _ => .error .type

@[simp] theorem textOr_str (default s : String) :
    (Value.str s).textOr default = if s = "" then default else s := by
  by_cases h : s = "" <;> simp [textOr,truthy,display,h]

end Value

/-- `data.get(key)`. -/
def field (fields : List (String × Value)) (key : String) : Value := (fields.lookup key).getD .null

end JsonValues
