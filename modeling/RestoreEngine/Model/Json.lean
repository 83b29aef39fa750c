import Mathlib.Data.Rat.Floor
import RestoreEngine.Model.Text

/-!
# JSON values in dictionaries

The values that a request or a stored record holds, and what Python makes of them: their truth
value, `str`, `int`, and the iteration over them. A dictionary is the function that gives its
values.
-/

namespace RestoreEngine

/-- A JSON value. A floating-point number comes with its `repr`. -/
inductive Json
  | null
  | bool (b : Bool)
  | int (n : ℤ)
  | float (q : ℚ) (repr : String)
  | str (s : String)
  | arr (items : List Json)
  | obj (entries : List (String × Json))

namespace Json

/-- `bool` of a value. -/
def truthy : Json → Bool
  | null => false
  | bool b => b
  | int n => n ≠ 0
  | float q _ => q ≠ 0
  | str s => s ≠ ""
  | arr items => !items.isEmpty
  | obj entries => !entries.isEmpty

/-- A character in `repr` of a text with these quotes. Outside ASCII every character counts as
printable. -/
def reprChar (quote c : Char) : List Char :=
  if c = '\\' ∨ c = quote then ['\\', c]
  else if c = '\n' then ['\\', 'n']
  else if c = '\r' then ['\\', 'r']
  else if c = '\t' then ['\\', 't']
  else if c.toNat < 32 ∨ c.toNat = 127 then
    ['\\', 'x', Nat.digitChar (c.toNat / 16), Nat.digitChar (c.toNat % 16)]
  else [c]

/-- `repr` of a text: in double quotes if it has single ones only. -/
def reprText (s : String) : String :=
  let quote := if '\'' ∈ s.toList ∧ '"' ∉ s.toList then '"' else '\''
  String.ofList (quote :: s.toList.flatMap (reprChar quote) ++ [quote])

mutual

/-- `repr` of a value. -/
def repr : Json → String
  | null => "None"
  | bool b => if b then "True" else "False"
  | int n => toString n
  | float _ text => text
  | str s => reprText s
  | arr items => "[" ++ Text.join ", " (reprItems items) ++ "]"
  | obj entries => "\x7b" ++ Text.join ", " (reprEntries entries) ++ "\x7d"

/-- `repr` of the items of a list. -/
def reprItems : List Json → List String
  | [] => []
  | item :: rest => repr item :: reprItems rest

/-- `repr` of the entries of a dictionary. -/
def reprEntries : List (String × Json) → List String
  | [] => []
  | (key, val) :: rest => (reprText key ++ ": " ++ repr val) :: reprEntries rest

end

/-- `str` of a value. -/
def toText : Json → String
  | str s => s
  | v => repr v

/-- `int` of a value, if it does not raise. -/
def toInt : Json → Option ℤ
  | bool b => some (if b then 1 else 0)
  | int n => some n
  | float q _ => some (if 0 ≤ q then ⌊q⌋ else ⌈q⌉)
  | str s => Text.parseInt s
  | _ => none

/-- The values that an iteration over a value gives, if it does not raise. -/
def iterate : Json → Option (List Json)
  | str s => some (s.toList.map fun c => str (String.ofList [c]))
  | arr items => some items
  | obj entries => some (entries.map fun e => str e.1)
  | _ => none

/-- `isinstance(v, dict)`. -/
def isObj : Json → Bool
  | obj _ => true
  | _ => false

end Json

/-- A dictionary: its values. -/
abbrev Dict := String → Option Json

namespace Dict

/-- A dictionary with these entries. -/
def ofFields (fields : List (String × Json)) : Dict := fun key => fields.lookup key

/-- The entries of `b` laid over those of `a`. -/
def overlay (a b : Dict) : Dict := fun key => (b key).or (a key)

/-- A dictionary with an entry set. -/
def set (d : Dict) (key : String) (v : Json) : Dict := fun k => if k = key then some v else d k

/-- `payload.get(key) or v`. -/
def getOr (d : Dict) (key : String) (v : Json) : Json := ((d key).filter Json.truthy).getD v

/-- `payload.get(key, v)`. -/
def getD (d : Dict) (key : String) (v : Json) : Json := (d key).getD v

end Dict

end RestoreEngine
