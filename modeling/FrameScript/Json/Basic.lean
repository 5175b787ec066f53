import FrameScript.Number.Decimal
import FrameScript.Table

/-!
# JSON values

JSON with integers kept apart from other numbers. A number that is written as
an integer and fits 64 bits is an integer; every other number is a float.
-/

namespace FrameScript

inductive Json where
  | null
  | bool (value : Bool)
  | integer (value : Int)
  | float (value : Number)
  | string (value : String)
  | array (items : List Json)
  | object (fields : List (String × Json))
  deriving Inhabited

namespace Json

def field? (json : Json) (key : String) : Option Json :=
  match json with
  | object fields => Table.lookup key fields
  | _ => none

/-- Whether an integer fits 64 bits, signed or unsigned. -/
def fitsWord (n : Int) : Bool := -(Nat.pow 2 63 : Int) ≤ n && n < (Nat.pow 2 64 : Int)

def ofNat (n : Nat) : Json := integer n

def ofBool (b : Bool) : Json := bool b

def strings (items : List String) : Json := array (items.map string)

def toNumber? : Json → Option Number
  | integer n => some (Number.ofInt n)
  | float x => some x
  | _ => none

def toText? : Json → Option String
  | string s => some s
  | _ => none

def toBool? : Json → Option Bool
  | bool b => some b
  | _ => none

/-- An integer of the range `0 ≤ n < bound`. -/
def toNatBelow? (bound : Nat) : Json → Option Nat
  | integer n => if 0 ≤ n ∧ n < bound then some n.toNat else none
  | _ => none

def toNat? : Json → Option Nat := toNatBelow? (Nat.pow 2 64)

def toList? : Json → Option (List Json)
  | array items => some items
  | _ => none

end Json
end FrameScript
