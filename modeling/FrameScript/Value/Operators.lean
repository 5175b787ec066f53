import FrameScript.Number.Arithmetic
import FrameScript.Value.Text

/-!
# Operators and properties

Arithmetic works on numbers, `+` also joins texts, comparison orders two
numbers or two texts, and equality is defined on everything. A list can be
written at its positions and one past its end.
-/

namespace FrameScript
namespace Value

def typeError (message : String) : ErrorInfo := ⟨ErrorCode.typeError, message⟩

def unary (op : UnaryOp) (v : Value) : Except ErrorInfo Value :=
  match op, v with
  | .not, v => .ok (bool !v.isTruthy)
  | .neg, num x => .ok (num x.neg)
  | .neg, v => .error (typeError ("attempt to negate a " ++ v.typeName ++ " value"))

def arithmeticError (verb : String) (left right : Value) : ErrorInfo :=
  typeError ("attempt to " ++ verb ++ " a " ++ left.typeName ++ " and a " ++ right.typeName ++
    " value")

def arithmetic (verb : String) (f : Number → Number → Number) :
    Value → Value → Except ErrorInfo Value
  | num x, num y => .ok (num (f x y))
  | left, right => .error (arithmeticError verb left right)

def isText : Value → Bool
  | str _ => true
  | _ => false

/-- Sum of numbers, or the joined texts if either side is a text. -/
def add? (h : Heap) (left right : Value) : Option (Except ErrorInfo Value) :=
  match left, right with
  | num x, num y => some (.ok (num (x.add y)))
  | left, right =>
    if left.isText || right.isText then
      match text? h left, text? h right with
      | some a, some b => some (.ok (str (a ++ b)))
      | _, _ => none
    else some (.error (arithmeticError "add" left right))

/-- Order of texts by code points. -/
def compareText (a b : String) : Ordering :=
  if a < b then .lt else if a = b then .eq else .gt

/-- Comparison of two numbers or two texts; NaN passes no test. -/
def compareWith (test : Ordering → Bool) (left right : Value) : Except ErrorInfo Value :=
  match left, right with
  | num x, num y =>
    .ok (bool (match x.compare? y with
      | some o => test o
      | none => false))
  | str a, str b => .ok (bool (test (compareText a b)))
  | left, right =>
    .error (typeError ("attempt to compare " ++ left.typeName ++ " with " ++ right.typeName))

/-- The value of a binary operator; `none` where a text has no end. -/
def binary? (h : Heap) (op : BinaryOp) (left right : Value) : Option (Except ErrorInfo Value) :=
  match op with
  | .add => add? h left right
  | .sub => some (arithmetic "subtract" Number.sub left right)
  | .mul => some (arithmetic "multiply" Number.mul left right)
  | .div => some (arithmetic "divide" Number.div left right)
  | .mod => some (arithmetic "take the remainder of" Number.rem left right)
  | .eq => some (.ok (bool (left.equals right)))
  | .ne => some (.ok (bool !left.equals right))
  | .lt => some (compareWith Ordering.isLT left right)
  | .lte => some (compareWith Ordering.isLE left right)
  | .gt => some (compareWith Ordering.isGT left right)
  | .gte => some (compareWith Ordering.isGE left right)

def getMember (h : Heap) (v : Value) (name : String) : Except ErrorInfo Value :=
  let noAccess : ErrorInfo :=
    typeError ("cannot access property '" ++ name ++ "' on a " ++ v.typeName ++ " value")
  match v with
  | object r =>
    match (h.object r).get? name with
    | some value => .ok value
    | none => .error ⟨ErrorCode.propertyNotFound, "property '" ++ name ++ "' not found"⟩
  | error info =>
    if name = "code" then .ok (str info.code)
    else if name = "message" then .ok (str info.message)
    else .error noAccess
  | list r =>
    if name = "length" then .ok (num (Number.ofNat (h.list r).size)) else .error noAccess
  | str s => if name = "length" then .ok (num (Number.ofNat s.length)) else .error noAccess
  | _ => .error noAccess

def setMember (h : Heap) (v : Value) (name : String) (value : Value) : Except ErrorInfo Heap :=
  match v with
  | object r => .ok (h.setField r name value)
  | v => .error (typeError
      ("cannot set property '" ++ name ++ "' on a " ++ v.typeName ++ " value"))

/-- The position that a number names: an integer that is not negative. -/
def position? (x : Number) : Option Nat :=
  if x.isInteger && !x.less (Number.zero false) then some x.toWord else none

def outOfRange (x : Number) (length : Nat) : ErrorInfo :=
  ⟨ErrorCode.indexOutOfRange,
    "index " ++ x.display ++ " out of range for length " ++ toString length⟩

def indexTypeError (v index : Value) : ErrorInfo :=
  typeError ("cannot index a " ++ v.typeName ++ " value with a " ++ index.typeName ++ " value")

def getIndex (h : Heap) (v index : Value) : Except ErrorInfo Value :=
  match v, index with
  | list r, num x =>
    let items := h.list r
    match (position? x).bind fun i => items[i]? with
    | some value => .ok value
    | none => .error (outOfRange x items.size)
  | str s, num x =>
    match (position? x).bind fun i => s.toList[i]? with
    | some c => .ok (str (String.singleton c))
    | none => .error (outOfRange x s.length)
  | object r, str key => getMember h (object r) key
  | v, index => .error (indexTypeError v index)

/-- Write a position of a list, or the position past its end. -/
def setIndex (h : Heap) (v index value : Value) : Except ErrorInfo Heap :=
  match v, index with
  | list r, num x =>
    let size := (h.list r).size
    match position? x with
    | some i =>
      if i < size then .ok (h.updateList r fun items => items.setIfInBounds i value)
      else if i = size then .ok (h.updateList r fun items => items.push value)
      else .error (outOfRange x size)
    | none => .error (outOfRange x size)
  | object r, str key => setMember h (object r) key value
  | v, index => .error (indexTypeError v index)

end Value
end FrameScript
