import FrameScript.Number.Decimal

/-!
# Script values

Lists, objects and functions are references into a heap, so two values are the
same list exactly if their references are equal. Everything else is held by
value.
-/

namespace FrameScript

/-- An error as scripts and reports see it. -/
structure ErrorInfo where
  code : String
  message : String
  deriving DecidableEq, Repr

def ErrorInfo.text (e : ErrorInfo) : String := e.code ++ ": " ++ e.message

structure ListRef where
  slot : Nat
  deriving DecidableEq, Repr

structure ObjectRef where
  slot : Nat
  deriving DecidableEq, Repr

structure FunctionRef where
  slot : Nat
  deriving DecidableEq, Repr

inductive Value where
  | null
  | bool (value : Bool)
  | num (value : Number)
  | str (value : String)
  | list (ref : ListRef)
  | object (ref : ObjectRef)
  | function (ref : FunctionRef)
  /-- A function of the host, under its registered name. -/
  | native (name : String)
  | error (info : ErrorInfo)
  deriving DecidableEq, Inhabited

namespace Value

/-- Only `null` and `false` count as false. -/
def isTruthy : Value → Bool
  | bool b => b
  | null => false
  | _ => true

def typeName : Value → String
  | null => "null"
  | bool _ => "boolean"
  | num _ => "number"
  | str _ => "string"
  | list _ => "list"
  | object _ => "object"
  | function _ => "function"
  | native _ => "function"
  | error _ => "error"

def asNumber? : Value → Option Number
  | num x => some x
  | _ => none

def asText? : Value → Option String
  | str s => some s
  | _ => none

/-- Equality of scripts: references by identity, numbers as arithmetic has it. -/
def equals : Value → Value → Bool
  | num x, num y => x.equals y
  | a, b => a = b

end Value

namespace ErrorCode

def typeError : String := "TypeError"
def undefinedVariable : String := "UndefinedVariable"
def propertyNotFound : String := "PropertyNotFound"
def indexOutOfRange : String := "IndexOutOfRange"
def notCallable : String := "NotCallable"
def argumentError : String := "ArgumentError"
def wrongArgumentCount : String := "WrongArgumentCount"
def wrongArgumentType : String := "WrongArgumentType"
def stackOverflow : String := "StackOverflow"
def suspendOutsideContinuation : String := "SuspendOutsideContinuation"
def userError : String := "Error"
def loadError : String := "LoadError"
def panic : String := "Panic"

end ErrorCode
end FrameScript
