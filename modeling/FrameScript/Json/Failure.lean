/-!
# Failures of reading JSON

A failure says what is wrong with a text and where: in which line, and after how many
bytes of it.
-/

namespace FrameScript
namespace Json

inductive Flaw where
  | endInValue
  | endInString
  | endInArray
  | endInObject
  | noValue
  | noWord
  | badNumeral
  | outOfRange
  | badEscape
  | control
  | loneSurrogate
  | halfSurrogate
  | noKey
  | noColon
  | noCommaInArray
  | noCommaInObject
  | trailingComma
  | trailingText
  | tooDeep
  deriving DecidableEq, Repr

def Flaw.message : Flaw → String
  | endInValue => "EOF while parsing a value"
  | endInString => "EOF while parsing a string"
  | endInArray => "EOF while parsing a list"
  | endInObject => "EOF while parsing an object"
  | noValue => "expected value"
  | noWord => "expected ident"
  | badNumeral => "invalid number"
  | outOfRange => "number out of range"
  | badEscape => "invalid escape"
  | control => "control character (\\u0000-\\u001F) found while parsing a string"
  | loneSurrogate => "lone leading surrogate in hex escape"
  | halfSurrogate => "unexpected end of hex escape"
  | noKey => "key must be a string"
  | noColon => "expected `:`"
  | noCommaInArray => "expected `,` or `]`"
  | noCommaInObject => "expected `,` or `\x7d`"
  | trailingComma => "trailing comma"
  | trailingText => "trailing characters"
  | tooDeep => "recursion limit exceeded"

/-- A flaw after so many bytes of the rest of a text. -/
structure Failure where
  flaw : Flaw
  rest : List Char
  ahead : Nat
  deriving DecidableEq

namespace Failure

def byteCount (cs : List Char) : Nat := (String.ofList cs).utf8ByteSize

/-- The number of the line that bytes end in, and how many of them are in it. -/
def position (bytes : List UInt8) : Nat × Nat :=
  (1 + bytes.count 10, (bytes.reverse.takeWhile (· ≠ 10)).length)

def message (f : Failure) (text : String) : String :=
  let before := text.utf8ByteSize - byteCount f.rest + f.ahead
  let (line, column) := position (text.toUTF8.toList.take before)
  f.flaw.message ++ " at line " ++ toString line ++ " column " ++ toString column

end Failure

/-- A flaw at the end of what has been read. -/
def failAt {α : Type} (flaw : Flaw) (rest : List Char) : Except Failure α := .error ⟨flaw, rest, 0⟩

/-- A flaw in the next byte. -/
def failIn {α : Type} (flaw : Flaw) (rest : List Char) : Except Failure α := .error ⟨flaw, rest, 1⟩

end Json
end FrameScript
