import FrameScript.Number.Decimal
import FrameScript.Toml.Moment
import FrameScript.Toml.Quoted
import FrameScript.Toml.Value

/-!
# Scalars of settings files

Underscores may stand between digits. Integers have 64 bits with a sign. A decimal
does not begin with a needless zero; a float may not be too large for its range.
-/

namespace FrameScript
namespace Toml

/-- Further digits, each after at most one underscore. An underscore with no digit after
it is an error. -/
def readMoreDigits? (isDigit : Char → Bool) : List Char → Option (List Char × List Char)
  | '_' :: c :: rest =>
    if isDigit c then (readMoreDigits? isDigit rest).map fun (ds, r) => (c :: ds, r) else none
  | ['_'] => none
  | c :: rest =>
    if isDigit c then (readMoreDigits? isDigit rest).map fun (ds, r) => (c :: ds, r)
    else some ([], c :: rest)
  | [] => some ([], [])

def readDigits? (isDigit : Char → Bool) : List Char → Option (List Char × List Char)
  | c :: rest =>
    if isDigit c then (readMoreDigits? isDigit rest).map fun (ds, r) => (c :: ds, r) else none
  | [] => none

/-- The digits of a decimal before its point: a single zero, or digits that do not begin
with one. -/
def readWhole? : List Char → Option (List Char × List Char)
  | '0' :: rest => some (['0'], rest)
  | cs => readDigits? Char.isDigit cs

def readSign : List Char → List Char × List Char
  | '+' :: rest => (['+'], rest)
  | '-' :: rest => (['-'], rest)
  | cs => ([], cs)

def integer? (n : Int) : Option Value :=
  if fitsSignedWord n then some (.integer n) else none

def readBased? (base : Nat) (cs : List Char) : Option (Value × List Char) := do
  let valid := fun c => (Json.hexDigit? c).any (· < base)
  let (digits, rest) ← readDigits? valid cs
  let n := digits.foldl (fun n c => base * n + (Json.hexDigit? c).getD 0) 0
  (integer? n).map fun v => (v, rest)

/-- The exponent of a float with its letter, if there is one here. -/
def readExponent? : List Char → Option (List Char × List Char)
  | c :: rest =>
    if c = 'e' ∨ c = 'E' then
      let (sign, rest) := readSign rest
      (readDigits? Char.isDigit rest).map fun (ds, r) => ('e' :: sign ++ ds, r)
    else some ([], c :: rest)
  | [] => some ([], [])

/-- The fraction of a float with its point, if there is one here. -/
def readFractionDigits? : List Char → Option (List Char × List Char)
  | '.' :: rest => (readDigits? Char.isDigit rest).map fun (ds, r) => ('.' :: ds, r)
  | cs => some ([], cs)

/-- The float that a text writes, unless it is too large. -/
def float? (text : List Char) : Option Value :=
  match Number.ofText? (String.ofList text) with
  | some (.infinity false) => none
  | some x => some (.float x)
  | none => none

/-- A decimal: an integer, unless a fraction or an exponent follows. -/
def readDecimal? (cs : List Char) : Option (Value × List Char) := do
  let (sign, cs) := readSign cs
  let (whole, cs) ← readWhole? cs
  let (fraction, cs) ← readFractionDigits? cs
  let (exponent, cs) ← readExponent? cs
  if fraction.isEmpty && exponent.isEmpty then
    let n : Int := Decimal.digitsValue whole
    (integer? (if sign = ['-'] then -n else n)).map fun v => (v, cs)
  else (float? (sign ++ whole ++ fraction ++ exponent)).map fun v => (v, cs)

/-- One of the words for infinity and for no number, with an optional sign. -/
def readWordNumber? (cs : List Char) : Option (Value × List Char) :=
  let (sign, cs) := readSign cs
  let negative := sign = ['-']
  match "inf".toList.isPrefixOf? cs with
  | some rest => some (.float (.infinity negative), rest)
  | none =>
    ("nan".toList.isPrefixOf? cs).map fun rest => (.float (.nan negative), rest)

def readNumber? (cs : List Char) : Option (Value × List Char) :=
  match cs with
  | '0' :: 'x' :: rest => readBased? 16 rest
  | '0' :: 'o' :: rest => readBased? 8 rest
  | '0' :: 'b' :: rest => readBased? 2 rest
  | _ =>
    match readWordNumber? cs with
    | some found => some found
    | none => readDecimal? cs

def readBool? (cs : List Char) : Option (Value × List Char) :=
  match "true".toList.isPrefixOf? cs with
  | some rest => some (.bool true, rest)
  | none => ("false".toList.isPrefixOf? cs).map fun rest => (.bool false, rest)

/-- A value that holds no other values. What looks like a moment is one. -/
def readScalar? (cs : List Char) : Option (Value × List Char) :=
  match readQuoted? cs with
  | some (text, rest) => some (.text text, rest)
  | none =>
    match readMoment? cs with
    | some (text, rest) => some (.moment text, rest)
    | none =>
      match readBool? cs with
      | some found => some found
      | none => readNumber? cs

end Toml
end FrameScript
