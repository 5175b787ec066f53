import FrameScript.Json.Basic
import FrameScript.Json.Failure
import FrameScript.Number.Arithmetic

/-!
# Numerals of JSON

A numeral without fraction and exponent that fits 64 bits is an integer. All others
are floats, which are read with bounded effort: the digits count as far as they fit
64 bits, and the power of ten is itself a rounded number. So a float may differ from
the nearest number to its numeral by a few units of the last place.
-/

namespace FrameScript
namespace Json

/-- The significand that is continued by digits as long as it fits 64 bits, and how many
digits that are. -/
def extendSignificand (significand : Nat) : List Char → Nat × Nat
  | [] => (significand, 0)
  | c :: rest =>
    let next := 10 * significand + Decimal.digitValue c
    if next < Nat.pow 2 64 then
      let (significand, count) := extendSignificand next rest
      (significand, count + 1)
    else (significand, 0)

/-- Digits before the point that do not fit still count as places; digits after it do not. -/
def significandOf (whole fraction : List Char) : Decimal :=
  let (significand, count) := extendSignificand 0 whole
  let (significand, places) := extendSignificand significand fraction
  ⟨significand, (whole.length : Int) - count - places⟩

/-- The greatest exponent of a power of ten that is a number. -/
def powerLimit : Nat := 308

def powerOfTen (k : Nat) : Number := Decimal.toNumber false ⟨1, k⟩

/-- Scale a number by a power of ten, in steps of at most the greatest one. A number past
the range is none. -/
def scale? : (fuel : Nat) → Number → Int → Option Number
  | 0, x, _ => some x
  | fuel + 1, x, k =>
    if k.natAbs ≤ powerLimit then
      if 0 ≤ k then (some (x.mul (powerOfTen k.natAbs))).filter Number.isFinite
      else some (x.div (powerOfTen k.natAbs))
    else if x.isZero then some x
    else if 0 ≤ k then none
    else scale? fuel (x.div (powerOfTen powerLimit)) (k + powerLimit)

/-- The float of a significand and a power of ten. Two steps turn every number of 64 bits
into zero, so the fuel lasts. -/
def floatOfDecimal? (d : Decimal) : Option Number := scale? 3 (Number.ofNat d.digits) d.scale

/-- The digits before the point: a zero, or digits that do not begin with one. -/
def readWhole : List Char → Except Failure (List Char × List Char)
  | [] => failAt .endInValue []
  | '0' :: rest =>
    if (rest.head?.map Char.isDigit).getD false then failIn .badNumeral rest else .ok (['0'], rest)
  | c :: rest =>
    if c.isDigit then .ok ((c :: rest).takeWhile Char.isDigit, rest.dropWhile Char.isDigit)
    else failIn .badNumeral (c :: rest)

def readDigits (cs : List Char) : Except Failure (List Char × List Char) :=
  match cs with
  | [] => failAt .endInValue []
  | c :: rest =>
    if c.isDigit then .ok ((c :: rest).takeWhile Char.isDigit, rest.dropWhile Char.isDigit)
    else failIn .badNumeral cs

def readFraction : List Char → Except Failure (List Char × List Char)
  | '.' :: rest => readDigits rest
  | rest => .ok ([], rest)

def readExponent : List Char → Except Failure (Option (Bool × List Char) × List Char)
  | c :: rest =>
    if c = 'e' ∨ c = 'E' then do
      let (negative, rest) := Decimal.readSign rest
      let (digits, rest) ← readDigits rest
      .ok (some (negative, digits), rest)
    else .ok (none, c :: rest)
  | [] => .ok (none, [])

/-- The digits after the first ones that write a number past 32 bits with a sign. -/
def digitsPastLimit? (n : Nat) : List Char → Option (List Char)
  | [] => none
  | c :: rest =>
    let next := 10 * n + Decimal.digitValue c
    if Nat.pow 2 31 ≤ next then some rest else digitsPastLimit? next rest

/-- A float from its parts. One past the range fails at its end, unless its exponent fails
before. -/
def floatOfParts (negative : Bool) (whole fraction : List Char)
    (exponent : Option (Bool × List Char)) (rest : List Char) : Except Failure Number :=
  let d := significandOf whole fraction
  let (below, digits) := exponent.getD (false, [])
  let size : Int := Decimal.digitsValue digits
  match floatOfDecimal? { d with scale := d.scale + if below then -size else size } with
  | some x => .ok (if negative then x.neg else x)
  | none => failAt .outOfRange ((digitsPastLimit? 0 digits).getD [] ++ rest)

def readNumeral (cs : List Char) : Except Failure (Json × List Char) := do
  let (negative, cs) := match cs with
    | '-' :: rest => (true, rest)
    | _ => (false, cs)
  let (whole, cs) ← readWhole cs
  let (fraction, cs) ← readFraction cs
  let (exponent, cs) ← readExponent cs
  let magnitude : Int := Decimal.digitsValue whole
  let n := if negative then -magnitude else magnitude
  if fraction.isEmpty && exponent.isNone && fitsWord n && !(negative && magnitude == 0) then
    .ok (integer n, cs)
  else
    let x ← floatOfParts negative whole fraction exponent cs
    .ok (float x, cs)

end Json
end FrameScript
