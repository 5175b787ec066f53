import FrameScript.Number.Basic

/-!
# Rounding

Every operation on numbers computes an exact value and rounds it once, to the
nearest number, a tie going to the even mantissa. Values past the greatest
number by half a unit or more become infinite.
-/

namespace FrameScript
namespace Number

/-- The quotient `m / 2 ^ s` rounded to the nearest natural, a tie to the even one. -/
def roundShift (m s : Nat) : Nat :=
  let q := m >>> s
  let rest := m - (q <<< s)
  let twice := 2 * rest
  if Nat.pow 2 s < twice ∨ (twice = Nat.pow 2 s ∧ q % 2 = 1) then q + 1 else q

/-- The number nearest to `m * 2 ^ e`. -/
def roundDyadic (negative : Bool) (m : Nat) (e : Int) : Number :=
  if m = 0 then zero negative
  else
    let drop : Int := max ((Nat.log2 m : Int) - 52) (-1074 - e)
    if drop ≤ 0 then ofParts negative (m <<< (-drop).toNat) (e + drop)
    else
      let q := roundShift m drop.toNat
      if q = Nat.pow 2 53 then ofParts negative (Nat.pow 2 52) (e + drop + 1)
      else ofParts negative q (e + drop)

/-- The number nearest to `num / den * 2 ^ e`. The quotient is taken to at least 55
bits; a further bit records whether it was exact. -/
def roundRatio (negative : Bool) (num den : Nat) (e : Int) : Number :=
  let widen := 56 + Nat.log2 den - Nat.log2 num
  let wide := num <<< widen
  let q := wide / den
  let inexact := if wide % den = 0 then 0 else 1
  roundDyadic negative (2 * q + inexact) (e - widen - 1)

def ofNat (n : Nat) : Number := roundDyadic false n 0

/-- The number nearest to an integer; zero is positive. -/
def ofInt (n : Int) : Number := roundDyadic (n < 0) n.natAbs 0

instance (n : Nat) : OfNat Number n := ⟨ofNat n⟩

end Number
end FrameScript
