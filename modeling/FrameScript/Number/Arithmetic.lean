import FrameScript.Number.Rounding

/-!
# Arithmetic

Sum, difference, product, quotient, remainder, square root and the integral
roundings. An operation without a value gives the negative NaN; a NaN operand
is passed on, the left one first.
-/

namespace FrameScript
namespace Number

def invalid : Number := nan true

/-- The signed integer `± m * 2 ^ (e - base)`, for a base at or below `e`. -/
def scaled (negative : Bool) (m : Nat) (e base : Int) : Int :=
  let n : Int := (m <<< (e - base).toNat : Nat)
  if negative then -n else n

/-- Sum. A zero sum is negative only if both summands are. -/
def add : Number → Number → Number
  | nan s, _ => nan s
  | _, nan t => nan t
  | infinity s, infinity t => if s = t then infinity s else invalid
  | infinity s, finite _ _ _ _ => infinity s
  | finite _ _ _ _, infinity t => infinity t
  | finite s m₁ e₁ _, finite t m₂ e₂ _ =>
    let base := min e₁ e₂
    let sum := scaled s m₁ e₁ base + scaled t m₂ e₂ base
    if sum = 0 then zero (s && t) else roundDyadic (sum < 0) sum.natAbs base

/-- Difference: the sum with the negated right operand, except that a NaN keeps its sign. -/
def sub (x y : Number) : Number :=
  if y.isNaN then add x y else add x y.neg

def mul : Number → Number → Number
  | nan s, _ => nan s
  | _, nan t => nan t
  | infinity s, infinity t => infinity (s != t)
  | infinity s, finite t m _ _ => if m = 0 then invalid else infinity (s != t)
  | finite s m _ _, infinity t => if m = 0 then invalid else infinity (s != t)
  | finite s m₁ e₁ _, finite t m₂ e₂ _ => roundDyadic (s != t) (m₁ * m₂) (e₁ + e₂)

def div : Number → Number → Number
  | nan s, _ => nan s
  | _, nan t => nan t
  | infinity _, infinity _ => invalid
  | infinity s, finite t _ _ _ => infinity (s != t)
  | finite s _ _ _, infinity t => zero (s != t)
  | finite s m₁ e₁ _, finite t m₂ e₂ _ =>
    if m₂ = 0 then if m₁ = 0 then invalid else infinity (s != t)
    else if m₁ = 0 then zero (s != t)
    else roundRatio (s != t) m₁ m₂ (e₁ - e₂)

/-- Remainder of the quotient cut toward zero; it has the sign of the dividend and
is exact. -/
def rem : Number → Number → Number
  | nan s, _ => nan s
  | _, nan t => nan t
  | infinity _, _ => invalid
  | finite s m e h, infinity _ => finite s m e h
  | finite s m₁ e₁ _, finite _ m₂ e₂ _ =>
    if m₂ = 0 then invalid
    else
      let base := min e₁ e₂
      let rest := (m₁ <<< (e₁ - base).toNat) % (m₂ <<< (e₂ - base).toNat)
      roundDyadic s rest base

/-- The greatest natural whose square is at most `n`, given that it is `root`
plus less than `2 ^ bits`. -/
def integerRootFrom (n : Nat) : (bits root : Nat) → Nat
  | 0, root => root
  | bits + 1, root =>
    let next := root + Nat.pow 2 bits
    integerRootFrom n bits (if next * next ≤ n then next else root)

/-- The greatest natural whose square is at most `n`. -/
def integerRoot (n : Nat) : Nat := integerRootFrom n (Nat.log2 n / 2 + 1) 0

/-- Square root; the root of `-0` is `-0`. The integral root is taken to at least 55
bits, with a further bit that records whether it was exact. -/
def sqrt : Number → Number
  | nan s => nan s
  | infinity s => if s then invalid else infinity false
  | finite s m e _ =>
    if m = 0 then zero s
    else if s then invalid
    else
      let widen := 112 + (if e % 2 = 0 then 0 else 1)
      let wide := m <<< widen
      let root := integerRoot wide
      let inexact := if root * root = wide then 0 else 1
      roundDyadic false (2 * root + inexact) ((e - widen) / 2 - 1)

/-- Greatest integer at or below a number; the sign of zero stays. -/
def floor : Number → Number
  | finite s m e h =>
    if magnitudeIsWhole m e then finite s m e h
    else
      let whole := wholeMagnitude m e
      roundDyadic s (if s then whole + 1 else whole) 0
  | x => x

/-- Least integer at or above a number; the sign of zero stays. -/
def ceil : Number → Number
  | finite s m e h =>
    if magnitudeIsWhole m e then finite s m e h
    else
      let whole := wholeMagnitude m e
      roundDyadic s (if s then whole else whole + 1) 0
  | x => x

def half : Number := roundDyadic false 1 (-1)

/-- Add one half and take the floor. -/
def roundHalfUp (x : Number) : Number := floor (add x half)

/-- The lesser number; NaN gives way to the other operand and equal ones keep the left. -/
def min (x y : Number) : Number :=
  if x.isNaN then y else if less y x then y else x

/-- The greater number; NaN gives way to the other operand and equal ones keep the left. -/
def max (x y : Number) : Number :=
  if x.isNaN then y else if less x y then y else x

end Number
end FrameScript
