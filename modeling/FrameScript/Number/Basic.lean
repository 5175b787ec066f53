/-!
# Binary numbers

Script numbers are the binary floating-point numbers of 53 significant bits and
exponents from `-1074` to `971`, with signed zeros, infinities and two signed
NaNs. A finite number is stored in its only canonical form, so equality of
stored numbers is equality of sign and value. `compare?` is the order that
arithmetic sees, in which zeros are equal and NaN has no place; `totalCompare`
places every number.
-/

namespace FrameScript

/-- The unique form of a finite magnitude `m * 2 ^ e`: all 53 bits are used
unless the exponent is already the least one. -/
def Canonical (m : Nat) (e : Int) : Prop :=
  m < Nat.pow 2 53 ∧ (e = -1074 ∨ Nat.pow 2 52 ≤ m ∧ -1074 < e ∧ e ≤ 971)

instance (m : Nat) (e : Int) : Decidable (Canonical m e) :=
  inferInstanceAs (Decidable (_ ∧ _))

/-- A binary floating-point number of double width. -/
inductive Number where
  | nan (negative : Bool)
  | infinity (negative : Bool)
  | finite (negative : Bool) (mantissa : Nat) (exponent : Int)
      (canonical : Canonical mantissa exponent)
  deriving DecidableEq

namespace Number

theorem canonical_zero : Canonical 0 (-1074) := by decide

def zero (negative : Bool) : Number := .finite negative 0 (-1074) canonical_zero

instance : Inhabited Number := ⟨zero false⟩

/-- The number with these parts; a magnitude without a canonical form is out of range. -/
def ofParts (negative : Bool) (m : Nat) (e : Int) : Number :=
  if h : Canonical m e then .finite negative m e h else .infinity negative

def isNegative : Number → Bool
  | nan s => s
  | infinity s => s
  | finite s _ _ _ => s

def isNaN : Number → Bool
  | nan _ => true
  | _ => false

def isFinite : Number → Bool
  | finite _ _ _ _ => true
  | _ => false

def isZero : Number → Bool
  | finite _ m _ _ => m == 0
  | _ => false

/-- Negation turns the sign of everything, NaN included. -/
def neg : Number → Number
  | nan s => nan (!s)
  | infinity s => infinity (!s)
  | finite s m e h => finite (!s) m e h

def abs : Number → Number
  | nan _ => nan false
  | infinity _ => infinity false
  | finite _ m e h => finite false m e h

/-- Canonical magnitudes are ordered by exponent first. -/
def compareMagnitude (m₁ : Nat) (e₁ : Int) (m₂ : Nat) (e₂ : Int) : Ordering :=
  (compare e₁ e₂).then (compare m₁ m₂)

/-- The order of arithmetic; NaN is comparable with nothing and the zeros are equal. -/
def compare? : Number → Number → Option Ordering
  | nan _, _ => none
  | _, nan _ => none
  | infinity s, infinity t => some (compare t.toNat s.toNat)
  | infinity s, finite _ _ _ _ => some (if s then .lt else .gt)
  | finite _ _ _ _, infinity t => some (if t then .gt else .lt)
  | finite s m₁ e₁ _, finite t m₂ e₂ _ => some <|
    if m₁ = 0 ∧ m₂ = 0 then .eq
    else match s, t with
      | false, false => compareMagnitude m₁ e₁ m₂ e₂
      | true, true => compareMagnitude m₂ e₂ m₁ e₁
      | true, false => .lt
      | false, true => .gt

def equals (x y : Number) : Bool := compare? x y == some .eq

def less (x y : Number) : Bool := compare? x y == some .lt

def atMost (x y : Number) : Bool :=
  match compare? x y with
  | some o => o.isLE
  | none => false

/-- Place of a number's class in the total order. -/
def rank : Number → Nat
  | nan true => 0
  | infinity true => 1
  | finite true _ _ _ => 2
  | finite false _ _ _ => 3
  | infinity false => 4
  | nan false => 5

/-- The total order: negative NaN, negative numbers down to `-0`, then `0` and the
positive numbers, and positive NaN at the end. -/
def totalCompare (x y : Number) : Ordering :=
  (compare x.rank y.rank).then <|
    match x, y with
    | finite false m₁ e₁ _, finite false m₂ e₂ _ => compareMagnitude m₁ e₁ m₂ e₂
    | finite true m₁ e₁ _, finite true m₂ e₂ _ => compareMagnitude m₂ e₂ m₁ e₁
    | _, _ => .eq

/-- The integral part of the magnitude `m * 2 ^ e`. -/
def wholeMagnitude (m : Nat) (e : Int) : Nat :=
  if 0 ≤ e then m <<< e.toNat else m >>> (-e).toNat

/-- Whether the magnitude `m * 2 ^ e` is a natural number. -/
def magnitudeIsWhole (m : Nat) (e : Int) : Bool :=
  0 ≤ e || m % Nat.pow 2 (-e).toNat == 0

def isInteger : Number → Bool
  | finite _ m e _ => magnitudeIsWhole m e
  | _ => false

/-- Greatest index that a 64-bit machine word holds. -/
def wordMax : Nat := Nat.pow 2 64 - 1

/-- The integral part cut to a machine word: negative numbers and NaN give `0`. -/
def toWord : Number → Nat
  | nan _ => 0
  | infinity s => if s then 0 else wordMax
  | finite s m e _ => if s then 0 else min (wholeMagnitude m e) wordMax

/-- The natural number nearest to the magnitude `m * 2 ^ e`, the upper one of two equally
near. -/
def nearestMagnitude (m : Nat) (e : Int) : Nat :=
  if 0 ≤ e then m <<< e.toNat else ((m >>> ((-e).toNat - 1)) + 1) / 2

/-- The nearest integer cut to a machine word: negative numbers and NaN give `0`. -/
def roundToWord : Number → Nat
  | nan _ => 0
  | infinity s => if s then 0 else wordMax
  | finite s m e _ => if s then 0 else min (nearestMagnitude m e) wordMax

end Number
end FrameScript
