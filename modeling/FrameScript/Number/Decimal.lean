import FrameScript.Number.Rounding

/-!
# Numbers as decimal text

Reading a decimal gives the nearest number. Writing a number gives the fewest
significant digits that read back as it, and of those the nearest to its value;
the text is positional, without an exponent. An integer is written as decimal digits after an
optional sign.
-/

namespace FrameScript

/-- The unsigned decimal `digits * 10 ^ scale`. -/
structure Decimal where
  digits : Nat
  scale : Int
  deriving DecidableEq

namespace Decimal

/-- How many decimal digits a natural number has; zero has one. -/
def length (n : Nat) : Nat := (Nat.toDigits 10 n).length

/-- The number nearest to a decimal. Decimals far outside the range are settled by
their order of magnitude alone. -/
def toNumber (negative : Bool) (d : Decimal) : Number :=
  let order := d.scale + length d.digits
  if d.digits = 0 then .zero negative
  else if 310 < order then .infinity negative
  else if order < -330 then .zero negative
  else if 0 ≤ d.scale then
    .roundDyadic negative (d.digits * Nat.pow 10 d.scale.toNat) 0
  else
    .roundRatio negative d.digits (Nat.pow 10 (-d.scale).toNat) 0

def digitValue (c : Char) : Nat := c.toNat - '0'.toNat

def digitsValue (ds : List Char) : Nat :=
  ds.foldl (fun n c => 10 * n + digitValue c) 0

def readSign : List Char → Bool × List Char
  | '-' :: r => (true, r)
  | '+' :: r => (false, r)
  | r => (false, r)

/-- A complete exponent after its letter: digits with an optional sign. -/
def readExponent? (r : List Char) : Option Int :=
  let (negative, ds) := readSign r
  if ds.isEmpty || !ds.all Char.isDigit then none
  else
    let n : Int := digitsValue ds
    some (if negative then -n else n)

/-- A complete unsigned decimal: digits with at most one point, at least one of them,
then an optional exponent. -/
def ofChars? (text : List Char) : Option Decimal :=
  let whole := text.takeWhile Char.isDigit
  let afterWhole := text.dropWhile Char.isDigit
  let (fraction, rest) := match afterWhole with
    | '.' :: r => (r.takeWhile Char.isDigit, r.dropWhile Char.isDigit)
    | r => ([], r)
  let digits := whole ++ fraction
  let scale : Int := -fraction.length
  if digits.isEmpty then none
  else match rest with
    | [] => some ⟨digitsValue digits, scale⟩
    | c :: r =>
      if c = 'e' ∨ c = 'E' then
        (readExponent? r).map fun x => ⟨digitsValue digits, scale + x⟩
      else none

def belowPowerOfTen (num den : Nat) (p : Int) : Bool :=
  if 0 ≤ p then num < den * Nat.pow 10 p.toNat else num * Nat.pow 10 (-p).toNat < den

/-- The least `p` with `num / den < 10 ^ p`, found near the estimate that the binary
logarithm gives. -/
def decade (num den : Nat) (log2 : Int) : Int :=
  let guess := log2 * 30103 / 100000
  ([guess - 1, guess, guess + 1].find? (belowPowerOfTen num den)).getD (guess + 2)

/-- The reals that round to one number, in units of a quarter of its last place: the
value, its two ends, and whether the ends belong. A unit is `num / den`. -/
structure Cell where
  value : Nat
  low : Nat
  high : Nat
  closed : Bool
  num : Nat
  den : Nat

/-- The cell of `m * 2 ^ e`. Below a power of two the neighbour is nearer. -/
def Cell.of (m : Nat) (e : Int) : Cell :=
  { value := 4 * m
    low := if m = Nat.pow 2 52 ∧ -1074 < e then 4 * m - 1 else 4 * m - 2
    high := 4 * m + 2
    closed := m % 2 == 0
    num := Nat.pow 2 (e - 2).toNat
    den := Nat.pow 2 (2 - e).toNat }

/-- Whether `c * 10 ^ k` rounds to the cell's number. -/
def Cell.holds (cell : Cell) (k : Int) (c : Nat) : Bool :=
  let point := c * Nat.pow 10 k.toNat * cell.den
  let unit := cell.num * Nat.pow 10 (-k).toNat
  if cell.closed then cell.low * unit ≤ point && point ≤ cell.high * unit
  else cell.low * unit < point && point < cell.high * unit

/-- Which of two equally near decimals is taken. -/
inductive Tie where
  | upper
  | even
  deriving DecidableEq, Repr

/-- The point of the grid `10 ^ k` that rounds to the cell's number and is nearest to its
value. Only the value's two neighbours can be it. -/
def Cell.nearest? (cell : Cell) (tie : Tie) (k : Int) : Option Nat :=
  let value := cell.value * cell.num * Nat.pow 10 (-k).toNat
  let step := Nat.pow 10 k.toNat * cell.den
  let c := value / step
  let rest := value - c * step
  match cell.holds k c, cell.holds k (c + 1) with
  | true, true =>
    let takesLower := 2 * rest < step ∨ (2 * rest = step ∧ tie = .even ∧ c % 2 = 0)
    some (if takesLower then c else c + 1)
  | true, false => some c
  | false, true => some (c + 1)
  | false, false => none

/-- A decimal with no zero at the end of its digits, unless it has no others. -/
def strip : (fuel : Nat) → Decimal → Decimal
  | 0, d => d
  | fuel + 1, d =>
    if d.digits ≠ 0 ∧ d.digits % 10 = 0 then strip fuel ⟨d.digits / 10, d.scale + 1⟩ else d

/-- The shortest decimal that reads back as `m * 2 ^ e`; seventeen digits always do. -/
def shortest (tie : Tie) (m : Nat) (e : Int) : Decimal :=
  let cell := Cell.of m e
  let p := decade (cell.value * cell.num) cell.den (Nat.log2 m + e)
  let found := (List.range 17).findSome? fun i =>
    let k := p - (i + 1 : Nat)
    (cell.nearest? tie k).map fun c => strip 20 ⟨c, k⟩
  found.getD ⟨m, e⟩

def zeros (n : Nat) : String := String.ofList (List.replicate n '0')

/-- The digits in place, without an exponent. -/
def positional (d : Decimal) : String :=
  let digits := Nat.repr d.digits
  let point := d.scale + digits.length
  if 0 ≤ d.scale then digits ++ zeros d.scale.toNat
  else if 0 < point then
    String.ofList (digits.toList.take point.toNat) ++ "." ++
      String.ofList (digits.toList.drop point.toNat)
  else "0." ++ zeros (-point).toNat ++ digits

end Decimal

namespace Number

/-- A number from its text: a decimal, or a word for infinity or NaN in any case, each
with an optional sign. -/
def ofText? (text : String) : Option Number :=
  let (negative, rest) := Decimal.readSign text.toList
  let word := String.ofList (rest.map Char.toLower)
  if word = "inf" ∨ word = "infinity" then some (.infinity negative)
  else if word = "nan" then some (.nan negative)
  else (Decimal.ofChars? rest).map (·.toNumber negative)

def signText (negative : Bool) : String := if negative then "-" else ""

/-- The shortest positional text that reads back as the number, the upper one of two
equally near. -/
def toText : Number → String
  | nan _ => "NaN"
  | infinity s => signText s ++ "inf"
  | finite s m e _ =>
    if m = 0 then signText s ++ "0" else signText s ++ (Decimal.shortest .upper m e).positional

/-- Integers below this magnitude are displayed through their integral value. -/
def displayLimit : Nat := Nat.pow 10 15

/-- The text that scripts see. It differs from `toText` only for `-0`, which loses
its sign. -/
def display (x : Number) : String :=
  match x with
  | finite s m e _ =>
    if magnitudeIsWhole m e ∧ wholeMagnitude m e < displayLimit then
      let n : Int := wholeMagnitude m e
      toString (if s then -n else n)
    else x.toText
  | _ => x.toText

end Number

/-- A natural number, which may have a plus sign. -/
def natOfText? (text : String) : Option Nat :=
  let digits := match text.toList with
    | '+' :: rest => rest
    | cs => cs
  if digits.isEmpty || !digits.all Char.isDigit then none
  else some (digits.foldl (fun n c => 10 * n + (c.toNat - '0'.toNat)) 0)

def intOfText? (text : String) : Option Int :=
  match text.toList with
  | '-' :: '+' :: _ => none
  | '-' :: rest => (natOfText? (String.ofList rest)).map fun n => -(n : Int)
  | _ => (natOfText? text).map fun n => (n : Int)

def fitsSignedWord (n : Int) : Bool := -(Nat.pow 2 63 : Int) ≤ n && n < (Nat.pow 2 63 : Int)

def signedWordOfText? (text : String) : Option Int :=
  (intOfText? text).filter fitsSignedWord

def wordOfText? (text : String) : Option Nat := (natOfText? text).filter (· < Nat.pow 2 64)

end FrameScript
