/-!
# Dates and times

A moment is a date, a time, or both with an optional offset. It is read into one
spelling: a capital `T` between date and time, a capital `Z` for no offset, and no
zeros at the end of a fraction of a second. A text of its own is read less strictly
than what stands in a file.
-/

namespace FrameScript
namespace Toml

/-- Exactly so many decimal digits. -/
def readFixedDigits? (count : Nat) (cs : List Char) : Option (Nat × List Char) :=
  let digits := cs.take count
  if digits.length = count ∧ digits.all Char.isDigit then
    some (digits.foldl (fun n c => 10 * n + (c.toNat - '0'.toNat)) 0, cs.drop count)
  else none

def dropChar? (c : Char) : List Char → Option (List Char)
  | d :: rest => if d = c then some rest else none
  | [] => none

def padded (width n : Nat) : String :=
  let digits := Nat.repr n
  String.ofList (List.replicate (width - digits.length) '0') ++ digits

def isLeapYear (year : Nat) : Bool :=
  (year % 4 == 0 && year % 100 != 0) || year % 400 == 0

def daysInMonth (year month : Nat) : Nat :=
  if month = 2 then (if isLeapYear year then 29 else 28)
  else if month = 4 ∨ month = 6 ∨ month = 9 ∨ month = 11 then 30
  else 31

def readDate? (cs : List Char) : Option (String × List Char) := do
  let (year, cs) ← readFixedDigits? 4 cs
  let (month, cs) ← readFixedDigits? 2 (← dropChar? '-' cs)
  let (day, cs) ← readFixedDigits? 2 (← dropChar? '-' cs)
  if 1 ≤ month ∧ month ≤ 12 ∧ 1 ≤ day ∧ day ≤ daysInMonth year month then
    some (padded 4 year ++ "-" ++ padded 2 month ++ "-" ++ padded 2 day, cs)
  else none

/-- The fraction of a second, cut after nine places. -/
def readFraction? : List Char → Option (String × List Char)
  | '.' :: rest =>
    let digits := rest.takeWhile Char.isDigit
    if digits.isEmpty then none
    else
      let kept := ((digits.take 9).reverse.dropWhile (· = '0')).reverse
      some (if kept.isEmpty then "" else "." ++ String.ofList kept, rest.dropWhile Char.isDigit)
  | cs => some ("", cs)

/-- A time with fewer than so many hours. -/
def readTime? (hours : Nat) (cs : List Char) : Option (String × List Char) := do
  let (hour, cs) ← readFixedDigits? 2 cs
  let (minute, cs) ← readFixedDigits? 2 (← dropChar? ':' cs)
  let (second, cs) ← readFixedDigits? 2 (← dropChar? ':' cs)
  let (fraction, cs) ← readFraction? cs
  if hour < hours ∧ minute < 60 ∧ second ≤ 60 then
    some (padded 2 hour ++ ":" ++ padded 2 minute ++ ":" ++ padded 2 second ++ fraction, cs)
  else none

/-- The hours and minutes of an offset. -/
def readOffsetParts? (cs : List Char) : Option (Nat × Nat × List Char) := do
  let (hour, cs) ← readFixedDigits? 2 cs
  let (minute, cs) ← readFixedDigits? 2 (← dropChar? ':' cs)
  if hour < 24 ∧ minute < 60 then some (hour, minute, cs) else none

/-- An offset, if there is one here. An offset of nothing has a plus sign. -/
def readOffset? : List Char → Option (String × List Char)
  | c :: rest =>
    if c = 'Z' ∨ c = 'z' then some ("Z", rest)
    else if c = '+' ∨ c = '-' then
      (readOffsetParts? rest).map fun (hour, minute, rest) =>
        let sign := if c = '-' ∧ (hour ≠ 0 ∨ minute ≠ 0) then "-" else "+"
        (sign ++ padded 2 hour ++ ":" ++ padded 2 minute, rest)
    else some ("", c :: rest)
  | [] => some ("", [])

/-- An offset of at most a day, whose minutes may pass an hour. -/
def readLongOffset? : List Char → Option (String × List Char)
  | c :: rest =>
    if c = 'Z' ∨ c = 'z' then some ("Z", rest)
    else if c = '+' ∨ c = '-' then do
      let (hour, rest) ← readFixedDigits? 2 rest
      let (minute, rest) ← readFixedDigits? 2 (← dropChar? ':' rest)
      let total := 60 * hour + minute
      let sign := if c = '-' ∧ total ≠ 0 then "-" else "+"
      if total ≤ 24 * 60 then
        some (sign ++ padded 2 (total / 60) ++ ":" ++ padded 2 (total % 60), rest)
      else none
    else none
  | [] => some ("", [])

/-- Whether a date may be followed by this character and a time. -/
def beginsClockPart (c : Char) : Bool := c = 'T' || c = 't' || c = ' '

/-- A time with an optional offset, after the letter or blank that follows a date. -/
def readClockPart? : List Char → Option (String × List Char)
  | c :: rest =>
    if beginsClockPart c then do
      let (time, rest) ← readTime? 24 rest
      let (offset, rest) ← readOffset? rest
      some ("T" ++ time ++ offset, rest)
    else none
  | [] => none

/-- A moment. A date that no time follows stands for itself. -/
def readMoment? (cs : List Char) : Option (String × List Char) :=
  match readDate? cs with
  | none => readTime? 24 cs
  | some (date, rest) =>
    match readClockPart? rest with
    | some (clock, rest) => some (date ++ clock, rest)
    | none => some (date, rest)

/-- A moment in a text of its own, and the rest. An hour more than those of a day is
read. -/
def readLongMoment? (cs : List Char) : Option (String × List Char) :=
  if cs[2]? = some ':' then readTime? 25 cs
  else do
    let (date, rest) ← readDate? cs
    if (rest.head?.map beginsClockPart).getD false then
      let (time, rest) ← readTime? 25 (rest.drop 1)
      let (offset, rest) ← readLongOffset? rest
      some (date ++ "T" ++ time ++ offset, rest)
    else some (date, rest)

def momentOfText? (text : String) : Option String := do
  let (moment, rest) ← readLongMoment? text.toList
  if rest.isEmpty then some moment else none

end Toml
end FrameScript
