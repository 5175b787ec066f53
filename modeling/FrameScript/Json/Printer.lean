import FrameScript.Json.Basic

/-!
# Printing JSON

A compact form on one line and an indented form with two blanks a level. Floats
always show a fraction or an exponent, so that they read back as floats; those
without a JSON form are `null`.
-/

namespace FrameScript
namespace Json

def exponentText (x : Int) : String := if x < 0 then toString x else "+" ++ toString x

/-- Digits in place up to 16 places before the point and 5 zeros after it, and an
exponent beyond. -/
def decimalText (d : Decimal) : String :=
  let digits := Nat.repr d.digits
  let point := d.scale + digits.length
  if 0 ≤ d.scale ∧ point ≤ 16 then d.positional ++ ".0"
  else if -5 < point ∧ point ≤ 16 then d.positional
  else
    let fraction := String.ofList (digits.toList.drop 1)
    let lead := String.ofList (digits.toList.take 1)
    let mantissa := if fraction.isEmpty then lead else lead ++ "." ++ fraction
    mantissa ++ "e" ++ exponentText (point - 1)

def floatText : Number → String
  | .nan _ => "null"
  | .infinity _ => "null"
  | .finite s m e _ =>
    if m = 0 then Number.signText s ++ "0.0"
    else Number.signText s ++ decimalText (Decimal.shortest .even m e)

def hexChar (n : Nat) : Char := if n < 10 then Char.ofNat (48 + n) else Char.ofNat (87 + n)

def escape (c : Char) : List Char :=
  if c = '"' then ['\\', '"']
  else if c = '\\' then ['\\', '\\']
  else if c = '\n' then ['\\', 'n']
  else if c = '\r' then ['\\', 'r']
  else if c = '\t' then ['\\', 't']
  else if c = '\x08' then ['\\', 'b']
  else if c = '\x0c' then ['\\', 'f']
  else if c.toNat < 0x20 then ['\\', 'u', '0', '0', hexChar (c.toNat / 16), hexChar (c.toNat % 16)]
  else [c]

def quoted (s : String) : String := "\"" ++ String.ofList (s.toList.flatMap escape) ++ "\""

mutual

def compactItems : List Json → List String
  | [] => []
  | item :: rest => compact item :: compactItems rest

def compactFields : List (String × Json) → List String
  | [] => []
  | (key, value) :: rest => (quoted key ++ ":" ++ compact value) :: compactFields rest

def compact : Json → String
  | null => "null"
  | bool b => if b then "true" else "false"
  | integer n => toString n
  | float x => floatText x
  | string s => quoted s
  | array items => "[" ++ ",".intercalate (compactItems items) ++ "]"
  | object fields => "\x7b" ++ ",".intercalate (compactFields fields) ++ "\x7d"

end

def indent (level : Nat) : String := String.ofList (List.replicate (2 * level) ' ')

/-- Parts on lines of their own between two brackets. -/
def enclose (opening closing : String) (level : Nat) (parts : List String) : String :=
  if parts.isEmpty then opening ++ closing
  else
    let separator := ",\n" ++ indent (level + 1)
    opening ++ "\n" ++ indent (level + 1) ++ separator.intercalate parts ++ "\n" ++
      indent level ++ closing

mutual

def prettyItems (level : Nat) : List Json → List String
  | [] => []
  | item :: rest => prettyAt level item :: prettyItems level rest

def prettyFields (level : Nat) : List (String × Json) → List String
  | [] => []
  | (key, value) :: rest =>
    (quoted key ++ ": " ++ prettyAt level value) :: prettyFields level rest

/-- The indented text of a value that stands at some level. -/
def prettyAt (level : Nat) : Json → String
  | null => "null"
  | bool b => if b then "true" else "false"
  | integer n => toString n
  | float x => floatText x
  | string s => quoted s
  | array items => enclose "[" "]" level (prettyItems (level + 1) items)
  | object fields => enclose "\x7b" "\x7d" level (prettyFields (level + 1) fields)

end

/-- The text with a line for every item and field. -/
def pretty (json : Json) : String := prettyAt 0 json

end Json
end FrameScript
