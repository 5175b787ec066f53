import FrameScript.Number.Decimal

/-!
# Paths of settings

A path leads from the table of all settings to one value, by the names of tables and
the places of lists. It is written as a name and further steps: a name after a point,
or a place in brackets.
-/

namespace FrameScript

inductive KeyStep where
  | name (text : String)
  /-- A place counted from zero; a negative one is counted from the end. -/
  | place (index : Int)
  deriving DecidableEq

namespace KeyStep

def text : KeyStep → String
  | name text => "." ++ text
  | place index => "[" ++ toString index ++ "]"

/-- The path that steps write; no point is before the first one. -/
def pathText : List KeyStep → String
  | [] => ""
  | name text :: rest => text ++ String.join (rest.map KeyStep.text)
  | steps => String.join (steps.map KeyStep.text)

end KeyStep

namespace Settings

def isNameChar (c : Char) : Bool := c.isAlphanum || c = '_' || c = '-' || c = ' '

def isBlank (c : Char) : Bool := c = ' ' || c = '\t'

def readName? (cs : List Char) : Option (KeyStep × List Char) :=
  let name := cs.takeWhile isNameChar
  if name.isEmpty then none else some (.name (String.ofList name), cs.dropWhile isNameChar)

/-- A place after its opening bracket, with blanks around it. Places have 64 bits. -/
def readPlace? (cs : List Char) : Option (KeyStep × List Char) := do
  let cs := cs.dropWhile isBlank
  let (sign, cs) := match cs with
    | '-' :: rest => (['-'], rest)
    | cs => ([], cs)
  let index ← signedWordOfText? (String.ofList (sign ++ cs.takeWhile Char.isDigit))
  match (cs.dropWhile Char.isDigit).dropWhile isBlank with
  | ']' :: rest => some (.place index, rest)
  | _ => none

/-- The steps after the first one, up to the end of the text. -/
def readSteps? : (fuel : Nat) → List Char → Option (List KeyStep)
  | _, [] => some []
  | 0, _ => none
  | fuel + 1, c :: rest => do
    let (step, rest) ← if c = '.' then readName? rest else if c = '[' then readPlace? rest else none
    let steps ← readSteps? fuel rest
    some (step :: steps)

/-- The path that a text writes. Every step has a character, so the fuel lasts. -/
def readPath? (cs : List Char) : Option (List KeyStep) := do
  let (first, rest) ← readName? cs
  let steps ← readSteps? rest.length rest
  some (first :: steps)

/-- The path that a key stands for; a key that is no path stands for itself. -/
def pathOfKey (key : String) : List KeyStep := (readPath? key.toList).getD [.name key]

end Settings
end FrameScript
