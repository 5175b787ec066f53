import FrameScript.Number.Decimal
import FrameScript.Settings.Misfit
import FrameScript.Settings.Reading
import FrameScript.Table
import FrameScript.Unicode.Lowercase

/-!
# Settings from files and variables

Values of files and variables are converted to the type of their key where that
makes sense: switches, integers, floats and texts stand for each other, but only a
list is a list and only a table or a list is a section.
-/

namespace FrameScript
namespace Settings

open Unicode (lowercase)

/-- The switch that one of the usual words means. -/
def switchOfWord? (word : String) : Option Bool :=
  if word = "true" ∨ word = "on" ∨ word = "yes" then some true
  else if word = "false" ∨ word = "off" ∨ word = "no" then some false
  else none

def wrongType {α : Type} (v : SettingsValue) (expected : String) : Except Misfit α :=
  .error (.type v.found expected [] v.source?)

def wrongShape {α : Type} (v : SettingsValue) (expected : String) : Except Misfit α :=
  .error (.shape v.shapeFound expected)

/-- What was found, unless a value is expected after all. -/
def orWrongType {α : Type} (v : SettingsValue) (expected : String) : Option α → Except Misfit α
  | some a => .ok a
  | none => wrongType v expected

/-- A natural number that fits 64 bits. Floats are rounded and cut to that range. -/
def wordOfValue (v : SettingsValue) : Except Misfit Nat :=
  match v with
  | .scalar _ (.integer n) =>
    if 0 ≤ n then .ok n.toNat else wrongType v "an unsigned 64 bit or less integer"
  | .scalar _ (.float x) => .ok x.roundToWord
  | .scalar _ (.bool b) => .ok b.toNat
  | .scalar _ (.text s) =>
    match switchOfWord? (lowercase s) with
    | some b => .ok b.toNat
    | none => orWrongType v "an integer" (wordOfText? s)
  | v => wrongType v "an integer"

/-- A natural number that fits 32 bits. -/
def halfWordOfValue (v : SettingsValue) : Except Misfit Nat := do
  let n ← wordOfValue v
  if n < Nat.pow 2 32 then .ok n else .error (.tooLarge n)

def numberOfValue (v : SettingsValue) : Except Misfit Number :=
  match v with
  | .scalar _ (.float x) => .ok x
  | .scalar _ (.integer n) => .ok (.ofInt n)
  | .scalar _ (.bool b) => .ok (.ofNat b.toNat)
  | .scalar _ (.text s) =>
    match switchOfWord? (lowercase s) with
    | some b => .ok (.ofNat b.toNat)
    | none => orWrongType v "a floating point" (Number.ofText? s)
  | v => wrongType v "a floating point"

/-- A switch. A text that is none is reported in lower case. -/
def boolOfValue (v : SettingsValue) : Except Misfit Bool :=
  match v with
  | .scalar _ (.bool b) => .ok b
  | .scalar _ (.integer n) => .ok (n != 0)
  | .scalar _ (.float x) => .ok (!x.isZero)
  | .scalar source (.text s) =>
    if s = "1" then .ok true
    else if s = "0" then .ok false
    else
      let word := lowercase s
      orWrongType (.scalar source (.text word)) "a boolean" (switchOfWord? word)
  | v => wrongType v "a boolean"

def textOfValue (v : SettingsValue) : Except Misfit String :=
  match v with
  | .scalar _ (.text s) => .ok s
  | .scalar _ (.bool b) => .ok (printBool b)
  | .scalar _ (.integer n) => .ok (toString n)
  | .scalar _ (.float x) => .ok x.toText
  | v => wrongType v "a string"

/-- The texts of items, of which the first is at some place. -/
def textsOfItems (place : Nat) : List SettingsValue → Except Misfit (List String)
  | [] => .ok []
  | item :: rest => do
    let text ← (textOfValue item).mapError (Misfit.under (.place place))
    let texts ← textsOfItems (place + 1) rest
    return text :: texts

def textsOfValue (v : SettingsValue) : Except Misfit (List String) :=
  match v with
  | .list _ items => textsOfItems 0 items
  | v => wrongShape v "a sequence"

def policyOfName (name : String) : Except Misfit DrainPolicy :=
  match DrainPolicy.ofName? (lowercase name) with
  | some policy => .ok policy
  | none => .error (.unknownPolicy name)

/-- A policy by its name, or as a table with the name as its only key. -/
def policyOfValue : SettingsValue → Except Misfit DrainPolicy
  | .scalar _ (.text name) => policyOfName name
  | .table _ [(name, _)] => policyOfName name
  | _ => .error .unclearPolicy

def membersOfValue (title : String) (v : SettingsValue) : Except Misfit (Members SettingsValue) :=
  match v with
  | .table _ entries => .ok fun _ key => (Table.lookup key entries).map (.name key, ·)
  | .list _ items => .ok fun place _ => items[place]?.map (.place place, ·)
  | v => wrongShape v ("struct " ++ title ++ "Config")

def lenientReader : SettingsReader Misfit SettingsValue where
  members := fun title _ => membersOfValue title
  halfWord := halfWordOfValue
  word := wordOfValue
  number := numberOfValue
  bool := boolOfValue
  text := textOfValue
  texts := textsOfValue
  policy := policyOfValue
  isNull := fun v => match v with
    | .missing => true
    | _ => false
  under := Misfit.under

/-- The settings that a merged value holds. -/
def ofValue (v : SettingsValue) : Except Misfit Settings := lenientReader.settings v

end Settings
end FrameScript
