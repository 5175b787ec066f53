import FrameScript.Settings.Path
import FrameScript.Settings.Printer
import FrameScript.Settings.Value
import FrameScript.Unicode.Hidden

/-!
# Values that do not fit

What is said about a value of files or variables that does not fit its key: what it
is, what was expected instead, and where it was found.
-/

namespace FrameScript

/-- Why a value does not fit. -/
inductive Misfit where
  /-- A scalar was expected, at a path and in a source. -/
  | type (found expected : String) (path : List KeyStep) (source : Option String)
  /-- A list or a section was expected. -/
  | shape (found expected : String)
  | unknownPolicy (name : String)
  | unclearPolicy
  deriving DecidableEq

namespace Misfit

def escape (c : Char) : String :=
  if c = '"' then "\\\""
  else if c = '\\' then "\\\\"
  else if c = '\n' then "\\n"
  else if c = '\r' then "\\r"
  else if c = '\t' then "\\t"
  else if c = '\x00' then "\\0"
  else if Unicode.isHidden c then
    "\\u\x7b" ++ String.ofList (Nat.toDigits 16 c.toNat) ++ "\x7d"
  else c.toString

def quoted (text : String) : String := "\"" ++ String.join (text.toList.map escape) ++ "\""

def message : Misfit → String
  | type found expected path source =>
    "invalid type: " ++ found ++ ", expected " ++ expected ++
      (if path.isEmpty then "" else " for key `" ++ KeyStep.pathText path ++ "`") ++
      (match source with
        | some source => " in " ++ source
        | none => "")
  | shape found expected => "invalid type: " ++ found ++ ", expected " ++ expected
  | unknownPolicy name => "enum DrainPolicy does not have variant constructor " ++ name
  | unclearPolicy =>
    "value of enum DrainPolicy should be represented by either string or table with exactly one key"

/-- The misfit of a natural number that needs more than 32 bits. -/
def tooLarge (n : Nat) : Misfit :=
  type ("64-bit unsigned integer `" ++ toString n ++ "`") "an unsigned 32 bit integer" [] none

/-- The misfit of a value that has a member, from the misfit of the member. -/
def under (step : KeyStep) : Misfit → Misfit
  | type found expected path source => type found expected (step :: path) source
  | e => e

end Misfit

namespace SettingsValue

/-- What a value is, where a scalar was expected. -/
def found : SettingsValue → String
  | missing => "unit value"
  | scalar _ (.bool b) => "boolean `" ++ Settings.printBool b ++ "`"
  | scalar _ (.integer n) => "64-bit integer `" ++ toString n ++ "`"
  | scalar _ (.float x) => "floating point `" ++ x.toText ++ "`"
  | scalar _ (.text s) => "string " ++ Misfit.quoted s
  | list _ _ => "sequence"
  | table _ _ => "map"

/-- What a value is, where a list or a section was expected. -/
def shapeFound : SettingsValue → String
  | scalar _ (.integer n) => "integer `" ++ toString n ++ "`"
  | scalar _ (.float x) => "floating point `" ++ Settings.printFloat x ++ "`"
  | v => v.found

end SettingsValue
end FrameScript
