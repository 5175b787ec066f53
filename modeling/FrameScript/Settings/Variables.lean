import FrameScript.Environment
import FrameScript.Files
import FrameScript.Number.Decimal
import FrameScript.Settings.Value
import FrameScript.Unicode.Lowercase

/-!
# Settings from variables

A variable names a setting by a common start, the section and the key, with two
underscores in between; its case does not matter. Its text is read as a switch, an
integer or a float where it is one.
-/

namespace FrameScript
namespace Settings

/-- What the names of variables begin with, in lower case. -/
def variableStart : String := "cadence_"

/-- The setting that is a list in a variable. -/
def listKey : String := "scripts.paths"

/-- Write a point for every two underscores. -/
def pointsForUnderscores : List Char → List Char
  | '_' :: '_' :: rest => '.' :: pointsForUnderscores rest
  | c :: rest => c :: pointsForUnderscores rest
  | [] => []

def keyOfVariable? (name : String) : Option String :=
  (variableStart.toList.isPrefixOf? (Unicode.lowercase name).toList).map fun rest =>
    String.ofList (pointsForUnderscores rest)

def variableSource : String := "the environment"

/-- The scalar that a text writes, if it is not just a text. -/
def scalarOfText? (text : String) : Option SettingsScalar :=
  let word := Unicode.lowercase text
  if word = "true" then some (.bool true)
  else if word = "false" then some (.bool false)
  else
    match signedWordOfText? text with
    | some n => some (.integer n)
    | none => (Number.ofText? text).map .float

/-- The value that a text gives to a key. -/
def valueOfVariable (key text : String) : SettingsValue :=
  let scalar := SettingsValue.scalar variableSource
  match scalarOfText? text with
  | some v => scalar v
  | none =>
    if key = listKey then
      .list (some variableSource) ((separated ',' text).map fun part => scalar (.text part))
    else scalar (.text text)

/-- The settings that an environment gives. -/
def ofEnvironment (env : Environment) : SettingsEntries :=
  env.entries.filterMap fun (name, text) =>
    (keyOfVariable? name).map fun key => (key, valueOfVariable key text)

end Settings
end FrameScript
