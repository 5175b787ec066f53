import FrameScript.Toml.Value

/-!
# Values of settings

Files and variables give values to settings. A value keeps the source that it comes
from; tables and lists that paths make on their way come from none.
-/

namespace FrameScript

inductive SettingsScalar where
  | bool (value : Bool)
  | integer (value : Int)
  | float (value : Number)
  | text (value : String)
  deriving DecidableEq

inductive SettingsValue where
  /-- A place of a list that nothing was written to. -/
  | missing
  | scalar (source : String) (value : SettingsScalar)
  | list (source : Option String) (items : List SettingsValue)
  | table (source : Option String) (entries : List (String × SettingsValue))
  deriving Inhabited

/-- The entries of a table of settings in the order of their keys. -/
abbrev SettingsEntries := List (String × SettingsValue)

namespace SettingsValue

mutual

def ofToml (source : String) : Toml.Value → SettingsValue
  | .bool b => scalar source (.bool b)
  | .integer n => scalar source (.integer n)
  | .float x => scalar source (.float x)
  | .text s => scalar source (.text s)
  | .moment s => scalar source (.text s)
  | .list items => list (some source) (ofItems source items)
  | .table entries => table (some source) (ofEntries source entries)

def ofItems (source : String) : List Toml.Value → List SettingsValue
  | [] => []
  | item :: rest => ofToml source item :: ofItems source rest

def ofEntries (source : String) : List (String × Toml.Value) → SettingsEntries
  | [] => []
  | (key, v) :: rest => (key, ofToml source v) :: ofEntries source rest

end

def source? : SettingsValue → Option String
  | missing => none
  | scalar source _ => some source
  | list source _ => source
  | table source _ => source

/-- The source and the entries of a table; any other value gives way to an empty one. -/
def tableParts : SettingsValue → Option String × SettingsEntries
  | table source entries => (source, entries)
  | _ => (none, [])

/-- The source and the items of a list; any other value gives way to an empty one. -/
def listParts : SettingsValue → Option String × List SettingsValue
  | list source items => (source, items)
  | _ => (none, [])

end SettingsValue
end FrameScript
