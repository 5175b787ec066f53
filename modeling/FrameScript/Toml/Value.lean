import FrameScript.Number.Basic
import FrameScript.Table
import FrameScript.Toml.Moment

/-!
# Values of settings files

A settings file is a table of values. The entries of a table are in the order in which
they were written, until all tables are settled.

A table is settled once all its entries are known: they are put in the order of their
keys. A table whose first entry has a certain key is not a table but the moment that
the text of this entry writes; what else it holds does not matter.
-/

namespace FrameScript
namespace Toml

inductive Value where
  | bool (value : Bool)
  | integer (value : Int)
  | float (value : Number)
  | text (value : String)
  /-- A date, a time or both. -/
  | moment (text : String)
  | list (items : List Value)
  | table (entries : List (String × Value))
  deriving Inhabited

/-- The entries of a table. -/
abbrev Entries := List (String × Value)


/-- The key of the entry that makes a table a moment. -/
def momentKey : String := "$__toml_private_datetime"

/-- The value that is to be a moment in place of a table with these entries. -/
def momentEntry? : List (String × Value) → Option Value
  | (key, v) :: _ => if key = momentKey then some v else none
  | [] => none

mutual

/-- A value with all its tables settled, unless one of them writes no moment. -/
def settle? : Value → Option Value
  | .table entries =>
    match momentEntry? entries with
    | some (.text text) => (momentOfText? text).map .moment
    | some _ => none
    | none => (settleEntries? entries).map .table
  | .list items => (settleItems? items).map .list
  | .bool b => some (.bool b)
  | .integer n => some (.integer n)
  | .float x => some (.float x)
  | .text s => some (.text s)
  | .moment s => some (.moment s)

def settleItems? : List Value → Option (List Value)
  | [] => some []
  | item :: rest => do
    let item ← settle? item
    let rest ← settleItems? rest
    some (item :: rest)

def settleEntries? : List (String × Value) → Option Entries
  | [] => some []
  | (key, v) :: rest => do
    let v ← settle? v
    let rest ← settleEntries? rest
    some (Table.insertEntry key v rest)

end

end Toml
end FrameScript
