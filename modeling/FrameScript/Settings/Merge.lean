import FrameScript.Settings.Path
import FrameScript.Settings.Value
import FrameScript.Table
import FrameScript.Unicode.Lowercase

/-!
# Merging settings

Several sources are merged into one table, each on top of the earlier ones. Tables
are merged key by key and other values replaced. Keys lose their case. The keys of a
source are paths, and what is in the way of a path gives way to it.
-/

namespace FrameScript
namespace Settings

open Unicode (lowercase)

mutual

/-- Set a key. A table is merged into what is there, which makes room for it. -/
def put (key : String) (entries : SettingsEntries) : SettingsValue → SettingsEntries
  | .table _ incoming =>
    let present := Table.lookup (lowercase key) entries
    let merged : SettingsValue := match present, incoming.isEmpty with
      | some v, true => v
      | some (.table source inner), false => .table source (putAll inner incoming)
      | _, _ => .table none (putAll [] incoming)
    Table.insertEntry (lowercase key) merged entries
  | .missing => Table.insertEntry (lowercase key) .missing entries
  | .scalar source v => Table.insertEntry (lowercase key) (.scalar source v) entries
  | .list source items => Table.insertEntry (lowercase key) (.list source items) entries

def putAll (entries : SettingsEntries) : List (String × SettingsValue) → SettingsEntries
  | [] => entries
  | (key, v) :: rest => putAll (put key entries v) rest

end

/-- The place that an index means in a list of some length. -/
def placeOfIndex? (index : Int) (count : Nat) : Option Nat :=
  if 0 ≤ index then some index.toNat
  else if index.natAbs ≤ count then some (count - index.natAbs)
  else none

/-- Change one place of a list, which is made long enough for it. -/
def changePlace (n : Nat) (change : SettingsValue → SettingsValue) (items : List SettingsValue) :
    List SettingsValue :=
  let holes := List.replicate (n + 1 - items.length) SettingsValue.missing
  (items ++ holes).modify n change

/-- Set what is at a path. A place that no list has leaves the list as it is. -/
def putAt (v : SettingsValue) : List KeyStep → SettingsValue → SettingsValue
  | [], _ => v
  | [.name key], present =>
    let (source, entries) := present.tableParts
    .table source (put key entries v)
  | .name key :: path, present =>
    let (source, entries) := present.tableParts
    let inner := (Table.lookup (lowercase key) entries).getD .missing
    .table source (Table.insertEntry (lowercase key) (putAt v path inner) entries)
  | .place index :: path, present =>
    let (source, items) := present.listParts
    match placeOfIndex? index items.length with
    | some n => .list source (changePlace n (putAt v path) items)
    | none => .list source items

/-- A table with the entries of a source on top of it. -/
def merge (present : SettingsValue) (source : SettingsEntries) : SettingsValue :=
  source.foldl (fun present e => putAt e.2 (pathOfKey e.1) present) present

end Settings
end FrameScript
