import FrameScript.Toml.Value

/-!
# Documents

A document is a list of statements that build up one table, whose entries stay in the
order in which they were first named. No table is defined twice: a table that only
stands in the path of a header may get its own header later, one that dotted keys made
may get more dotted keys, and a value is final.
-/

namespace FrameScript
namespace Toml

inductive Statement where
  /-- Later assignments belong to the table at this path. -/
  | table (path : List String)
  /-- Later assignments belong to a new element of the list of tables at this path. -/
  | element (path : List String)
  /-- Give a value to a key of a table below the current one. -/
  | assign (path : List String) (key : String) (value : Value)

/-- How a table came about. -/
inductive Origin where
  /-- As a part of the path of a header. -/
  | implied
  /-- By a header of its own; so do the whole document and the elements of lists. -/
  | header
  /-- As a part of a dotted key. -/
  | dotted
  deriving DecidableEq, Repr

inductive Node where
  | value (v : Value)
  | table (origin : Origin) (entries : List (String × Node))
  /-- A list of tables, the last one first. -/
  | elements (tables : List (List (String × Node)))

namespace Node

mutual

def toValue : Node → Value
  | value v => v
  | table _ entries => .table (entriesToValues entries)
  | elements tables => .list (tablesToValues tables).reverse

def entriesToValues : List (String × Node) → Entries
  | [] => []
  | (key, node) :: rest => (key, node.toValue) :: entriesToValues rest

def tablesToValues : List (List (String × Node)) → List Value
  | [] => []
  | entries :: rest => .table (entriesToValues entries) :: tablesToValues rest

end

/-- Put an entry in the place of the one with its key, or at the end. -/
def setEntry (key : String) (node : Node) : List (String × Node) → List (String × Node)
  | [] => [(key, node)]
  | (k, other) :: rest =>
    if k = key then (key, node) :: rest else (k, other) :: setEntry key node rest

/-- Change the table at a path. Missing tables are made with `made` as their origin; a
dotted path cannot pass through a table that has a header. -/
def changeAt? (made : Origin)
    (change : Origin → List (String × Node) → Option (List (String × Node))) :
    List String → Origin → List (String × Node) → Option (List (String × Node))
  | [], origin, entries => change origin entries
  | key :: path, _, entries =>
    match Table.lookup key entries with
    | none => do
      let inner ← changeAt? made change path made []
      some (setEntry key (table made inner) entries)
    | some (table origin inner) =>
      if made = .dotted ∧ origin = .header then none
      else do
        let inner ← changeAt? made change path origin inner
        some (setEntry key (table origin inner) entries)
    | some (elements (last :: earlier)) => do
      let last ← changeAt? made change path .header last
      some (setEntry key (elements (last :: earlier)) entries)
    | some _ => none

/-- Define the table of a header. A table that was only implied moves to the end. -/
def openTable? (key : String) (entries : List (String × Node)) :
    Option (List (String × Node)) :=
  match Table.lookup key entries with
  | none => some (setEntry key (table .header []) entries)
  | some (table .implied inner) =>
    some (entries.filter (fun e => e.1 ≠ key) ++ [(key, table .header inner)])
  | some _ => none

def openElement? (key : String) (entries : List (String × Node)) :
    Option (List (String × Node)) :=
  match Table.lookup key entries with
  | none => some (setEntry key (elements [[]]) entries)
  | some (elements tables) => some (setEntry key (elements ([] :: tables)) entries)
  | some _ => none

/-- Give a value to a new key of the table that a dotted path leads to. Such a path may
only end in a table that dotted keys made. -/
def assign? (path : List String) (key : String) (v : Value) (entries : List (String × Node)) :
    Option (List (String × Node)) :=
  changeAt? .dotted (fun origin entries =>
    if (origin = .dotted ↔ path.isEmpty) ∨ (Table.lookup key entries).isSome then none
    else some (setEntry key (value v) entries)) path .header entries

end Node

/-- A document so far: its table, and the path of the current one. -/
structure Draft where
  entries : List (String × Node)
  current : List String

namespace Draft

def empty : Draft := ⟨[], []⟩

/-- Open what a header names below the table at the rest of its path. -/
def openAt? (d : Draft)
    (change : String → List (String × Node) → Option (List (String × Node)))
    (path : List String) : Option Draft := do
  let key ← path.getLast?
  let entries ← Node.changeAt? .implied (fun _ inner => change key inner) path.dropLast
    .header d.entries
  some ⟨entries, path⟩

def add? (d : Draft) : Statement → Option Draft
  | .table path => d.openAt? Node.openTable? path
  | .element path => d.openAt? Node.openElement? path
  | .assign path key v => do
    let entries ← Node.changeAt? .implied (fun _ inner => Node.assign? path key v inner)
      d.current .header d.entries
    some { d with entries := entries }

end Draft

/-- The settled table that statements build, unless one of them defines something twice. -/
def build? (statements : List Statement) : Option Entries := do
  let draft ← statements.foldlM Draft.add? .empty
  match ← settle? (.table (Node.entriesToValues draft.entries)) with
  | .table entries => some entries
  | _ => none

end Toml
end FrameScript
