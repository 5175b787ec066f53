import FrameScript.Toml.Document
import FrameScript.Toml.Scalar

/-!
# Reading settings files

A line holds one header or one assignment, with an optional comment at its end. A
list may go over several lines and may end in a comma; a table in braces is written
in one line without one.
-/

namespace FrameScript
namespace Toml

/-- Lists and tables in braces may be nested less deep than this. -/
def depthLimit : Nat := 80

/-- The text after blanks, comments and line breaks. A control character in a comment is
an error. -/
def skipFiller? (inComment : Bool) : List Char → Option (List Char)
  | [] => some []
  | '\n' :: rest => skipFiller? false rest
  | '\r' :: '\n' :: rest => skipFiller? false rest
  | c :: rest =>
    if inComment then (if isControl c then none else skipFiller? true rest)
    else if c = '#' then skipFiller? true rest
    else if isBlank c then skipFiller? false rest
    else some (c :: rest)

/-- The text from the end of a line on, after the comment of the line. -/
def skipComment? : List Char → Option (List Char)
  | [] => some []
  | '\n' :: rest => some ('\n' :: rest)
  | '\r' :: '\n' :: rest => some ('\n' :: rest)
  | c :: rest => if isControl c then none else skipComment? rest

/-- What follows a line of which no more than a comment is left. -/
def endLine? (cs : List Char) : Option (List Char) := do
  let rest ← match skipBlanks cs with
    | '#' :: rest => skipComment? rest
    | rest => some rest
  if rest.isEmpty then some [] else dropLineBreak? rest

def isBareKeyChar (c : Char) : Bool := c.isAlphanum || c = '_' || c = '-'

def readSimpleKey? : List Char → Option (String × List Char)
  | '"' :: rest => readAfterMark? .basic rest
  | '\'' :: rest => readAfterMark? .literal rest
  | cs =>
    let key := cs.takeWhile isBareKeyChar
    if key.isEmpty then none else some (String.ofList key, cs.dropWhile isBareKeyChar)

/-- A key has fewer parts than this. -/
def keyLimit : Nat := 80

/-- The parts of a key, which have points between them, and the text after the blanks
behind it. -/
def readKeyParts? : (fuel : Nat) → List Char → Option (List String × List Char)
  | 0, _ => none
  | fuel + 1, cs => do
    let (first, rest) ← readSimpleKey? (skipBlanks cs)
    match skipBlanks rest with
    | '.' :: rest => do
      let (parts, rest) ← readKeyParts? fuel rest
      some (first :: parts, rest)
    | rest => some ([first], rest)

/-- A key of one or more parts, and the text behind it. Every part has a character, so
the fuel lasts. -/
def readKey? (cs : List Char) : Option (List String × List Char) :=
  (readKeyParts? (cs.length + 1) cs).filter fun (parts, _) => parts.length < keyLimit

def readTarget? (cs : List Char) : Option (List String × String × List Char) := do
  let (parts, rest) ← readKey? cs
  let last ← parts.getLast?
  match rest with
  | '=' :: rest => some (parts.dropLast, last, skipBlanks rest)
  | _ => none

mutual

/-- One value at the start of the text, inside fewer than `depth` further levels. -/
def readValue? : (fuel depth : Nat) → List Char → Option (Value × List Char)
  | 0, _, _ => none
  | fuel + 1, depth, cs =>
    match cs with
    | '[' :: rest => if depth ≤ 1 then none else readItems? fuel (depth - 1) [] rest
    | '\x7b' :: rest =>
      if depth ≤ 1 then none
      else match skipBlanks rest with
        | '\x7d' :: rest => some (.table [], rest)
        | rest => readPairs? fuel (depth - 1) [] rest
    | cs => readScalar? cs

/-- The items of a list up to its bracket; the ones read before are given in reverse. -/
def readItems? : (fuel depth : Nat) → List Value → List Char → Option (Value × List Char)
  | 0, _, _, _ => none
  | fuel + 1, depth, acc, cs =>
    match skipFiller? false cs with
    | none => none
    | some (']' :: rest) => some (.list acc.reverse, rest)
    | some cs =>
      match readValue? fuel depth cs with
      | none => none
      | some (item, rest) =>
        match skipFiller? false rest with
        | some (',' :: rest) => readItems? fuel depth (item :: acc) rest
        | some (']' :: rest) => some (.list (item :: acc).reverse, rest)
        | _ => none

/-- The assignments of a table up to its brace, added to the ones read before. -/
def readPairs? : (fuel depth : Nat) → List (String × Node) → List Char →
    Option (Value × List Char)
  | 0, _, _, _ => none
  | fuel + 1, depth, acc, cs =>
    match readTarget? cs with
    | none => none
    | some (path, key, rest) =>
      match readValue? fuel depth rest with
      | none => none
      | some (v, rest) =>
        match Node.assign? path key v acc with
        | none => none
        | some acc =>
          match skipBlanks rest with
          | ',' :: rest => readPairs? fuel depth acc rest
          | '\x7d' :: rest => some (.table (Node.entriesToValues acc), rest)
          | _ => none

end

/-- A header up to the end of its line, after its opening bracket. -/
def readHeader? (cs : List Char) : Option (Statement × List Char) :=
  match cs with
  | '[' :: rest =>
    match readKey? rest with
    | some (path, ']' :: ']' :: rest) => (endLine? rest).map fun rest => (.element path, rest)
    | _ => none
  | _ =>
    match readKey? cs with
    | some (path, ']' :: rest) => (endLine? rest).map fun rest => (.table path, rest)
    | _ => none

def readStatement? (cs : List Char) : Option (Statement × List Char) :=
  match cs with
  | '[' :: rest => readHeader? rest
  | _ => do
    let (path, key, rest) ← readTarget? cs
    let (v, rest) ← readValue? (2 * rest.length + 2) depthLimit rest
    (endLine? rest).map fun rest => (.assign path key v, rest)

/-- The statements of a text; every one of them consumes a character. -/
def readStatements? : (fuel : Nat) → List Char → Option (List Statement)
  | 0, _ => none
  | fuel + 1, cs =>
    match skipFiller? false cs with
    | none => none
    | some [] => some []
    | some cs => do
      let (statement, rest) ← readStatement? cs
      let others ← readStatements? fuel rest
      some (statement :: others)

def ofText? (text : String) : Option Entries := do
  let cs := text.toList
  let statements ← readStatements? (cs.length + 1) cs
  build? statements

end Toml
end FrameScript
