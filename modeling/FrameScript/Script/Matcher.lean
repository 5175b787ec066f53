import FrameScript.Script.Grammar

/-!
# Matching the grammar

`run` matches a pattern at a cursor by ordered choice and builds the forest of
matched rules. On the way it records which rules were tried at the furthest
position that a rule has reached: those are what a message can name. The record
outlives backtracking.
-/

namespace FrameScript
namespace Script

/-- A place in the source: what is left, how many characters are behind, and the line. -/
structure Cursor where
  rest : List Char
  position : Nat
  line : Nat

namespace Cursor

def start (source : List Char) : Cursor := ⟨source, 0, 1⟩

/-- The cursor behind one character; only a newline ends a line. -/
def advance (c : Cursor) : Char → List Char → Cursor
  | ch, rest => ⟨rest, c.position + 1, if ch = '\n' then c.line + 1 else c.line⟩

def dropText? (c : Cursor) : List Char → Option Cursor
  | [] => some c
  | x :: xs =>
    match c.rest with
    | y :: rest => if x = y then dropText? (c.advance y rest) xs else none
    | [] => none

def dropClass? (c : Cursor) (charClass : CharClass) : Option Cursor :=
  match c.rest with
  | y :: rest => if charClass.holds y then some (c.advance y rest) else none
  | [] => none

end Cursor

def isBlank (c : Char) : Bool := c = ' ' || c = '\t' || c = '\r' || c = '\n'

/-- What a comment has left behind so far: the cursor at its end, or nothing. A line
comment stops before the newline; a block comment needs its end. -/
def endOfLineComment (c : Cursor) : List Char → Cursor
  | [] => c
  | y :: rest => if y = '\n' then c else endOfLineComment (c.advance y rest) rest

def endOfBlockComment? (c : Cursor) : List Char → Option Cursor
  | [] => none
  | '*' :: '/' :: rest => some ((c.advance '*' ('/' :: rest)).advance '/' rest)
  | y :: rest => endOfBlockComment? (c.advance y rest) rest

/-- The cursor behind a complete comment, if one comes next. -/
def dropComment? (c : Cursor) : Option Cursor :=
  match c.rest with
  | '/' :: '/' :: rest =>
    let inside := (c.advance '/' ('/' :: rest)).advance '/' rest
    some (endOfLineComment inside rest)
  | '/' :: '*' :: rest =>
    endOfBlockComment? ((c.advance '/' ('*' :: rest)).advance '*' rest) rest
  | _ => none

/-- Skip blanks and complete comments; every step consumes a character of the fuel. -/
def skipLayoutWith : (fuel : Nat) → Cursor → Cursor
  | 0, c => c
  | fuel + 1, c =>
    match c.rest with
    | y :: rest =>
      if isBlank y then skipLayoutWith fuel (c.advance y rest)
      else match dropComment? c with
        | some c => skipLayoutWith fuel c
        | none => c
    | [] => c

def skipLayout (c : Cursor) : Cursor := skipLayoutWith (c.rest.length + 1) c

/-- The rules tried at the furthest position: `expected` ones failed there, `unexpected`
ones matched where they were not to. -/
structure Attempts where
  position : Nat
  expected : Array Rule
  unexpected : Array Rule

namespace Attempts

def none : Attempts := ⟨0, #[], #[]⟩

/-- How many rules are on record for a position. -/
def countAt (a : Attempts) (position : Nat) : Nat :=
  if position = a.position then a.expected.size + a.unexpected.size else 0

/-- The record as it stood when a rule was entered. -/
structure Mark where
  expected : Nat
  unexpected : Nat

def mark (a : Attempts) (position : Nat) : Mark :=
  if position = a.position then ⟨a.expected.size, a.unexpected.size⟩ else ⟨0, 0⟩

/-- Put a rule that was entered at `position` on record. It stands for the rules tried
inside it, unless there was exactly one. -/
def add (a : Attempts) (entry : Mark) (position : Nat) (r : Rule) (negated : Bool) : Attempts :=
  if a.countAt position - (entry.expected + entry.unexpected) = 1 then a
  else
    let a : Attempts :=
      if position = a.position then
        ⟨a.position, a.expected.take entry.expected, a.unexpected.take entry.unexpected⟩
      else if a.position < position then ⟨position, #[], #[]⟩
      else a
    if position = a.position then
      if negated then ⟨a.position, a.expected, a.unexpected.push r⟩
      else ⟨a.position, a.expected.push r, a.unexpected⟩
    else a

end Attempts

/-- A matched rule with the rules matched inside it. -/
inductive Node where
  | mk (rule : Rule) (start : Cursor) (length : Nat) (children : List Node)

namespace Node

def rule : Node → Rule
  | mk r _ _ _ => r

def line : Node → Nat
  | mk _ start _ _ => start.line

def text : Node → String
  | mk _ start length _ => String.ofList (start.rest.take length)

def children : Node → List Node
  | mk _ _ _ nodes => nodes

end Node

/-- Where a match ended, and all nodes so far, the latest first. -/
structure Progress where
  cursor : Cursor
  nodes : List Node

/-- How a pattern is matched: under which spacing, and whether inside a rejection. -/
structure Mode where
  spacing : Spacing
  negated : Bool

/-- Skip blanks where the spacing allows them. -/
def Mode.skip (mode : Mode) (c : Cursor) : Cursor :=
  if mode.spacing = .spaced then skipLayout c else c

/-- The record after a rule was tried. A rule inside an atomic one leaves no trace. -/
def recordAttempt (mode : Mode) (r : Rule) (position : Nat) (entry : Attempts.Mark)
    (matched : Bool) (attempts : Attempts) : Attempts :=
  if matched = mode.negated ∧ mode.spacing ≠ .atomic then
    attempts.add entry position r mode.negated
  else attempts

mutual

/-- Match a pattern: the record, and the progress if it matches. Nothing at all means
that the fuel ran out. -/
def run : (fuel : Nat) → Mode → Pattern → Progress → Attempts →
    Option (Attempts × Option Progress)
  | 0, _, _, _, _ => none
  | fuel + 1, mode, pattern, here, attempts =>
    match pattern with
    | .text chars =>
      some (attempts, (here.cursor.dropText? chars).map fun c => ⟨c, here.nodes⟩)
    | .char charClass =>
      some (attempts, (here.cursor.dropClass? charClass).map fun c => ⟨c, here.nodes⟩)
    | .start => some (attempts, if here.cursor.position = 0 then some here else none)
    | .finish => some (attempts, if here.cursor.rest.isEmpty then some here else none)
    | .seq first second =>
      match run fuel mode first here attempts with
      | some (attempts, some next) =>
        run fuel mode second ⟨mode.skip next.cursor, next.nodes⟩ attempts
      | stopped => stopped
    | .alt first second =>
      match run fuel mode first here attempts with
      | some (attempts, none) => run fuel mode second here attempts
      | decided => decided
    | .opt body =>
      match run fuel mode body here attempts with
      | some (attempts, none) => some (attempts, some here)
      | decided => decided
    | .many body =>
      match run fuel mode body here attempts with
      | some (attempts, some next) => repeatMore fuel mode body next attempts
      | some (attempts, none) => some (attempts, some here)
      | none => none
    | .reject body =>
      match run fuel ⟨mode.spacing, !mode.negated⟩ body here attempts with
      | some (attempts, some _) => some (attempts, none)
      | some (attempts, none) => some (attempts, some here)
      | none => none
    | .rule r =>
      let position := here.cursor.position
      let entry := attempts.mark position
      let inside : Mode := ⟨r.spacing.getD mode.spacing, mode.negated⟩
      match run fuel inside r.pattern ⟨here.cursor, []⟩ attempts with
      | some (attempts, some next) =>
        let node := Node.mk r here.cursor (next.cursor.position - position) next.nodes.reverse
        let nodes := if mode.spacing = .atomic then here.nodes else node :: here.nodes
        some (recordAttempt mode r position entry true attempts, some ⟨next.cursor, nodes⟩)
      | some (attempts, none) =>
        some (recordAttempt mode r position entry false attempts, none)
      | none => none

/-- Further repetitions of a body; blanks before one that fails are given back. -/
def repeatMore : (fuel : Nat) → Mode → Pattern → Progress → Attempts →
    Option (Attempts × Option Progress)
  | 0, _, _, _, _ => none
  | fuel + 1, mode, body, here, attempts =>
    match run fuel mode body ⟨mode.skip here.cursor, here.nodes⟩ attempts with
    | some (attempts, some next) => repeatMore fuel mode body next attempts
    | some (attempts, none) => some (attempts, some here)
    | none => none

end

/-- Bound on the patterns and rules that are entered between two characters. -/
def depthPerChar : Nat := 512

/-- Match a rule at the start of a source. The recursion is never deeper than the fuel:
without consuming a character it enters each rule at most once. -/
def matchRule (r : Rule) (source : List Char) : Attempts × Option Node :=
  let fuel := (source.length + 2) * depthPerChar
  match run fuel ⟨.spaced, false⟩ (.rule r) ⟨.start source, []⟩ .none with
  | some (attempts, some progress) => (attempts, progress.nodes.head?)
  | some (attempts, none) => (attempts, none)
  | none => (.none, none)

end Script
end FrameScript
