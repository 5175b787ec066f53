import FrameScript.Script.Matcher

/-!
# Mismatch messages

When a source does not match the grammar, the message points at the furthest
position that a rule has reached and names the rules that were tried there.
-/

namespace FrameScript
namespace Script

/-- Where and why a source does not match. -/
structure Mismatch where
  source : List Char
  attempts : Attempts

namespace Mismatch

def before (m : Mismatch) : List Char := m.source.take m.attempts.position

def line (m : Mismatch) : Nat := m.before.count '\n' + 1

/-- The part of the position's line that is before it. -/
def lineBefore (m : Mismatch) : List Char :=
  (m.before.reverse.takeWhile (· ≠ '\n')).reverse

/-- The column of the position in characters, counted from one. -/
def column (m : Mismatch) : Nat := m.lineBefore.length + 1

/-- The part of the position's line from the position on, with its newline. -/
def lineAfter (m : Mismatch) : List Char :=
  let rest := m.source.drop m.attempts.position
  rest.takeWhile (· ≠ '\n') ++ (rest.dropWhile (· ≠ '\n')).take 1

def visible (c : Char) : Char := if c = '\r' then '␍' else if c = '\n' then '␊' else c

/-- The line as it is shown: line ends are visible only if the position is at one. -/
def shownLine (m : Mismatch) : List Char :=
  let line := m.lineBefore ++ m.lineAfter
  match m.lineAfter.head? with
  | some c => if c = '\r' ∨ c = '\n' then line.map visible else line.filter notLineEnd
  | none => line.filter notLineEnd
where
  notLineEnd (c : Char) : Bool := c ≠ '\r' && c ≠ '\n'

/-- Names of rules in the order of the grammar, each once. -/
def names (rules : Array Rule) : List String :=
  (Rule.all.filter rules.contains).map Rule.name

/-- Names as an enumeration. -/
def enumerate : List String → String
  | [] => ""
  | [a] => a
  | [a, b] => a ++ " or " ++ b
  | a :: rest => ", ".intercalate (a :: rest.dropLast) ++ ", or " ++ rest.getLast?.getD ""

/-- What was expected and what was not. -/
def explanation (m : Mismatch) : String :=
  let unexpected := names m.attempts.unexpected
  let expected := names m.attempts.expected
  match unexpected.isEmpty, expected.isEmpty with
  | false, false => "unexpected " ++ enumerate unexpected ++ "; expected " ++ enumerate expected
  | false, true => "unexpected " ++ enumerate unexpected
  | true, false => "expected " ++ enumerate expected
  | true, true => "unknown parsing error"

/-- The six lines of the message. -/
def message (m : Mismatch) : String :=
  let number := toString m.line
  let margin := String.ofList (List.replicate number.length ' ')
  let underline := (m.shownLine.take (m.column - 1)).map fun c => if c = '\t' then '\t' else ' '
  "\n".intercalate
    [margin ++ "--> " ++ number ++ ":" ++ toString m.column,
      margin ++ " |",
      number ++ " | " ++ String.ofList m.shownLine,
      margin ++ " | " ++ String.ofList underline ++ "^---",
      margin ++ " |",
      margin ++ " = " ++ m.explanation]

end Mismatch
end Script
end FrameScript
