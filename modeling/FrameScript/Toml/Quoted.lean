import FrameScript.Json.Reader

/-!
# Quoted texts

There are four quotations. A text is written in the plainest one that can hold it:
in double quotes if nothing has to be escaped, else in single quotes, else over
several lines; only if all of these fail are characters escaped. All four are read.
-/

namespace FrameScript
namespace Toml

inductive Quotation where
  | basic
  | literal
  | multilineBasic
  | multilineLiteral
  deriving DecidableEq, Repr

namespace Quotation

/-- What stands on both sides of the text. -/
def mark : Quotation → String
  | basic => "\""
  | literal => "'"
  | multilineBasic => "\"\"\""
  | multilineLiteral => "'''"

/-- Whether escapes are written, and read back. -/
def escapes : Quotation → Bool
  | basic | multilineBasic => true
  | literal | multilineLiteral => false

/-- Whether the text may hold line breaks. -/
def isMultiline : Quotation → Bool
  | multilineBasic | multilineLiteral => true
  | basic | literal => false

end Quotation

/-- The length of the longest run of a character, given those of the current and of the
longest run so far. -/
def longestRun (c : Char) (current longest : Nat) : List Char → Nat
  | [] => max current longest
  | d :: rest =>
    if d = c then longestRun c (current + 1) longest rest
    else longestRun c 0 (max current longest) rest

/-- A character that can only be written as an escape. Tabs and line breaks are not
counted here. -/
def isControl (c : Char) : Bool := c ≠ '\t' && c ≠ '\n' && (c.toNat < 0x20 || c.toNat = 0x7f)

/-- The quotation in which a text is written. -/
def quotationOf (text : List Char) : Quotation :=
  let controls := text.any isControl
  let backslash := text.contains '\\'
  let lines := text.contains '\n'
  let doubles := longestRun '"' 0 0 text
  let singles := longestRun '\'' 0 0 text
  if !controls && !backslash && !lines && doubles == 0 then .basic
  else if !controls && !lines && singles == 0 then .literal
  else if !controls && !backslash && doubles ≤ 2 then .multilineBasic
  else if !controls && singles ≤ 2 then .multilineLiteral
  else if lines then .multilineBasic
  else .basic

def upperHexDigit (n : Nat) : Char := (Nat.digitChar n).toUpper

def unicodeEscape (n : Nat) : String :=
  "\\u" ++ String.ofList ([n / 4096 % 16, n / 256 % 16, n / 16 % 16, n % 16].map upperHexDigit)

/-- How a character other than a double quote is written where escapes are. -/
def escapeChar (multiline : Bool) (c : Char) : String :=
  if c = '\\' then "\\\\"
  else if c = '\t' then "\\t"
  else if c = '\n' then (if multiline then "\n" else "\\n")
  else if c = '\r' then "\\r"
  else if c = '\x08' then "\\b"
  else if c = '\x0c' then "\\f"
  else if isControl c then unicodeEscape c.toNat
  else c.toString

/-- The escaped text after a run of double quotes. Over several lines two quotes in a
row may stand unescaped. -/
def escapeFrom (multiline : Bool) (run : Nat) : List Char → String
  | [] => ""
  | c :: rest =>
    if c = '"' then
      if multiline && run < 2 then "\"" ++ escapeFrom multiline (run + 1) rest
      else "\\\"" ++ escapeFrom multiline 0 rest
    else escapeChar multiline c ++ escapeFrom multiline 0 rest

/-- A quoted text. A line break right after the opening mark is not part of it. -/
def quote (text : String) : String :=
  let q := quotationOf text.toList
  let opening := if q.isMultiline && text.toList.contains '\n' then q.mark ++ "\n" else q.mark
  let body := if q.escapes then escapeFrom q.isMultiline 0 text.toList else text
  opening ++ body ++ q.mark

namespace Quotation

def quoteChar : Quotation → Char
  | basic | multilineBasic => '"'
  | literal | multilineLiteral => '\''

end Quotation

def isBlank (c : Char) : Bool := c = ' ' || c = '\t'

def skipBlanks (cs : List Char) : List Char := cs.dropWhile isBlank

def dropLineBreak? : List Char → Option (List Char)
  | '\n' :: rest => some rest
  | '\r' :: '\n' :: rest => some rest
  | _ => none

/-- The text after blanks and line breaks. -/
def skipBlankLines : List Char → List Char
  | '\r' :: '\n' :: rest => skipBlankLines rest
  | c :: rest => if isBlank c ∨ c = '\n' then skipBlankLines rest else c :: rest
  | [] => []

/-- A character from its number in so many hexadecimal digits. -/
def readCodePoint? (count : Nat) (cs : List Char) : Option (Char × List Char) :=
  let digits := cs.take count
  if digits.length < count then none
  else do
    let n ← digits.foldlM (fun n c => (Json.hexDigit? c).map (16 * n + ·)) 0
    if n.isValidChar then some (Char.ofNat n, cs.drop count) else none

/-- The character that an escape stands for, after its backslash. -/
def readEscape? : List Char → Option (Char × List Char)
  | 'b' :: rest => some ('\x08', rest)
  | 't' :: rest => some ('\t', rest)
  | 'n' :: rest => some ('\n', rest)
  | 'f' :: rest => some ('\x0c', rest)
  | 'r' :: rest => some ('\r', rest)
  | '"' :: rest => some ('"', rest)
  | '\\' :: rest => some ('\\', rest)
  | 'u' :: rest => readCodePoint? 4 rest
  | 'U' :: rest => readCodePoint? 8 rest
  | _ => none

/-- What follows a backslash at the end of a line: the next text after blank space. -/
def dropContinuation? (cs : List Char) : Option (List Char) :=
  (dropLineBreak? (skipBlanks cs)).map skipBlankLines

/-- The rest of a quoted text after its opening mark. In the longer marks one or two
quotes may stand in the text, also right before the closing mark. -/
def readBody? (q : Quotation) : (fuel : Nat) → (reversed : List Char) → List Char →
    Option (String × List Char)
  | 0, _, _ => none
  | _ + 1, _, [] => none
  | fuel + 1, acc, c :: rest =>
    if c = q.quoteChar then
      if q.isMultiline then
        let run := ((c :: rest).takeWhile (· = c)).length
        if run < 3 then readBody? q fuel (List.replicate run c ++ acc) ((c :: rest).drop run)
        else
          let kept := min (run - 3) 2
          some (String.ofList (List.replicate kept c ++ acc).reverse, (c :: rest).drop (kept + 3))
      else some (String.ofList acc.reverse, rest)
    else if c = '\\' ∧ q.escapes then
      match (if q.isMultiline then dropContinuation? rest else none) with
      | some rest => readBody? q fuel acc rest
      | none =>
        match readEscape? rest with
        | some (d, rest) => readBody? q fuel (d :: acc) rest
        | none => none
    else
      match (if q.isMultiline then dropLineBreak? (c :: rest) else none) with
      | some rest => readBody? q fuel ('\n' :: acc) rest
      | none =>
        if c = '\n' ∨ isControl c then none else readBody? q fuel (c :: acc) rest

/-- A quoted text after its opening mark; every step consumes a character, so the fuel
lasts. -/
def readAfterMark? (q : Quotation) (cs : List Char) : Option (String × List Char) :=
  readBody? q (cs.length + 1) [] cs

def readQuoted? : List Char → Option (String × List Char)
  | '"' :: '"' :: '"' :: rest =>
    readAfterMark? .multilineBasic ((dropLineBreak? rest).getD rest)
  | '\'' :: '\'' :: '\'' :: rest =>
    readAfterMark? .multilineLiteral ((dropLineBreak? rest).getD rest)
  | '"' :: rest => readAfterMark? .basic rest
  | '\'' :: rest => readAfterMark? .literal rest
  | _ => none

end Toml
end FrameScript
