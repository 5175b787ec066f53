import FrameScript.Json.Numeral

/-!
# Reading JSON

A strict reader: no leading zeros, no trailing text, no control characters in
strings, no lone surrogates, no number past the range, and at most `depthLimit`
nested arrays and objects. Of fields with one name the last counts, and fields
are sorted by name.
-/

namespace FrameScript
namespace Json

/-- Arrays and objects may be nested less deep than this. -/
def depthLimit : Nat := 128

def isBlank (c : Char) : Bool := c = ' ' || c = '\t' || c = '\n' || c = '\r'

def skipBlanks (cs : List Char) : List Char := cs.dropWhile isBlank

def hexDigit? (c : Char) : Option Nat :=
  if c.isDigit then some (c.toNat - '0'.toNat)
  else if 'a' ≤ c ∧ c ≤ 'f' then some (c.toNat - 'a'.toNat + 10)
  else if 'A' ≤ c ∧ c ≤ 'F' then some (c.toNat - 'A'.toNat + 10)
  else none

/-- The number that four hexadecimal digits write. -/
def hexValue? : List Char → Option Nat
  | [a, b, c, d] => do
    let a ← hexDigit? a
    let b ← hexDigit? b
    let c ← hexDigit? c
    let d ← hexDigit? d
    some (((a * 16 + b) * 16 + c) * 16 + d)
  | _ => none

/-- Four hexadecimal digits, which are looked for in four bytes. -/
def readUnit (cs : List Char) : Except Failure (Nat × List Char) :=
  match hexValue? (cs.take 4) with
  | some u => .ok (u, cs.drop 4)
  | none =>
    if Failure.byteCount (cs.take 4) < 4 then failAt .endInString []
    else .error ⟨.badEscape, cs, 4⟩

def isHighSurrogate (u : Nat) : Bool := 0xD800 ≤ u && u < 0xDC00

def isLowSurrogate (u : Nat) : Bool := 0xDC00 ≤ u && u < 0xE000

/-- The second of two units, after its backslash and its letter. -/
def readLowSurrogate : List Char → Except Failure (Nat × List Char)
  | [] => failAt .endInString []
  | '\\' :: rest =>
    match rest with
    | [] => failAt .endInString []
    | 'u' :: rest => do
      let (v, rest) ← readUnit rest
      if isLowSurrogate v then .ok (v, rest) else failAt .loneSurrogate rest
    | rest => failIn .halfSurrogate rest
  | rest => failIn .halfSurrogate rest

/-- The character after `\u`; a high surrogate needs a low one in a second escape. -/
def readUnicode (cs : List Char) : Except Failure (Char × List Char) := do
  let (u, rest) ← readUnit cs
  if isLowSurrogate u then failAt .loneSurrogate rest
  else if isHighSurrogate u then
    let (v, rest) ← readLowSurrogate rest
    .ok (Char.ofNat (0x10000 + (u - 0xD800) * 0x400 + (v - 0xDC00)), rest)
  else .ok (Char.ofNat u, rest)

def simpleEscape? : Char → Option Char
  | '"' => some '"'
  | '\\' => some '\\'
  | '/' => some '/'
  | 'b' => some '\x08'
  | 'f' => some '\x0c'
  | 'n' => some '\n'
  | 'r' => some '\r'
  | 't' => some '\t'
  | _ => none

/-- The character that an escape stands for, after its backslash. -/
def readEscape : List Char → Except Failure (Char × List Char)
  | [] => failAt .endInString []
  | 'u' :: rest => readUnicode rest
  | c :: rest =>
    match simpleEscape? c with
    | some d => .ok (d, rest)
    | none => failIn .badEscape (c :: rest)

/-- The rest of a string after its opening quote. -/
def readString : (fuel : Nat) → (reversed : List Char) → List Char →
    Except Failure (String × List Char)
  | 0, _, rest => failAt .endInString rest
  | _ + 1, _, [] => failAt .endInString []
  | fuel + 1, acc, c :: rest =>
    if c = '"' then .ok (String.ofList acc.reverse, rest)
    else if c = '\\' then
      match readEscape rest with
      | .ok (d, rest) => readString fuel (d :: acc) rest
      | .error failure => .error failure
    else if c.toNat < 0x20 then failIn .control (c :: rest)
    else readString fuel (c :: acc) rest

def readWord (v : Json) : (word : List Char) → List Char → Except Failure (Json × List Char)
  | [], cs => .ok (v, cs)
  | _ :: _, [] => failAt .endInValue []
  | w :: ws, c :: cs => if w = c then readWord v ws cs else failIn .noWord (c :: cs)

def readColon (cs : List Char) : Except Failure (List Char) :=
  match skipBlanks cs with
  | ':' :: rest => .ok rest
  | [] => failAt .endInObject []
  | rest => failIn .noColon rest

def readKeyQuote (cs : List Char) : Except Failure (List Char) :=
  match skipBlanks cs with
  | '"' :: rest => .ok rest
  | [] => failAt .endInValue []
  | '\x7d' :: rest => failIn .trailingComma ('\x7d' :: rest)
  | rest => failIn .noKey rest

def readItemStart (cs : List Char) : Except Failure (List Char) :=
  match skipBlanks cs with
  | [] => failAt .endInValue []
  | ']' :: rest => failIn .trailingComma (']' :: rest)
  | rest => .ok rest

/-- Whether another item follows, and what comes after the comma or the bracket. -/
def readItemEnd (cs : List Char) : Except Failure (Bool × List Char) :=
  match skipBlanks cs with
  | ',' :: rest => (readItemStart rest).map (true, ·)
  | ']' :: rest => .ok (false, rest)
  | [] => failAt .endInArray []
  | rest => failIn .noCommaInArray rest

/-- Whether another field follows, and what comes after the opening quote of its key or
after the brace. -/
def readFieldEnd (cs : List Char) : Except Failure (Bool × List Char) :=
  match skipBlanks cs with
  | ',' :: rest => (readKeyQuote rest).map (true, ·)
  | '\x7d' :: rest => .ok (false, rest)
  | [] => failAt .endInObject []
  | rest => failIn .noCommaInObject rest

mutual

/-- One value at the start of the text, inside fewer than `depth` further levels. -/
def readValue : (fuel depth : Nat) → List Char → Except Failure (Json × List Char)
  | 0, _, cs => failAt .endInValue cs
  | fuel + 1, depth, cs =>
    match skipBlanks cs with
    | [] => failAt .endInValue []
    | '"' :: rest => (readString (rest.length + 1) [] rest).map fun (s, r) => (string s, r)
    | '[' :: rest =>
      if depth ≤ 1 then failIn .tooDeep ('[' :: rest)
      else match skipBlanks rest with
        | ']' :: rest => .ok (array [], rest)
        | [] => failAt .endInArray []
        | rest => readItems fuel (depth - 1) [] rest
    | '\x7b' :: rest =>
      if depth ≤ 1 then failIn .tooDeep ('\x7b' :: rest)
      else match skipBlanks rest with
        | '\x7d' :: rest => .ok (object [], rest)
        | [] => failAt .endInObject []
        | '"' :: rest => readFields fuel (depth - 1) [] rest
        | rest => failIn .noKey rest
    | c :: rest =>
      if c = '-' ∨ c.isDigit then readNumeral (c :: rest)
      else if c = 'n' then readWord null "ull".toList rest
      else if c = 't' then readWord (bool true) "rue".toList rest
      else if c = 'f' then readWord (bool false) "alse".toList rest
      else failIn .noValue (c :: rest)

/-- The items of an array up to its bracket; the ones read before are given in reverse. -/
def readItems : (fuel depth : Nat) → List Json → List Char → Except Failure (Json × List Char)
  | 0, _, _, cs => failAt .endInArray cs
  | fuel + 1, depth, acc, cs =>
    match readValue fuel depth cs with
    | .error failure => .error failure
    | .ok (item, rest) =>
      match readItemEnd rest with
      | .error failure => .error failure
      | .ok (true, rest) => readItems fuel depth (item :: acc) rest
      | .ok (false, rest) => .ok (array (item :: acc).reverse, rest)

/-- The fields of an object up to its brace, added to the ones read before. The quote that
opens the next key has been read. -/
def readFields : (fuel depth : Nat) → List (String × Json) → List Char →
    Except Failure (Json × List Char)
  | 0, _, _, cs => failAt .endInObject cs
  | fuel + 1, depth, acc, cs =>
    match readString (cs.length + 1) [] cs with
    | .error failure => .error failure
    | .ok (key, rest) =>
      match readColon rest with
      | .error failure => .error failure
      | .ok rest =>
        match readValue fuel depth rest with
        | .error failure => .error failure
        | .ok (value, rest) =>
          let acc := Table.insertEntry key value acc
          match readFieldEnd rest with
          | .error failure => .error failure
          | .ok (true, rest) => readFields fuel depth acc rest
          | .ok (false, rest) => .ok (object acc, rest)

end

/-- The value that the whole text writes. Every second step of the reader consumes a
character, so the fuel lasts. -/
def read (text : String) : Except Failure Json := do
  let cs := text.toList
  let (json, rest) ← readValue (2 * cs.length + 2) depthLimit cs
  let rest := skipBlanks rest
  if rest.isEmpty then .ok json else failIn .trailingText rest

/-- The value that the whole text writes, if it writes one. -/
def ofText? (text : String) : Option Json := (read text).toOption

end Json
end FrameScript
