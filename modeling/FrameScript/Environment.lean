import FrameScript.Unicode.Alphanumeric

/-!
# Environments

An environment gives texts to names. Of entries with one name the first counts.

An environment file defines a variable in a line. A value may be quoted, may go over
several lines inside quotes, and may refer to other variables. Variables that are
defined already keep their values. Reading stops at the first line that is wrong or is
no text; what stands before it is kept.
-/

namespace FrameScript

structure Environment where
  entries : List (String × String)

namespace Environment

def empty : Environment := ⟨[]⟩

def get? (env : Environment) (name : String) : Option String :=
  (env.entries.find? fun e => e.1 = name).map (·.2)

/-- Give a text to a name that has none. -/
def define (env : Environment) (name value : String) : Environment :=
  if (env.get? name).isSome then env else ⟨env.entries ++ [(name, value)]⟩

/-- What is defined keeps its text. -/
theorem get?_define (env : Environment) (name value other : String) :
    (env.define name value).get? other =
      (env.get? other).or (if other = name then some value else none) := by
  unfold define
  split
  case isTrue defined =>
    obtain ⟨v, hv⟩ := Option.isSome_iff_exists.1 defined
    by_cases h : other = name
    · simp [h, hv]
    · simp [h]
  case isFalse undefined =>
    simp only [get?, List.find?_append, Option.map_or]
    by_cases h : other = name
    · simp [h]
    · simp [h, Ne.symm h]

end Environment

namespace EnvironmentFile

def isSpace (c : Char) : Bool :=
  let n := c.toNat
  (9 ≤ n && n ≤ 13) || n == 0x20 || n == 0x85 || n == 0xA0 || n == 0x1680 ||
    (0x2000 ≤ n && n ≤ 0x200A) || n == 0x2028 || n == 0x2029 || n == 0x202F ||
    n == 0x205F || n == 0x3000

def skipSpace (cs : List Char) : List Char := cs.dropWhile isSpace

def trimEnd (cs : List Char) : List Char := (skipSpace cs.reverse).reverse

def beginsComment (cs : List Char) : Bool := cs.head? == some '#'

/-- What the end of a line can be inside of. -/
inductive LineState where
  | plain
  | space
  | escaped
  /-- Inside quotes of a kind, where a backslash may precede. -/
  | quoted (quote : Char) (escaped : Bool)
  deriving DecidableEq

/-- The state after one character that does not begin a comment. -/
def LineState.next (s : LineState) (c : Char) : LineState :=
  match s with
  | escaped => plain
  | quoted quote true => quoted quote false
  | quoted quote false =>
    if c = '\\' then quoted quote true else if c = quote then plain else quoted quote false
  | s =>
    if s = plain ∧ isSpace c ∧ c ≠ '\n' ∧ c ≠ '\r' then space
    else if c = '\\' then escaped
    else if c = '"' ∨ c = '\'' then quoted c false
    else plain

/-- What is left of a line, given its characters so far in reverse. -/
inductive LineEnd where
  /-- The line went to its end in this state. -/
  | reached (state : LineState)
  /-- A comment was found after these characters. -/
  | comment (before : List Char)

/-- Go through a line. A comment begins after blank space outside of quotes. -/
def scanLine (s : LineState) (reversed : List Char) : List Char → LineEnd
  | [] => .reached s
  | c :: rest =>
    if s = .space ∧ c = '#' then .comment reversed.reverse
    else scanLine (s.next c) (c :: reversed) rest

/-- Lines of bytes, each with the line break at its end. -/
def breakLines (line : List UInt8) : List UInt8 → List (List UInt8)
  | [] => if line.isEmpty then [] else [line.reverse]
  | b :: rest =>
    if b = 10 then (b :: line).reverse :: breakLines [] rest else breakLines (b :: line) rest

/-- The bytes after a byte order mark. -/
def dropMark : List UInt8 → List UInt8
  | 0xef :: 0xbb :: 0xbf :: rest => rest
  | bytes => bytes

/-- The lines before the first one that is no text. -/
def textLines : List (List UInt8) → List (List Char)
  | [] => []
  | line :: rest =>
    match String.fromUTF8? ⟨line.toArray⟩ with
    | some text => text.toList :: textLines rest
    | none => []

/-- Join lines as long as they are inside quotes. `none` marks text that ends there. -/
def joinLines (joined : List Char) (s : LineState) : List (List Char) → List (Option (List Char))
  | [] => if s = .plain then [] else [none]
  | line :: rest =>
    if joined.isEmpty ∧ beginsComment (skipSpace line) then joinLines [] .plain rest
    else
      match scanLine s [] line with
      | .comment before => some (joined ++ before) :: joinLines [] .plain rest
      | .reached .plain => some (joined ++ line) :: joinLines [] .plain rest
      | .reached s => joinLines (joined ++ line) s rest

/-- How the next character of a value is read. -/
inductive ValueState where
  | plain
  | escaped
  /-- Inside single quotes, where every character stands for itself. -/
  | literal
  /-- In the name of a variable, which is given in reverse. -/
  | name (reversed : List Char)
  /-- In the name of a variable in braces. -/
  | bracedName (reversed : List Char)
  /-- After the value. -/
  | done

/-- The text of a variable, which is empty if there is none. -/
def substitute (env : Environment) (reversed : List Char) : List Char :=
  ((env.get? (String.ofList reversed.reverse)).getD "").toList

def escape? (c : Char) : Option Char :=
  if c = '\\' ∨ c = '\'' ∨ c = '"' ∨ c = '$' ∨ c = ' ' then some c
  else if c = 'n' then some '\n'
  else none

/-- A value, given its characters so far in reverse. `quoted` says whether double quotes
are open. The character that ends a plain name is taken as it is. -/
def readValue? (env : Environment) (quoted : Bool) (s : ValueState) (out : List Char) :
    List Char → Option (List Char)
  | [] =>
    match s with
    | .bracedName _ => none
    | .literal => none
    | .name n => if quoted then none else some (out.reverse ++ substitute env n)
    | _ => if quoted then none else some out.reverse
  | c :: rest =>
    match s with
    | .done =>
      if c = ' ' ∨ c = '\t' then readValue? env quoted .done out rest
      else if c = '#' then some out.reverse
      else none
    | .escaped =>
      match escape? c with
      | some d => readValue? env quoted .plain (d :: out) rest
      | none => none
    | .literal =>
      if c = '\'' then readValue? env quoted .plain out rest
      else readValue? env quoted .literal (c :: out) rest
    | .name n =>
      if Unicode.isAlphanumeric c then readValue? env quoted (.name (c :: n)) out rest
      else if c = '\x7b' ∧ n.isEmpty then readValue? env quoted (.bracedName []) out rest
      else
        let out := (substitute env n).reverse ++ out
        if c = '$' then readValue? env quoted (.name []) out rest
        else readValue? env quoted .plain (c :: out) rest
    | .bracedName n =>
      if c = '\x7d' then readValue? env quoted .plain ((substitute env n).reverse ++ out) rest
      else readValue? env quoted (.bracedName (c :: n)) out rest
    | .plain =>
      if c = '$' then readValue? env quoted (.name []) out rest
      else if c = '\\' then readValue? env quoted .escaped out rest
      else if c = '"' then readValue? env (!quoted) .plain out rest
      else if quoted then readValue? env quoted .plain (c :: out) rest
      else if c = '\'' then readValue? env quoted .literal out rest
      else if c = ' ' ∨ c = '\t' then readValue? env quoted .done out rest
      else readValue? env quoted .plain (c :: out) rest

def isNameStart (c : Char) : Bool := c.isAlpha || c = '_'

def isNameChar (c : Char) : Bool := c.isAlphanum || c = '_' || c = '.'

def readName? (cs : List Char) : Option (String × List Char) :=
  if (cs.head?.map isNameStart).getD false then
    some (String.ofList (cs.takeWhile isNameChar), skipSpace (cs.dropWhile isNameChar))
  else none

/-- A name, and the text after its equals sign. The word `export` may precede. -/
def readTarget? (cs : List Char) : Option (String × List Char) := do
  let (name, rest) ← readName? cs
  match rest with
  | '=' :: rest => some (name, skipSpace rest)
  | _ =>
    if name = "export" then
      match ← readName? rest with
      | (name, '=' :: rest) => some (name, skipSpace rest)
      | _ => none
    else none

/-- The environment after one line, unless the line is wrong. -/
def applyLine? (env : Environment) (line : List Char) : Option Environment :=
  let cs := skipSpace (trimEnd line)
  if cs.isEmpty || beginsComment cs then some env
  else do
    let (name, rest) ← readTarget? cs
    if rest.isEmpty || beginsComment rest then some (env.define name "")
    else
      let value ← readValue? env false .plain [] rest
      some (env.define name (String.ofList value))

def applyLines (env : Environment) : List (Option (List Char)) → Environment
  | some line :: rest =>
    match applyLine? env line with
    | some env => applyLines env rest
    | none => env
  | _ => env

/-- An environment with what the bytes of an environment file add to it. -/
def apply (env : Environment) (bytes : ByteArray) : Environment :=
  let lines := textLines (breakLines [] (dropMark bytes.toList))
  applyLines env (joinLines [] .plain lines)

end EnvironmentFile
end FrameScript
