/-!
# Items of a command line

Arguments are read from left to right into options, flags and plain values. An
option takes its value from the same argument or from the next one, which may not
itself look like an option. After two hyphens every argument is a plain value.
-/

namespace FrameScript
namespace CommandLine

inductive OptionName where
  | help
  | settings
  | entry
  | arg
  | frames
  | fps
  | drainPolicy
  | timeScale
  | keepAlive
  | tree
  deriving DecidableEq, Repr

namespace OptionName

/-- What is written after two hyphens. -/
def word : OptionName → String
  | help => "help"
  | settings => "config"
  | entry => "entry"
  | arg => "arg"
  | frames => "frames"
  | fps => "fps"
  | drainPolicy => "drain-policy"
  | timeScale => "time-scale"
  | keepAlive => "keep-alive"
  | tree => "ast"

/-- What is written after one hyphen. -/
def letter? : OptionName → Option Char
  | help => some 'h'
  | entry => some 'e'
  | arg => some 'a'
  | _ => none

/-- An option without a value is a flag. -/
def takesValue : OptionName → Bool
  | help | keepAlive | tree => false
  | _ => true

end OptionName

inductive Item where
  | plain (value : String)
  | option (name : OptionName) (value : String)
  | flag (name : OptionName)
  /-- What cannot be read; nothing after it is. -/
  | wrong
  deriving DecidableEq

/-- One argument, seen by itself. -/
inductive Argument where
  | item (item : Item)
  /-- An option whose value is the next argument. -/
  | open (name : OptionName)
  /-- The two hyphens before plain values. -/
  | hyphens

namespace Argument

/-- An option with the value that stands in the same argument, if one does. -/
def ofOption (name? : Option OptionName) (value? : Option String) : Argument :=
  match name? with
  | none => item .wrong
  | some name =>
    match name.takesValue, value? with
    | true, some value => item (.option name value)
    | true, none => .open name
    | false, none => item (.flag name)
    | false, some _ => item .wrong

/-- An option by its word, which an equals sign may divide from its value. -/
def ofWord (known : List OptionName) (cs : List Char) : Argument :=
  let word := String.ofList (cs.takeWhile (· ≠ '='))
  ofOption (known.find? fun name => name.word = word)
    (match cs.dropWhile (· ≠ '=') with
      | _ :: value => some (String.ofList value)
      | [] => none)

/-- An option by its letter, right after which its value may stand. The only flag with a
letter is the one for help, and what stands after it is not looked at. -/
def ofLetter (known : List OptionName) (letter : Char) (rest : List Char) : Argument :=
  let name? := known.find? fun name => name.letter? = some letter
  if name? = some .help then item (.flag .help)
  else
    ofOption name?
      (match rest with
        | [] => none
        | '=' :: value => some (String.ofList value)
        | value => some (String.ofList value))

def ofText (known : List OptionName) (text : String) : Argument :=
  match text.toList with
  | ['-', '-'] => hyphens
  | '-' :: '-' :: rest => ofWord known rest
  | '-' :: letter :: rest => ofLetter known letter rest
  | _ => item (.plain text)

end Argument

/-- Whether an argument cannot be the value of the option before it. -/
def looksLikeOption (text : String) : Bool :=
  match text.toList with
  | '-' :: _ :: _ => true
  | _ => false

def readItems (known : List OptionName) : List String → List Item
  | [] => []
  | text :: rest =>
    match Argument.ofText known text with
    | .item .wrong => [.wrong]
    | .item item => item :: readItems known rest
    | .hyphens => rest.map .plain
    | .open name =>
      match rest with
      | value :: rest =>
        if looksLikeOption value then [.wrong] else .option name value :: readItems known rest
      | [] => [.wrong]

/-- The items before the first plain value, that value, and the arguments after it. -/
def readUntilPlain (known : List OptionName) : List String →
    List Item × Option (String × List String)
  | [] => ([], none)
  | text :: rest =>
    match Argument.ofText known text with
    | .item (.plain value) => ([], some (value, rest))
    | .item .wrong => ([.wrong], none)
    | .item item =>
      let (items, found) := readUntilPlain known rest
      (item :: items, found)
    | .hyphens => ([.wrong], none)
    | .open name =>
      match rest with
      | value :: rest =>
        if looksLikeOption value then ([.wrong], none)
        else
          let (items, found) := readUntilPlain known rest
          (.option name value :: items, found)
      | [] => ([.wrong], none)

end CommandLine
end FrameScript
