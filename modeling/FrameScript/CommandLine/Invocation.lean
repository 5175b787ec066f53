import FrameScript.CommandLine.Items
import FrameScript.Host.Queue
import FrameScript.Number.Decimal

/-!
# Invocations

An invocation is a command with its options. An option that is not a list is given
at most once, and a value that does not fit its option makes the invocation wrong.
The path of a settings file may be given before the command and after it; the latter
counts.
-/

namespace FrameScript
namespace CommandLine

/-- What replaces or adds to the settings of a run. -/
structure RunOptions where
  scripts : List String := []
  entry : Option String := none
  /-- The arguments of the entry function, as JSON texts. -/
  args : List String := []
  frames : Option Nat := none
  fps : Option Nat := none
  drainPolicy : Option DrainPolicy := none
  timeScale : Option Number := none
  keepAlive : Bool := false

structure CheckOptions where
  files : List String := []
  showTree : Bool := false

inductive Command where
  | run (options : RunOptions)
  | check (options : CheckOptions)
  | showSettings

structure Invocation where
  settingsPath : Option String
  command : Command

/-- Why there is nothing to do. -/
inductive Refusal where
  /-- Help was asked for. -/
  | help
  /-- The command line is wrong. -/
  | usage
  deriving DecidableEq, Repr

def fit {α : Type} : Option α → Except Refusal α
  | some v => .ok v
  | none => .error .usage

def once {α : Type} (present : Option α) (v : Option α) : Except Refusal (Option α) :=
  match present with
  | some _ => .error .usage
  | none => (fit v).map some

def onceFlag (present : Bool) : Except Refusal Bool := if present then .error .usage else .ok true

/-- Add a path, which may not be empty. -/
def addPath (paths : List String) (path : String) : Except Refusal (List String) :=
  if path.isEmpty then .error .usage else .ok (paths ++ [path])

/-- A frame rate has 32 bits. -/
def frameRateOfText? (text : String) : Option Nat :=
  (signedWordOfText? text).bind fun n =>
    if 0 ≤ n ∧ n < (Nat.pow 2 32 : Int) then some n.toNat else none

/-- A command so far, with the path of the settings file if one was given. -/
structure Partial (α : Type) where
  options : α
  settingsPath : Option String := none

namespace Partial

/-- An item that every command takes; other items are left to `own`. -/
def add {α : Type} (own : α → Item → Except Refusal α) (p : Partial α) (item : Item) :
    Except Refusal (Partial α) :=
  match item with
  | .wrong => .error .usage
  | .flag .help => .error .help
  | .option .settings path =>
    (once p.settingsPath (some path)).map fun path => { p with settingsPath := path }
  | item => (own p.options item).map fun options => { p with options }

def ofItems {α : Type} (own : α → Item → Except Refusal α) (start : α) (items : List Item) :
    Except Refusal (Partial α) :=
  items.foldlM (add own) { options := start }

end Partial

def addNothing (_ : Unit) (_ : Item) : Except Refusal Unit := .error .usage

def RunOptions.add (o : RunOptions) : Item → Except Refusal RunOptions
  | .plain path => return { o with scripts := ← addPath o.scripts path }
  | .option .entry text => return { o with entry := ← once o.entry (some text) }
  | .option .arg text => .ok { o with args := o.args ++ [text] }
  | .option .frames text => return { o with frames := ← once o.frames (wordOfText? text) }
  | .option .fps text => return { o with fps := ← once o.fps (frameRateOfText? text) }
  | .option .drainPolicy text =>
    return { o with drainPolicy := ← once o.drainPolicy (DrainPolicy.ofText? text) }
  | .option .timeScale text =>
    return { o with timeScale := ← once o.timeScale (Number.ofText? text) }
  | .flag .keepAlive => return { o with keepAlive := ← onceFlag o.keepAlive }
  | _ => .error .usage

def CheckOptions.add (o : CheckOptions) : Item → Except Refusal CheckOptions
  | .plain path => return { o with files := ← addPath o.files path }
  | .flag .tree => return { o with showTree := ← onceFlag o.showTree }
  | _ => .error .usage

def commonOptions : List OptionName := [.help, .settings]

def runOptions : List OptionName :=
  commonOptions ++ [.entry, .arg, .frames, .fps, .drainPolicy, .timeScale, .keepAlive]

def checkOptions : List OptionName := commonOptions ++ [.tree]

/-- The commands, and the one that tells about them. -/
def commandNames : List String := ["run", "check", "config", "help"]

/-- Help may be asked for about one command. -/
def readHelp : List String → Refusal
  | [] => .help
  | [name] => if commandNames.contains name then .help else .usage
  | _ => .usage

/-- The command of this name with its own arguments. -/
def readCommand (name : String) (args : List String) : Except Refusal (Partial Command) :=
  if name = "run" then
    (Partial.ofItems RunOptions.add {} (readItems runOptions args)).map fun p =>
      { p with options := .run p.options }
  else if name = "check" then do
    let p ← Partial.ofItems CheckOptions.add {} (readItems checkOptions args)
    if p.options.files.isEmpty then .error .usage
    else .ok { p with options := .check p.options }
  else if name = "config" then
    (Partial.ofItems addNothing () (readItems commonOptions args)).map fun p =>
      { p with options := .showSettings }
  else if name = "help" then .error (readHelp args)
  else .error .usage

def Invocation.ofArguments (args : List String) : Except Refusal Invocation := do
  let (items, found) := readUntilPlain commonOptions args
  let before ← Partial.ofItems addNothing () items
  let (name, args) ← fit found
  let command ← readCommand name args
  .ok ⟨command.settingsPath.orElse fun _ => before.settingsPath, command.options⟩

end CommandLine
end FrameScript
