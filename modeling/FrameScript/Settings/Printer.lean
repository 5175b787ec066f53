import FrameScript.Settings.Basic
import FrameScript.Toml.Quoted

/-!
# Settings as text

Settings are written section by section, one key in a line. A limit that is not
set has no line. Integers of the format have 64 bits with a sign, so a frame limit
beyond them cannot be written.
-/

namespace FrameScript
namespace Settings

def integerFits (n : Nat) : Bool := n < Nat.pow 2 63

def printNat? (n : Nat) : Option String := if integerFits n then some (toString n) else none

def printBool (b : Bool) : String := if b then "true" else "false"

/-- A float always has a fraction. -/
def printFloat (x : Number) : String := if x.isInteger then x.toText ++ ".0" else x.toText

/-- A list of texts: in one line if it has at most one element, else one element in a line. -/
def printTexts : List String → String
  | [] => "[]"
  | [text] => "[" ++ Toml.quote text ++ "]"
  | texts => "[\n" ++ String.join (texts.map fun t => "    " ++ Toml.quote t ++ ",\n") ++ "]"

def printLine (key value : String) : String := key ++ " = " ++ value ++ "\n"

def printSection (name : String) (lines : List String) : String :=
  "[" ++ name ++ "]\n" ++ String.join lines

/-- The text of settings, if their integers can be written. -/
def print? (s : Settings) : Option String := do
  let depth ← printNat? s.scheduler.maxCallDepth
  let rate ← printNat? s.driver.frameRate
  let limit ← match s.driver.maxFrames with
    | some n => (printNat? n).map fun text => [printLine "max_frames" text]
    | none => some []
  some ("\n".intercalate
    [printSection "scripts"
      [printLine "paths" (printTexts s.scripts.paths),
        printLine "entry" (Toml.quote s.scripts.entry)],
      printSection "scheduler"
      [printLine "drain_policy" (Toml.quote s.scheduler.drainPolicy.text),
        printLine "max_call_depth" depth],
      printSection "driver"
      ([printLine "frame_rate" rate, printLine "time_scale" (printFloat s.driver.timeScale)] ++
        limit ++ [printLine "exit_when_idle" (printBool s.driver.exitWhenIdle)]),
      printSection "logging" [printLine "filter" (Toml.quote s.logging.filter)]])

end Settings
end FrameScript
