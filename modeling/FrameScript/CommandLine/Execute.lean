import FrameScript.CommandLine.Invocation
import FrameScript.Host.Run
import FrameScript.Host.Tick
import FrameScript.Json.Printer
import FrameScript.Json.Reader
import FrameScript.Settings.Load
import FrameScript.Value.Text

/-!
# Executing invocations

An invocation writes text on two channels and ends with a code: `0` for success, `1`
for a failure and `2` for a wrong command line. Frames of equal length are taken without waiting
for them: the clock goes on by the share of a second that a frame has.
Arguments of an entry function are given as JSON texts.
-/

namespace FrameScript

/-- An argument that is not JSON. -/
structure BadArgument where
  text : String
  failure : Json.Failure

namespace BadArgument

def message (e : BadArgument) : String := "Invalid JSON argument: " ++ e.text

def fullMessage (e : BadArgument) : String := e.message ++ ": " ++ e.failure.message e.text

end BadArgument

/-- The values of argument texts, or the first text that is not JSON. -/
def argumentValues (h : Heap) : List String → Except BadArgument (Heap × List Value)
  | [] => .ok (h, [])
  | text :: rest =>
    match Json.read text with
    | .error failure => .error ⟨text, failure⟩
    | .ok json => do
      let (h, v) := Value.ofJson h json
      let (h, values) ← argumentValues h rest
      .ok (h, v :: values)
namespace CommandLine

/-- What an invocation leaves behind. -/
structure Transcript where
  code : Nat
  output : String
  errors : String
  deriving DecidableEq

namespace Transcript

def success (output : String) : Transcript := ⟨0, output, ""⟩

/-- A failure ends with its message, after what was written before. -/
def failure (output errors message : String) : Transcript :=
  ⟨1, output, errors ++ "Error: " ++ message ++ "\n"⟩

end Transcript

/-- Settings with what the options of a run change. -/
def RunOptions.apply (o : RunOptions) (s : Settings) : Settings :=
  { s with
    scripts := {
      paths := if o.scripts.isEmpty then s.scripts.paths else o.scripts
      entry := o.entry.getD s.scripts.entry }
    scheduler := { s.scheduler with drainPolicy := o.drainPolicy.getD s.scheduler.drainPolicy }
    driver := {
      frameRate := o.fps.getD s.driver.frameRate
      timeScale := o.timeScale.getD s.driver.timeScale
      maxFrames := o.frames.orElse fun _ => s.driver.maxFrames
      exitWhenIdle := s.driver.exitWhenIdle && !o.keepAlive } }

def hostOf (s : Settings) : Host :=
  Host.new s.scheduler.drainPolicy s.scheduler.maxCallDepth .logging []

def advanceFrame (d : DriverSettings) (clock : ManualClock) : ManualClock :=
  let ms := (Number.ofNat 1000).div (Number.ofNat d.frameRate)
  (clock.advanceReal ms).advanceSimulation (ms.mul d.timeScale)

def summaryText (s : FrameSummary) (stop : StopReason) : String :=
  "Stopped after " ++ toString s.frames ++ " frame(s): " ++ stop.text ++ " (" ++
    toString s.resumed ++ " resumed, " ++ toString s.finished ++ " finished, " ++
    toString s.errored ++ " failed)\n"

/-- What is left behind by a run whose frames are over. -/
def frameTranscript (s : FrameSummary) (stop : StopReason) : Transcript :=
  let output := summaryText s stop
  if s.errored = 0 then .success output
  else .failure output "" (toString s.errored ++ " continuation(s) failed")

def frameOptions (d : DriverSettings) : FrameOptions := ⟨d.maxFrames, d.exitWhenIdle⟩

/-- How far an invocation has come before its first frame. -/
inductive Progress where
  | done (transcript : Transcript)
  /-- The entry function was suspended, and frames are to be taken. -/
  | suspended (driver : DriverSettings) (host : Host)

namespace Progress

def fail (message : String) : Progress := done (.failure "" "" message)

/-- Take the frames of a run until there is a reason to stop. -/
def finish (fuel : Nat) : Progress → Option Transcript
  | done transcript => some transcript
  | suspended d host => do
    let (summary, stop, _) ←
      host.runFrames fuel fuel (advanceFrame d) (frameOptions d) .zero
    some (frameTranscript summary stop)

end Progress

/-- Load scripts and call their entry function. -/
def startScripts (fuel : Nat) (files : FileTree) (s : Settings) (args : List String) :
    Option Progress :=
  let host := hostOf s
  match argumentValues host.world.heap args with
  | .error e => some (.fail e.fullMessage)
  | .ok (heap, values) =>
    let paths := s.scripts.paths
    if paths.isEmpty then
      some (.fail "No scripts to run (pass script paths or set scripts.paths)")
    else do
      let host := { host with world := host.world.withHeap heap }.init
      let count := (collectScripts files paths).length
      let (loaded, host) ← host.loadScripts fuel files paths
      if loaded < count then
        some (.fail (toString (count - loaded) ++ " of " ++ toString count ++
          " script(s) failed to load"))
      else
        let entry := s.scripts.entry
        let (outcome, host) ← host.call fuel entry values
        match outcome with
        | .finished v =>
          let text ← v.text? host.world.heap
          some (.done (.success (entry ++ " returned " ++ text ++ "\n")))
        | .errored info => some (.fail (entry ++ " failed: " ++ info.text))
        | .yielded => some (.suspended s.driver host)

structure CheckState where
  output : String := ""
  errors : String := ""
  failed : Nat := 0

namespace CheckState

def pass (c : CheckState) (text : String) : CheckState := { c with output := c.output ++ text }

def fail (c : CheckState) (message : String) : CheckState :=
  { c with errors := c.errors ++ "✗ " ++ message ++ "\n", failed := c.failed + 1 }

def compile (c : CheckState) (name text : String) : CheckState :=
  match compileSource name text with
  | .ok compiled =>
    c.pass ("✓ " ++ name ++ " (" ++ toString compiled.functions.length ++ " function(s))\n")
  | .error e => c.fail e.message

/-- Check one script, after its tree if that is asked for. -/
def checkText (c : CheckState) (showTree : Bool) (name text : String) : CheckState :=
  if showTree then
    match Script.parse text with
    | .ok script => (c.pass (script.toJson.pretty ++ "\n")).compile name text
    | .error e => c.fail (name ++ ": " ++ e.describe)
  else c.compile name text

end CheckState

/-- Check scripts one after the other; one that cannot be read ends it. -/
def checkScripts (files : FileTree) (showTree : Bool) (count : Nat) (c : CheckState) :
    List String → Transcript
  | [] =>
    if c.failed = 0 then ⟨0, c.output, c.errors⟩
    else .failure c.output c.errors
      (toString c.failed ++ " of " ++ toString count ++ " script(s) failed to compile")
  | name :: rest =>
    match files.readText name with
    | .ok text => checkScripts files showTree count (c.checkText showTree name text) rest
    | .error e =>
      .failure c.output c.errors ("Failed to read " ++ name ++ ": " ++ e.message)

/-- Start a command under settings. -/
def Command.start (fuel : Nat) (files : FileTree) (s : Settings) : Command → Option Progress
  | .run options =>
    match (options.apply s).check with
    | .error e => some (.fail e.message)
    | .ok s => startScripts fuel files s options.args
  | .check options =>
    let paths := collectScripts files options.files
    some (.done (checkScripts files options.showTree paths.length {} paths))
  | .showSettings =>
    some (match s.print? with
      | some text => .done (.success text)
      | none => .fail "Failed to render configuration: out-of-range value for u64 type")

/-- Start an invocation. Settings are loaded before any command. -/
def Invocation.start (fuel : Nat) (files : FileTree) (env : Environment) (i : Invocation) :
    Option Progress :=
  match Settings.load files (Settings.fullEnvironment files env) i.settingsPath with
  | .error e => some (.fail e.fullMessage)
  | .ok s => i.command.start fuel files s

/-- Execute an invocation with frames of equal length. `none` is a run that does not end
within the fuel. -/
def Invocation.execute (fuel : Nat) (files : FileTree) (env : Environment) (i : Invocation) :
    Option Transcript :=
  (i.start fuel files env).bind (Progress.finish fuel)

def execute (fuel : Nat) (files : FileTree) (env : Environment) (args : List String) :
    Except Refusal (Option Transcript) :=
  (Invocation.ofArguments args).map (Invocation.execute fuel files env)

end CommandLine
end FrameScript
