import FrameScript.CommandLine.Execute

/-!
# The program

Files and variables are read before an invocation is started, as far as its paths and
settings lead to them. The frames of a run then follow real time.
-/

namespace FrameScript
namespace CommandLine

/-- Enough steps for every run that ends. -/
def endlessFuel : Nat := Nat.pow 10 15

def usageText : String :=
  "usage: cadence [--config PATH] run [SCRIPTS] [OPTIONS]\n" ++
  "       cadence [--config PATH] check FILES [--ast]\n" ++
  "       cadence [--config PATH] config\n"

def readEnvironment : IO Environment := do
  try
    let bytes ← IO.FS.readBinFile "/proc/self/environ"
    let text := (String.fromUTF8? bytes).getD ""
    return ⟨(separated '\x00' text).filterMap fun entry =>
      match separated '=' entry with
      | name :: first :: rest => some (name, "=".intercalate (first :: rest))
      | _ => none⟩
  catch _ => return .empty

/-- Add the file at a path to a tree, or the script files of a directory. -/
def readPath (tree : FileTree) (path : String) : IO FileTree := do
  let place := (← IO.currentDir) / path
  try
    if ← place.isDir then
      let mut tree := tree.add path .directory
      for entry in ← place.readDir do
        let isScript := Path.extension? entry.fileName = some scriptExtension
        if isScript && !(← entry.path.isDir) then
          let bytes ← IO.FS.readBinFile entry.path
          tree := tree.add (Path.join path entry.fileName) (.file bytes)
      return tree
    else if ← place.pathExists then
      return tree.add path (.file (← IO.FS.readBinFile place))
    else return tree
  catch _ => return tree

def settingsPaths (env : Environment) (i : Invocation) : List String :=
  let named := (i.settingsPath.toList ++ (env.get? Settings.pathVariable).toList).filter
    fun path => !path.isEmpty
  Settings.usualPath :: named.flatMap Settings.candidatePaths

def scriptPaths (s : Settings) : Command → List String
  | .run options => (options.apply s).scripts.paths
  | .check options => options.files
  | .showSettings => []

def readFiles (env : Environment) (i : Invocation) : IO FileTree := do
  let tree ← readPath .empty Settings.environmentPath
  let env := Settings.fullEnvironment tree env
  let tree ← (settingsPaths env i).foldlM readPath tree
  match Settings.load tree env i.settingsPath with
  | .error _ => return tree
  | .ok s => (scriptPaths s i.command).foldlM readPath tree

/-- Take frames in real time. `start` and `next` are the instants, in nanoseconds, at which
the run began and at which the next frame is due. -/
partial def takeFrames (d : DriverSettings) (start next : Nat) (host : Host)
    (summary : FrameSummary) : IO Transcript := do
  match host.stopReason? (frameOptions d) summary.frames with
  | some stop => return frameTranscript summary stop
  | none =>
    let early := next - (← IO.monoNanosNow)
    IO.sleep ((early + 999999) / 1000000).toUInt32
    let now ← IO.monoNanosNow
    let real := (Number.ofNat (now - start)).div (Number.ofNat 1000000)
    let clock : ManualClock := ⟨real.mul d.timeScale, real⟩
    match host.withClock clock |>.tick endlessFuel with
    | none => throw (IO.userError "out of steps")
    | some (report, host) =>
      takeFrames d start (now + 1000000000 / d.frameRate) host (summary.add report)

/-- Write what an invocation leaves behind, and give its code. -/
def Transcript.write (t : Transcript) : IO UInt32 := do
  IO.print t.output
  IO.eprint t.errors
  return t.code.toUInt32

def Invocation.perform (i : Invocation) : IO UInt32 := do
  let env ← readEnvironment
  let files ← readFiles env i
  match i.start endlessFuel files env with
  | none => throw (IO.userError "out of steps")
  | some (.done transcript) => transcript.write
  | some (.suspended d host) =>
    let now ← IO.monoNanosNow
    (← takeFrames d now now host .zero).write

/-- Execute the invocation that arguments write, or say how to write one. -/
def perform (args : List String) : IO UInt32 := do
  match Invocation.ofArguments args with
  | .ok invocation => invocation.perform
  | .error .help =>
    IO.print usageText
    return 0
  | .error .usage =>
    IO.eprint usageText
    return 2

end CommandLine
end FrameScript

def main (args : List String) : IO UInt32 := FrameScript.CommandLine.perform args
