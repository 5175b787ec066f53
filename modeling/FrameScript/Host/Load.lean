import FrameScript.Code.Compile
import FrameScript.Files
import FrameScript.Script.Reader

/-!
# Loading scripts

Scripts come from files or from texts. A directory stands for the script files
right below it, sorted by name.
-/

namespace FrameScript

/-- Why a script could not be turned into code. -/
inductive LoadError where
  | unreadable (path : String) (reason : FileError)
  | parse (name : String) (reason : Script.ParseError)
  | compile (name : String) (reason : CompileError)
  | notInitialized

def LoadError.message : LoadError → String
  | unreadable path reason => "cannot read script '" ++ path ++ "': " ++ reason.message
  | parse name reason => name ++ ": syntax error: " ++ reason.describe
  | compile name reason => name ++ ": " ++ reason.message
  | notInitialized => "script host is not initialized (call init() before running scripts)"

def scriptExtension : String := "cds"

def compileSource (name text : String) : Except LoadError CompiledScript :=
  match Script.parse text with
  | .error e => .error (.parse name e)
  | .ok script =>
    match FrameScript.compile name script with
    | .error e => .error (.compile name e)
    | .ok compiled => .ok compiled

/-- The paths of the script files that paths stand for. A path that is no directory
stands for itself. -/
def collectScripts (files : FileTree) (paths : List String) : List String :=
  paths.flatMap fun path =>
    if files.isDirectory path then
      ((files.fileNames path).filter fun name =>
        Path.extension? name = some scriptExtension).map (Path.join path)
    else [path]

end FrameScript
