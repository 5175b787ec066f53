import FrameScript.Environment
import FrameScript.Files
import FrameScript.Settings.Lenient
import FrameScript.Settings.Merge
import FrameScript.Settings.Variables
import FrameScript.Toml.Reader

/-!
# Loading settings

Settings come from a file, if there is one, with variables on top of it. The file is
the one that is asked for, or else the one that a variable names, or else one of the
usual name; only the last may be missing.
-/

namespace FrameScript

inductive SettingsError where
  /-- There is no file at a path. -/
  | fileMissing (path : String)
  | unreadable (cause : FileError)
  /-- The file is not in its format. -/
  | malformed
  /-- A value does not fit its key. -/
  | unfit (misfit : Misfit)
  | flawed (flaw : SettingsFlaw)
  deriving DecidableEq

namespace SettingsError

def message : SettingsError → String
  | fileMissing _ => "Failed to read configuration sources"
  | unreadable _ => "Failed to read configuration sources"
  | malformed => "Failed to read configuration sources"
  | unfit _ => "Invalid configuration"
  | flawed flaw => flaw.message

/-- What the error comes from, where that is known. -/
def cause? : SettingsError → Option String
  | fileMissing path => some ("configuration file \"" ++ path ++ "\" not found")
  | unreadable cause => some cause.message
  | unfit misfit => some misfit.message
  | _ => none

def fullMessage (e : SettingsError) : String :=
  match e.cause? with
  | some cause => e.message ++ ": " ++ cause
  | none => e.message

end SettingsError

namespace Settings

def pathVariable : String := "CADENCE_CONFIG_PATH"

/-- The settings file that is read if no other is named. -/
def usualPath : String := "cadence.toml"

/-- The ending that a named file may leave out. -/
def fileEnding : String := ".toml"

/-- The file that adds variables to the environment. -/
def environmentPath : String := ".env"

def check (s : Settings) : Except SettingsError Settings :=
  match s.flaw? with
  | some flaw => .error (.flawed flaw)
  | none => .ok s

theorem check_eq_ok_iff (s t : Settings) : s.check = .ok t ↔ s.flaw? = none ∧ s = t := by
  unfold check
  cases s.flaw? <;> simp

/-- The path of the settings file, if there has to be one. -/
def sourcePath? (files : FileTree) (env : Environment) (asked : Option String) : Option String :=
  asked.orElse fun _ =>
    ((env.get? pathVariable).filter fun path => !path.isEmpty).orElse fun _ =>
      if files.isFile usualPath then some usualPath else none

/-- The paths at which a settings file may be: the one that is named, or that with the usual
ending. -/
def candidatePaths (path : String) : List String :=
  path :: (Path.addEnding? path fileEnding).toList

/-- What the values of the file at a path give as their source. -/
def sourceOfPath (path : String) : String :=
  if path.toList.head? == some '/' then path
  else "/".intercalate ((Path.split path).filter fun part => part ≠ "" ∧ part ≠ ".")

/-- The values in the settings file that a path names. -/
def readFile (files : FileTree) (path : String) : Except SettingsError SettingsEntries :=
  match (candidatePaths path).find? files.isFile with
  | none => .error (.fileMissing path)
  | some place =>
    match files.readUnmarkedText place with
    | .error cause => .error (.unreadable cause)
    | .ok text =>
      match Toml.ofText? text with
      | some entries => .ok (SettingsValue.ofEntries (sourceOfPath place) entries)
      | none => .error .malformed

/-- The settings of a file, if there is one, and an environment. -/
def load (files : FileTree) (env : Environment) (asked : Option String) :
    Except SettingsError Settings := do
  let source ← match sourcePath? files env asked with
    | some path => readFile files path
    | none => .ok []
  match ofValue (merge (merge (.table none []) source) (ofEnvironment env)) with
  | .ok s => s.check
  | .error misfit => .error (.unfit misfit)

/-- An environment with what the environment file adds to it. -/
def fullEnvironment (files : FileTree) (env : Environment) : Environment :=
  match files.readBytes environmentPath with
  | .ok bytes => EnvironmentFile.apply env bytes
  | .error _ => env

end Settings
end FrameScript
