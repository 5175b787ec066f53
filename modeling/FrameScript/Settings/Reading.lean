import FrameScript.Settings.Basic
import FrameScript.Settings.Path

/-!
# Reading settings

Settings are read from values of some kind, section by section and key by key. A
key that is missing keeps its default and a key that is not known is ignored; a
value that does not fit its key makes the whole reading fail.
-/

namespace FrameScript

/-- The members of a section, by the place of a key among its keys and by its name. -/
abbrev Members (α : Type) := (place : Nat) → (key : String) → Option (KeyStep × α)

/-- How values of a kind `α` are read, where `ε` says why one does not fit. -/
structure SettingsReader (ε α : Type) where
  /-- The members of a section of this name with so many keys. -/
  members : (title : String) → (places : Nat) → α → Except ε (Members α)
  /-- A natural number of 32 bits. -/
  halfWord : α → Except ε Nat
  /-- A natural number of 64 bits. -/
  word : α → Except ε Nat
  number : α → Except ε Number
  bool : α → Except ε Bool
  text : α → Except ε String
  texts : α → Except ε (List String)
  policy : α → Except ε DrainPolicy
  /-- Whether a value stands for a missing one where a value may be missing. -/
  isNull : α → Bool
  /-- Why the value with a member does not fit, if the member does not. -/
  under : KeyStep → ε → ε

namespace SettingsReader

variable {ε α : Type}

/-- What a member is read as that may be missing. -/
def memberOr {β : Type} (r : SettingsReader ε α) (read : α → Except ε β) (default : β) :
    Option (KeyStep × α) → Except ε β
  | none => .ok default
  | some (step, v) => (read v).mapError (r.under step)

def limit (r : SettingsReader ε α) (v : α) : Except ε (Option Nat) :=
  if r.isNull v then .ok none else (r.word v).map some

def scripts (r : SettingsReader ε α) (v : α) : Except ε ScriptSettings := do
  let member ← r.members "Scripts" 2 v
  let defaults : ScriptSettings := {}
  return {
    paths := ← r.memberOr r.texts defaults.paths (member 0 "paths")
    entry := ← r.memberOr r.text defaults.entry (member 1 "entry") }

def scheduler (r : SettingsReader ε α) (v : α) : Except ε SchedulerSettings := do
  let member ← r.members "Scheduler" 2 v
  let defaults : SchedulerSettings := {}
  return {
    drainPolicy := ← r.memberOr r.policy defaults.drainPolicy (member 0 "drain_policy")
    maxCallDepth := ← r.memberOr r.word defaults.maxCallDepth (member 1 "max_call_depth") }

def driver (r : SettingsReader ε α) (v : α) : Except ε DriverSettings := do
  let member ← r.members "Driver" 4 v
  let defaults : DriverSettings := {}
  return {
    frameRate := ← r.memberOr r.halfWord defaults.frameRate (member 0 "frame_rate")
    timeScale := ← r.memberOr r.number defaults.timeScale (member 1 "time_scale")
    maxFrames := ← r.memberOr r.limit defaults.maxFrames (member 2 "max_frames")
    exitWhenIdle := ← r.memberOr r.bool defaults.exitWhenIdle (member 3 "exit_when_idle") }

def logging (r : SettingsReader ε α) (v : α) : Except ε LogSettings := do
  let member ← r.members "Logging" 1 v
  let defaults : LogSettings := {}
  return { filter := ← r.memberOr r.text defaults.filter (member 0 "filter") }

def settings (r : SettingsReader ε α) (v : α) : Except ε Settings := do
  let member ← r.members "" 4 v
  return {
    scripts := ← r.memberOr r.scripts {} (member 0 "scripts")
    scheduler := ← r.memberOr r.scheduler {} (member 1 "scheduler")
    driver := ← r.memberOr r.driver {} (member 2 "driver")
    logging := ← r.memberOr r.logging {} (member 3 "logging") }

end SettingsReader
end FrameScript
