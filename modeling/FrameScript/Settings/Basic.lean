import FrameScript.Host.Queue
import FrameScript.Machine.Basic

/-!
# Settings

What a run can be told from outside: the scripts and their entry function, the
scheduler, the frame driver and the log. Settings are usable only if
no rule of `flaw?` is violated; of several the first is reported.
-/

namespace FrameScript

structure ScriptSettings where
  /-- Script files, or directories of them. -/
  paths : List String := []
  /-- The function that the first continuation starts with. -/
  entry : String := "main"
  deriving DecidableEq

structure SchedulerSettings where
  drainPolicy : DrainPolicy := .allDue
  maxCallDepth : Nat := defaultMaxCallDepth
  deriving DecidableEq

structure DriverSettings where
  /-- Ticks in a second. -/
  frameRate : Nat := 60
  /-- The speed of simulation time relative to real time. -/
  timeScale : Number := .ofNat 1
  /-- How many ticks a run may take. -/
  maxFrames : Option Nat := none
  /-- Whether a run ends when no continuation is left. -/
  exitWhenIdle : Bool := true
  deriving DecidableEq

structure LogSettings where
  /-- Which events are shown. -/
  filter : String := "info"
  deriving DecidableEq

structure Settings where
  scripts : ScriptSettings := {}
  scheduler : SchedulerSettings := {}
  driver : DriverSettings := {}
  logging : LogSettings := {}
  deriving DecidableEq

/-- A rule that settings violate. -/
inductive SettingsFlaw where
  | frameRateZero
  | timeScaleOutOfRange (scale : Number)
  | callDepthZero
  | entryEmpty
  deriving DecidableEq

def SettingsFlaw.message : SettingsFlaw → String
  | frameRateZero => "driver.frame_rate must be greater than 0"
  | timeScaleOutOfRange scale =>
    "driver.time_scale must be a finite, non-negative number (got " ++ scale.toText ++ ")"
  | callDepthZero => "scheduler.max_call_depth must be greater than 0"
  | entryEmpty => "scripts.entry must not be empty"

namespace Settings

/-- The first rule that settings violate, if there is one. -/
def flaw? (s : Settings) : Option SettingsFlaw :=
  if s.driver.frameRate = 0 then some .frameRateZero
  else if !s.driver.timeScale.isFinite || s.driver.timeScale.less (.zero false) then
    some (.timeScaleOutOfRange s.driver.timeScale)
  else if s.scheduler.maxCallDepth = 0 then some .callDepthZero
  else if s.scripts.entry = "" then some .entryEmpty
  else none

end Settings
end FrameScript
