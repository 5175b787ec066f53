import FrameScript.Number.Arithmetic

/-!
# Clocks

A suspended script waits on one of three clocks: the frame counter, simulation
time or real time. Times are in milliseconds. The frame counter belongs to the
scheduler; the other two come from a clock of the host.
-/

namespace FrameScript

/-- The clock that a script waits on. -/
inductive WakeMode where
  | frame
  | simulation
  | real
  deriving DecidableEq, Repr

namespace WakeMode

/-- All modes, in the order in which a tick inspects them. -/
def all : List WakeMode := [frame, simulation, real]

/-- The mode that a script names. -/
def ofScript? (text : String) : Option WakeMode :=
  if text = "f" then some frame
  else if text = "g" then some simulation
  else if text = "r" then some real
  else none

def toScript : WakeMode → String
  | frame => "f"
  | simulation => "g"
  | real => "r"

def text : WakeMode → String
  | frame => "frame"
  | simulation => "simulation"
  | real => "real"

end WakeMode

structure Readings where
  frame : Nat
  simulation : Number
  real : Number
  deriving DecidableEq

namespace Readings

def zero : Readings := ⟨0, Number.zero false, Number.zero false⟩

def reading (r : Readings) : WakeMode → Number
  | .frame => Number.ofNat r.frame
  | .simulation => r.simulation
  | .real => r.real

end Readings

/-- A wish to be parked for some time. -/
structure WakeRequest where
  mode : WakeMode
  duration : Number
  deriving DecidableEq

/-- The reading at which a request made at `readings` is due. -/
def WakeRequest.wakeValue (w : WakeRequest) (readings : Readings) : Number :=
  (readings.reading w.mode).add w.duration

/-- A clock that stands still until it is moved by hand. -/
structure ManualClock where
  simulation : Number
  real : Number
  deriving DecidableEq

namespace ManualClock

def zero : ManualClock := ⟨Number.zero false, Number.zero false⟩

def advanceSimulation (c : ManualClock) (ms : Number) : ManualClock :=
  { c with simulation := c.simulation.add ms }

def advanceReal (c : ManualClock) (ms : Number) : ManualClock :=
  { c with real := c.real.add ms }

def readings (c : ManualClock) (frame : Nat) : Readings := ⟨frame, c.simulation, c.real⟩

end ManualClock

/-- A clock whose simulation time runs along with real time, scaled, and stops while
it is paused. Real time is handed in with every question. -/
structure ScaledClock where
  timeScale : Number
  /-- Simulation time at the start of the present segment. -/
  simulationBase : Number
  /-- Real time at the start of the present segment. -/
  segmentStart : Number
  paused : Bool

namespace ScaledClock

def new (timeScale : Number) : ScaledClock :=
  ⟨timeScale, Number.zero false, Number.zero false, false⟩

def simulationTime (c : ScaledClock) (real : Number) : Number :=
  if c.paused then c.simulationBase
  else c.simulationBase.add ((real.sub c.segmentStart).mul c.timeScale)

def pause (c : ScaledClock) (real : Number) : ScaledClock :=
  if c.paused then c else { c with simulationBase := c.simulationTime real, paused := true }

def unpause (c : ScaledClock) (real : Number) : ScaledClock :=
  if c.paused then { c with segmentStart := real, paused := false } else c

end ScaledClock
end FrameScript
