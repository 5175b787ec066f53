import FrameScript.Host.Run

/-!
# Ticks and frames

A tick advances the frame counter and resumes what is due. The queues are
inspected in the order frame, simulation, real, and what the tick releases is
settled before any of it runs, so a continuation that suspends again waits for
a later tick. The frame driver ticks until nothing is left or a limit is
reached.
-/

namespace FrameScript

/-- What a tick resumed, in order. -/
structure TickReport where
  /-- The frame counter after the tick. -/
  frame : Nat
  resumed : List (ContinuationId × Outcome)

namespace TickReport

def isIdle (r : TickReport) : Bool := r.resumed.isEmpty

def outcome? (r : TickReport) (id : ContinuationId) : Option Outcome :=
  (r.resumed.find? fun e => e.1 = id).map (·.2)

end TickReport

namespace Host

/-- Take the due entries of some queues, each with the reading that it was due at. -/
def takeDue (host : Host) : List WakeMode → List (ContinuationId × Number) × Host
  | [] => ([], host)
  | mode :: rest =>
    let now := host.readings.reading mode
    let (ids, queue) := (host.queues.get mode).takeDue now host.policy
    let host := { host with queues := host.queues.set queue mode }
    let (due, host) := host.takeDue rest
    (ids.map (·, now) ++ due, host)

/-- Resume continuations one after the other, each with its reading. -/
def resumeAll (fuel : Nat) (host : Host) :
    List (ContinuationId × Number) → Option (List (ContinuationId × Outcome) × Host)
  | [] => some ([], host)
  | (id, now) :: rest => do
    let (outcome, host) ← resumeState fuel (host.setPending id (.num now)) id
    let (outcomes, host) ← resumeAll fuel host rest
    some ((id, outcome) :: outcomes, host)

/-- Advance the frame counter and resume what is due. -/
def tick (fuel : Nat) (host : Host) : Option (TickReport × Host) := do
  let (due, host) := { host with frame := host.frame + 1 }.takeDue WakeMode.all
  let (resumed, host) ← resumeAll fuel host due
  some (⟨host.frame, resumed⟩, host)

end Host

structure FrameOptions where
  maxFrames : Option Nat
  exitWhenIdle : Bool
  deriving DecidableEq

inductive StopReason where
  | maxFrames
  | idle
  deriving DecidableEq, Repr

def StopReason.text : StopReason → String
  | maxFrames => "frame limit reached"
  | idle => "no continuations left"

structure FrameSummary where
  /-- Ticks of this run. -/
  frames : Nat
  /-- Resumed continuations in all ticks. -/
  resumed : Nat
  finished : Nat
  errored : Nat
  deriving DecidableEq

namespace FrameSummary

def zero : FrameSummary := ⟨0, 0, 0, 0⟩

def add (s : FrameSummary) (r : TickReport) : FrameSummary :=
  { frames := s.frames + 1
    resumed := s.resumed + r.resumed.length
    finished := s.finished + r.resumed.countP fun e => e.2.isFinished
    errored := s.errored + r.resumed.countP fun e => e.2.isErrored }

end FrameSummary

namespace Host

/-- Why the frame driver stops now, if it does. -/
def stopReason? (options : FrameOptions) (host : Host) (frames : Nat) : Option StopReason :=
  if options.exitWhenIdle && host.registry.size == 0 then some .idle
  else
    match options.maxFrames with
    | some limit => if limit ≤ frames then some .maxFrames else none
    | none => none

/-- Tick until a reason to stop holds; the first bound is on ticks. After every tick the
clocks are moved by `advance`. -/
def runFrames (ticks fuel : Nat) (advance : ManualClock → ManualClock) (options : FrameOptions)
    (host : Host) (summary : FrameSummary) : Option (FrameSummary × StopReason × Host) :=
  match stopReason? options host summary.frames with
  | some reason => some (summary, reason, host)
  | none =>
    match ticks with
    | 0 => none
    | ticks + 1 => do
      let (report, host) ← host.tick fuel
      let host := host.withClock (advance host.world.clock)
      runFrames ticks fuel advance options host (summary.add report)

end Host
end FrameScript
