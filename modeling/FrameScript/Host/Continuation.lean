import FrameScript.Host.Queue
import FrameScript.Machine.Run

/-!
# Continuations

A continuation is one call from the host with all that is needed to go on with
it. The registry owns the live ones: a continuation is registered from the
start of its call until it finishes or fails.
-/

namespace FrameScript

/-- Where a continuation is in its life. -/
inductive ContinuationState where
  | ready
  | running
  | suspended (mode : WakeMode) (wake : Number)
  | finished
  | errored
  deriving DecidableEq

/-- How driving a continuation, or running a script, ended. -/
inductive Outcome where
  | finished (value : Value)
  | errored (info : ErrorInfo)
  | yielded
  deriving DecidableEq

namespace Outcome

def isFinished : Outcome → Bool
  | finished _ => true
  | _ => false

def isErrored : Outcome → Bool
  | errored _ => true
  | _ => false

end Outcome

/-- What is handed to a continuation when it is driven next. -/
inductive Pending where
  | start (args : List Value)
  | resume (value : Value)
  | nothing
  deriving DecidableEq

structure Continuation where
  id : ContinuationId
  /-- The global function that the call is on. -/
  entry : String
  state : ContinuationState
  machine : Machine
  pending : Pending

def Continuation.new (id : ContinuationId) (entry : String) (args : List Value)
    (maxCallDepth : Nat) : Continuation :=
  ⟨id, entry, .ready, .new maxCallDepth, .start args⟩

/-- The live continuations, the oldest first. -/
structure Registry where
  entries : List Continuation
  /-- The number that was handed out last. -/
  lastNumber : Nat

namespace Registry

def empty : Registry := ⟨[], 0⟩

/-- A handle that was never handed out before. -/
def nextId (r : Registry) : ContinuationId := ⟨r.lastNumber + 1⟩

/-- Register a new call under the next handle. -/
def start (r : Registry) (entry : String) (args : List Value) (maxCallDepth : Nat) : Registry :=
  ⟨r.entries ++ [.new r.nextId entry args maxCallDepth], r.lastNumber + 1⟩

def get? (r : Registry) (id : ContinuationId) : Option Continuation :=
  r.entries.find? fun c => c.id = id

def contains (r : Registry) (id : ContinuationId) : Bool := (r.get? id).isSome

def update (r : Registry) (c : Continuation) : Registry :=
  { r with entries := r.entries.map fun d => if d.id = c.id then c else d }

def release (r : Registry) (id : ContinuationId) : Registry :=
  { r with entries := r.entries.filter fun c => c.id ≠ id }

def size (r : Registry) : Nat := r.entries.length

def ids (r : Registry) : List ContinuationId := r.entries.map (·.id)

end Registry
end FrameScript
