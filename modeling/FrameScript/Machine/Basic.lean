import FrameScript.Native.Basic

/-!
# The stack machine

All state of a running script is data: frames, the operand stack and the
installed handlers. A suspended machine can be kept and resumed later.
-/

namespace FrameScript

/-- What stopped a machine, if anything did. Only a suspended one can be resumed. -/
inductive Control where
  | running
  | returned (value : Value)
  | thrown (value : Value)
  | suspended (request : WakeRequest)
  deriving DecidableEq

/-- An active call. The callee sits below the base on the stack. -/
structure Frame where
  chunk : Chunk
  /-- Index of the next instruction. -/
  pc : Nat
  /-- Stack index of the first local. -/
  base : Nat
  deriving DecidableEq

/-- An installed `catch`: the frames and the stack to go back to, and where to go on. -/
structure Handler where
  frameDepth : Nat
  stackLength : Nat
  catchPc : Nat
  deriving DecidableEq

structure TraceFrame where
  function : String
  source : String
  line : Nat
  deriving DecidableEq

namespace TraceFrame

/-- A frame points past the instruction that it executes. -/
def ofFrame (f : Frame) : TraceFrame :=
  ⟨f.chunk.name, f.chunk.source, f.chunk.lineAt (f.pc - 1)⟩

def text (t : TraceFrame) : String :=
  let place := "\n\t" ++ t.source ++ ":" ++ toString t.line
  if t.function = mainChunkName then place ++ ": in main chunk"
  else place ++ ": in function '" ++ t.function ++ "'"

end TraceFrame

/-- The frames of a failed call, the innermost first. -/
structure Traceback where
  frames : List TraceFrame
  deriving DecidableEq

namespace Traceback

def ofFrames (frames : List Frame) : Traceback := ⟨frames.map TraceFrame.ofFrame⟩

def text (t : Traceback) : String :=
  "stack traceback:" ++ String.join (t.frames.map TraceFrame.text)

end Traceback

/-- A broken invariant of bytecode or machine. Mistakes of scripts are thrown values
and never faults. -/
inductive Fault where
  | stackUnderflow (function : String) (pc : Nat)
  | badLocal (function : String) (slot : Nat)
  | badJump (function : String) (pc : Nat)
  | badHandler
  | noFrame
  deriving DecidableEq

def Fault.message : Fault → String
  | stackUnderflow function pc =>
    "operand stack underflow in '" ++ function ++ "' at pc " ++ toString pc
  | badLocal function slot => "invalid local slot " ++ toString slot ++ " in '" ++ function ++ "'"
  | badJump function pc =>
    "program counter " ++ toString pc ++ " out of range in '" ++ function ++ "'"
  | badHandler => "exception handler refers to a frame that no longer exists"
  | noFrame => "no active frame and no result"

structure Machine where
  /-- Active calls, the innermost first. -/
  frames : List Frame
  /-- Locals and temporaries of all frames. -/
  stack : Array Value
  /-- Installed handlers, the innermost first. -/
  handlers : List Handler
  control : Control
  /-- The calls that an error escaped from. -/
  traceback : Option Traceback
  maxCallDepth : Nat

/-- Nested script calls that a machine allows by default. -/
def defaultMaxCallDepth : Nat := 200

namespace Machine

def new (maxCallDepth : Nat) : Machine := ⟨[], #[], [], .running, none, maxCallDepth⟩

def isRunning (m : Machine) : Bool :=
  match m.control with
  | .running => true
  | _ => false

def isSuspended (m : Machine) : Bool :=
  match m.control with
  | .suspended _ => true
  | _ => false

def isFinished (m : Machine) : Bool :=
  match m.control with
  | .returned _ => true
  | .thrown _ => true
  | _ => false

def push (m : Machine) (v : Value) : Machine := { m with stack := m.stack.push v }

def setStack (m : Machine) (stack : Array Value) : Machine := { m with stack }

def dropTop (m : Machine) : Machine := { m with stack := m.stack.pop }

def jump (m : Machine) (target : Nat) : Machine :=
  match m.frames with
  | frame :: callers => { m with frames := { frame with pc := target } :: callers }
  | [] => m

end Machine

/-- What a machine can touch beside itself. -/
structure Env where
  globals : Table Value
  natives : Natives
  context : NativeContext
  world : World

namespace Env

def heap (e : Env) : Heap := e.world.heap

def withHeap (e : Env) (h : Heap) : Env := { e with world := e.world.withHeap h }

end Env

/-- How a step ended. -/
inductive Verdict where
  | continue
  | done
  | fault (f : Fault)
  /-- The program dies in the step: a text has no end, or a sum is no machine word. -/
  | lost
  deriving DecidableEq

structure Stepped where
  machine : Machine
  env : Env
  verdict : Verdict

end FrameScript
