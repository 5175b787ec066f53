import FrameScript.Clock
import FrameScript.Value.Text

/-!
# Native functions

A native is a function of the host that scripts can call. It sees the readings
of the clocks, may change the heap, the log and a clock that is moved by hand,
and answers with a value, a wish to be parked, or an error.
-/

namespace FrameScript

inductive LogLevel where
  | info
  | warn
  | error
  deriving DecidableEq, Repr

def LogLevel.text : LogLevel → String
  | info => "INFO"
  | warn => "WARN"
  | error => "ERROR"

structure LogEvent where
  level : LogLevel
  target : String
  message : String
  deriving DecidableEq

namespace LogTarget

def script : String := "cadence::script"
def host : String := "cadence::host"
def scheduler : String := "cadence::scheduler"

end LogTarget

/-- What natives can change. -/
structure World where
  heap : Heap
  clock : ManualClock
  log : Array LogEvent

namespace World

def new : World := ⟨.empty, .zero, #[]⟩

instance : Inhabited World := ⟨new⟩

def withHeap (w : World) (h : Heap) : World := { w with heap := h }

def record (w : World) (level : LogLevel) (target message : String) : World :=
  { w with log := w.log.push ⟨level, target, message⟩ }

end World

/-- What a native is told about its call. -/
structure NativeContext where
  readings : Readings
  /-- Whether the caller runs in a continuation, which can be parked. -/
  suspendable : Bool

inductive NativeResult where
  | value (v : Value)
  | suspend (request : WakeRequest)
  | throw (info : ErrorInfo)
  /-- The call never returns, because a text that it needs has no end. -/
  | endless
  deriving DecidableEq

/-- The answer of a native, with what it leaves behind. -/
structure NativeReply where
  result : NativeResult
  context : NativeContext
  world : World

abbrev Native := NativeContext → World → List Value → NativeReply

/-- The natives of a host by registered name. A name `table.member` stands for a member
of the global object `table`. -/
abbrev Natives := Table Native

namespace Native

/-- A native that changes nothing. -/
def pure (f : NativeContext → List Value → NativeResult) : Native := fun context world args =>
  ⟨f context args, context, world⟩

/-- A native that may add to the heap. -/
def onHeap (f : NativeContext → Heap → List Value → Heap × NativeResult) : Native :=
  fun context ⟨heap, clock, log⟩ args =>
    let (heap, result) := f context heap args
    ⟨result, context, ⟨heap, clock, log⟩⟩

def fail (code message : String) : NativeResult := .throw ⟨code, message⟩

def numberArg (args : List Value) (index : Nat) (name : String) : Except ErrorInfo Number :=
  let position := "bad argument #" ++ toString (index + 1) ++ " to '" ++ name ++
    "' (number expected, got "
  match args[index]? with
  | some (.num x) => .ok x
  | some v => .error ⟨ErrorCode.wrongArgumentType, position ++ v.typeName ++ ")"⟩
  | none => .error ⟨ErrorCode.wrongArgumentCount, position ++ "no value)"⟩

end Native
end FrameScript
