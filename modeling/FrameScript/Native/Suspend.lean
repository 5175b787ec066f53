import FrameScript.Native.Basic

/-!
# Suspension

`suspend()` waits one frame, `suspend(n)` waits `n` frames, and
`suspend(mode, n)` waits `n` units of the clock that `mode` names. A malformed
call throws and parks nothing.
-/

namespace FrameScript
namespace Native

def suspendError (position : Nat) (reason : String) : ErrorInfo :=
  ⟨ErrorCode.argumentError,
    "bad argument #" ++ toString position ++ " to 'suspend' (" ++ reason ++ ")"⟩

/-- A finite duration, given as the argument at some position. -/
def duration (position : Nat) : Value → Except ErrorInfo Number
  | .num x =>
    if x.isFinite then .ok x
    else .error (suspendError position ("finite duration expected, got " ++ x.toText))
  | v => .error (suspendError position ("number expected, got " ++ v.typeName))

def wakeMode : Value → Except ErrorInfo WakeMode
  | .str s =>
    match WakeMode.ofScript? s with
    | some mode => .ok mode
    | none => .error (suspendError 1
        ("invalid mode '" ++ s ++ "', expected \"f\", \"g\" or \"r\""))
  | v => .error (suspendError 1 ("mode string expected, got " ++ v.typeName))

def wakeRequest : List Value → Except ErrorInfo WakeRequest
  | [] => .ok ⟨.frame, Number.ofNat 1⟩
  | [d] => (duration 1 d).map fun x => ⟨.frame, x⟩
  | [mode, d] => do
    let mode ← wakeMode mode
    let x ← duration 2 d
    .ok ⟨mode, x⟩
  | args => .error ⟨ErrorCode.argumentError,
      "'suspend' expects 0, 1 or 2 arguments, got " ++ toString args.length⟩

def suspend : Native := pure fun _ args =>
  match wakeRequest args with
  | .ok request => .suspend request
  | .error e => .throw e

end Native
end FrameScript
