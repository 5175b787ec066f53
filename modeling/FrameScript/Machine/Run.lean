import FrameScript.Machine.Step

/-!
# Running a machine

A call is started, run until the machine stops, and perhaps resumed or stopped
by an error from outside. Running takes a bound on the number of steps; `none`
means that the machine has not stopped within it, or never will.
-/

namespace FrameScript

/-- A machine that has stopped, with the fault that stopped it, if one did. -/
structure Halt where
  machine : Machine
  env : Env
  fault : Option Fault

namespace Machine

/-- Begin to call a value. A script function runs from the next step on; a native
runs at once. -/
def startCall (m : Machine) (env : Env) (callee : Value) (args : List Value) : Stepped :=
  ({ m with stack := m.stack.push callee ++ args.toArray }).callValue env args.length

def run : (fuel : Nat) → Machine → Env → Option Halt
  | 0, _, _ => none
  | fuel + 1, m, env =>
    match m.step env with
    | ⟨m, env, .continue⟩ => run fuel m env
    | ⟨m, env, .done⟩ => some ⟨m, env, none⟩
    | ⟨m, env, .fault f⟩ => some ⟨m, env, some f⟩
    | ⟨_, _, .lost⟩ => none

/-- Go on after a first step, if that did not fail. -/
def runFrom (fuel : Nat) (s : Stepped) : Option Halt :=
  match s.verdict with
  | .fault f => some ⟨s.machine, s.env, some f⟩
  | .lost => none
  | _ => s.machine.run fuel s.env

/-- Hand a value to a suspended machine as the result of its call. -/
def resume? (m : Machine) (v : Value) : Option Machine :=
  if m.isSuspended then some (({ m with control := .running }).deliver v) else none

/-- Raise an error from outside at the present point. -/
def raise (m : Machine) (env : Env) (e : ErrorInfo) : Stepped := m.throwInfo env e

end Machine
end FrameScript
