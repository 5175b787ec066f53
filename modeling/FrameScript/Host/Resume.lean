import FrameScript.Host.Basic

/-!
# Driving continuations

Driving is the only way in which a continuation goes on, and the only thing
that changes its registration and its queue. The bound on steps is shared by
all operations; `none` means that the script has not stopped within it.
-/

namespace FrameScript
namespace Host

/-- Hand the pending input of a continuation to its machine and run that. -/
def drive (fuel : Nat) (env : Env) (c : Continuation) : Option Halt :=
  match c.pending with
  | .start args =>
    match env.globals.get? c.entry with
    | some callee => Machine.runFrom fuel (c.machine.startCall env callee args)
    | none => Machine.runFrom fuel (c.machine.raise env ⟨ErrorCode.undefinedVariable,
        "entry function '" ++ c.entry ++ "' is not defined"⟩)
  | .resume v => ((c.machine.resume? v).getD c.machine).run fuel env
  | .nothing => c.machine.run fuel env

/-- File a suspended continuation; its wake value counts from the present readings. -/
def park (host : Host) (c : Continuation) (machine : Machine) (request : WakeRequest) : Host :=
  let wake := request.wakeValue host.readings
  let parked : Continuation :=
    { c with machine, pending := .nothing, state := .suspended request.mode wake }
  { host with
    registry := host.registry.update parked
    queues := host.queues.push request.mode wake c.id }

def release (host : Host) (id : ContinuationId) : Host :=
  { host with registry := host.registry.release id }

/-- What driving a continuation has come to. -/
def settle (host : Host) (c : Continuation) (machine : Machine) : RunEnd → Outcome × Host
  | .suspended request => (.yielded, host.park c machine request)
  | .returned v => (.finished v, host.release c.id)
  | .threw info traceback =>
    (.errored info, (host.release c.id).report (.runtime info traceback (some c.id)))
  | .faulted fault dump =>
    (.errored ⟨ErrorCode.panic, fault.message⟩,
      (host.release c.id).report (.panic fault dump (some c.id)))

/-- Drive a continuation until it finishes, fails or is suspended again. -/
def resumeState (fuel : Nat) (host : Host) (id : ContinuationId) : Option (Outcome × Host) :=
  match host.registry.get? id with
  | none =>
    let host := host.log .warn LogTarget.scheduler "resume of unregistered continuation ignored"
    some (.errored ⟨ErrorCode.panic, id.text ++ " is not registered"⟩, host)
  | some c => do
    let halt ← drive fuel (host.env true) c
    let ending ← RunEnd.ofHalt? halt
    some ((host.withEnv halt.env).settle c halt.machine ending)

/-- Give a continuation the value that its next drive hands over. -/
def setPending (host : Host) (id : ContinuationId) (v : Value) : Host :=
  match host.registry.get? id with
  | some c => { host with registry := host.registry.update { c with pending := .resume v } }
  | none => host

end Host
end FrameScript
