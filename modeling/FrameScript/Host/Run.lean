import FrameScript.Host.Resume

/-!
# Scripts and calls

The top level of a script runs at once and cannot be suspended. A call starts a
continuation on a global function and drives it once.
-/

namespace FrameScript
namespace Host

def failLoad (host : Host) (e : LoadError) : Outcome × Host :=
  (.errored ⟨ErrorCode.loadError, e.message⟩, host.report (.load e.message))

def bindFunctions (host : Host) (chunks : List Chunk) : Host :=
  chunks.foldl (fun host chunk =>
    let (heap, v) := host.world.heap.newFunction chunk
    { host with
      globals := host.globals.insert chunk.name v
      world := host.world.withHeap heap }) host

/-- What running a top level has come to. -/
def settleTopLevel (host : Host) : RunEnd → Outcome × Host
  | .returned v => (.finished v, host)
  | .threw info traceback => (.errored info, host.report (.runtime info traceback none))
  | .faulted fault dump =>
    (.errored ⟨ErrorCode.panic, fault.message⟩, host.report (.panic fault dump none))
  | .suspended _ =>
    (.errored ⟨ErrorCode.suspendOutsideContinuation,
      "attempt to suspend outside of a continuation"⟩, host)

/-- Bind the functions of compiled code and run its top level. -/
def runCompiled (fuel : Nat) (host : Host) (compiled : CompiledScript) :
    Option (Outcome × Host) := do
  let host := host.bindFunctions compiled.functions
  let (heap, main) := host.world.heap.newFunction compiled.main
  let host := { host with world := host.world.withHeap heap }
  let m := Machine.new host.maxCallDepth
  let halt ← Machine.runFrom fuel (m.startCall (host.env false) main [])
  let ending ← RunEnd.ofHalt? halt
  some ((host.withEnv halt.env).settleTopLevel ending)

/-- Compile a text, bind its functions and run its top level. -/
def runSource (fuel : Nat) (host : Host) (name text : String) : Option (Outcome × Host) :=
  if host.initialized then
    match compileSource name text with
    | .error e => some (host.failLoad e)
    | .ok compiled => runCompiled fuel host compiled
  else some (host.failLoad .notInitialized)

def runFile (fuel : Nat) (host : Host) (files : FileTree) (path : String) :
    Option (Outcome × Host) :=
  match files.readText path with
  | .ok text => runSource fuel host path text
  | .error e => some (host.failLoad (.unreadable path e))

/-- Run files one after the other and count those that finish. -/
def runFiles (fuel : Nat) (files : FileTree) (host : Host) : List String → Option (Nat × Host)
  | [] => some (0, host)
  | path :: rest => do
    let (outcome, host) ← runFile fuel host files path
    let (count, host) ← runFiles fuel files host rest
    some (count + (if outcome.isFinished then 1 else 0), host)

/-- Run every script that paths stand for and count those that finish. -/
def loadScripts (fuel : Nat) (host : Host) (files : FileTree) (paths : List String) :
    Option (Nat × Host) :=
  runFiles fuel files host (collectScripts files paths)

/-- Start a continuation on a global function and drive it once. -/
def call (fuel : Nat) (host : Host) (entry : String) (args : List Value) :
    Option (Outcome × Host) :=
  if host.initialized then
    let id := host.registry.nextId
    let host := { host with
      registry := host.registry.start entry args host.maxCallDepth
      lastContinuation := some id }
    resumeState fuel host id
  else some (host.failLoad .notInitialized)

end Host
end FrameScript
