import FrameScript.Host.Continuation
import FrameScript.Host.Load
import FrameScript.Host.Plugin
import FrameScript.Host.Report
import FrameScript.Native.Library

/-!
# The script host

The host owns globals and natives, the registry of continuations and the
queues, the frame counter and the world that natives act on. Failures go to its
reporter and never stop it.
-/

namespace FrameScript

/-- What the host does with reports: keep them, or log them as errors. -/
inductive Reporter where
  | collecting
  | logging
  deriving DecidableEq, Repr

structure Host where
  globals : Table Value
  natives : Natives
  registry : Registry
  queues : SuspensionQueues
  /-- How many ticks there were. -/
  frame : Nat
  world : World
  reporter : Reporter
  /-- The reports that were collected. -/
  reports : Array ErrorReport
  plugins : List Plugin
  policy : DrainPolicy
  maxCallDepth : Nat
  initialized : Bool
  /-- The continuation that was started last. -/
  lastContinuation : Option ContinuationId

namespace Host

def new (policy : DrainPolicy) (maxCallDepth : Nat) (reporter : Reporter)
    (plugins : List Plugin) : Host :=
  { globals := .empty
    natives := .empty
    registry := .empty
    queues := .new
    frame := 0
    world := .new
    reporter
    reports := #[]
    plugins
    policy
    maxCallDepth
    initialized := false
    lastContinuation := none }

def log (host : Host) (level : LogLevel) (target message : String) : Host :=
  { host with world := host.world.record level target message }

def readings (host : Host) : Readings := host.world.clock.readings host.frame

def withClock (host : Host) (clock : ManualClock) : Host :=
  { host with world := { host.world with clock } }

def report (host : Host) (r : ErrorReport) : Host :=
  match host.reporter with
  | .collecting => { host with reports := host.reports.push r }
  | .logging => host.log .error LogTarget.host r.text

/-- Attach a plugin. Its natives are registered by the next initialization. -/
def addPlugin (host : Host) (p : Plugin) : Host :=
  let host := if host.initialized then
      host.log .warn LogTarget.host
        "plugin added after init(); its functions are registered on the next init()"
    else host
  { host with plugins := host.plugins ++ [p] }

/-- Register the standard library, `suspend` and the plugins' natives, and bind them. -/
def init (host : Host) : Host :=
  let host := if host.initialized then
      host.log .warn LogTarget.host "init() called again; re-registering natives"
    else host
  let natives := host.plugins.foldl Plugin.register Natives.withSuspend
  let bound := Natives.bind natives ⟨host.world.heap, host.globals⟩
  { host with
    natives
    globals := bound.globals
    world := host.world.withHeap bound.heap
    initialized := true }

/-- Show an event to every plugin; true if one consumed it. -/
def onEvent (host : Host) (event : HostEvent) : Bool :=
  host.plugins.any fun p => p.consumes event

def setGlobal (host : Host) (name : String) (value : Value) : Host :=
  { host with globals := host.globals.insert name value }

def env (host : Host) (suspendable : Bool) : Env :=
  ⟨host.globals, host.natives, ⟨host.readings, suspendable⟩, host.world⟩

/-- The host after a machine has run. -/
def withEnv (host : Host) (env : Env) : Host :=
  { host with globals := env.globals, world := env.world }

end Host

/-- How a machine run stopped. -/
inductive RunEnd where
  | returned (value : Value)
  | threw (info : ErrorInfo) (traceback : Option Traceback)
  | suspended (request : WakeRequest)
  | faulted (fault : Fault) (dump : List SlotDump)

/-- The end of a run; `none` if describing it has no end. -/
def RunEnd.ofHalt? (halt : Halt) : Option RunEnd :=
  let h := halt.env.heap
  let faulted := fun fault =>
    (SlotDump.ofStack? h halt.machine.stack).map (RunEnd.faulted fault)
  match halt.fault with
  | some fault => faulted fault
  | none =>
    match halt.machine.control with
    | .returned v => some (.returned v)
    | .thrown v => (v.thrownInfo? h).map fun info => .threw info halt.machine.traceback
    | .suspended request => some (.suspended request)
    | .running => faulted .noFrame

end FrameScript
