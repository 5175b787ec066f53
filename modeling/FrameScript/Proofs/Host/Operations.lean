import FrameScript.Host.Tick

/-!
# Histories of a host

A program that embeds a host initializes it, runs scripts, starts calls and
ticks, and in between moves the clocks and makes values. A history is any
sequence of such operations; each one that runs scripts has its own bound on
steps, and an operation that does not return ends no history.
-/

namespace FrameScript

/-- What an embedding program can do to a host. -/
inductive HostOp where
  | init
  | runSource (name text : String)
  | runFile (files : FileTree) (path : String)
  | call (entry : String) (args : List Value)
  | tick
  | setGlobal (name : String) (value : Value)
  /-- The clocks show something else. -/
  | setClock (clock : ManualClock)
  /-- Values of any kind are made or changed, among them functions of any code. -/
  | setHeap (heap : Heap)

namespace Host

/-- The host after an operation, if that returns. -/
def perform? (fuel : Nat) (host : Host) : HostOp → Option Host
  | .init => some host.init
  | .runSource name text => (runSource fuel host name text).map (·.2)
  | .runFile files path => (runFile fuel host files path).map (·.2)
  | .call entry args => (call fuel host entry args).map (·.2)
  | .tick => (tick fuel host).map (·.2)
  | .setGlobal name value => some (host.setGlobal name value)
  | .setClock clock => some (host.withClock clock)
  | .setHeap heap => some { host with world := host.world.withHeap heap }

/-- The hosts that operations lead to, one after the other. -/
inductive Leads (start : Host) : Host → Prop
  | refl : Leads start start
  | step {host next : Host} (fuel : Nat) (op : HostOp) :
      Leads start host → host.perform? fuel op = some next → Leads start next

def performAll? (fuel : Nat) (host : Host) : List HostOp → Option Host
  | [] => some host
  | op :: rest => (host.perform? fuel op).bind fun next => performAll? fuel next rest

theorem Leads.performAll? {fuel : Nat} {ops : List HostOp} {start host next : Host}
    (h : start.Leads host) (run : host.performAll? fuel ops = some next) : start.Leads next := by
  induction ops generalizing host with
  | nil =>
    cases run
    exact h
  | cons op rest ih =>
    obtain ⟨middle, first, others⟩ := Option.bind_eq_some_iff.1 run
    exact ih (h.step fuel op first) others

@[simp] theorem report_registry (host : Host) (r : ErrorReport) :
    (host.report r).registry = host.registry := by
  unfold report
  split <;> rfl

@[simp] theorem report_queues (host : Host) (r : ErrorReport) :
    (host.report r).queues = host.queues := by
  unfold report
  split <;> rfl

@[simp] theorem bindFunctions_registry (host : Host) (chunks : List Chunk) :
    (host.bindFunctions chunks).registry = host.registry := by
  unfold bindFunctions
  induction chunks generalizing host with
  | nil => rfl
  | cons chunk rest ih => exact ih _

@[simp] theorem bindFunctions_queues (host : Host) (chunks : List Chunk) :
    (host.bindFunctions chunks).queues = host.queues := by
  unfold bindFunctions
  induction chunks generalizing host with
  | nil => rfl
  | cons chunk rest ih => exact ih _

/-- The top level of a script starts no continuation and ends none. -/
theorem runSource_frame {fuel : Nat} {host : Host} {name text : String} {result : Outcome × Host}
    (h : runSource fuel host name text = some result) :
    result.2.registry = host.registry ∧ result.2.queues = host.queues := by
  unfold runSource at h
  split at h
  · split at h
    · cases h
      simp [failLoad]
    · unfold runCompiled at h
      simp only [Option.bind_eq_bind, Option.bind_eq_some_iff, Option.some.injEq] at h
      obtain ⟨halt, -, ending, -, rfl⟩ := h
      cases ending <;> simp [settleTopLevel, withEnv]
  · cases h
    simp [failLoad]

theorem runFile_frame {fuel : Nat} {host : Host} {files : FileTree} {path : String}
    {result : Outcome × Host} (h : runFile fuel host files path = some result) :
    result.2.registry = host.registry ∧ result.2.queues = host.queues := by
  unfold runFile at h
  split at h
  · exact runSource_frame h
  · cases h
    simp [failLoad]

end Host
end FrameScript
