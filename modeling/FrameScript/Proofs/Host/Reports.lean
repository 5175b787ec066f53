import FrameScript.Proofs.Host.Lifecycle
import FrameScript.Proofs.Host.Parked
import FrameScript.Proofs.Host.Resumption
import FrameScript.Proofs.Machine.Endings

/-!
# One report per failure

Operations return an outcome for what could not be loaded and for every run of a machine. Each
outcome that is an error comes with one report, and nothing else is reported.
-/

namespace FrameScript

/-- What has become of a script or of a continuation. -/
inductive Cause where
  | unloadable (e : LoadError)
  | ended (ending : RunEnd)

namespace Cause

def outcome : Cause → Outcome
  | unloadable e => .errored ⟨ErrorCode.loadError, e.message⟩
  | ended (.returned v) => .finished v
  | ended (.suspended _) => .yielded
  | ended (.threw info _) => .errored info
  | ended (.faulted fault _) => .errored ⟨ErrorCode.panic, fault.message⟩

/-- The report on a failure, outside of continuations or in one. -/
def report? (id : Option ContinuationId) : Cause → Option ErrorReport
  | unloadable e => some (.load e.message)
  | ended (.threw info traceback) => some (.runtime info traceback id)
  | ended (.faulted fault dump) => some (.panic fault dump id)
  | ended (.returned _) | ended (.suspended _) => none

/-- What is loaded is no continuation, nothing else is suspended, and an error that escapes has a
traceback. -/
def Fits (id : Option ContinuationId) : Cause → Prop
  | unloadable _ => id = none
  | ended (.suspended _) => id.isSome = true
  | ended (.threw _ traceback) => traceback.isSome = true
  | ended (.returned _) | ended (.faulted _ _) => True

theorem eq_unloadable {id : Option ContinuationId} {cause : Cause} {r : ErrorReport}
    (reports : cause.report? id = some r) (loads : r.kind = .load) :
    ∃ e, cause = .unloadable e ∧ r = .load e.message := by
  cases cause with
  | unloadable e =>
    cases reports
    exact ⟨e, rfl, rfl⟩
  | ended ending =>
    cases ending with
    | returned v | suspended request => cases reports
    | threw info traceback | faulted fault dump =>
      cases reports
      cases loads

end Cause

/-- A report tells of a returned error, with the continuation that returned it. -/
def ErrorReport.Tells (returned : Option ContinuationId × Outcome) (r : ErrorReport) : Prop :=
  ∃ info, returned.2 = .errored info ∧ r.code = info.code ∧ r.message = info.message ∧
    r.continuation = returned.1

def outcomesOf (causes : List (Option ContinuationId × Cause)) :
    List (Option ContinuationId × Outcome) :=
  causes.map fun c => (c.1, c.2.outcome)

def reportsOf (causes : List (Option ContinuationId × Cause)) : List ErrorReport :=
  causes.filterMap fun c => c.2.report? c.1

theorem reportsOf_cons (id : Option ContinuationId) (cause : Cause)
    (rest : List (Option ContinuationId × Cause)) :
    reportsOf ((id, cause) :: rest) = (cause.report? id).toList ++ reportsOf rest := by
  unfold reportsOf
  rw [List.filterMap_cons]
  cases cause.report? id <;> rfl

/-- The errors that are returned and the reports are the same in number and order. -/
theorem reportsOf_tell {causes : List (Option ContinuationId × Cause)}
    (fits : ∀ c ∈ causes, c.2.Fits c.1) :
    List.Forall₂ ErrorReport.Tells ((outcomesOf causes).filter fun returned => returned.2.isErrored)
      (reportsOf causes) := by
  induction causes with
  | nil => exact .nil
  | cons first rest ih =>
    obtain ⟨own, others⟩ := List.forall_mem_cons.mp fits
    have told := ih others
    obtain ⟨id, cause⟩ := first
    cases cause with
    | unloadable e =>
      obtain rfl : id = none := own
      exact .cons ⟨_, rfl, rfl, rfl, rfl⟩ told
    | ended ending =>
      cases ending with
      | returned v | suspended request => exact told
      | threw info traceback | faulted fault dump => exact .cons ⟨_, rfl, rfl, rfl, rfl⟩ told

theorem RunEnd.fits_of_ofHalt? {halt : Halt} {ending : RunEnd}
    (excused : halt.machine.Excused halt.env) (ends : RunEnd.ofHalt? halt = some ending)
    {id : Option ContinuationId}
    (resumable : halt.env.context.suspendable = true → id.isSome = true) :
    (Cause.ended ending).Fits id := by
  cases ending with
  | returned v | faulted fault dump => trivial
  | suspended request =>
    exact resumable (excused.suspended request (Host.control_of_ofHalt? ends))
  | threw info traceback =>
    unfold RunEnd.ofHalt? at ends
    split at ends
    · simp at ends
    · split at ends
      · simp at ends
      · rename_i v thrown
        obtain ⟨e, -, same⟩ := Option.map_eq_some_iff.mp ends
        cases same
        exact excused.thrown v thrown
      · simp at ends
      · simp at ends

/-- What was logged as an error of the host. -/
def World.hostErrors (w : World) : List String :=
  (w.log.toList.filter fun e => e.level = .error ∧ e.target = LogTarget.host).map (·.message)

/-- A native that logs no error of the host. -/
def Native.KeepsErrors (native : Native) : Prop :=
  ∀ context world args, (native context world args).world.hostErrors = world.hostErrors

/-- A native that does not change where its caller may be suspended. -/
def Native.KeepsSuspendable (native : Native) : Prop :=
  ∀ context world args, (native context world args).context.suspendable = context.suspendable

theorem World.hostErrors_record (w : World) (level : LogLevel) (target message : String) :
    (w.record level target message).hostErrors =
      w.hostErrors ++ if level = .error ∧ target = LogTarget.host then [message] else [] := by
  unfold hostErrors record
  split
  · rename_i own
    simp [own]
  · rename_i other
    simp [other]

theorem Natives.withSuspend_keepErrors : ∀ e ∈ Natives.withSuspend.entries, e.2.KeepsErrors := by
  refine Natives.forall_withSuspend (P := Native.KeepsErrors) (fun _ _ _ _ => rfl)
    (fun _ _ _ _ => rfl) ?_
  intro context world args
  unfold Native.print
  split
  · exact (World.hostErrors_record ..).trans (List.append_nil _)
  · rfl

theorem Natives.withSuspend_keepSuspendable :
    ∀ e ∈ Natives.withSuspend.entries, e.2.KeepsSuspendable := by
  refine Natives.forall_withSuspend (P := Native.KeepsSuspendable) (fun _ _ _ _ => rfl)
    (fun _ _ _ _ => rfl) ?_
  intro context world args
  unfold Native.print
  split <;> rfl

namespace Host

variable {fuel : Nat} {host middle next : Host} {id : ContinuationId}

/-- How driving a continuation ends. -/
def ending? (fuel : Nat) (host : Host) (id : ContinuationId) : Option RunEnd := do
  let c ← host.registry.get? id
  let halt ← drive fuel (host.env true) c
  RunEnd.ofHalt? halt

/-- A host that has loaded a script, and the function of its top level. -/
def loaded (host : Host) (compiled : CompiledScript) : Host × Value :=
  let bound := host.bindFunctions compiled.functions
  let (heap, main) := bound.world.heap.newFunction compiled.main
  ({ bound with world := bound.world.withHeap heap }, main)

def topLevel? (fuel : Nat) (host : Host) (compiled : CompiledScript) : Option Halt :=
  let (ready, main) := host.loaded compiled
  Machine.runFrom fuel ((Machine.new ready.maxCallDepth).startCall (ready.env false) main [])

/-- What becomes of a script. -/
def sourceCause? (fuel : Nat) (host : Host) (name text : String) : Option Cause :=
  if host.initialized then
    match compileSource name text with
    | .error e => some (.unloadable e)
    | .ok compiled => ((topLevel? fuel host compiled).bind RunEnd.ofHalt?).map .ended
  else some (.unloadable .notInitialized)

def fileCause? (fuel : Nat) (host : Host) (files : FileTree) (path : String) : Option Cause :=
  match files.readText path with
  | .ok text => sourceCause? fuel host path text
  | .error e => some (.unloadable (.unreadable path e))

def turnCauses (fuel : Nat) (turns : List (Host × ContinuationId)) :
    List (Option ContinuationId × Cause) :=
  turns.filterMap fun turn =>
    (turn.1.ending? fuel turn.2).map fun ending => (some turn.2, .ended ending)

/-- What becomes of all that an operation loads or drives, one after the other. -/
def causes (fuel : Nat) (host : Host) : HostOp → List (Option ContinuationId × Cause)
  | .runSource name text => (sourceCause? fuel host name text).toList.map (none, ·)
  | .runFile files path => (fileCause? fuel host files path).toList.map (none, ·)
  | .call entry args =>
    if host.initialized then
      ((host.started entry args).ending? fuel host.registry.nextId).toList.map fun ending =>
        (some host.registry.nextId, .ended ending)
    else [(none, .unloadable .notInitialized)]
  | .tick => turnCauses fuel (host.tickTurns fuel)
  | _ => []

/-- The outcomes that an operation returns, each with the continuation that it is for, if it is for
one. -/
def returned (fuel : Nat) (host : Host) : HostOp → List (Option ContinuationId × Outcome)
  | .runSource name text =>
    (runSource fuel host name text).toList.map fun result => (none, result.1)
  | .runFile files path => (runFile fuel host files path).toList.map fun result => (none, result.1)
  | .call entry args => (call fuel host entry args).toList.map fun result =>
      (if host.initialized then some host.registry.nextId else none, result.1)
  | .tick => (host.tick fuel).toList.flatMap fun result =>
      result.1.resumed.map fun answer => (some answer.1, answer.2)
  | _ => []

/-- Between two hosts some reports have reached the reporter: they have been collected, or their
texts have been logged, which shows if no native logs errors of the host itself. -/
structure Receives (reports : List ErrorReport) (host next : Host) : Prop where
  reporter : next.reporter = host.reporter
  collected : host.reporter = .collecting → next.reports.toList = host.reports.toList ++ reports
  logged : host.reporter = .logging → (∀ e ∈ host.natives.entries, e.2.KeepsErrors) →
    next.world.hostErrors = host.world.hostErrors ++ reports.map (·.text)

namespace Receives

theorem of_eq (reporter : next.reporter = host.reporter) (reports : next.reports = host.reports)
    (log : (∀ e ∈ host.natives.entries, e.2.KeepsErrors) →
      next.world.hostErrors = host.world.hostErrors) : Receives [] host next where
  reporter := reporter
  collected _ := by rw [reports, List.append_nil]
  logged _ keep := by rw [log keep, List.map_nil, List.append_nil]

theorem trans {first second : List ErrorReport} (h : Receives first host middle)
    (natives : middle.natives = host.natives) (k : Receives second middle next) :
    Receives (first ++ second) host next where
  reporter := k.reporter.trans h.reporter
  collected collecting := by
    rw [k.collected (h.reporter.trans collecting), h.collected collecting, List.append_assoc]
  logged logging keep := by
    rw [k.logged (h.reporter.trans logging) (natives ▸ keep), h.logged logging keep,
      List.map_append, List.append_assoc]

end Receives

theorem report_receives (host : Host) (r : ErrorReport) : Receives [r] host (host.report r) where
  reporter := by unfold report; split <;> rfl
  collected collecting := by
    unfold report
    rw [collecting]
    exact Array.toList_push
  logged logging _ := by
    unfold report
    rw [logging]
    exact World.hostErrors_record ..

/-- A continuation that is driven returns what its ending is, and reports that. -/
theorem settle_receives (host : Host) (c : Continuation) (machine : Machine) (ending : RunEnd) :
    (host.settle c machine ending).1 = (Cause.ended ending).outcome ∧
      Receives ((Cause.ended ending).report? (some c.id)).toList host
        (host.settle c machine ending).2 := by
  have released : Receives [] host (host.release c.id) := .of_eq rfl rfl fun _ => rfl
  cases ending with
  | suspended request => exact ⟨rfl, .of_eq rfl rfl fun _ => rfl⟩
  | returned v => exact ⟨rfl, released⟩
  | threw info traceback | faulted fault dump =>
    exact ⟨rfl, released.trans rfl (report_receives _ _)⟩

theorem settleTopLevel_receives (host : Host) {ending : RunEnd}
    (fits : (Cause.ended ending).Fits none) :
    (host.settleTopLevel ending).1 = (Cause.ended ending).outcome ∧
      Receives ((Cause.ended ending).report? none).toList host (host.settleTopLevel ending).2 := by
  cases ending with
  | suspended request => cases fits
  | returned v => exact ⟨rfl, .of_eq rfl rfl fun _ => rfl⟩
  | threw info traceback | faulted fault dump => exact ⟨rfl, report_receives _ _⟩

theorem failLoad_receives (host : Host) (e : LoadError) :
    (host.failLoad e).1 = (Cause.unloadable e).outcome ∧
      Receives ((Cause.unloadable e).report? none).toList host (host.failLoad e).2 :=
  ⟨rfl, report_receives _ _⟩

section

variable {α : Type} {f : NativeContext → World → α} {env : Env} {c : Continuation} {halt : Halt}

theorem drive_preserves
    (heap : ∀ context (world : World) h, f context (world.withHeap h) = f context world)
    (keep : ∀ e ∈ env.natives.entries, e.2.Preserves f) (drives : drive fuel env c = some halt) :
    f halt.env.context halt.env.world = f env.context env.world := by
  unfold drive at drives
  split at drives
  · split at drives
    · exact Machine.runFrom_preserves heap keep (Machine.callValue_steps _ _ _) drives
    · apply Machine.runFrom_preserves heap keep _ drives
      rw [Machine.raise, Machine.throwInfo_env]
      exact .same
  · exact Machine.run_preserves heap keep drives
  · exact Machine.run_preserves heap keep drives

theorem drive_excused_start {entry : String} {args : List Value} {limit : Nat}
    (drives : drive fuel env (.new id entry args limit) = some halt) :
    halt.machine.Excused halt.env := by
  have running : (Machine.new limit).control = .running := rfl
  simp only [drive, Continuation.new] at drives
  split at drives
  · exact Machine.runFrom_excused (Machine.callValue_excused (by exact running) _ _) drives
  · exact Machine.runFrom_excused (Machine.throwValue_excused running _ _) drives

theorem drive_excused_resume {v : Value} (parked : c.machine.isSuspended = true)
    (pending : c.pending = .resume v) (drives : drive fuel env c = some halt) :
    halt.machine.Excused halt.env := by
  obtain ⟨m, resumes⟩ : ∃ m, c.machine.resume? v = some m := by simp [Machine.resume?, parked]
  simp only [drive, pending, resumes, Option.getD_some] at drives
  exact Machine.run_excused (Machine.resume?_excused resumes env) drives

end

theorem resumeState_receives {c : Continuation} (found : host.registry.get? id = some c)
    (excused : ∀ halt, drive fuel (host.env true) c = some halt → halt.machine.Excused halt.env)
    {result : Outcome × Host} (run : resumeState fuel host id = some result) :
    ∃ ending, host.ending? fuel id = some ending ∧ (Cause.ended ending).Fits (some id) ∧
      result.1 = (Cause.ended ending).outcome ∧
      Receives ((Cause.ended ending).report? (some id)).toList host result.2 := by
  obtain ⟨-, rfl⟩ := Registry.get?_eq_some found
  simp only [resumeState, found, Option.bind_eq_bind, Option.bind_eq_some_iff,
    Option.some.injEq] at run
  obtain ⟨halt, drives, ending, ends, rfl⟩ := run
  have ran : Receives [] host (host.withEnv halt.env) := by
    refine .of_eq rfl rfl fun keep => ?_
    exact drive_preserves (f := fun _ world => world.hostErrors) (fun _ _ _ => rfl) keep drives
  obtain ⟨outcome, reports⟩ := settle_receives (host.withEnv halt.env) c halt.machine ending
  refine ⟨ending, ?_, ?_, outcome, ran.trans rfl reports⟩
  · rw [ending?, found]
    simp only [Option.bind_eq_bind, Option.bind_some, drives, ends]
  · exact RunEnd.fits_of_ofHalt? (excused halt drives) ends fun _ => rfl

theorem resumeState_natives {result : Outcome × Host}
    (run : resumeState fuel host id = some result) : result.2.natives = host.natives := by
  unfold resumeState at run
  split at run
  · cases run
    rfl
  · simp only [Option.bind_eq_bind, Option.bind_eq_some_iff, Option.some.injEq] at run
    obtain ⟨halt, -, ending, -, rfl⟩ := run
    exact (settle_steady _ _ _ _).natives

theorem setPending_receives (host : Host) (id : ContinuationId) (v : Value) :
    Receives [] host (host.setPending id v) := by
  unfold setPending
  split <;> exact .of_eq rfl rfl fun _ => rfl

/-- Resuming parked continuations returns what their endings are, and reports these in order. -/
theorem resumeAll_receives {due : List (Continuation × Number)}
    {result : List (ContinuationId × Outcome) × Host} (parked : host.AllParked due)
    (nodup : (due.map (·.1.id)).Nodup)
    (run : resumeAll fuel host (due.map fun p => (p.1.id, p.2)) = some result) :
    let causes := turnCauses fuel (host.turnsAll fuel (due.map fun p => (p.1.id, p.2)))
    result.1.map (fun answer => (some answer.1, answer.2)) = outcomesOf causes ∧
      Receives (reportsOf causes) host result.2 ∧ ∀ c ∈ causes, c.2.Fits c.1 := by
  induction due generalizing host result with
  | nil =>
    cases run
    exact ⟨rfl, .of_eq rfl rfl fun _ => rfl, by simp [turnsAll, turnCauses]⟩
  | cons first rest ih =>
    obtain ⟨c, now⟩ := first
    obtain ⟨⟨found, suspended⟩, parked_rest⟩ := List.forall_mem_cons.mp parked
    obtain ⟨fresh, nodup'⟩ := List.nodup_cons.mp nodup
    simp only [List.map_cons, resumeAll, Option.bind_eq_bind, Option.bind_eq_some_iff,
      Option.some.injEq] at run
    obtain ⟨⟨outcome, middle⟩, driven, ⟨outcomes, last⟩, others, rfl⟩ := run
    have keeps := (setPending_keeps host c.id (.num now)).trans (resumeState_keeps driven)
    have parked' : middle.AllParked rest := by
      refine AllParked.keep parked_rest keeps fun p mem => ?_
      have other : p.1.id ≠ c.id := fun same => fresh (List.mem_map.mpr ⟨p, mem, same⟩)
      simpa using other
    have pending : (host.setPending c.id (.num now)).registry.get? c.id =
        some { c with pending := .resume (.num now) } := by
      rw [setPending, found]
      exact Registry.get?_update_self (c := { c with pending := .resume (.num now) }) found
    obtain ⟨ending, ends, fits, returns, reports⟩ := resumeState_receives pending
      (fun halt drives => drive_excused_resume (c := { c with pending := .resume (.num now) })
        suspended rfl drives) driven
    obtain ⟨same, reports', fits'⟩ := ih parked' nodup' others
    have prepares := setPending_receives host c.id (.num now)
    have turns : turnCauses fuel (host.turnsAll fuel (((c, now) :: rest).map fun p =>
        (p.1.id, p.2))) = (some c.id, .ended ending) ::
          turnCauses fuel (middle.turnsAll fuel (rest.map fun p => (p.1.id, p.2))) := by
      simp [turnsAll, turnCauses, driven, ends]
    rw [turns]
    refine ⟨?_, ?_, List.forall_mem_cons.mpr ⟨fits, fits'⟩⟩
    · rw [List.map_cons, same, returns]
      rfl
    · rw [reportsOf_cons]
      have natives := (setPending_steady host c.id (.num now)).natives
      exact (prepares.trans natives reports).trans
        ((resumeState_natives driven).trans natives) reports'

/-- An operation returns what its causes are, and reports these in order. -/
structure Accounts (fuel : Nat) (host : Host) (op : HostOp) (next : Host) : Prop where
  returned : host.returned fuel op = outcomesOf (host.causes fuel op)
  reports : Receives (reportsOf (host.causes fuel op)) host next
  fits : ∀ c ∈ host.causes fuel op, c.2.Fits c.1

theorem Accounts.of_cause {op : HostOp} {id : Option ContinuationId} {cause : Cause}
    {outcome : Outcome} (returned : host.returned fuel op = [(id, outcome)])
    (causes : host.causes fuel op = [(id, cause)]) (fits : cause.Fits id)
    (same : outcome = cause.outcome) (reports : Receives (cause.report? id).toList host next) :
    Accounts fuel host op next where
  returned := by rw [returned, causes, same]; rfl
  reports := by
    rw [causes, reportsOf_cons]
    exact (List.append_nil _).symm ▸ reports
  fits := by
    rw [causes]
    exact List.forall_mem_singleton.mpr fits

theorem Orderly.released_parked (orderly : host.Orderly []) :
    ∃ driven : List (Continuation × Number),
      driven.map (fun p => (p.1.id, p.2)) = (host.advanced.takeDue WakeMode.all).1 ∧
      (host.advanced.takeDue WakeMode.all).2.AllParked driven ∧ (driven.map (·.1.id)).Nodup := by
  have advanced : host.advanced.Orderly [] := orderly
  have in_flight : (host.advanced.takeDue WakeMode.all).2.Orderly
      ((host.advanced.takeDue WakeMode.all).1.map (·.1)) := takeDue_orderly advanced
  have registry : (host.advanced.takeDue WakeMode.all).2.registry = host.registry := by
    rw [takeDue_rest]
    rfl
  have all : ∀ p ∈ (host.advanced.takeDue WakeMode.all).1,
      ∃ c, (host.advanced.takeDue WakeMode.all).2.registry.get? p.1 = some c ∧
        c.machine.isSuspended = true := by
    intro p mem
    have flies : p.1 ∈ (host.advanced.takeDue WakeMode.all).1.map (·.1) := List.mem_map_of_mem mem
    have registered := in_flight.perm.subset (List.mem_append_left _ flies)
    rw [registry] at registered ⊢
    exact orderly.exists_suspended registered
  obtain ⟨driven, same, parked⟩ := exists_driven all
  have ids : driven.map (·.1.id) = (host.advanced.takeDue WakeMode.all).1.map (·.1) := by
    rw [← same, List.map_map]
    rfl
  refine ⟨driven, same, parked, ?_⟩
  rw [ids]
  exact (in_flight.perm.nodup_iff.mpr in_flight.nodup).of_append_left

theorem tick_accounts (orderly : host.Orderly []) {result : TickReport × Host}
    (ran : host.tick fuel = some result) : Accounts fuel host .tick result.2 := by
  have resumes := ran
  rw [tick_eq] at resumes
  obtain ⟨answered, driven, rfl⟩ := Option.map_eq_some_iff.mp resumes
  obtain ⟨due, same, parked, nodup⟩ := orderly.released_parked
  rw [← same] at driven
  obtain ⟨returned, reports, fits⟩ := resumeAll_receives parked nodup driven
  have turns : host.causes fuel .tick = turnCauses fuel
      ((host.advanced.takeDue WakeMode.all).2.turnsAll fuel (due.map fun p => (p.1.id, p.2))) := by
    rw [causes, tickTurns, same]
  have taken : Receives [] host (host.advanced.takeDue WakeMode.all).2 := by
    rw [takeDue_rest]
    exact .of_eq rfl rfl fun _ => rfl
  constructor
  · rw [turns, ← returned, Host.returned, ran]
    simp
  · rw [turns]
    exact taken.trans (takeDue_steady host.advanced WakeMode.all).natives reports
  · rw [turns]
    exact fits

theorem loaded_rest (host : Host) (compiled : CompiledScript) : ∃ globals heap,
    (host.loaded compiled).1 = { host with globals, world := host.world.withHeap heap } := by
  obtain ⟨rest, -⟩ := bindFunctions_rebinds host compiled.functions
  unfold loaded
  dsimp only
  rw [rest]
  exact ⟨_, _, rfl⟩

/-- A top level is not suspended, and until it stops nothing is reported. -/
theorem topLevel?_receives (keep : ∀ e ∈ host.natives.entries, e.2.KeepsSuspendable)
    {compiled : CompiledScript} {halt : Halt} {ending : RunEnd}
    (runs : topLevel? fuel host compiled = some halt) (ends : RunEnd.ofHalt? halt = some ending) :
    (Cause.ended ending).Fits none ∧
      Receives [] host ((host.loaded compiled).1.withEnv halt.env) := by
  obtain ⟨globals, heap, rest⟩ := loaded_rest host compiled
  have natives : ((host.loaded compiled).1.env false).natives = host.natives := by rw [rest]; rfl
  have begins := Machine.callValue_steps
    ((Machine.new (host.loaded compiled).1.maxCallDepth).setStack #[(host.loaded compiled).2])
    ((host.loaded compiled).1.env false) 0
  have excused : halt.machine.Excused halt.env :=
    Machine.runFrom_excused (Machine.callValue_excused (by rfl) _ _) runs
  have outside : halt.env.context.suspendable = false :=
    Machine.runFrom_preserves (f := fun context _ => context.suspendable) (fun _ _ _ => rfl)
      (natives ▸ keep) begins runs
  refine ⟨RunEnd.fits_of_ofHalt? excused ends fun inside => ?_, ?_⟩
  · rw [outside] at inside
    cases inside
  · refine .of_eq (by rw [rest]; rfl) (by rw [rest]; rfl) fun quiet => ?_
    have log : halt.env.world.hostErrors = (host.loaded compiled).1.world.hostErrors :=
      Machine.runFrom_preserves (f := fun _ world => world.hostErrors) (fun _ _ _ => rfl)
        (natives ▸ quiet) begins runs
    exact log.trans (by rw [rest]; rfl)

theorem runSource_receives (keep : ∀ e ∈ host.natives.entries, e.2.KeepsSuspendable)
    {name text : String} {result : Outcome × Host}
    (run : runSource fuel host name text = some result) :
    ∃ cause, sourceCause? fuel host name text = some cause ∧ cause.Fits none ∧
      result.1 = cause.outcome ∧ Receives (cause.report? none).toList host result.2 := by
  unfold runSource at run
  unfold sourceCause?
  by_cases ready : host.initialized
  · rw [if_pos ready] at run ⊢
    cases compiles : compileSource name text with
    | error e =>
      rw [compiles] at run
      cases run
      exact ⟨.unloadable e, rfl, rfl, failLoad_receives host e⟩
    | ok compiled =>
      rw [compiles] at run
      simp only [runCompiled, Option.bind_eq_bind, Option.bind_eq_some_iff,
        Option.some.injEq] at run
      obtain ⟨halt, runs, ending, ends, rfl⟩ := run
      have halts : topLevel? fuel host compiled = some halt := runs
      obtain ⟨fits, ran⟩ := topLevel?_receives keep halts ends
      obtain ⟨outcome, reports⟩ :=
        settleTopLevel_receives ((host.loaded compiled).1.withEnv halt.env) fits
      refine ⟨.ended ending, ?_, fits, outcome, ran.trans ?_ reports⟩
      · simp only [halts, Option.bind_some, ends, Option.map_some]
      · obtain ⟨globals, heap, rest⟩ := loaded_rest host compiled
        rw [rest]
        rfl
  · rw [if_neg ready] at run ⊢
    cases run
    exact ⟨.unloadable .notInitialized, rfl, rfl, failLoad_receives host _⟩

theorem runFile_receives (keep : ∀ e ∈ host.natives.entries, e.2.KeepsSuspendable)
    {files : FileTree} {path : String} {result : Outcome × Host}
    (run : runFile fuel host files path = some result) :
    ∃ cause, fileCause? fuel host files path = some cause ∧ cause.Fits none ∧
      result.1 = cause.outcome ∧ Receives (cause.report? none).toList host result.2 := by
  unfold runFile at run
  unfold fileCause?
  cases reads : files.readText path with
  | ok text =>
    rw [reads] at run
    exact runSource_receives keep run
  | error e =>
    rw [reads] at run
    cases run
    exact ⟨.unloadable (.unreadable path e), rfl, rfl, failLoad_receives host _⟩

theorem call_accounts (orderly : host.Orderly []) {entry : String} {args : List Value}
    {result : Outcome × Host} (run : call fuel host entry args = some result) :
    Accounts fuel host (.call entry args) result.2 := by
  have returned : host.returned fuel (.call entry args) =
      [(if host.initialized then some host.registry.nextId else none, result.1)] := by
    rw [Host.returned, run]
    rfl
  unfold call at run
  split at run
  · rename_i ready
    have found : (host.started entry args).registry.get? host.registry.nextId =
        some (.new host.registry.nextId entry args host.maxCallDepth) :=
      Registry.get?_start_self orderly.fresh entry args _
    obtain ⟨ending, ends, fits, outcome, reports⟩ :=
      resumeState_receives found (fun halt drives => drive_excused_start drives) run
    have causes : host.causes fuel (.call entry args) =
        [(some host.registry.nextId, .ended ending)] := by
      rw [Host.causes, if_pos ready, ends]
      rfl
    have started : Receives [] host (host.started entry args) := .of_eq rfl rfl fun _ => rfl
    rw [if_pos ready] at returned
    exact .of_cause returned causes fits outcome (started.trans rfl reports)
  · rename_i other
    cases run
    have causes : host.causes fuel (.call entry args) = [(none, .unloadable .notInitialized)] := by
      rw [Host.causes, if_neg other]
    rw [if_neg other] at returned
    exact .of_cause returned causes rfl rfl (report_receives host _)

theorem init_receives (host : Host) : Receives [] host host.init := by
  unfold Host.init
  split
  · refine .of_eq rfl rfl fun _ => ?_
    exact (World.hostErrors_record ..).trans (List.append_nil _)
  · exact .of_eq rfl rfl fun _ => rfl

theorem perform?_accounts (orderly : host.Orderly [])
    (keep : ∀ e ∈ host.natives.entries, e.2.KeepsSuspendable) {op : HostOp}
    (run : host.perform? fuel op = some next) : Accounts fuel host op next := by
  cases op with
  | init =>
    cases run
    exact ⟨rfl, init_receives host, by simp [causes]⟩
  | runSource name text =>
    obtain ⟨result, ran, rfl⟩ := Option.map_eq_some_iff.1 run
    obtain ⟨cause, becomes, fits, outcome, reports⟩ := runSource_receives keep ran
    exact .of_cause (by rw [returned, ran]; rfl) (by rw [causes, becomes]; rfl) fits outcome reports
  | runFile files path =>
    obtain ⟨result, ran, rfl⟩ := Option.map_eq_some_iff.1 run
    obtain ⟨cause, becomes, fits, outcome, reports⟩ := runFile_receives keep ran
    exact .of_cause (by rw [returned, ran]; rfl) (by rw [causes, becomes]; rfl) fits outcome reports
  | call entry args =>
    obtain ⟨result, ran, rfl⟩ := Option.map_eq_some_iff.1 run
    exact call_accounts orderly ran
  | tick =>
    obtain ⟨result, ran, rfl⟩ := Option.map_eq_some_iff.1 run
    exact tick_accounts orderly ran
  | setGlobal name value | setClock clock | setHeap heap =>
    cases run
    exact ⟨rfl, .of_eq rfl rfl fun _ => rfl, by simp [causes]⟩

theorem runSource_unloadable {name text : String} {e : LoadError} {result : Outcome × Host}
    (becomes : sourceCause? fuel host name text = some (.unloadable e))
    (run : runSource fuel host name text = some result) :
    result.2 = host.report (.load e.message) := by
  unfold sourceCause? at becomes
  unfold runSource at run
  by_cases ready : host.initialized
  · rw [if_pos ready] at becomes run
    cases compiles : compileSource name text with
    | error failure =>
      rw [compiles] at becomes run
      cases becomes
      cases run
      rfl
    | ok compiled =>
      rw [compiles] at becomes
      obtain ⟨ending, -, same⟩ := Option.map_eq_some_iff.mp becomes
      cases same
  · rw [if_neg ready] at becomes run
    cases becomes
    cases run
    rfl

theorem runFile_unloadable {files : FileTree} {path : String} {e : LoadError}
    {result : Outcome × Host} (becomes : fileCause? fuel host files path = some (.unloadable e))
    (run : runFile fuel host files path = some result) :
    result.2 = host.report (.load e.message) := by
  unfold fileCause? at becomes
  unfold runFile at run
  cases reads : files.readText path with
  | ok text =>
    rw [reads] at becomes run
    exact runSource_unloadable becomes run
  | error failure =>
    rw [reads] at becomes run
    cases becomes
    cases run
    rfl

/-- An operation that fails to load something does nothing but report that. -/
theorem perform?_unloadable {op : HostOp} {id : Option ContinuationId} {e : LoadError}
    (run : host.perform? fuel op = some next) (mem : (id, .unloadable e) ∈ host.causes fuel op) :
    next = host.report (.load e.message) := by
  cases op with
  | runSource name text =>
    obtain ⟨result, ran, rfl⟩ := Option.map_eq_some_iff.1 run
    obtain ⟨becomes, -⟩ : sourceCause? fuel host name text = some (.unloadable e) ∧ none = id := by
      simpa [causes] using mem
    exact runSource_unloadable becomes ran
  | runFile files path =>
    obtain ⟨result, ran, rfl⟩ := Option.map_eq_some_iff.1 run
    obtain ⟨becomes, -⟩ : fileCause? fuel host files path = some (.unloadable e) ∧ none = id := by
      simpa [causes] using mem
    exact runFile_unloadable becomes ran
  | call entry args =>
    obtain ⟨result, ran, rfl⟩ := Option.map_eq_some_iff.1 run
    rw [causes] at mem
    split at mem
    · simp at mem
    · rename_i other
      rw [call, if_neg other] at ran
      cases ran
      obtain ⟨-, rfl⟩ : id = none ∧ e = .notInitialized := by simpa using mem
      rfl
  | tick => simp [causes, turnCauses] at mem
  | init | setGlobal name value | setClock clock | setHeap heap => cases mem

/-- The hosts that operations lead to, with what these returned and what it came from. -/
inductive Accounted (start : Host) : List (Option ContinuationId × Outcome) →
    List (Option ContinuationId × Cause) → Host → Prop
  | new : Accounted start [] [] start
  | step {outcomes : List (Option ContinuationId × Outcome)}
      {causes : List (Option ContinuationId × Cause)} {host next : Host} (fuel : Nat) (op : HostOp)
      (before : Accounted start outcomes causes host) (run : host.perform? fuel op = some next) :
      Accounted start (outcomes ++ host.returned fuel op) (causes ++ host.causes fuel op) next

section

variable {start : Host} {outcomes : List (Option ContinuationId × Outcome)}
  {causes : List (Option ContinuationId × Cause)}

theorem Accounted.leads (h : start.Accounted outcomes causes host) : start.Leads host := by
  induction h with
  | new => exact .refl
  | step fuel op _ run ih => exact ih.step fuel op run

theorem Accounted.performAll? {ops : List HostOp} (h : start.Accounted outcomes causes host)
    (run : host.performAll? fuel ops = some next) :
    ∃ outcomes causes, start.Accounted outcomes causes next := by
  induction ops generalizing host outcomes causes with
  | nil =>
    cases run
    exact ⟨outcomes, causes, h⟩
  | cons op rest ih =>
    obtain ⟨middle, first, others⟩ := Option.bind_eq_some_iff.1 run
    exact ih (h.step fuel op first) others

/-- What operations account for one after the other adds up. -/
theorem Accounted.sum (h : start.Accounted outcomes causes host) (orderly : start.Orderly [])
    (base : ∀ e ∈ start.natives.entries, e.2.KeepsSuspendable ∧ e.2.KeepsErrors)
    (keep : ∀ p ∈ start.plugins, ∀ n ∈ p.natives, n.2.KeepsSuspendable) :
    outcomes = outcomesOf causes ∧ (∀ c ∈ causes, c.2.Fits c.1) ∧
    host.reporter = start.reporter ∧
    (start.reporter = .collecting →
      host.reports.toList = start.reports.toList ++ reportsOf causes) ∧
    (start.reporter = .logging → (∀ p ∈ start.plugins, ∀ n ∈ p.natives, n.2.KeepsErrors) →
      host.world.hostErrors = start.world.hostErrors ++ (reportsOf causes).map (·.text)) := by
  induction h with
  | new => exact ⟨rfl, by simp, rfl, by simp [reportsOf], by simp [reportsOf]⟩
  | @step outcomes causes middle next fuel op before run ih =>
    obtain ⟨same, fits, reporter, collected, logged⟩ := ih
    have leads := before.leads
    have keeps := (leads.forall_natives Natives.withSuspend_keepSuspendable
      (fun e mem => (base e mem).1) keep).2
    obtain ⟨returned, reports, fits'⟩ := perform?_accounts (leads.orderly orderly) keeps run
    have all_outcomes : outcomesOf (causes ++ middle.causes fuel op) =
        outcomesOf causes ++ outcomesOf (middle.causes fuel op) := List.map_append
    have all_reports : reportsOf (causes ++ middle.causes fuel op) =
        reportsOf causes ++ reportsOf (middle.causes fuel op) := List.filterMap_append
    refine ⟨?_, ?_, reports.reporter.trans reporter, fun collecting => ?_, fun logging quiet => ?_⟩
    · rw [all_outcomes, same, returned]
    · exact List.forall_mem_append.mpr ⟨fits, fits'⟩
    · rw [reports.collected (reporter.trans collecting), collected collecting, all_reports,
        List.append_assoc]
    · have quiets := (leads.forall_natives Natives.withSuspend_keepErrors
        (fun e mem => (base e mem).2) quiet).2
      rw [reports.logged (reporter.trans logging) quiets, logged logging quiet, all_reports,
        List.map_append, List.append_assoc]

end

def brittlePlugin : Plugin :=
  ⟨"brittle", [("snap", fun context world _ => ⟨.throw ⟨"Snapped", "it snapped"⟩, context, world⟩)],
    fun _ => false⟩

def brittleText : String :=
  "function late() \x7b suspend(0) snap() \x7d
  function careful() \x7b try \x7b snap() \x7d catch (e) \x7b return e.code \x7d \x7d"

def brittleOps : List HostOp :=
  [.call "late" [], .init, .runSource "broken" "let", .runSource "brittle" brittleText,
    .call "late" [], .call "careful" [], .call "missing" [], .tick, .runFile .empty "gone"]

end Host

end FrameScript
