import FrameScript.Proofs.Machine.Tracebacks
import FrameScript.Proofs.Machine.Transparency

/-!
# Errors that are raised from outside

An error that is raised on a suspended machine goes where it would have gone if the native had
thrown it. If nothing catches it the machine stops just as then. If a `catch` does, everything but
the control is as then: the machine is still suspended, so that it does not run, and it can be
handed a value as the result of a call that has failed.
-/

namespace FrameScript

/-- An error in place of a wish to be parked. -/
def NativeReply.refusing (e : ErrorInfo) (reply : NativeReply) : NativeReply :=
  match reply.result with
  | .suspend _ => { reply with result := .throw e }
  | _ => reply

def Native.refusing (e : ErrorInfo) (native : Native) : Native := fun context world args =>
  (native context world args).refusing e

def Env.refusing (e : ErrorInfo) (env : Env) : Env :=
  { env with natives := env.natives.map (Native.refusing e) }

variable {e : ErrorInfo} {m : Machine} {env : Env}

/-- Where the first outcome is a suspended machine, the second is that of an error at that point. -/
def Stepped.Refuses (e : ErrorInfo) (s s' : Stepped) : Prop :=
  s.machine.isSuspended → s.verdict = .done ∧
    s' = ({ s.machine with control := .running }).throwInfo (s.env.refusing e) e

theorem Stepped.Refuses.of_calm {s : Stepped} (calm : s.machine.isSuspended = false)
    (s' : Stepped) : Refuses e s s' := by
  intro suspended
  rw [calm] at suspended
  cases suspended

namespace Machine

open Stepped (Refuses)

theorem isSuspended_of_running (running : m.control = .running) : m.isSuspended = false := by
  simp [isSuspended, running]

theorem throwValue_calm (running : m.control = .running) (env : Env) (v : Value) :
    (m.throwValue env v).machine.isSuspended = false := by
  unfold throwValue
  split
  · dsimp only
    split
    · exact isSuspended_of_running running
    · exact isSuspended_of_running (by simpa using running)
  · rfl

theorem pushResult_calm (running : m.control = .running) (env : Env) (v : Value) :
    (m.pushResult env v).machine.isSuspended = false := by
  unfold pushResult deliver
  dsimp only
  split
  · rfl
  · exact isSuspended_of_running running

theorem enter_calm (running : m.control = .running) (env : Env) (slot : Nat) (chunk : Chunk) :
    (m.enter env slot chunk).machine.isSuspended = false := by
  unfold enter
  split
  · exact throwValue_calm running _ _
  · split <;> exact isSuspended_of_running running

/-- A native that throws is one whose error is raised where it would be parked. -/
theorem answer_refuses (running : m.control = .running) (reply : NativeReply) :
    Refuses e (m.answer env reply) (m.answer (env.refusing e) (reply.refusing e)) := by
  obtain ⟨result, context, world⟩ := reply
  cases result with
  | value v => exact .of_calm (pushResult_calm running _ _) _
  | throw thrown => exact .of_calm (throwValue_calm running _ _) _
  | endless => exact .of_calm (isSuspended_of_running running) _
  | suspend request =>
    obtain ⟨readings, suspendable⟩ := context
    cases suspendable with
    | false => exact .of_calm (throwValue_calm running _ _) _
    | true =>
      obtain ⟨frames, stack, handlers, control, traceback, limit⟩ := m
      obtain rfl : control = .running := running
      exact fun _ => ⟨rfl, rfl⟩

theorem callNative_refuses (running : m.control = .running) (slot : Nat) (name : String) :
    Refuses e (m.callNative env slot name) (m.callNative (env.refusing e) slot name) := by
  have refused : (env.refusing e).natives.get? name =
      (env.natives.get? name).map (Native.refusing e) := Table.get?_map _ _ _
  cases found : env.natives.get? name with
  | none =>
    rw [callNative, found]
    exact .of_calm (throwValue_calm running _ _) _
  | some native =>
    rw [found] at refused
    rw [callNative_some found, callNative_some refused]
    refine answer_refuses ?_ _
    exact running

theorem callValue_refuses (running : m.control = .running) (argc : Nat) :
    Refuses e (m.callValue env argc) (m.callValue (env.refusing e) argc) := by
  rw [callValue, callValue]
  dsimp only
  split
  · exact .of_calm (isSuspended_of_running running) _
  · split
    · exact .of_calm (isSuspended_of_running running) _
    · exact .of_calm (enter_calm running _ _ _) _
    · exact callNative_refuses running _ _
    · exact .of_calm (throwValue_calm running _ _) _

end Machine

theorem Effect.apply_calm {effect : Effect} (quiet : effect.quiet) (s : Setting) (env : Env)
    (pc : Nat) : (effect.apply s env pc).machine.isSuspended = false := by
  cases effect with
  | goes | installs | removes | lost => rfl
  | raises v vs => exact Machine.throwValue_calm rfl _ _
  | returns v => exact Machine.pushResult_calm rfl _ _
  | calls args callee vs => cases quiet

variable {limit : Nat}

theorem Reachable.step_refuses (h : Reachable limit m env) (runs : m.isRunning) :
    Stepped.Refuses e (m.step env) (m.step (env.refusing e)) := by
  obtain ⟨f, callers, frames⟩ := h.running_frames runs
  obtain ⟨sound, env_sound⟩ := h.sound someLayout_verified
  obtain ⟨s, vs, i, effect, machine, frame, rfl, fetched, does⟩ :=
    sound.effect env_sound runs frames
  rcases (i.effect_kind does).2 with ⟨argc, rfl⟩ | quiet
  · have calls (env : Env) : m.step env =
        (s.machine (f.pc + 1) vs).callValue env argc := by
      rw [machine]
      simp only [Machine.step, Setting.machine, Machine.running, Machine.isRunning,
        Setting.frames, fetched]
      rfl
    rw [calls, calls]
    exact Machine.callValue_refuses rfl argc
  · rw [machine, s.step_effect fetched does]
    exact .of_calm (Effect.apply_calm quiet s env _) _

/-- What a machine does at a time: it begins to call something, or takes a step. -/
inductive Machine.Acts (limit : Nat) : (Env → Stepped) → Env → Prop
  | call {env : Env} {callee : Value} {args : List Value} (sound : env.Sound Chunk.Sourced)
    (known : ∀ v ∈ callee :: args, v.Known env.heap) :
    Acts limit (fun env => (Machine.new limit).startCall env callee args) env
  | step {m : Machine} {env : Env} (before : Reachable limit m env) (runs : m.isRunning) :
    Acts limit m.step env

theorem Machine.Acts.refuses {act : Env → Stepped} (acts : Acts limit act env) :
    Stepped.Refuses e (act env) (act (env.refusing e)) := by
  cases acts with
  | call sound known => exact callValue_refuses rfl _
  | step before runs => exact before.step_refuses runs

/-- A suspended machine has been suspended by what it has done last. -/
theorem Reachable.suspended_by (h : Reachable limit m env) (suspended : m.isSuspended) :
    ∃ act before, Machine.Acts limit act before ∧ (act before).machine = m := by
  induction h with
  | start sound known ends => exact ⟨_, _, .call sound known, rfl⟩
  | @step m env before ends ih =>
    by_cases runs : m.isRunning
    · exact ⟨_, _, .step before runs, rfl⟩
    · -- A machine that has stopped stays as it is.
      have stays : (m.step env).machine = m := by
        simp [Machine.step, runs]
      rw [stays] at suspended ⊢
      exact ih suspended
  | resume before known resumed ih =>
    rw [(Machine.resume?_some resumed).2.1] at suspended
    cases suspended
  | meanwhile before sound grown ih => exact ih suspended

namespace Machine

/-- An error that is caught: the frame of the innermost handler goes on there, with the error in
place of the values above. -/
structure Catches (e : ErrorInfo) (handler : Handler) (outer : List Handler) (m m' : Machine) :
    Prop where
  frames : ∃ frame callers, m.frames.drop (m.frames.length - handler.frameDepth) =
      frame :: callers ∧ m'.frames = { frame with pc := handler.catchPc } :: callers
  stack : m'.stack = (m.stack.take handler.stackLength).push (.error e)
  handlers : m'.handlers = outer
  control : m'.control = .running
  traceback : m'.traceback = m.traceback
  limit : m'.maxCallDepth = m.maxCallDepth

/-- An error that escapes: nothing is left but the error and its traceback. -/
structure Escapes (e : ErrorInfo) (m m' : Machine) : Prop where
  frames : m'.frames = []
  stack : m'.stack = #[]
  handlers : m'.handlers = []
  control : m'.control = .thrown (.error e)
  traceback : m'.traceback = some (.ofFrames m.frames)
  limit : m'.maxCallDepth = m.maxCallDepth

/-- A machine that is in a `catch` but still suspended: it does not run, and a value that it is
resumed with comes on top of the error. -/
structure Lingers (request : WakeRequest) (caught : Machine) (raised : Stepped) : Prop where
  same : raised.machine = { caught with control := .suspended request }
  verdict : raised.verdict = .continue
  halts : ∀ fuel env, raised.machine.run (fuel + 1) env = some ⟨raised.machine, env, none⟩
  takes : ∀ v, raised.machine.resume? v = some (caught.push v)

/-- Without a handler it does not matter that the machine is suspended. -/
theorem throwInfo_escapes (uncaught : m.handlers = []) (e : ErrorInfo) (env now : Env) :
    let thrown := ({ m with control := .running }).throwInfo env e
    m.Escapes e thrown.machine ∧ (m.raise now e).machine = thrown.machine ∧
      (m.raise now e).verdict = thrown.verdict := by
  obtain ⟨frames, stack, handlers, control, traceback, limit⟩ := m
  obtain rfl : handlers = [] := uncaught
  exact ⟨⟨rfl, rfl, rfl, rfl, rfl, rfl⟩, rfl, rfl⟩

/-- A handler leaves the control as it is. -/
theorem throwInfo_catches {handler : Handler} {outer : List Handler}
    (caught : m.handlers = handler :: outer) {request : WakeRequest}
    (suspended : m.control = .suspended request) {frame : Frame} {callers : List Frame}
    (left : m.frames.drop (m.frames.length - handler.frameDepth) = frame :: callers)
    (reached : ¬ (handler.frameDepth = 0 ∨ m.frames.length < handler.frameDepth))
    (e : ErrorInfo) (env now : Env) :
    let thrown := ({ m with control := .running }).throwInfo env e
    m.Catches e handler outer thrown.machine ∧ thrown.verdict = .continue ∧
      Lingers request thrown.machine (m.raise now e) := by
  obtain ⟨frames, stack, handlers, control, traceback, limit⟩ := m
  obtain rfl : handlers = handler :: outer := caught
  obtain rfl : control = .suspended request := suspended
  dsimp only at left reached
  let after (control : Control) : Machine := ⟨{ frame with pc := handler.catchPc } :: callers,
    (stack.take handler.stackLength).push (.error e), outer, control, traceback, limit⟩
  have lands (control : Control) (env : Env) :
      (⟨frames, stack, handler :: outer, control, traceback, limit⟩ : Machine).throwInfo env e =
        ⟨after control, env, .continue⟩ := by
    simp only [throwInfo, throwValue, if_neg reached, left, jump, after]
  rw [lands, raise, lands]
  exact ⟨⟨⟨frame, callers, left, rfl⟩, rfl, rfl, rfl, rfl, rfl⟩, rfl, rfl, rfl,
    fun fuel env => rfl, fun v => rfl⟩

end Machine

theorem Landing.reached {layout : Chunk → List Point} {frames : List Frame} {st : List Value}
    {handler : Handler} {outer : List Handler} (landing : Landing layout frames st handler outer) :
    ¬ (handler.frameDepth = 0 ∨ frames.length < handler.frameDepth) ∧
      ∃ frame callers, frames.drop (frames.length - handler.frameDepth) = frame :: callers := by
  cases landing with
  | @frame skipped callers chunk pc c catches upper vs below callee =>
    refine ⟨?_, ⟨chunk, pc, below.length + 1⟩, callers, ?_⟩
    · simp only [List.length_append, List.length_cons]
      omega
    · simp

/-- The innermost handler of a suspended machine belongs to one of its frames. -/
theorem Reachable.handler_reached (h : Reachable limit m env) (suspended : m.isSuspended)
    {handler : Handler} {outer : List Handler} (caught : m.handlers = handler :: outer) :
    ¬ (handler.frameDepth = 0 ∨ m.frames.length < handler.frameDepth) ∧
      ∃ frame callers, m.frames.drop (m.frames.length - handler.frameDepth) =
        frame :: callers := by
  obtain ⟨⟨-, -, st, -, -, disciplined⟩, -⟩ := h.sound someLayout_verified
  obtain ⟨frames, stack, handlers, control, traceback, bound⟩ := m
  obtain rfl : handlers = handler :: outer := caught
  cases control with
  | suspended request => exact (Waits.landing disciplined).reached
  | running | returned v | thrown v => cases suspended

/-- An error raised on a suspended machine has the effect of a native that throws it, but for this:
a machine that catches it is still suspended. -/
theorem raise_of_suspended (h : Reachable limit m env) {request : WakeRequest}
    (suspended : m.control = .suspended request) (e : ErrorInfo) (now : Env) :
    ∃ act before, Machine.Acts limit act before ∧ (act before).machine = m ∧
      (act before).verdict = .done ∧
      let thrown := act (before.refusing e)
      let raised := m.raise now e
      (m.handlers = [] → m.Escapes e thrown.machine ∧ raised.machine = thrown.machine ∧
        raised.verdict = thrown.verdict) ∧
      ∀ handler outer, m.handlers = handler :: outer →
        m.Catches e handler outer thrown.machine ∧ thrown.verdict = .continue ∧
          Machine.Lingers request thrown.machine raised := by
  have is_suspended : m.isSuspended := by
    simp [Machine.isSuspended, suspended]
  obtain ⟨act, before, acts, rfl⟩ := h.suspended_by is_suspended
  obtain ⟨done, refused⟩ := acts.refuses (e := e) is_suspended
  refine ⟨act, before, acts, rfl, done, ?_⟩
  dsimp only
  rw [refused]
  refine ⟨fun uncaught => Machine.throwInfo_escapes uncaught e _ now, ?_⟩
  intro handler outer caught
  obtain ⟨reached, frame, callers, left⟩ := h.handler_reached is_suspended caught
  exact Machine.throwInfo_catches caught suspended left reached e _ now

/-- A function that waits in a `try`. -/
def guardedText : String := "function f() { try { suspend() } catch (e) { return e } }"

theorem guarded_call : ∃ halt, runCall "stop.cds" guardedText [] 20 = some halt ∧
    Reachable defaultMaxCallDepth halt.machine halt.env ∧
    (∃ request, halt.machine.control = .suspended request) ∧
    halt.machine.handlers = [⟨1, 1, 6⟩] := by
  have waits : (runCall "stop.cds" guardedText [] 20).map (fun halt =>
      (halt.fault, halt.machine.isSuspended, halt.machine.handlers)) =
      some (none, true, [⟨1, 1, 6⟩]) := by
    decide +kernel
  obtain ⟨halt, runs, ends⟩ := Option.map_eq_some_iff.mp waits
  simp only [Prod.mk.injEq] at ends
  obtain ⟨faultless, suspended, handlers⟩ := ends
  have reachable := reachable_of_runCall (by decide +kernel) (by decide +kernel) (by simp) runs
    faultless
  have control : ∃ request, halt.machine.control = .suspended request := by
    unfold Machine.isSuspended at suspended
    split at suspended
    · rename_i request same
      exact ⟨request, same⟩
    · cases suspended
  exact ⟨halt, runs, reachable, control, handlers⟩

/-- A call that is stopped while it waits in a `try` stays suspended in its `catch`. -/
theorem raise_of_suspended_guarded : ∃ halt request,
    runCall "stop.cds" guardedText [] 20 = some halt ∧
      Reachable defaultMaxCallDepth halt.machine halt.env ∧
      halt.machine.control = .suspended request ∧ ∃ act before,
        Machine.Acts defaultMaxCallDepth act before ∧ (act before).machine = halt.machine ∧
        halt.machine.Catches ⟨"Cancelled", "stop"⟩ ⟨1, 1, 6⟩ []
          (act (before.refusing ⟨"Cancelled", "stop"⟩)).machine ∧
        Machine.Lingers request (act (before.refusing ⟨"Cancelled", "stop"⟩)).machine
          (halt.machine.raise halt.env ⟨"Cancelled", "stop"⟩) := by
  obtain ⟨halt, runs, reachable, ⟨request, suspended⟩, handlers⟩ := guarded_call
  obtain ⟨act, before, acts, same, -, -, caught⟩ :=
    raise_of_suspended reachable suspended ⟨"Cancelled", "stop"⟩ halt.env
  obtain ⟨catches, -, lingers⟩ := caught _ _ handlers
  exact ⟨halt, request, runs, reachable, suspended, act, before, acts, same, catches, lingers⟩

/-- A machine whose `catch` has an error from outside does not always run, and can be resumed
a second time. -/
theorem raised_stays_suspended : ¬ ∀ (m : Machine) (env : Env),
    Reachable defaultMaxCallDepth m env → m.isSuspended → m.handlers ≠ [] → ∀ e now,
      (m.raise now e).machine.isRunning ∧ ∀ v, (m.raise now e).machine.resume? v = none := by
  intro goes_on
  obtain ⟨halt, -, reachable, ⟨request, suspended⟩, handlers⟩ := guarded_call
  have is_suspended : halt.machine.isSuspended := by
    simp [Machine.isSuspended, suspended]
  obtain ⟨reached, frame, callers, left⟩ := reachable.handler_reached is_suspended handlers
  obtain ⟨-, -, lingers⟩ := Machine.throwInfo_catches handlers suspended left reached
    ⟨"Cancelled", "stop"⟩ halt.env halt.env
  obtain ⟨-, again⟩ := goes_on _ _ reachable is_suspended (by simp [handlers])
    ⟨"Cancelled", "stop"⟩ halt.env
  have takes := lingers.takes .null
  rw [again] at takes
  cases takes

end FrameScript
