import FrameScript.Proofs.Machine.Calls

/-!
# Suspension is transparent

A machine that is resumed with a value whenever it is suspended goes through the
same states as one whose natives give these values at once, and ends as that does.
This holds for all code, and wherever the natives are called.
-/

namespace FrameScript

/-- A value in place of a wish to be parked that would be granted. -/
def NativeReply.granting (v : Value) (reply : NativeReply) : NativeReply :=
  match reply.result with
  | .suspend _ => if reply.context.suspendable then { reply with result := .value v } else reply
  | _ => reply

def Native.replying (v : Value) (native : Native) : Native := fun context world args =>
  (native context world args).granting v

def Env.replying (v : Value) (env : Env) : Env :=
  { env with natives := env.natives.map (Native.replying v) }

/-- What is run next: the machine goes on if it runs. -/
def Machine.ready (m : Machine) (env : Env) : Stepped :=
  ⟨m, env, if m.isRunning then .continue else .done⟩

namespace Stepped

variable {v : Value} {env : Env} {m : Machine}

def withNatives (s : Stepped) (natives : Natives) : Stepped :=
  { s with env := { s.env with natives } }

def replying (v : Value) (s : Stepped) : Stepped := { s with env := s.env.replying v }

/-- A machine that has been suspended is resumed. -/
def resumed (v : Value) (s : Stepped) : Stepped :=
  match s.machine.resume? v with
  | some m => m.ready s.env
  | none => s

/-- The machine runs unless it is done. -/
def Fits (s : Stepped) : Prop := s.machine.control = .running ↔ s.verdict ≠ .done

/-- With natives that are not parked, the same is done and a suspended machine resumed. -/
structure Echoes (v : Value) (env : Env) (s s' : Stepped) : Prop where
  same : s' = (s.resumed v).replying v
  fits : s.Fits
  natives : s.env.natives = env.natives

theorem resumed_running (running : m.control = .running) (env : Env) (verdict : Verdict) :
    (⟨m, env, verdict⟩ : Stepped).resumed v = ⟨m, env, verdict⟩ := by
  simp [resumed, Machine.resume?, Machine.isSuspended, running]

namespace Echoes

variable {env' : Env}

theorem running (running : m.control = .running) (natives : env'.natives = env.natives)
    {verdict : Verdict} (goes : verdict ≠ .done) :
    Echoes v env ⟨m, env', verdict⟩ ⟨m, env'.replying v, verdict⟩ where
  same := by rw [resumed_running running]; rfl
  fits := iff_of_true running goes
  natives := natives

theorem continues (h : m.control = .running) (natives : env'.natives = env.natives) :
    Echoes v env ⟨m, env', .continue⟩ ⟨m, env'.replying v, .continue⟩ := running h natives nofun

theorem faults (h : m.control = .running) (f : Fault) :
    Echoes v env ⟨m, env, .fault f⟩ ⟨m, env.replying v, .fault f⟩ := running h rfl nofun

theorem misses (h : m.control = .running) (sum : Nat) (f : Fault) :
    Echoes v env ⟨m, env, .missing sum f⟩ ⟨m, env.replying v, .missing sum f⟩ :=
  running h rfl (Verdict.missing_ne_done sum f)

theorem loses (h : m.control = .running) (natives : env'.natives = env.natives) :
    Echoes v env ⟨m, env', .lost⟩ ⟨m, env'.replying v, .lost⟩ := running h natives nofun

end Echoes

end Stepped

namespace Machine

variable {v : Value} {env : Env} {m : Machine}

open Stepped (Echoes)

@[simp] theorem jump_control (m : Machine) (target : Nat) :
    (m.jump target).control = m.control := by
  unfold jump
  split <;> rfl

@[simp] theorem dropTop_control (m : Machine) : m.dropTop.control = m.control := rfl

theorem throwValue_echoes (running : m.control = .running) {env' : Env}
    (natives : env'.natives = env.natives) (thrown : Value) :
    Echoes v env (m.throwValue env' thrown) (m.throwValue (env'.replying v) thrown) := by
  unfold throwValue
  split
  · dsimp only
    split
    · exact .running (by exact running) natives (by nofun)
    · exact .continues (by simpa using running) natives
  · exact ⟨rfl, by simp [Stepped.Fits], natives⟩

theorem pushResult_echoes (running : m.control = .running) {env' : Env}
    (natives : env'.natives = env.natives) (result : Value) :
    Echoes v env (m.pushResult env' result) (m.pushResult (env'.replying v) result) := by
  obtain ⟨frames, stack, handlers, control, traceback, limit⟩ := m
  obtain rfl : control = .running := running
  cases frames with
  | nil => exact ⟨rfl, by simp [pushResult, deliver, Stepped.Fits], natives⟩
  | cons frame callers => exact .continues rfl natives

theorem pushOrThrow_echoes (running : m.control = .running) (result : Except ErrorInfo Value) :
    Echoes v env (m.pushOrThrow env result) (m.pushOrThrow (env.replying v) result) := by
  cases result with
  | ok value => exact .continues running rfl
  | error e => exact throwValue_echoes running rfl _

theorem heapOrThrow_echoes (running : m.control = .running) (result : Except ErrorInfo Heap) :
    Echoes v env (m.heapOrThrow env result) (m.heapOrThrow (env.replying v) result) := by
  cases result with
  | ok h => exact .continues running (rfl : (env.withHeap h).natives = env.natives)
  | error e => exact throwValue_echoes running rfl _

theorem leave_echoes (running : m.control = .running) (base : Nat) (underflow : Fault)
    (result : Value) :
    Echoes v env (m.leave env base underflow result)
      (m.leave (env.replying v) base underflow result) := by
  unfold leave
  dsimp only
  split
  · exact .faults (by exact running) _
  · refine pushResult_echoes ?_ rfl _
    exact running

theorem iterate_echoes (running : m.control = .running) (base list index exit : Nat)
    (badLocal : Nat → Fault) :
    Echoes v env (m.iterate env base list index exit badLocal)
      (m.iterate (env.replying v) base list index exit badLocal) := by
  have same_heap : (env.replying v).heap = env.heap := rfl
  unfold iterate
  dsimp only
  rw [same_heap]
  split
  · exact .misses running _ _
  · exact .misses running _ _
  · split
    · exact .continues running rfl
    · exact .continues (by simpa using running) rfl
  · exact throwValue_echoes running rfl _
  · exact .faults running _

theorem enter_echoes (running : m.control = .running) (slot : Nat) (chunk : Chunk) :
    Echoes v env (m.enter env slot chunk) (m.enter (env.replying v) slot chunk) := by
  unfold enter
  split
  · exact throwValue_echoes running rfl _
  · split
    · exact .loses running rfl
    · exact .continues running rfl

/-- A native that is not parked gives the value that the suspended machine is resumed with. -/
theorem answer_echoes (running : m.control = .running) (reply : NativeReply) :
    Echoes v env (m.answer env reply) (m.answer (env.replying v) (reply.granting v)) := by
  have natives (reply : NativeReply) : (env.after reply).natives = env.natives := rfl
  obtain ⟨result, context, world⟩ := reply
  cases result with
  | value result => exact pushResult_echoes running (natives ⟨_, context, world⟩) _
  | throw e => exact throwValue_echoes running (natives ⟨_, context, world⟩) _
  | endless => exact .loses running (natives ⟨_, context, world⟩)
  | suspend request =>
    obtain ⟨readings, suspendable⟩ := context
    cases suspendable with
    | false => exact throwValue_echoes running (natives ⟨_, _, world⟩) _
    | true =>
      obtain ⟨frames, stack, handlers, control, traceback, limit⟩ := m
      obtain rfl : control = .running := running
      refine ⟨?_, by simp [answer, Stepped.Fits], rfl⟩
      cases frames <;> rfl

theorem callNative_echoes (running : m.control = .running) (slot : Nat) (name : String) :
    Echoes v env (m.callNative env slot name) (m.callNative (env.replying v) slot name) := by
  have replied : (env.replying v).natives.get? name =
      (env.natives.get? name).map (Native.replying v) := Table.get?_map _ _ _
  cases found : env.natives.get? name with
  | none =>
    rw [found] at replied
    rw [callNative, callNative, found, replied]
    exact throwValue_echoes running rfl _
  | some native =>
    rw [found] at replied
    rw [callNative_some found, callNative_some replied]
    refine answer_echoes ?_ _
    exact running

theorem callValue_echoes (running : m.control = .running) (argc : Nat) :
    Echoes v env (m.callValue env argc) (m.callValue (env.replying v) argc) := by
  rw [callValue, callValue]
  dsimp only
  split
  · exact .misses running _ _
  · split
    · exact .loses running rfl
    · exact enter_echoes running _ _
    · exact callNative_echoes running _ _
    · exact throwValue_echoes running rfl _

theorem operand_echoes (running : m.control = .running) {underflow : Fault}
    {next next' : Value → Stepped} (goes : ∀ taken, Echoes v env (next taken) (next' taken)) :
    Echoes v env
      (match m.stack.back? with
      | none => ⟨m, env, .fault underflow⟩
      | some taken => next taken)
      (match m.stack.back? with
      | none => ⟨m, env.replying v, .fault underflow⟩
      | some taken => next' taken) := by
  cases m.stack.back? with
  | none => exact .faults running _
  | some taken => exact goes taken

theorem execute_echoes (running : m.control = .running) (function : String) (pc base : Nat)
    (i : Instr) :
    Echoes v env (m.execute env function pc base i)
      (m.execute (env.replying v) function pc base i) := by
  -- Only calls see the natives.
  have same_heap : (env.replying v).heap = env.heap := rfl
  have same_globals : (env.replying v).globals = env.globals := rfl
  have dropped : m.dropTop.control = .running := running
  have dropped_twice : m.dropTop.dropTop.control = .running := running
  cases i with
  | push value | pushHandler target | popHandler => exact .continues (by exact running) rfl
  | jump target => exact .continues (by simpa using running) rfl
  | call argc => exact callValue_echoes running argc
  | iterNext list index exit => exact iterate_echoes running _ _ _ _ _
  | pop | popN n | makeList n | makeObject keys =>
    unfold execute
    dsimp only
    split
    · exact .faults running _
    · exact .continues (by exact running) rfl
  | getLocal slot =>
    unfold execute
    dsimp only
    split
    · exact .continues (by exact running) rfl
    · exact .misses running _ _
  | getGlobal name =>
    unfold execute
    dsimp only
    rw [same_globals]
    split
    · exact .continues (by exact running) rfl
    · exact throwValue_echoes running rfl _
  | setLocal slot =>
    refine operand_echoes running fun value => ?_
    dsimp only
    split
    · exact .continues (by exact running) rfl
    · exact .misses dropped _ _
  | setGlobal name => exact operand_echoes running fun value => .continues dropped rfl
  | jumpIfFalse target | jumpIfFalseKeep target | jumpIfTrueKeep target =>
    refine operand_echoes running fun value => .continues ?_ rfl
    split <;> simpa using running
  | getMember name | unary op =>
    exact operand_echoes running fun value => pushOrThrow_echoes dropped _
  | ret => exact operand_echoes running fun value => leave_echoes dropped _ _ _
  | throw => exact operand_echoes running fun value => throwValue_echoes dropped rfl _
  | setMember name =>
    exact operand_echoes running fun value => operand_echoes dropped fun object =>
      heapOrThrow_echoes dropped_twice _
  | getIndex =>
    exact operand_echoes running fun index => operand_echoes dropped fun object =>
      pushOrThrow_echoes dropped_twice _
  | setIndex =>
    exact operand_echoes running fun value => operand_echoes dropped fun index =>
      operand_echoes dropped_twice fun object => heapOrThrow_echoes (by exact running) _
  | binary op =>
    refine operand_echoes running fun right => operand_echoes dropped fun left => ?_
    rw [same_heap]
    split
    · exact pushOrThrow_echoes dropped_twice _
    · exact .loses dropped_twice rfl

theorem step_echoes (running : m.control = .running) :
    Echoes v env (m.step env) (m.step (env.replying v)) := by
  have runs : ¬ (!m.isRunning) = true := by simp [isRunning, running]
  rw [step, step, if_neg runs, if_neg runs]
  split
  · exact .faults running _
  · split
    · exact .faults running _
    · exact execute_echoes (by exact running) _ _ _ _

theorem startCall_echoes (running : m.control = .running) (callee : Value) (args : List Value) :
    Echoes v env (m.startCall env callee args) (m.startCall (env.replying v) callee args) := by
  refine callValue_echoes ?_ _
  exact running

end Machine

/-- The states that a run goes through before it stops, and where it stops. -/
structure Course where
  states : List (Machine × Env)
  halt : Option Halt

namespace Course

def empty : Course := ⟨[], none⟩

/-- States that a run has gone through before. -/
def after (states : List (Machine × Env)) (c : Course) : Course :=
  { c with states := states ++ c.states }

end Course

namespace Stepped

/-- The first states from which a run goes on. -/
def states : (fuel : Nat) → Stepped → List (Machine × Env)
  | 0, _ => []
  | fuel + 1, s =>
    match s.verdict with
    | .continue => (s.machine, s.env) :: states fuel (s.machine.step s.env)
    | _ => []

def halt? (s : Stepped) : Option Halt :=
  match s.verdict with
  | .done => some ⟨s.machine, s.env, none⟩
  | .fault f => some ⟨s.machine, s.env, some f⟩
  | .continue | .lost => none

/-- What so many steps lead to, unless the run stops before. -/
def advance : (fuel : Nat) → Stepped → Stepped
  | 0, s => s
  | fuel + 1, s =>
    match s.verdict with
    | .continue => advance fuel (s.machine.step s.env)
    | _ => s

end Stepped

/-- Run a machine until it stops, and resume it whenever it is suspended: the first time with
the first of the answers, and so on. The bounds are on the steps between suspensions and on
the suspensions. -/
def drive (answers : Nat → Value) (fuel : Nat) : (rounds asked : Nat) → Stepped → Course
  | 0, _, _ => .empty
  | rounds + 1, asked, s =>
    match Machine.runFrom fuel s with
    | none => ⟨s.states fuel, none⟩
    | some halt =>
      match halt.fault, halt.machine.resume? (answers asked) with
      | none, some m => (drive answers fuel rounds (asked + 1) (m.ready halt.env)).after
          (s.states fuel)
      | _, _ => ⟨s.states fuel, some halt⟩

/-- Do something with natives that are not parked but give the next answer, and count
whether that has been asked for. -/
def answering (answers : Nat → Value) (asked : Nat) (act : Env → Stepped) (env : Env) :
    Nat × Stepped :=
  (asked + (act env).machine.isSuspended.toNat,
    (act (env.replying (answers asked))).withNatives env.natives)

/-- Run a machine with natives that give the answers instead of being parked. -/
def runAnswering (answers : Nat → Value) : (fuel asked : Nat) → Stepped → Course
  | 0, _, _ => .empty
  | fuel + 1, asked, s =>
    match s.verdict with
    | .continue =>
      let (asked, next) := answering answers asked s.machine.step s.env
      (runAnswering answers fuel asked next).after [(s.machine, s.env)]
    | _ => ⟨[], s.halt?⟩

/-- The run with answers, from where a machine that has been suspended is resumed. -/
def runResumed (answers : Nat → Value) (fuel asked : Nat) (s : Stepped) : Course :=
  runAnswering answers fuel (asked + s.machine.isSuspended.toNat) (s.resumed (answers asked))

section

variable {answers : Nat → Value} {asked fuel : Nat} {s : Stepped} {m m' : Machine} {env : Env}

theorem Course.after_after (first second : List (Machine × Env)) (c : Course) :
    (c.after second).after first = c.after (first ++ second) := by
  simp [Course.after]

theorem Stepped.Echoes.answering {act : Env → Stepped} {env : Env}
    (echoes : Echoes (answers asked) env (act env) (act (env.replying (answers asked)))) :
    answering answers asked act env =
      (asked + (act env).machine.isSuspended.toNat, (act env).resumed (answers asked)) := by
  have kept : ((act env).resumed (answers asked)).env.natives = env.natives := by
    rw [← echoes.natives, resumed]
    split <;> rfl
  rw [FrameScript.answering, echoes.same]
  generalize (act env).resumed (answers asked) = t at kept
  obtain ⟨m, ⟨globals, natives, context, world⟩, verdict⟩ := t
  obtain rfl : natives = env.natives := kept
  rfl

theorem Stepped.Fits.not_suspended (fits : s.Fits) (goes : s.verdict ≠ .done) (v : Value) :
    s.machine.isSuspended = false ∧ s.resumed v = s := by
  have running := fits.mpr goes
  exact ⟨by simp [Machine.isSuspended, running], resumed_running running s.env s.verdict⟩

theorem Machine.ready_fits (m : Machine) (env : Env) : (m.ready env).Fits := by
  obtain ⟨frames, stack, handlers, control, traceback, limit⟩ := m
  cases control <;> simp [Stepped.Fits, ready, isRunning]

/-- A machine that has been resumed is not suspended, and nothing happens if it is resumed
again. -/
theorem Machine.resume?_some {v : Value} (resumes : m.resume? v = some m') :
    m.isSuspended = true ∧ m'.isSuspended = false ∧ ∀ w, m'.resume? w = none := by
  unfold resume? at resumes
  split at resumes
  · rename_i suspended
    have calm : m'.isSuspended = false := by
      obtain ⟨frames, stack, handlers, control, traceback, limit⟩ := m
      cases frames <;> cases resumes <;> rfl
    exact ⟨suspended, calm, fun w => by simp [resume?, calm]⟩
  · cases resumes

theorem runResumed_zero : runResumed answers 0 asked s = .empty := rfl

theorem runResumed_continue (fits : s.Fits) (goes : s.verdict = .continue) :
    runResumed answers (fuel + 1) asked s =
      (runResumed answers fuel asked (s.machine.step s.env)).after [(s.machine, s.env)] := by
  obtain ⟨suspended, same⟩ := fits.not_suspended (by simp [goes]) (answers asked)
  have running := fits.mpr (by simp [goes])
  rw [runResumed, same, suspended, runAnswering, goes]
  dsimp only [Bool.toNat_false, Nat.add_zero]
  rw [(Machine.step_echoes running).answering]
  rfl

theorem runResumed_suspended (resumes : s.machine.resume? (answers asked) = some m) :
    runResumed answers fuel asked s = runResumed answers fuel (asked + 1) (m.ready s.env) := by
  obtain ⟨suspended, calm, again⟩ := Machine.resume?_some resumes
  simp only [runResumed, Stepped.resumed, resumes, suspended, Machine.ready, calm, again]
  rfl

theorem runResumed_stopped (stops : s.verdict ≠ .continue)
    (stays : s.machine.resume? (answers asked) = none) :
    runResumed answers (fuel + 1) asked s = ⟨[], s.halt?⟩ := by
  rw [runResumed, Stepped.resumed, stays, runAnswering]
  split
  · rename_i goes
    exact absurd goes stops
  · rfl

/-- The run with answers goes through the states up to where the other one stops. -/
theorem runResumed_advance (answers : Nat → Value) (asked : Nat) (fits : s.Fits) (steps : Nat) :
    (s.advance steps).Fits ∧ ∀ fuel, runResumed answers ((s.states steps).length + fuel) asked s =
      (runResumed answers fuel asked (s.advance steps)).after (s.states steps) := by
  induction steps generalizing s with
  | zero => exact ⟨fits, fun fuel => by simp [Stepped.states, Stepped.advance, Course.after]⟩
  | succ steps ih =>
    rw [Stepped.states, Stepped.advance]
    cases goes : s.verdict with
    | «continue» =>
      have running := fits.mpr (by simp [goes])
      obtain ⟨fits', same⟩ := ih (Machine.step_echoes (v := .null) running).fits
      refine ⟨fits', fun fuel => ?_⟩
      rw [List.length_cons, Nat.add_right_comm, runResumed_continue fits goes, same fuel,
        Course.after_after]
      rfl
    | done | fault f | lost => exact ⟨fits, fun fuel => by simp [Course.after]⟩

theorem Stepped.advance_stopped (stops : s.verdict ≠ .continue) (steps : Nat) :
    s.advance steps = s := by
  cases steps with
  | zero => rfl
  | succ steps =>
    rw [advance]
    split
    · rename_i goes
      exact absurd goes stops
    · rfl

theorem Machine.run_advance (steps : Nat) (goes : s.verdict = .continue) :
    s.machine.run steps s.env = (s.advance steps).halt? := by
  induction steps generalizing s with
  | zero => simp [run, Stepped.advance, Stepped.halt?, goes]
  | succ steps ih =>
    rw [run, Stepped.advance, goes]
    generalize s.machine.step s.env = next
    obtain ⟨m, env, verdict⟩ := next
    cases verdict with
    | «continue» => exact ih (s := ⟨m, env, .continue⟩) rfl
    | done | fault f | lost => simp [Stepped.advance_stopped, Stepped.halt?]

theorem Machine.runFrom_advance (fits : s.Fits) (steps : Nat) :
    Machine.runFrom steps s = (s.advance steps).halt? ∨
      steps = 0 ∧ Machine.runFrom steps s = none := by
  cases goes : s.verdict with
  | «continue» =>
    rw [← run_advance _ goes]
    simp [runFrom, goes]
  | done =>
    cases steps with
    | zero => exact .inr ⟨rfl, by simp [runFrom, goes, run]⟩
    | succ steps =>
      have still : s.machine.control ≠ .running := fun running => fits.mp running goes
      have stopped : s.machine.isRunning = false := by
        unfold isRunning
        split
        · rename_i running
          exact absurd running still
        · rfl
      rw [Stepped.advance_stopped (by simp [goes])]
      simp [runFrom, goes, run, step, stopped, Stepped.halt?]
  | fault f | lost =>
    rw [Stepped.advance_stopped (by simp [goes])]
    simp [runFrom, goes, Stepped.halt?]

theorem Stepped.states_length {steps : Nat} (goes : (s.advance steps).verdict = .continue) :
    (s.states steps).length = steps := by
  induction steps generalizing s with
  | zero => rfl
  | succ steps ih =>
    rw [advance] at goes
    rw [states]
    cases first : s.verdict with
    | «continue» =>
      rw [first] at goes
      simpa using ih goes
    | done | fault f | lost => simp [first] at goes

theorem Stepped.states_ne_nil (steps : Nat)
    (suspends : (s.advance (steps + 1)).machine.isSuspended = true) :
    1 ≤ (s.states (steps + 1)).length + s.machine.isSuspended.toNat := by
  cases first : s.verdict with
  | «continue» => simp only [states, first, List.length_cons]; omega
  | done | fault f | lost =>
    rw [advance_stopped (by simp [first])] at suspends
    simp [suspends]

section

variable {t : Stepped} {rounds : Nat} (runs : Machine.runFrom fuel s = t.halt?)

include runs

theorem drive_stays (stays : t.machine.resume? (answers asked) = none) :
    drive answers fuel (rounds + 1) asked s = ⟨s.states fuel, t.halt?⟩ := by
  rw [drive, runs]
  obtain ⟨m, env, verdict⟩ := t
  cases verdict <;> simp_all [Stepped.halt?]

theorem drive_resumes (fits : t.Fits) (resumes : t.machine.resume? (answers asked) = some m) :
    drive answers fuel (rounds + 1) asked s =
      (drive answers fuel rounds (asked + 1) (m.ready t.env)).after (s.states fuel) := by
  have done : t.verdict = .done := Decidable.byContradiction fun goes => by
    have calm := (fits.not_suspended goes .null).1
    rw [(Machine.resume?_some resumes).1] at calm
    cases calm
  rw [drive, runs, Stepped.halt?, done]
  simp [resumes]

end

/-- A machine that is driven goes through what it goes through with answers. -/
theorem drive_runResumed (answers : Nat → Value) (fuel rounds asked : Nat) (fits : s.Fits) :
    ∃ steps, min fuel rounds ≤ steps + s.machine.isSuspended.toNat ∧
      drive answers fuel rounds asked s = runResumed answers steps asked s := by
  induction rounds generalizing s asked with
  | zero => exact ⟨0, by simp, rfl⟩
  | succ rounds ih =>
    rcases Machine.runFrom_advance fits fuel with runs | ⟨rfl, runs⟩
    · obtain ⟨fits', same⟩ := runResumed_advance answers asked fits fuel
      cases resumes : (s.advance fuel).machine.resume? (answers asked) with
      | none =>
        rw [drive_stays runs resumes]
        by_cases goes : (s.advance fuel).verdict = .continue
        · -- The bound on steps has been reached.
          have all := Stepped.states_length goes
          refine ⟨(s.states fuel).length + 0, by omega, ?_⟩
          rw [same, runResumed_zero]
          simp [Course.after, Course.empty, Stepped.halt?, goes]
        · refine ⟨(s.states fuel).length + (fuel + 1), by omega, ?_⟩
          rw [same, runResumed_stopped goes resumes]
          simp [Course.after]
      | some m =>
        obtain ⟨suspended, calm, -⟩ := Machine.resume?_some resumes
        obtain ⟨steps, enough, drives⟩ := ih (asked + 1) (m.ready_fits (s.advance fuel).env)
        refine ⟨(s.states fuel).length + steps, ?_, ?_⟩
        · rw [Machine.ready, calm] at enough
          cases fuel with
          | zero => simp
          | succ fuel =>
            have some_states := Stepped.states_ne_nil fuel suspended
            simp only [Bool.toNat_false] at enough
            omega
        · rw [drive_resumes runs fits' resumes, drives, same, runResumed_suspended resumes]
    · exact ⟨0, by simp, by rw [drive, runs]; rfl⟩

end

theorem runAnswering_mono (answers : Nat → Value) {fuel fuel' : Nat} (more : fuel ≤ fuel')
    (asked : Nat) (s : Stepped) :
    (runAnswering answers fuel asked s).states <+: (runAnswering answers fuel' asked s).states ∧
      ((runAnswering answers fuel asked s).halt.isSome →
        runAnswering answers fuel asked s = runAnswering answers fuel' asked s) := by
  induction fuel generalizing fuel' asked s with
  | zero => exact ⟨List.nil_prefix, nofun⟩
  | succ fuel ih =>
    obtain ⟨fuel', rfl⟩ := Nat.exists_eq_add_of_le' more
    rw [← Nat.add_assoc, runAnswering, runAnswering]
    split
    · generalize answering answers asked s.machine.step s.env = next
      obtain ⟨asked', s'⟩ := next
      obtain ⟨first, all⟩ := ih (show fuel ≤ fuel' + fuel by omega) asked' s'
      exact ⟨(List.prefix_append_right_inj _).mpr first,
        fun ends => congrArg (Course.after _) (all ends)⟩
    · exact ⟨List.prefix_refl _, fun _ => rfl⟩

/-- A call that is answered whenever it is suspended goes through the same states and ends
as one whose natives give the answers at once. -/
theorem suspension_transparent (answers : Nat → Value) (limit : Nat) (env : Env) (callee : Value)
    (args : List Value) :
    let start (env : Env) := (Machine.new limit).startCall env callee args
    let driven (fuel rounds : Nat) := drive answers fuel rounds 0 (start env)
    let first := answering answers 0 start env
    let direct (fuel : Nat) := runAnswering answers fuel first.1 first.2
    (∀ states halt, (∃ fuel rounds, driven fuel rounds = ⟨states, some halt⟩) ↔
      ∃ fuel, direct fuel = ⟨states, some halt⟩) ∧
    ∀ states, (∃ fuel rounds, states <+: (driven fuel rounds).states) ↔
      ∃ fuel, states <+: (direct fuel).states := by
  intro start driven first direct
  have echoes : Stepped.Echoes (answers 0) env (start env) (start (env.replying (answers 0))) :=
    Machine.startCall_echoes rfl callee args
  have directly (fuel : Nat) : direct fuel = runResumed answers fuel 0 (start env) := by
    simp only [direct, first, echoes.answering]
    rfl
  -- Either run has at some time gone as far as the other one.
  have drives (fuel rounds : Nat) : ∃ steps, min fuel rounds ≤ steps + 1 ∧
      driven fuel rounds = direct steps := by
    obtain ⟨steps, enough, same⟩ := drive_runResumed answers fuel rounds 0 echoes.fits
    have one := Bool.toNat_le (start env).machine.isSuspended
    exact ⟨steps, by omega, same.trans (directly steps).symm⟩
  have reaches (fuel : Nat) : ∃ steps, fuel ≤ steps ∧
      driven (fuel + 1) (fuel + 1) = direct steps := by
    obtain ⟨steps, enough, same⟩ := drives (fuel + 1) (fuel + 1)
    exact ⟨steps, by omega, same⟩
  refine ⟨fun states halt => ⟨fun ⟨fuel, rounds, ends⟩ => ?_, fun ⟨fuel, ends⟩ => ?_⟩,
    fun states => ⟨fun ⟨fuel, rounds, passes⟩ => ?_, fun ⟨fuel, passes⟩ => ?_⟩⟩
  · obtain ⟨steps, -, same⟩ := drives fuel rounds
    exact ⟨steps, same ▸ ends⟩
  · obtain ⟨steps, more, same⟩ := reaches fuel
    have stays := (runAnswering_mono answers more first.1 first.2).2
      ((congrArg (·.halt.isSome) ends).trans rfl)
    exact ⟨_, _, same.trans (stays.symm.trans ends)⟩
  · obtain ⟨steps, -, same⟩ := drives fuel rounds
    exact ⟨steps, same ▸ passes⟩
  · obtain ⟨steps, more, same⟩ := reaches fuel
    have further := (runAnswering_mono answers more first.1 first.2).1
    exact ⟨_, _, (congrArg (states <+: ·.states) same).mpr (passes.trans further)⟩

end FrameScript
