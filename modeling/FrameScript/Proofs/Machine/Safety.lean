import FrameScript.Host.Load
import FrameScript.Proofs.Machine.Preservation
import FrameScript.Proofs.Native.Library

/-!
# Compiled code never faults

Every machine that runs compiled functions is sound, from the call that starts it
on, through steps and resumptions in any order and whatever happens to its
environment while it does not run. No step of a sound machine faults.
-/

namespace FrameScript

/-- A function or top level of a text that parses and compiles. -/
structure Chunk.Sourced (c : Chunk) : Prop where
  compiled : ∃ name text compiled, compileSource name text = .ok compiled ∧ c ∈ compiled.chunks
  /-- No text in memory declares more parameters. -/
  arity : c.arity < Nat.pow 2 63

def Routine.Sourced (r : Routine) : Prop :=
  ∃ name text script compiled, Script.parse text = .ok script ∧
    compile name script = .ok compiled ∧ r ∈ script.routines name

theorem compileSource_compiles {name text : String} {compiled : CompiledScript}
    (h : compileSource name text = .ok compiled) :
    ∀ chunk ∈ compiled.chunks, ∃ r : Routine, r.Sourced ∧ r.Compiles chunk := by
  unfold compileSource at h
  split at h
  · cases h
  · rename_i script parsed
    split at h
    · cases h
    · rename_i compiled' done
      cases h
      intro chunk mem
      obtain ⟨r, declared, compiles⟩ := compile_compiles done chunk mem
      exact ⟨r, ⟨name, text, script, _, parsed, done, declared⟩, compiles⟩

theorem Script.Uses.routine {P : String → Prop} {script : Script} (h : script.Uses P)
    {source : String} {r : Routine} (mem : r ∈ script.routines source) : Stmt.AllUse P r.body := by
  rcases List.mem_cons.mp mem with rfl | mem
  · exact h.1
  · obtain ⟨f, declared, rfl⟩ := List.mem_map.mp mem
    exact h.2 f declared

/-- The layout of a routine verifies the chunk that it compiles to. -/
theorem Routine.Compiles.verified {r : Routine} {chunk : Chunk} (h : r.Compiles chunk)
    (sourced : r.Sourced) (arity : chunk.arity < Nat.pow 2 63) : Verified r.points chunk where
  instrs := h.code
  flows := by
    obtain ⟨name, text, script, compiled, parsed, -, mem⟩ := sourced
    exact r.flows ((Script.parse_uses parsed).routine mem)
  entry := by
    rw [h.arity, ← r.site_shape_slots]
    exact r.entry
  arity := arity

theorem Chunk.Sourced.routine {c : Chunk} (h : c.Sourced) :
    ∃ r : Routine, r.Sourced ∧ r.Compiles c := by
  obtain ⟨name, text, compiled, done, mem⟩ := h.compiled
  exact compileSource_compiles done c mem

theorem Chunk.Sourced.verified {c : Chunk} (h : c.Sourced) : ∃ code, Verified code c := by
  obtain ⟨r, sourced, compiles⟩ := h.routine
  exact ⟨r.points, compiles.verified sourced h.arity⟩

/-- States that a machine comes to when it is called: by steps, when a suspended call
is given a result, and while others change what is around it. -/
inductive Reachable (limit : Nat) : Machine → Env → Prop
  | start {env : Env} {callee : Value} {args : List Value} (sound : env.Sound Chunk.Sourced)
    (known : ∀ v ∈ callee :: args, v.Known env.heap)
    (ends : ((Machine.new limit).startCall env callee args).verdict ≠ .lost) :
    Reachable limit ((Machine.new limit).startCall env callee args).machine
      ((Machine.new limit).startCall env callee args).env
  | step {m : Machine} {env : Env} (before : Reachable limit m env)
    (ends : (m.step env).verdict ≠ .lost) :
    Reachable limit (m.step env).machine (m.step env).env
  | resume {m m' : Machine} {env : Env} {v : Value} (before : Reachable limit m env)
    (known : v.Known env.heap) (resumed : m.resume? v = some m') : Reachable limit m' env
  | meanwhile {m : Machine} {env env' : Env} (before : Reachable limit m env)
    (sound : env'.Sound Chunk.Sourced)
    (grown : env.heap.chunks.size ≤ env'.heap.chunks.size) : Reachable limit m env'

/-- Reachable machines are sound, whichever layouts verify the functions. -/
theorem Reachable.sound {layout : Chunk → List Point}
    (verified : ∀ c : Chunk, c.Sourced → Verified (layout c) c) {limit : Nat} {m : Machine}
    {env : Env} (h : Reachable limit m env) :
    m.Sound layout limit env.heap ∧ env.Sound Chunk.Sourced := by
  induction h with
  | start sound known ends =>
    have good := Machine.startCall_good verified sound limit known
    exact ⟨good.grown ends, good.env ends⟩
  | step before ends ih =>
    have good := Machine.Sound.step verified ih.2 ih.1
    exact ⟨good.grown ends, good.env ends⟩
  | resume before known resumed ih => exact ⟨ih.1.resume known resumed, ih.2⟩
  | meanwhile before sound grown ih => exact ⟨ih.1.meanwhile grown, sound⟩

theorem Reachable.run {limit : Nat} {m : Machine} {env : Env} (h : Reachable limit m env)
    {fuel : Nat} {halt : Halt} (runs : m.run fuel env = some halt) (ends : halt.fault = none) :
    Reachable limit halt.machine halt.env := by
  induction fuel generalizing m env with
  | zero => cases runs
  | succ fuel ih =>
    rw [Machine.run] at runs
    have next := h.step
    generalize m.step env = s at runs next
    obtain ⟨m', env', verdict⟩ := s
    cases verdict with
    | «continue» => exact ih (next nofun) runs
    | done =>
      cases runs
      exact next nofun
    | fault f =>
      cases runs
      cases ends
    | lost => cases runs

open Classical in
/-- A layout for every compiled chunk, and for no other. -/
noncomputable def someLayout (c : Chunk) : List Point :=
  if h : c.Sourced then h.verified.choose else []

theorem someLayout_verified (c : Chunk) (h : c.Sourced) : Verified (someLayout c) c := by
  rw [someLayout, dif_pos h]
  exact h.verified.choose_spec

theorem sourced_of_someLayout {c : Chunk} (h : Verified (someLayout c) c) : c.Sourced := by
  by_contra unsourced
  obtain ⟨i, entry⟩ := h.entry
  rw [someLayout, dif_neg unsourced] at entry
  cases entry

/-- A step that neither faults, nor stops without an outcome, nor nests too many calls. -/
structure Stepped.Safe (limit : Nat) (s : Stepped) : Prop where
  faultless : ∀ f, s.verdict ≠ .fault f
  stopped : s.verdict = .done → s.machine.control ≠ .running
  depth : s.verdict ≠ .lost → s.machine.frames.length ≤ limit

theorem Stepped.Good.safe {layout : Chunk → List Point} {ok : Chunk → Prop} {limit : Nat}
    {s : Stepped} (h : s.Good layout ok limit) : s.Safe limit :=
  ⟨h.faultless, h.stopped, fun ends => (h.grown ends).depth⟩

/-- Calls of compiled functions never fault, and neither does any step after them. -/
theorem compiled_code_safe (limit : Nat) :
    (∀ (env : Env) (callee : Value) (args : List Value), env.Sound Chunk.Sourced →
      (∀ v ∈ callee :: args, v.Known env.heap) →
        ((Machine.new limit).startCall env callee args).Safe limit) ∧
    ∀ (m : Machine) (env : Env), Reachable limit m env →
      m.frames.length ≤ limit ∧ (m.step env).Safe limit := by
  refine ⟨fun env callee args sound known => ?_, fun m env h => ?_⟩
  · exact (Machine.startCall_good someLayout_verified sound limit known).safe
  · obtain ⟨s, sound⟩ := h.sound someLayout_verified
    exact ⟨s.depth, (Machine.Sound.step someLayout_verified sound s).safe⟩

def functionsOf (name text : String) : List Chunk :=
  match compileSource name text with
  | .ok compiled => compiled.functions
  | .error _ => []

theorem functionsOf_sourced {name text : String} {c : Chunk} (mem : c ∈ functionsOf name text)
    (arity : c.arity < Nat.pow 2 63) : c.Sourced := by
  unfold functionsOf at mem
  split at mem
  · rename_i compiled done
    exact ⟨⟨name, text, compiled, done, List.mem_cons_of_mem _ mem⟩, arity⟩
  · cases mem

theorem functionsOf_compiles {name text : String} {script : Script}
    (parsed : Script.parse text = .ok script) (compiles : functionsOf name text ≠ []) :
    (∀ f ∈ script.functions, (Routine.ofDecl name f).Sourced) ∧
      List.Forall₂ (fun f chunk => (Routine.ofDecl name f).Compiles chunk) script.functions
        (functionsOf name text) := by
  unfold functionsOf compileSource at compiles ⊢
  rw [parsed] at compiles ⊢
  dsimp only at compiles ⊢
  cases done : compile name script with
  | error e =>
    rw [done] at compiles
    exact absurd rfl compiles
  | ok compiled =>
    refine ⟨fun f mem => ⟨name, text, script, compiled, parsed, done, ?_⟩, compile_functions done⟩
    exact List.mem_cons_of_mem _ (List.mem_map_of_mem mem)

/-- A machine that calls a function of a text, run until it stops. -/
def runCall (name text : String) (args : List Value) (fuel : Nat) : Option Halt :=
  Machine.runFrom fuel ((Machine.new defaultMaxCallDepth).startCall
    (.ofFunctions (functionsOf name text)) (.function ⟨0⟩) args)

/-- The end of a call of the first function is reachable. -/
theorem reachable_of_runCall {name text : String} {args : List Value} {fuel : Nat} {halt : Halt}
    (declared : functionsOf name text ≠ [])
    (arity : ∀ c ∈ functionsOf name text, c.arity < Nat.pow 2 63)
    (known : ∀ v ∈ args, v.Known (Env.ofFunctions (functionsOf name text)).heap)
    (runs : runCall name text args fuel = some halt) (ends : halt.fault = none) :
    Reachable defaultMaxCallDepth halt.machine halt.env := by
  have sound : (Env.ofFunctions (functionsOf name text)).Sound Chunk.Sourced :=
    Env.ofFunctions_sound fun c mem => functionsOf_sourced mem (arity c mem)
  have callee : (Value.function ⟨0⟩).Known (Env.ofFunctions (functionsOf name text)).heap := by
    simpa [Value.Known, Env.ofFunctions_chunks, List.length_pos_iff] using declared
  have start := @Reachable.start defaultMaxCallDepth _ _ args sound
    (List.forall_mem_cons.mpr ⟨callee, known⟩)
  unfold runCall Machine.runFrom at runs
  split at runs
  · cases runs
    cases ends
  · cases runs
  · rename_i lasts
    exact (start lasts).run runs ends

/-- A call that is suspended after its first frame has begun. -/
theorem compiled_code_safe_suspended :
    ∃ halt, runCall "pause.cds" "function f() { let x = suspend(); return x; }" [] 20 =
        some halt ∧ halt.machine.isSuspended = true ∧
      halt.machine.frames.length ≤ defaultMaxCallDepth ∧
      (halt.machine.step halt.env).Safe defaultMaxCallDepth := by
  have suspends : (runCall "pause.cds" "function f() { let x = suspend(); return x; }" [] 20).map
      (fun halt => (halt.machine.isSuspended, halt.fault)) = some (true, none) := by
    decide +kernel
  obtain ⟨halt, runs, ends⟩ := Option.map_eq_some_iff.mp suspends
  obtain ⟨suspended, faultless⟩ := Prod.mk.injEq _ _ _ _ |>.mp ends
  have reachable := reachable_of_runCall (by decide +kernel) (by decide +kernel) (by simp) runs
    faultless
  exact ⟨halt, runs, suspended, (compiled_code_safe defaultMaxCallDepth).2 _ _ reachable⟩

end FrameScript
