import FrameScript.Proofs.Machine.Calls
import FrameScript.Proofs.Value.Known
import FrameScript.Native.Library
import FrameScript.Host.Plugin

/-!
# What a machine does to its surroundings

A step binds a global, writes to the heap or calls a native, or it changes the machine
alone. What natives keep, a run keeps.
-/

namespace FrameScript

/-- What one step can make of an environment. -/
inductive Env.Steps (env : Env) : Env → Prop
  | same : Steps env env
  | global (name : String) (v : Value) :
      Steps env { env with globals := env.globals.insert name v }
  | heap (h : Heap) : Steps env (env.withHeap h)
  | native {name : String} {native : Native} (found : env.natives.get? name = some native)
      (args : List Value) : Steps env (env.after (native env.context env.world args))

namespace Machine

variable {env : Env} {m : Machine}

@[simp] theorem throwValue_env (m : Machine) (env : Env) (v : Value) :
    (m.throwValue env v).env = env := by
  unfold throwValue
  split
  · dsimp only
    split <;> rfl
  · rfl

@[simp] theorem throwInfo_env (m : Machine) (env : Env) (e : ErrorInfo) :
    (m.throwInfo env e).env = env := throwValue_env _ _ _

@[simp] theorem pushOrThrow_env (m : Machine) (env : Env) (result : Except ErrorInfo Value) :
    (m.pushOrThrow env result).env = env := by
  cases result with
  | ok v => rfl
  | error e => exact throwInfo_env _ _ _

@[simp] theorem leave_env (m : Machine) (env : Env) (base : Nat) (underflow : Fault) (v : Value) :
    (m.leave env base underflow v).env = env := by
  unfold leave
  dsimp only
  split <;> rfl

@[simp] theorem iterate_env (m : Machine) (env : Env) (base list index exit : Nat)
    (badLocal : Nat → Fault) : (m.iterate env base list index exit badLocal).env = env := by
  unfold iterate
  dsimp only
  split
  · rfl
  · rfl
  · split <;> rfl
  · exact throwInfo_env _ _ _
  · rfl

@[simp] theorem enter_env (m : Machine) (env : Env) (slot : Nat) (chunk : Chunk) :
    (m.enter env slot chunk).env = env := by
  unfold enter
  split
  · exact throwInfo_env _ _ _
  · split <;> rfl

@[simp] theorem answer_env (m : Machine) (env : Env) (reply : NativeReply) :
    (m.answer env reply).env = env.after reply := by
  unfold answer
  split
  · rfl
  · exact throwInfo_env _ _ _
  · split
    · rfl
    · exact throwInfo_env _ _ _
  · rfl

theorem heapOrThrow_steps (m : Machine) (env : Env) (result : Except ErrorInfo Heap) :
    env.Steps (m.heapOrThrow env result).env := by
  cases result with
  | ok h => exact .heap h
  | error e =>
    rw [heapOrThrow, throwInfo_env]
    exact .same

theorem callNative_steps (m : Machine) (env : Env) (slot : Nat) (name : String) :
    env.Steps (m.callNative env slot name).env := by
  cases found : env.natives.get? name with
  | none =>
    have missing : (m.callNative env slot name).env = env := by
      rw [callNative, found]
      exact throwInfo_env _ _ _
    rw [missing]
    exact .same
  | some native =>
    rw [callNative_some found, answer_env]
    exact .native found _

theorem callValue_steps (m : Machine) (env : Env) (argc : Nat) :
    env.Steps (m.callValue env argc).env := by
  unfold callValue
  dsimp only
  split
  · exact .same
  · split
    · exact .same
    · rw [enter_env]
      exact .same
    · exact callNative_steps m env _ _
    · rw [raiseError, throwInfo_env]
      exact .same

/-- Only writes and calls reach beyond the machine. -/
theorem execute_steps (m : Machine) (env : Env) (function : String) (pc base : Nat) (i : Instr) :
    env.Steps (m.execute env function pc base i).env := by
  have alone {s : Stepped} (same : s.env = env) : env.Steps s.env := same ▸ .same
  cases i with
  | call argc => exact callValue_steps m env argc
  | setGlobal name =>
    unfold execute
    dsimp only
    split
    · exact .same
    · exact .global _ _
  | makeList n | makeObject keys =>
    unfold execute
    dsimp only
    split
    · exact .same
    · exact .heap _
  | setMember name =>
    unfold execute
    dsimp only
    split
    · exact .same
    · split
      · exact .same
      · exact heapOrThrow_steps _ _ _
  | setIndex =>
    unfold execute
    dsimp only
    split
    · exact .same
    · split
      · exact .same
      · split
        · exact .same
        · exact heapOrThrow_steps _ _ _
  | _ =>
    refine alone ?_
    unfold execute raiseError
    dsimp only
    repeat' split
    all_goals simp

/-- A step does one thing to the surroundings at most. -/
theorem step_steps (m : Machine) (env : Env) : env.Steps (m.step env).env := by
  unfold step
  split
  · exact .same
  · split
    · exact .same
    · split
      · exact .same
      · exact execute_steps _ env _ _ _ _

theorem run_keeps {P : Env → Prop} (keeps : ∀ {env next : Env}, P env → env.Steps next → P next)
    {fuel : Nat} {halt : Halt} (base : P env) (run : m.run fuel env = some halt) : P halt.env := by
  induction fuel generalizing m env with
  | zero => cases run
  | succ fuel ih =>
    have next : P (m.step env).env := keeps base (step_steps m env)
    rw [Machine.run] at run
    generalize m.step env = s at run next
    obtain ⟨m', env', verdict⟩ := s
    cases verdict with
    | «continue» => exact ih next run
    | lost => cases run
    | done | fault f =>
      cases run
      exact next

end Machine

/-- A native leaves something alone that it is told or could change. -/
def Native.Preserves {α : Type} (f : NativeContext → World → α) (native : Native) : Prop :=
  ∀ context world args,
    f (native context world args).context (native context world args).world = f context world

section

variable {α : Type} {f : NativeContext → World → α} {env : Env} {m : Machine} {fuel : Nat}
  {halt : Halt} (heap : ∀ context (world : World) h, f context (world.withHeap h) = f context world)
  (keep : ∀ e ∈ env.natives.entries, e.2.Preserves f)

include heap keep

/-- What natives leave alone, and what is not in the heap, a step leaves alone. -/
theorem Env.Steps.preserves {before next : Env} (natives : before.natives = env.natives)
    (steps : before.Steps next) : next.natives = env.natives ∧
      f next.context next.world = f before.context before.world := by
  cases steps with
  | same | global name v => exact ⟨natives, rfl⟩
  | heap h => exact ⟨natives, heap _ _ _⟩
  | native found args =>
    exact ⟨natives, keep _ (natives ▸ Table.mem_of_get? found) before.context before.world args⟩

theorem Machine.run_preserves (run : m.run fuel env = some halt) :
    f halt.env.context halt.env.world = f env.context env.world := by
  refine (Machine.run_keeps (P := fun e => e.natives = env.natives ∧
    f e.context e.world = f env.context env.world) ?_ ⟨rfl, rfl⟩ run).2
  rintro before next ⟨natives, same⟩ steps
  obtain ⟨natives', same'⟩ := Env.Steps.preserves heap keep natives steps
  exact ⟨natives', same'.trans same⟩

theorem Machine.runFrom_preserves {s : Stepped} (begins : env.Steps s.env)
    (run : Machine.runFrom fuel s = some halt) :
    f halt.env.context halt.env.world = f env.context env.world := by
  obtain ⟨natives, first⟩ := Env.Steps.preserves heap keep rfl begins
  unfold Machine.runFrom at run
  split at run
  · cases run
    exact first
  · cases run
  · exact (Machine.run_preserves heap (natives.symm ▸ keep) run).trans first

end

/-- The natives of the library change the heap at most, or they print. -/
theorem Natives.forall_withSuspend {P : Native → Prop} (pure : ∀ f, P (.pure f))
    (onHeap : ∀ f, P (.onHeap f)) (print : P .print) :
    ∀ e ∈ Natives.withSuspend.entries, P e.2 := by
  intro e mem
  rcases Table.mem_insert mem with rfl | mem
  · exact pure _
  · have listed := Table.mem_ofList mem
    simp only [List.mem_cons, List.not_mem_nil, or_false] at listed
    rcases listed with rfl | rfl | rfl | rfl | rfl | rfl | rfl | rfl | rfl | rfl | rfl | rfl |
      rfl | rfl
    · exact print
    all_goals
      dsimp only [Native.str, Native.len, Native.push, Native.keys, Native.clock]
      first | exact pure _ | exact onHeap _

theorem Plugin.forall_register {P : Native → Prop} {natives : Natives} {p : Plugin}
    (old : ∀ e ∈ natives.entries, P e.2) (new : ∀ n ∈ p.natives, P n.2) :
    ∀ e ∈ (p.register natives).entries, P e.2 := by
  unfold Plugin.register
  generalize p.natives = added at new
  induction added generalizing natives with
  | nil => exact old
  | cons n rest ih =>
    obtain ⟨first, others⟩ := List.forall_mem_cons.mp new
    refine ih (fun e mem => ?_) others
    rcases Table.mem_insert mem with rfl | mem
    · exact first
    · exact old e mem

theorem Plugin.forall_registerAll {P : Native → Prop} {natives : Natives} {plugins : List Plugin}
    (old : ∀ e ∈ natives.entries, P e.2) (new : ∀ p ∈ plugins, ∀ n ∈ p.natives, P n.2) :
    ∀ e ∈ (plugins.foldl Plugin.register natives).entries, P e.2 := by
  induction plugins generalizing natives with
  | nil => exact old
  | cons p rest ih =>
    obtain ⟨first, others⟩ := List.forall_mem_cons.mp new
    exact ih (Plugin.forall_register old first) others

def Native.KeepsClock (native : Native) : Prop :=
  ∀ context world args, (native context world args).world.clock = world.clock

def Natives.KeepClocks (natives : Natives) : Prop := ∀ e ∈ natives.entries, e.2.KeepsClock

theorem Natives.withSuspend_keepClocks : Natives.withSuspend.KeepClocks := by
  refine Natives.forall_withSuspend (P := Native.KeepsClock) (fun _ _ _ _ => rfl)
    (fun _ _ _ _ => rfl) ?_
  intro context world args
  unfold Native.print
  split <;> rfl

theorem Machine.run_clock {env : Env} {m : Machine} {fuel : Nat} {halt : Halt}
    (keep : env.natives.KeepClocks) (run : m.run fuel env = some halt) :
    halt.env.world.clock = env.world.clock :=
  Machine.run_preserves (f := fun _ world => world.clock) (fun _ _ _ => rfl) keep run

end FrameScript
