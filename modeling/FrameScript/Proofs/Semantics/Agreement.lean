import FrameScript.Proofs.Semantics.Statements

/-!
# Compiled code does what evaluation does

A call on the machine ends as the direct evaluation of the function's body does, with
the same globals, heap and calls of natives, and one of them ends if the other does.
Calls are followed inwards for as many levels as the evaluation has left.
-/

namespace FrameScript

open Script (Unbracketed)

theorem Mirrors.params {names : List String} {vs : List Value} (all : names.length = vs.length) :
    Mirrors (List.replicate names.length none) (names.map fun p => ⟨p, .plain⟩) (names.zip vs)
      vs := by
  induction names generalizing vs with
  | nil =>
    cases vs with
    | nil => exact .nil
    | cons v rest => cases all
  | cons name names ih =>
    cases vs with
    | nil => cases all
    | cons v rest => exact .shown name .plain v (ih (Nat.succ.inj all))

namespace Routine

variable {r : Routine}

theorem mirrors_arguments (r : Routine) (args : List Value) :
    Mirrors (List.replicate r.params.length none) r.site.scope (r.arguments args)
      (fillArgs args r.params.length).reverse := by
  have all : r.params.reverse.length = (fillArgs args r.params.length).reverse.length := by simp
  have mirrored := Mirrors.params all
  rw [List.length_reverse] at mirrored
  rw [arguments, List.zip_eq_zipWith, List.reverse_zipWith (by simp)]
  exact mirrored

theorem site_nested (r : Routine) : r.site.Nested := fun l h => by simp [site] at h

theorem Sourced.body (h : r.Sourced) :
    Stmt.AllUse Unbracketed r.body ∧ Stmt.AllEnclosed (r.site.loop.isSome = true) r.body := by
  obtain ⟨name, text, script, compiled, parsed, done, mem⟩ := h
  exact ⟨(Script.parse_uses parsed).routine mem,
    Stmt.AllEnclosed.mono False.elim r.body (compile_enclosed done r mem)⟩

theorem eval_shown (sourced : r.Sourced) {s : Setting} (compiles : r.Compiles s.chunk)
    (outer : ∀ h ∈ s.handlers, h.frameDepth ≤ s.callers.length) {call : Callable} {n : Nat}
    (calls : call.Shown n s.limit (s.callers.length + 1)) {args : List Value} {scene : Scene}
    (good : (s.situation 0 (fillArgs args r.params.length).reverse scene).Good s.limit) :
    (r.eval call (n + 1) args scene).Shown (n + 1)
      (s.situation 0 (fillArgs args r.params.length).reverse scene)
      (Machine.Answered s.callers s.below s.handlers s.traceback s.limit) := by
  have carries : s.Carries r.points call n := ⟨compiles.code, outer, calls⟩
  have ex := carries.executes []
  obtain ⟨uses, enclosed⟩ := sourced.body
  have placed : Placed r.points 0 r.points := List.prefix_refl _
  have last := placed.behind (Stmt.length_pointsAll ..)
  have executed := Stmt.execAll_shown carries r.site_nested (r.mirrors_arguments args) r.body uses
    enclosed placed.left good
  refine executed.bind ?_
  rintro ⟨completion, locals⟩ scene' t comes reached
  cases completion with
  | normal =>
    obtain ⟨marks, vs, kept, mirrors, rfl⟩ := reached
    -- Behind the body null is pushed and returned.
    have pushes : ((s.guarded []).situation _ vs scene').Comes _ :=
      Setting.moves (ex.instr last) rfl
    have next : ((s.guarded []).situation _ (.null :: vs) scene').next = _ :=
      Setting.next_situation (ex.instr last.tail) rfl (by simp)
    refine ⟨_, pushes.trans (.one rfl), ?_⟩
    rw [next, Effect.apply, carries.keptHandlers]
    rfl
  | broke | continued =>
    obtain ⟨l, vs, loop, -⟩ := reached
    cases loop
  | returned v => exact ⟨t, .refl t, reached⟩
  | thrown v =>
    obtain ⟨vs, -, pc, above, upper, rfl⟩ := reached
    refine ⟨_, .refl _, above ++ [⟨s.chunk, pc, s.below.length + 1⟩], upper ++ vs ++ [s.callee], ?_⟩
    simp [Setting.frames, Setting.stack, Setting.guarded]
    rfl

end Routine

/-- A routine of a text for each chunk, whose code it compiles to. -/
def Origin (origin : Chunk → Routine) : Prop :=
  ∀ c : Chunk, c.Sourced → (origin c).Sourced ∧ (origin c).Compiles c

/-- A function of a text can be the origin of its own code. -/
theorem exists_origin {r : Routine} {chunk : Chunk} (sourced : r.Sourced)
    (compiles : r.Compiles chunk) : ∃ origin, Origin origin ∧ origin chunk = r := by
  classical
  refine ⟨fun c => if c = chunk then r else if h : c.Sourced then h.routine.choose else r,
    fun c h => ?_, if_pos rfl⟩
  by_cases same : c = chunk
  · subst same
    simpa using ⟨sourced, compiles⟩
  · simp only [if_neg same, dif_pos h]
    exact h.routine.choose_spec

namespace Eval

variable {frames : List Frame} {st : List Value} {handlers : List Handler}
  {traceback : Option Traceback} {limit n : Nat} {scene : Scene}

theorem error_shown (scene : Scene) (e : ErrorInfo) (upper : List Value) :
    (lift (.error e) scene).Shown n
      ⟨(Machine.running frames (upper ++ st) handlers traceback limit).throwInfo scene.env e,
        scene.calls⟩
      (Machine.Answered frames st handlers traceback limit) :=
  ⟨_, .refl _, [], upper, rfl⟩

theorem native_shown (name : String) (args : List Value) :
    (native name args scene).Shown n
      ⟨(Machine.running frames (args.reverse ++ .native name :: st) handlers traceback
        limit).callNative scene.env st.length name,
        scene.calls ++ scene.env.nativeCalls (.native name) args⟩
      (Machine.Answered frames st handlers traceback limit) := by
  unfold native
  cases found : scene.env.natives.get? name with
  | none =>
    have made : scene.env.nativeCalls (.native name) args = [] := by
      simp [Env.nativeCalls, found]
    rw [Machine.callNative_missing found, made, List.append_nil, List.append_cons]
    exact error_shown scene _ _
  | some native =>
    have made : scene.env.nativeCalls (.native name) args = [⟨name, args⟩] := by
      simp [Env.nativeCalls, found]
    rw [Machine.callNative_found found, made]
    dsimp only
    generalize native scene.env.context scene.env.world args = reply
    unfold Machine.answer
    cases reply.result with
    | value v => exact ⟨_, .refl _, rfl⟩
    | throw e => exact error_shown ⟨scene.env.after reply, scene.calls ++ [⟨name, args⟩]⟩ e []
    | suspend request =>
      dsimp only
      split
      · exact ⟨_, .refl _, rfl, rfl, rfl, rfl⟩
      · exact error_shown ⟨scene.env.after reply, scene.calls ++ [⟨name, args⟩]⟩ .notSuspendable []
    | endless => exact ⟨_, .refl _, rfl⟩

/-- A script function that is called runs its body, unless there are too many calls. -/
theorem function_shown {r : Routine} {chunk : Chunk} (sourced : r.Sourced)
    (compiles : r.Compiles chunk)
    (arity : chunk.arity < Nat.pow 2 63) (ref : FunctionRef) (args : List Value)
    (outer : ∀ h ∈ handlers, h.frameDepth ≤ frames.length) {inner : Callable}
    (calls : inner.Shown n limit (frames.length + 1)) {start : Situation}
    (enters : start = ⟨(Machine.running frames (args.reverse ++ .function ref :: st) handlers
      traceback limit).enter scene.env st.length chunk, scene.calls⟩) (good : start.Good limit) :
    (if limit ≤ frames.length then lift (.error (.stackOverflow r.name)) scene
      else r.eval inner (n + 1) args scene).Shown (n + 1) start
      (Machine.Answered frames st handlers traceback limit) := by
  split
  · rename_i full
    rw [enters, Machine.enter_full full, compiles.name, List.append_cons]
    exact error_shown scene _ _
  · rename_i room
    rw [Machine.enter_room room arity, compiles.arity] at enters
    let s : Setting := ⟨chunk, .function ref, frames, st, handlers, traceback, limit⟩
    have begun : start = s.situation 0 (fillArgs args r.params.length).reverse scene := enters
    rw [begun] at good ⊢
    exact Routine.eval_shown (s := s) sourced compiles outer calls good

/-- Calls on the machine end as they do in an evaluation. -/
theorem call_shown {origin : Chunk → Routine} (traced : Origin origin) (limit fuel depth : Nat) :
    (call origin limit fuel depth).Shown fuel limit depth := by
  induction fuel generalizing depth with
  | zero => exact fun _ _ _ _ _ _ _ _ _ _ _ _ => trivial
  | succ fuel ih =>
    intro frames st handlers traceback scene callee args depth_eq outer sound known start good
    subst depth_eq
    have begun : start = ⟨_, _⟩ :=
      congrArg (fun m => (⟨m, _⟩ : Situation)) Machine.callValue_running
    have quiet : (∀ name, callee ≠ .native name) → scene.env.nativeCalls callee args = [] := by
      cases callee <;> simp [Env.nativeCalls]
    cases callee with
    | function r =>
      have chunk := sound.heap.chunk known
      obtain ⟨sourced, compiles⟩ := traced _ chunk
      rw [quiet nofun, List.append_nil] at begun
      exact function_shown sourced compiles chunk.arity r args outer (ih _) begun good
    | native name =>
      rw [begun]
      exact native_shown name args
    | null | bool _ | num _ | str _ | list _ | object _ | error _ =>
      rw [begun, quiet nofun, List.append_nil, List.append_cons]
      exact error_shown scene _ _

end Eval

/-- What a machine ends with when an evaluation ends so. -/
def Ending.control? : Ending (Except Value Value) → Option (Control × Scene)
  | .ends (.ok v) scene => some (.returned v, scene)
  | .ends (.error v) scene => some (.thrown v, scene)
  | .parks request scene => some (.suspended request, scene)
  | .endless | .timeout => none

def Situation.start (limit : Nat) (env : Env) (callee : Value) (args : List Value) : Situation :=
  ⟨(Machine.new limit).startCall env callee args, env.nativeCalls callee args⟩

section

variable {limit n : Nat} {env : Env} {callee : Value} {args : List Value}
  {x : Ending (Except Value Value)} {s : Situation}

theorem Situation.start_good (sound : env.Sound Chunk.Sourced)
    (known : ∀ v ∈ callee :: args, v.Known env.heap) :
    (Situation.start limit env callee args).Good limit :=
  Machine.startCall_good someLayout_verified sound limit known

theorem Situation.start_shown {origin : Chunk → Routine} (traced : Origin origin) (fuel : Nat)
    (sound : env.Sound Chunk.Sourced) (known : ∀ v ∈ callee :: args, v.Known env.heap) :
    (Eval.call origin limit fuel 0 callee args ⟨env, []⟩).Shown fuel
      (Situation.start limit env callee args) (Machine.Answered [] [] [] none limit) := by
  have begun : Situation.start limit env callee args =
      ⟨(Machine.running [] (args.reverse ++ [callee]) [] none limit).callValue env args.length,
        [] ++ env.nativeCalls callee args⟩ := by
    simp [Situation.start, Machine.startCall, Machine.new, Machine.running, pile]
  have good := @Situation.start_good limit _ _ _ sound known
  rw [begun] at good ⊢
  exact Eval.call_shown traced limit fuel 0 [] [] [] none ⟨env, []⟩ callee args rfl (by simp) sound
    (known _ List.mem_cons_self) good

theorem Ending.Shown.ends (h : x.Shown n s (Machine.Answered [] [] [] none limit))
    (good : s.Good limit) {control : Control} {scene : Scene}
    (ends : x.control? = some (control, scene)) : s.Ends control scene.env scene.calls := by
  refine (good.ends_iff _ _ _).mpr ?_
  cases x with
  | ends r scene' =>
    obtain ⟨t, comes, reached⟩ := h
    cases r with
    | ok v =>
      cases ends
      rw [Machine.Answered, Machine.pushResult_nil] at reached
      exact ⟨t, comes, by simp [reached]⟩
    | error v =>
      cases ends
      obtain ⟨above, upper, thrown⟩ := reached
      rw [Machine.throwValue_nil] at thrown
      exact ⟨t, comes, by simp [thrown]⟩
  | parks request scene' =>
    cases ends
    exact h
  | endless | timeout => cases ends

/-- If an evaluation is cut short or needs what has no end, no run of as many steps ends. -/
theorem Ending.Shown.lasts {P : Except Value Value → Scene → Situation → Prop}
    (h : x.Shown (n + 1) s P) (unended : x.control? = none) :
    Machine.runFrom n s.toStepped = none := by
  cases x with
  | ends r scene => cases r <;> cases unended
  | parks request scene => cases unended
  | endless =>
    obtain ⟨t, comes, lost⟩ := h
    exact comes.diverges lost n
  | timeout => exact Situation.Long.runFrom h

theorem Situation.Good.ends_unique (good : s.Good limit) {control control' : Control}
    {env env' : Env} {calls calls' : List NativeCall} (h : s.Ends control env calls)
    (k : s.Ends control' env' calls') : control = control' ∧ env = env' ∧ calls = calls' := by
  obtain ⟨t, comes, done, rfl, rfl, rfl⟩ := (good.ends_iff _ _ _).mp h
  obtain ⟨u, comes', done', rfl, rfl, rfl⟩ := (good.ends_iff _ _ _).mp k
  obtain rfl := comes.unique comes' (by simp [done]) (by simp [done'])
  exact ⟨rfl, rfl, rfl⟩

theorem Situation.start_ends {steps : Nat} {halt : Halt}
    (runs : Machine.runFrom steps ((Machine.new limit).startCall env callee args) = some halt)
    (faultless : halt.fault = none) :
    ∃ calls, (Situation.start limit env callee args).Ends halt.machine.control halt.env calls :=
  ⟨_, steps, halt, runs, faultless, rfl, rfl, rfl⟩

end

/-- A call on the machine ends as the evaluation of what is called ends, with the same globals,
heap and calls of natives, and neither ends if the other does not. -/
theorem compiled_code_evaluates {origin : Chunk → Routine} (traced : Origin origin) (limit : Nat)
    {env : Env} (sound : env.Sound Chunk.Sourced) {callee : Value} {args : List Value}
    (known : ∀ v ∈ callee :: args, v.Known env.heap) :
    let evaluate (fuel : Nat) := (Eval.call origin limit fuel 0 callee args ⟨env, []⟩).control?
    let start := Situation.start limit env callee args
    (∀ control env' calls, start.Ends control env' calls ↔
      ∃ fuel, evaluate fuel = some (control, ⟨env', calls⟩)) ∧
    (start.Diverges ↔ ∀ fuel, evaluate fuel = none) := by
  intro evaluate start
  have good : start.Good limit := Situation.start_good sound known
  have shown (fuel : Nat) := @Situation.start_shown limit _ _ _ _ traced fuel sound known
  refine ⟨fun control env' calls => ⟨fun ends => ?_, fun ⟨fuel, evaluates⟩ => ?_⟩,
    fun diverges fuel => ?_, fun never fuel => (shown (fuel + 1)).lasts (never (fuel + 1))⟩
  · obtain ⟨fuel, halt, runs, -⟩ := id ends
    cases evaluates : evaluate (fuel + 1) with
    | none =>
      have lasts := (shown (fuel + 1)).lasts evaluates
      rw [runs] at lasts
      cases lasts
    | some outcome =>
      obtain ⟨rfl, rfl, rfl⟩ := good.ends_unique ends ((shown (fuel + 1)).ends good evaluates)
      exact ⟨fuel + 1, evaluates⟩
  · exact (shown fuel).ends good evaluates
  · cases evaluates : evaluate fuel with
    | none => rfl
    | some outcome =>
      obtain ⟨steps, halt, runs, -⟩ := (shown fuel).ends good evaluates
      rw [diverges steps] at runs
      cases runs

def leavingText : String :=
  "function f() { let n = 0; try { while (true) { throw 1; } } catch (e) { n = e; } return n; }"

/-- What the machine returns is what the function evaluates to. -/
theorem compiled_code_evaluates_leaving : ∃ origin f, Origin origin ∧
    origin ((functionsOf "leave.cds" leavingText).headD default) = Routine.ofDecl "leave.cds" f ∧
    (Script.parse leavingText).toOption.map (·.functions) = some [f] ∧
    ∃ fuel scene, (Eval.call origin defaultMaxCallDepth fuel 0 (.function ⟨0⟩) []
      ⟨.ofFunctions (functionsOf "leave.cds" leavingText), []⟩).control? =
        some (.returned (.num (.ofNat 1)), scene) := by
  have facts : functionsOf "leave.cds" leavingText ≠ [] ∧
      (∀ c ∈ functionsOf "leave.cds" leavingText, c.arity < Nat.pow 2 63) ∧
      ((Script.parse leavingText).toOption.map fun s => s.functions.length) = some 1 ∧
      (runCall "leave.cds" leavingText [] 50).map (fun halt => (halt.fault, halt.machine.control)) =
        some (none, .returned (.num (.ofNat 1))) := by
    decide +kernel
  obtain ⟨declared, arity, single, returns⟩ := facts
  have sound : (Env.ofFunctions (functionsOf "leave.cds" leavingText)).Sound Chunk.Sourced :=
    Env.ofFunctions_sound fun c mem => functionsOf_sourced mem (arity c mem)
  have known : ∀ v ∈ [Value.function ⟨0⟩],
      v.Known (Env.ofFunctions (functionsOf "leave.cds" leavingText)).heap := by
    simpa [Value.Known, Env.ofFunctions_chunks, List.length_pos_iff] using declared
  cases parsed : Script.parse leavingText with
  | error e =>
    rw [parsed] at single
    cases single
  | ok script =>
    rw [parsed] at single
    obtain ⟨f, functions⟩ := List.length_eq_one_iff.mp (Option.some.inj single)
    obtain ⟨sourced, compiles⟩ := functionsOf_compiles parsed declared
    rw [functions] at sourced compiles
    obtain ⟨halt, runs, ends⟩ := Option.map_eq_some_iff.mp returns
    simp only [Prod.mk.injEq] at ends
    rw [runCall] at runs
    generalize functionsOf "leave.cds" leavingText = chunks at *
    generalize 50 = steps at runs
    obtain ⟨calls, ended⟩ := Situation.start_ends runs ends.1
    rw [ends.2] at ended
    cases compiles with
    | @cons _ chunk _ _ compiles none_left =>
      obtain ⟨origin, traced, same⟩ := exists_origin (sourced f List.mem_cons_self) compiles
      obtain ⟨fuel, evaluates⟩ := ((compiled_code_evaluates traced defaultMaxCallDepth sound
        known).1 _ _ _).mp ended
      exact ⟨origin, f, traced, same, congrArg some functions, fuel, _, evaluates⟩

end FrameScript
