import FrameScript.Proofs.Machine.Isolation

/-!
# Calls from beginning to end

A function that is called leaves the caller's stack without callee and arguments,
and with one result. A machine that has finished has nothing left.
-/

namespace FrameScript

variable {layout : Chunk → List Point} {limit : Nat} {m : Machine} {env : Env}

namespace Machine

variable {frames : List Frame} {st : List Value} {handlers : List Handler}
  {traceback : Option Traceback}

theorem throwValue_frames (v : Value) :
    ((running frames st handlers traceback limit).throwValue env v).machine.frames.length ≤
      frames.length := by
  cases handlers with
  | nil => exact Nat.zero_le _
  | cons handler rest =>
    by_cases lost : handler.frameDepth = 0 ∨ frames.length < handler.frameDepth
    · rw [throwValue_lost lost]
      exact Nat.le_refl _
    · rw [throwValue_cons lost]
      have fewer : (frames.drop (frames.length - handler.frameDepth)).length ≤ frames.length := by
        simp
      cases left : frames.drop (frames.length - handler.frameDepth) with
      | nil => exact Nat.zero_le _
      | cons frame others =>
        rw [left] at fewer
        exact fewer

theorem answer_frames (reply : NativeReply) :
    ((running frames st handlers traceback limit).answer env reply).machine.frames.length ≤
      frames.length := by
  unfold answer
  split
  · cases frames with
    | nil => exact Nat.le_refl _
    | cons frame callers =>
      rw [pushResult_cons]
      exact Nat.le_refl _
  · exact throwValue_frames _
  · split
    · exact Nat.le_refl _
    · exact throwValue_frames _
  · exact Nat.le_refl _

theorem callValue_enters (arity : ∀ r, (env.heap.chunk r).arity < Nat.pow 2 63)
    {args : List Value} {callee : Value}
    (entered : frames.length < ((running frames (args.reverse ++ callee :: st) handlers traceback
      limit).callValue env args.length).machine.frames.length) :
    ∃ chunk own, ((running frames (args.reverse ++ callee :: st) handlers traceback
      limit).callValue env args.length) =
        ⟨running (⟨chunk, 0, st.length + 1⟩ :: frames) (own ++ callee :: st) handlers traceback
          limit, env, .continue⟩ := by
  rw [callValue_running] at entered ⊢
  cases callee with
  | function r =>
    by_cases full : limit ≤ frames.length
    · simp only [enter_full full] at entered
      exact absurd (throwValue_frames _) (Nat.not_le_of_lt entered)
    · exact ⟨_, _, enter_room full (arity r)⟩
  | native name =>
    cases found : env.natives.get? name with
    | none =>
      simp only [callNative_missing found] at entered
      exact absurd (throwValue_frames _) (Nat.not_le_of_lt entered)
    | some native =>
      simp only [callNative_found found] at entered
      exact absurd (answer_frames _) (Nat.not_le_of_lt entered)
  | _ => exact absurd (throwValue_frames _) (Nat.not_le_of_lt entered)

end Machine

theorem Machine.Sound.effect (sound : env.Sound Chunk.Sourced) (s : m.Sound layout limit env.heap)
    (runs : m.isRunning) {f : Frame} {callers : List Frame} (frames : m.frames = f :: callers) :
    ∃ (s : Setting) (vs : List Value) (i : Instr) (e : Effect), m = s.machine f.pc vs ∧
      f = ⟨s.chunk, f.pc, s.below.length + 1⟩ ∧ s.callers = callers ∧
      s.chunk.code[f.pc]? = some i ∧ i.effect env (f.pc + 1) vs = some e := by
  obtain ⟨mframes, stack, handlers, control, traceback, bound⟩ := m
  obtain ⟨rfl, depth, st, rfl, known, disciplined⟩ := s
  subst frames
  cases control with
  | running =>
    cases disciplined with
    | @frame chunk pc sh vs below callee _ outer holding shape waits =>
      obtain ⟨i, fetched, flows⟩ := holding.verified.instr shape
      obtain ⟨e, does, -⟩ := Instr.effect_keeps sound (List.forall_mem_append.mp known).1
        holding.fits flows
      exact ⟨⟨chunk, callee, callers, below, handlersOf callers below sh.catches ++ outer,
        traceback, bound⟩, vs, i, e, rfl, rfl, rfl, fetched, does⟩
  | returned v | thrown v | suspended request => cases runs

/-- The stack of the caller, without callee and arguments and with the result. -/
theorem Reachable.return_step (h : Reachable limit m env) (runs : m.isRunning) {f g : Frame}
    {callers : List Frame} (frames : m.frames = g :: f :: callers)
    (returns : g.chunk.code[g.pc]? = some .ret) :
    ∃ v, m.stack.back? = some v ∧ (m.step env).machine.frames = f :: callers ∧
      (m.step env).machine.stack = (m.stack.take (g.base - 1)).push v := by
  obtain ⟨sound, env_sound⟩ := h.sound someLayout_verified
  obtain ⟨s, vs, i, e, machine, frame, callers', fetched, does⟩ :=
    sound.effect env_sound runs frames
  rw [frame, fetched] at returns
  cases returns
  cases vs with
  | nil => cases does
  | cons v rest =>
    cases does
    have below : (pile (s.stack (v :: rest))).take s.below.length = pile s.below := by
      simpa [Setting.stack] using pile_take_below (v :: rest ++ [s.callee]) s.below
    have base : g.base - 1 = s.below.length := by
      rw [frame]
      rfl
    have steps : (m.step env) = (Effect.returns v).apply s env (g.pc + 1) := by
      rw [machine]
      exact s.step_effect fetched rfl
    refine ⟨v, ?_, ?_, ?_⟩
    · rw [machine]
      exact s.back?_machine g.pc rest v
    · rw [steps, Effect.apply, callers', Machine.pushResult_cons]
      rfl
    · rw [steps, base, machine, s.machine_stack, below, Effect.apply, callers',
        Machine.pushResult_cons, pile_push]
      rfl

/-- A step that enters a function leaves what is below callee and arguments. -/
theorem Reachable.call_step (h : Reachable limit m env) (runs : m.isRunning) {f : Frame}
    {callers : List Frame} (frames : m.frames = f :: callers) {argc : Nat}
    (calls : f.chunk.code[f.pc]? = some (.call argc))
    (entered : callers.length + 1 < (m.step env).machine.frames.length) :
    ∃ chunk, (m.step env).machine.frames = ⟨chunk, 0, m.stack.size - (argc + 1) + 1⟩ ::
        { f with pc := f.pc + 1 } :: callers ∧
      (m.step env).machine.stack.take (m.stack.size - (argc + 1)) =
        m.stack.take (m.stack.size - (argc + 1)) ∧ (m.step env).verdict = .continue := by
  obtain ⟨sound, env_sound⟩ := h.sound someLayout_verified
  obtain ⟨s, vs, i, e, machine, frame, callers', fetched, does⟩ :=
    sound.effect env_sound runs frames
  rw [frame, fetched] at calls
  cases calls
  have steps : (m.step env) = e.apply s env (f.pc + 1) := by
    rw [machine]
    exact s.step_effect fetched does
  simp only [Instr.effect] at does
  split at does
  · rename_i callee rest split
    cases does
    have next : s.frames (f.pc + 1) = { f with pc := f.pc + 1 } :: callers := by
      rw [Setting.frames, callers']
      exact congrArg (· :: callers) (by rw [frame])
    have size : argc < vs.length := by
      refine Nat.lt_of_not_le fun short => ?_
      rw [List.drop_eq_nil_of_le short] at split
      cases split
    have stack : m.stack = pile ((vs.take argc ++ [callee]) ++ s.stack rest) := by
      rw [machine, s.machine_stack, Setting.stack, Setting.stack, List.append_assoc,
        List.singleton_append, ← List.cons_append, ← split, ← List.append_assoc,
        List.take_append_drop]
    have slot : m.stack.size - (argc + 1) = (s.stack rest).length := by
      rw [stack, pile_size]
      simp
      omega
    have deep : (s.frames (f.pc + 1)).length < (m.step env).machine.frames.length := by
      rw [next]
      exact entered
    rw [steps] at deep ⊢
    obtain ⟨chunk, own, enters⟩ := Machine.callValue_enters env_sound.heap.arity deep
    rw [Effect.apply, enters, slot, next]
    refine ⟨chunk, rfl, ?_, rfl⟩
    rw [stack, pile_take_below]
    simpa [Machine.running] using pile_take_below (own ++ [callee]) (s.stack rest)
  · cases does

/-- A machine that has finished has no frames, values or handlers. -/
theorem Reachable.finished (h : Reachable limit m env) (ends : m.isFinished) :
    m.frames = [] ∧ m.stack = #[] ∧ m.handlers = [] := by
  obtain ⟨⟨-, -, st, stack, -, disciplined⟩, -⟩ := h.sound someLayout_verified
  obtain ⟨mframes, mstack, handlers, control, traceback, bound⟩ := m
  cases control with
  | returned v | thrown v =>
    obtain ⟨frames, rfl, none_left⟩ := disciplined
    exact ⟨frames, stack, none_left⟩
  | running | suspended request => cases ends

/-- What a frame has at the statements of the routine that it executes. -/
def Machine.Ordered (m : Machine) : Prop :=
  ∀ above f callers, m.frames = above ++ f :: callers →
    (∃ r : Routine, r.Sourced ∧ r.Compiles f.chunk) ∧
    ∀ r : Routine, r.Sourced → r.Compiles f.chunk → ∀ p ∈ r.places, p.size ≠ 0 → f.pc = p.pc →
      m.Stands above callers f p

/-- While a function runs, the values below its callee stay as they are, and no step depends
on them. -/
def Machine.Isolated (m : Machine) (env : Env) : Prop :=
  ∀ above f callers, m.frames = above ++ f :: callers → ∀ m' env', Runs callers m env m' env' →
    m'.stack.take (f.base - 1) = m.stack.take (f.base - 1) ∧
    ∀ lower : Array Value, lower.size + 1 = f.base →
      Runs callers (m.withBelow lower) env (m'.withBelow lower) env' ∧
      ((m'.withBelow lower).step env').env = (m'.step env').env ∧
      ((m'.withBelow lower).step env').verdict = (m'.step env').verdict ∧
      ((m'.withBelow lower).step env').machine =
        { (m'.step env').machine with stack := ((m'.withBelow lower).step env').machine.stack }

/-- A function that is entered by a call and later returns leaves the stack without callee and
arguments, and with its result. -/
def Machine.Returning (m : Machine) (env : Env) : Prop :=
  ∀ f callers argc, m.isRunning → m.frames = f :: callers →
    f.chunk.code[f.pc]? = some (.call argc) →
    let waiting := { f with pc := f.pc + 1 } :: callers
    let called := m.step env
    waiting.length < called.machine.frames.length →
      ∀ m' env', Runs waiting called.machine called.env m' env' →
        ∀ g, m'.isRunning → m'.frames = g :: waiting → g.chunk.code[g.pc]? = some .ret →
          ∃ v, m'.stack.back? = some v ∧ (m'.step env').machine.frames = waiting ∧
            (m'.step env').machine.stack = (m.stack.take (m.stack.size - (argc + 1))).push v

theorem Reachable.ordered (h : Reachable limit m env) : m.Ordered := by
  intro above f callers frames
  refine ⟨(h.sourced frames).routine, fun r sourced compiles p mem some_code there => ?_⟩
  obtain ⟨layout, lays, verified⟩ := exists_layout sourced f.chunk compiles
  exact (h.sound verified).1.stands frames lays mem some_code there

theorem Reachable.isolated (h : Reachable limit m env) : m.Isolated env := by
  intro above f callers frames m' env' run
  obtain ⟨upper, unwritten, replaced⟩ := run.isolated h ⟨above, f, frames, rfl⟩
  refine ⟨unwritten, fun lower fits => ⟨replaced lower fits, ?_⟩⟩
  cases runs : m'.isRunning with
  | true =>
    obtain ⟨above', f', frames', base⟩ := upper
    obtain ⟨sound, env_sound⟩ := (run.reachable h).sound someLayout_verified
    exact sound.step_withBelow env_sound runs frames' (fits.trans base.symm)
  | false =>
    have still (m : Machine) (stopped : m.isRunning = false) : m.step env' = ⟨m, env', .done⟩ := by
      rw [Machine.step, stopped]
      rfl
    rw [still m' runs, still (m'.withBelow lower) runs]
    exact ⟨rfl, rfl, rfl⟩

theorem Reachable.returning (h : Reachable limit m env) : m.Returning env := by
  intro f callers argc runs frames calls waiting called entered m' env' run g runs' frames' ret
  obtain ⟨chunk, enters, below, continues⟩ := h.call_step runs frames calls entered
  have begun : Reachable limit called.machine called.env := h.step (by rw [continues]; nofun)
  obtain ⟨upper, unwritten, -⟩ := run.isolated begun ⟨[], _, enters, rfl⟩
  have base : g.base = m.stack.size - (argc + 1) + 1 := by
    obtain ⟨above, f', eq, base⟩ := upper
    rw [frames'] at eq
    have none_above : above = [] := by simpa using congrArg List.length eq
    subst none_above
    cases eq
    exact base
  obtain ⟨v, top, left, stack⟩ := (run.reachable begun).return_step runs' frames' ret
  refine ⟨v, top, left, ?_⟩
  rw [stack, base, Nat.add_sub_cancel, ← below]
  rw [Nat.add_sub_cancel] at unwritten
  rw [unwritten]

/-- At every statement a frame has its locals and handlers, callers are left alone, calls leave
one result, and nothing is left at the end. -/
theorem stack_discipline (limit : Nat) (m : Machine) (env : Env) (h : Reachable limit m env) :
    m.Ordered ∧ m.Isolated env ∧ m.Returning env ∧
      (m.isFinished → m.frames = [] ∧ m.stack = #[] ∧ m.handlers = []) :=
  ⟨h.ordered, h.isolated, h.returning, h.finished⟩

/-- A function that is suspended while it declares its first local. -/
def pausingText : String := "function f() { let x = suspend(); return x; }"

theorem pausing_call : ∃ halt, runCall "pause.cds" pausingText [] 20 = some halt ∧
    Reachable defaultMaxCallDepth halt.machine halt.env ∧ halt.machine.isSuspended ∧
    halt.machine.frames = [⟨(functionsOf "pause.cds" pausingText).headD default, 2, 1⟩] ∧
    halt.machine.stack.size = 1 := by
  have pauses : (runCall "pause.cds" pausingText [] 20).map (fun halt =>
      (halt.fault, halt.machine.isSuspended, halt.machine.frames, halt.machine.stack.size)) =
      some (none, true, [⟨(functionsOf "pause.cds" pausingText).headD default, 2, 1⟩], 1) := by
    decide +kernel
  obtain ⟨halt, runs, ends⟩ := Option.map_eq_some_iff.mp pauses
  simp only [Prod.mk.injEq] at ends
  obtain ⟨faultless, suspended, frames, size⟩ := ends
  have reachable := reachable_of_runCall (by decide +kernel) (by decide +kernel) (by simp) runs
    faultless
  exact ⟨halt, runs, reachable, suspended, frames, size⟩

/-- The discipline of a suspended call. -/
theorem stack_discipline_pausing : ∃ halt, runCall "pause.cds" pausingText [] 20 = some halt ∧
    halt.machine.isSuspended ∧ halt.machine.Ordered ∧ halt.machine.Isolated halt.env ∧
    halt.machine.Returning halt.env ∧ (halt.machine.isFinished → halt.machine.frames = [] ∧
      halt.machine.stack = #[] ∧ halt.machine.handlers = []) := by
  obtain ⟨halt, runs, reachable, suspended, -⟩ := pausing_call
  exact ⟨halt, runs, suspended, stack_discipline defaultMaxCallDepth _ _ reachable⟩

/-- A frame that waits for the value of a `let` is at the next statement already, and does not
have the local yet. -/
theorem waiting_frame_lacks_local : ¬ ∀ (m : Machine) (env : Env),
    Reachable defaultMaxCallDepth m env → ∀ above f callers, m.frames = above ++ f :: callers →
      ∀ r : Routine, r.Sourced → r.Compiles f.chunk → ∀ p ∈ r.places, p.size ≠ 0 → f.pc = p.pc →
        Holds p.site.scope.reverse (m.segment above f) := by
  intro all_held
  obtain ⟨halt, runs, reachable, suspended, frames, size⟩ := pausing_call
  have declared : ((Script.parse pausingText).toOption.map fun script => script.functions.map
      fun f => (Routine.ofDecl "pause.cds" f).places.map fun p =>
        (p.pc, p.site.scope.map (·.name), p.size)) = some [[(0, [], 2), (2, ["x"], 2)]] := by
    decide +kernel
  cases parsed : Script.parse pausingText with
  | error e =>
    rw [parsed] at declared
    cases declared
  | ok script =>
    rw [parsed] at declared
    have compiled : functionsOf "pause.cds" pausingText ≠ [] := by decide +kernel
    obtain ⟨sourced, compiles⟩ := functionsOf_compiles parsed compiled
    obtain ⟨f, rest, functions, places, none_else⟩ :=
      List.map_eq_cons_iff.mp (Option.some.inj declared)
    obtain ⟨first, others, split, -, next⟩ := List.map_eq_cons_iff.mp places
    obtain ⟨p, last, split', placed, -⟩ := List.map_eq_cons_iff.mp next
    rw [List.map_eq_nil_iff.mp none_else] at functions
    rw [functions] at sourced compiles
    simp only [Prod.mk.injEq] at placed
    obtain ⟨position, scope, long⟩ := placed
    have mem : p ∈ (Routine.ofDecl "pause.cds" f).places := by
      rw [split, split']
      exact List.mem_cons_of_mem _ List.mem_cons_self
    -- The only frame executes the chunk of the only function.
    generalize functionsOf "pause.cds" pausingText = chunks at compiles frames
    cases compiles with
    | @cons _ chunk _ _ compiles none_left =>
      have held := all_held halt.machine halt.env reachable [] _ [] frames _
        (sourced f List.mem_cons_self) compiles p mem (by rw [long]; decide) position.symm
      have locals : p.site.scope.reverse.length = 1 := by
        rw [List.length_reverse, ← List.length_map, scope]
        rfl
      have values : (halt.machine.segment [] ⟨chunk, 2, 1⟩).length = 0 := by
        simp only [Machine.segment, endBelow, List.getLast?_nil, List.length_drop,
          List.length_take, Array.length_toList, size]
        rfl
      have same := held.length_eq
      rw [locals] at same
      exact absurd (same.trans values) (by decide)

end FrameScript
