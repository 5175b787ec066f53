import FrameScript.Proofs.Machine.Locals

/-!
# Isolation of callers

A step does the same whatever the values below the callee are, and leaves them
as they are, as long as the called function has not returned.
-/

namespace FrameScript

/-- A frame with this base is still above the callers. -/
def Above (base : Nat) (callers frames : List Frame) : Prop :=
  ∃ upper f, frames = upper ++ f :: callers ∧ f.base = base

namespace Above

variable {base : Nat} {callers frames : List Frame}

theorem cons (h : Above base callers frames) (g : Frame) : Above base callers (g :: frames) := by
  obtain ⟨upper, f, rfl, same⟩ := h
  exact ⟨g :: upper, f, rfl, same⟩

theorem jump {g : Frame} (h : Above base callers (g :: frames)) (pc : Nat) :
    Above base callers ({ g with pc } :: frames) := by
  obtain ⟨upper, f, eq, same⟩ := h
  cases upper with
  | nil =>
    cases eq
    exact ⟨[], _, rfl, same⟩
  | cons first upper =>
    cases eq
    exact ⟨_ :: upper, f, rfl, same⟩

theorem drop (h : Above base callers frames) {n : Nat}
    (deep : callers.length < (frames.drop n).length) : Above base callers (frames.drop n) := by
  obtain ⟨upper, f, rfl, same⟩ := h
  have few : n ≤ upper.length := by
    simp at deep
    omega
  exact ⟨upper.drop n, f, List.drop_append_of_le_length few, same⟩

theorem deep (h : Above base callers frames) : callers.length < frames.length := by
  obtain ⟨upper, f, rfl, -⟩ := h
  simp
  omega

end Above

/-- Two steps that differ only in values below a callee: `old` in the first one and `new`
in the second. As long as the callee has not been left, these stay where they are. -/
structure Stepped.Alike (base : Nat) (callers : List Frame) (old new : List Value)
    (s s' : Stepped) : Prop where
  env : s'.env = s.env
  verdict : s'.verdict = s.verdict
  machine : s'.machine = { s.machine with stack := s'.machine.stack }
  stack : callers.length < s.machine.frames.length → Above base callers s.machine.frames ∧
    ∃ upper, s.machine.stack = pile (upper ++ old) ∧ s'.machine.stack = pile (upper ++ new)

/-- Handlers above a depth of frames keep at least so many values. -/
def Keep (depth count : Nat) (handlers : List Handler) : Prop :=
  ∀ h ∈ handlers, depth < h.frameDepth → count ≤ h.stackLength

theorem pile_take_above {upper below : List Value} {n : Nat} (keeps : below.length ≤ n) :
    (pile (upper ++ below)).take n =
      pile (upper.drop (upper.length + below.length - n) ++ below) := by
  have inside : upper.length + below.length - n ≤ upper.length := by omega
  rw [pile_take, List.length_append, List.drop_append_of_le_length inside]

namespace Machine

variable {base : Nat} {callers : List Frame} {old new : List Value} {frames : List Frame}
  {handlers : List Handler} {traceback : Option Traceback} {limit : Nat} {env : Env}

theorem alike_continue (above : Above base callers frames) (upper : List Value) :
    Stepped.Alike base callers old new
      ⟨running frames (upper ++ old) handlers traceback limit, env, .continue⟩
      ⟨running frames (upper ++ new) handlers traceback limit, env, .continue⟩ :=
  ⟨rfl, rfl, rfl, fun _ => ⟨above, upper, rfl, rfl⟩⟩

theorem throwValue_alike (same : old.length = new.length)
    (keep : Keep callers.length old.length handlers) (above : Above base callers frames)
    (upper : List Value) (v : Value) : Stepped.Alike base callers old new
      ((running frames (upper ++ old) handlers traceback limit).throwValue env v)
      ((running frames (upper ++ new) handlers traceback limit).throwValue env v) := by
  cases handlers with
  | nil => exact ⟨rfl, rfl, rfl, fun deep => absurd deep (Nat.not_lt_zero _)⟩
  | cons handler rest =>
    by_cases lost : handler.frameDepth = 0 ∨ frames.length < handler.frameDepth
    · rw [throwValue_lost lost, throwValue_lost lost]
      exact ⟨rfl, rfl, rfl, fun _ => ⟨above, upper, rfl, rfl⟩⟩
    · rw [throwValue_cons lost, throwValue_cons lost]
      have remaining : (frames.drop (frames.length - handler.frameDepth)).length =
          handler.frameDepth := by
        rw [List.length_drop]
        omega
      cases left : frames.drop (frames.length - handler.frameDepth) with
      | nil =>
        rw [left, List.length_nil] at remaining
        exact absurd (Or.inl remaining.symm) lost
      | cons frame rest =>
        refine ⟨rfl, rfl, rfl, fun deep => ?_⟩
        have deep' : callers.length < handler.frameDepth := by
          rw [← remaining, left]
          exact deep
        have above' := above.drop (remaining.symm ▸ deep')
        rw [left] at above'
        have keeps := keep handler List.mem_cons_self deep'
        have keeps' : new.length ≤ handler.stackLength := same ▸ keeps
        refine ⟨above'.jump handler.catchPc,
          v :: upper.drop (upper.length + old.length - handler.stackLength), ?_, ?_⟩
        · simp [jump, pile_take_above keeps]
        · simp [jump, pile_take_above keeps', same]

theorem throwInfo_alike (same : old.length = new.length)
    (keep : Keep callers.length old.length handlers) (above : Above base callers frames)
    (upper : List Value) (e : ErrorInfo) : Stepped.Alike base callers old new
      ((running frames (upper ++ old) handlers traceback limit).throwInfo env e)
      ((running frames (upper ++ new) handlers traceback limit).throwInfo env e) :=
  throwValue_alike same keep above upper (.error e)

theorem pushResult_alike (above : callers.length < frames.length → Above base callers frames)
    (upper : List Value) (v : Value) : Stepped.Alike base callers old new
    ((running frames (upper ++ old) handlers traceback limit).pushResult env v)
    ((running frames (upper ++ new) handlers traceback limit).pushResult env v) := by
  cases frames with
  | nil => exact ⟨rfl, rfl, rfl, fun deep => absurd deep (Nat.not_lt_zero _)⟩
  | cons frame rest =>
    rw [pushResult_cons, pushResult_cons]
    exact ⟨rfl, rfl, rfl, fun deep => ⟨above deep, v :: upper, rfl, rfl⟩⟩

theorem enter_alike (same : old.length = new.length)
    (keep : Keep callers.length old.length handlers) (above : Above base callers frames)
    (args : List Value) (callee : Value) (upper : List Value) {chunk : Chunk}
    (arity : chunk.arity < Nat.pow 2 63) : Stepped.Alike base callers old new
      ((running frames (args.reverse ++ callee :: (upper ++ old)) handlers traceback limit).enter
        env (upper ++ old).length chunk)
      ((running frames (args.reverse ++ callee :: (upper ++ new)) handlers traceback limit).enter
        env (upper ++ new).length chunk) := by
  by_cases full : limit ≤ frames.length
  · rw [enter_full full, enter_full full, ← List.cons_append, ← List.append_assoc,
      ← List.cons_append, ← List.append_assoc]
    exact throwInfo_alike same keep above _ _
  · have long : (upper ++ new).length = (upper ++ old).length := by simp [same]
    rw [enter_room full arity, enter_room full arity, long]
    simpa using alike_continue (above.cons _)
      ((fillArgs args chunk.arity).reverse ++ callee :: upper)

theorem answer_alike (same : old.length = new.length)
    (keep : Keep callers.length old.length handlers) (above : Above base callers frames)
    (upper : List Value) (reply : NativeReply) : Stepped.Alike base callers old new
      ((running frames (upper ++ old) handlers traceback limit).answer env reply)
      ((running frames (upper ++ new) handlers traceback limit).answer env reply) := by
  unfold answer
  cases reply.result with
  | value v => exact pushResult_alike (fun _ => above) upper v
  | throw e => exact throwInfo_alike same keep above upper e
  | suspend request =>
    dsimp only
    split
    · exact ⟨rfl, rfl, rfl, fun _ => ⟨above, upper, rfl, rfl⟩⟩
    · exact throwInfo_alike same keep above upper _
  | endless => exact ⟨rfl, rfl, rfl, fun _ => ⟨above, upper, rfl, rfl⟩⟩

theorem callValue_alike (same : old.length = new.length)
    (keep : Keep callers.length old.length handlers) (above : Above base callers frames)
    (arity : ∀ r, (env.heap.chunk r).arity < Nat.pow 2 63) (args : List Value) (callee : Value)
    (upper : List Value) : Stepped.Alike base callers old new
      ((running frames (args.reverse ++ callee :: (upper ++ old)) handlers traceback
        limit).callValue env args.length)
      ((running frames (args.reverse ++ callee :: (upper ++ new)) handlers traceback
        limit).callValue env args.length) := by
  have other (e : ErrorInfo) : Stepped.Alike base callers old new
      ((running frames (args.reverse ++ callee :: (upper ++ old)) handlers traceback
        limit).throwInfo env e)
      ((running frames (args.reverse ++ callee :: (upper ++ new)) handlers traceback
        limit).throwInfo env e) := by
    simpa using throwInfo_alike same keep above (args.reverse ++ callee :: upper) e
  rw [callValue_running, callValue_running]
  cases callee with
  | function r => exact enter_alike same keep above args _ upper (arity r)
  | native name =>
    cases found : env.natives.get? name with
    | none =>
      simp only [callNative_missing found]
      exact other _
    | some native =>
      simp only [callNative_found found]
      exact answer_alike same keep above upper _
  | _ => exact other _

end Machine

variable {base : Nat} {callers : List Frame} {old new : List Value} {env : Env}

/-- An effect does not depend on what is below a callee. -/
theorem Effect.apply_alike {s s' : Setting} {kept : List Value} (old_below : s.below = kept ++ old)
    (new_below : s' = { s with below := kept ++ new }) (same : old.length = new.length)
    (keep : Keep callers.length old.length s.handlers)
    (arity : ∀ r, (env.heap.chunk r).arity < Nat.pow 2 63) {pc : Nat}
    (above : ∀ pc, Above base callers (s.frames pc)) (e : Effect) :
    Stepped.Alike base callers old new (e.apply s env pc) (e.apply s' env pc) := by
  obtain ⟨chunk, callee, outer, below, handlers, traceback, limit⟩ := s
  subst new_below
  have long : (kept ++ old).length = (kept ++ new).length := by simp [same]
  change below = kept ++ old at old_below
  subst old_below
  have frames (pc : Nat) (hs : List Handler) :
      Setting.frames ⟨chunk, callee, outer, kept ++ new, hs, traceback, limit⟩ pc =
        Setting.frames ⟨chunk, callee, outer, kept ++ old, handlers, traceback, limit⟩ pc := by
    simp only [Setting.frames, long]
  have stack (vs lower : List Value) (hs : List Handler) :
      Setting.stack ⟨chunk, callee, outer, kept ++ lower, hs, traceback, limit⟩ vs =
        (vs ++ callee :: kept) ++ lower := by
    simp [Setting.stack]
  cases e with
  | goes env' pc' vs =>
    simp only [apply, Setting.machine, frames, stack]
    exact Machine.alike_continue (above pc') _
  | raises v vs =>
    simp only [apply, Setting.machine, frames, stack]
    exact Machine.throwValue_alike same keep (above pc) _ v
  | calls args f vs =>
    simp only [apply, frames, stack]
    exact Machine.callValue_alike same keep (above pc) arity args f _
  | returns v =>
    refine Machine.pushResult_alike (fun deep => ?_) kept v
    obtain ⟨upper, f, eq, same⟩ := above pc
    cases upper with
    | nil =>
      cases eq
      exact absurd deep (Nat.lt_irrefl _)
    | cons g upper =>
      cases eq
      exact ⟨upper, f, rfl, same⟩
  | installs target vs =>
    simp only [apply, Setting.machine, Setting.handler, ← long, frames, stack]
    exact Machine.alike_continue (above pc) _
  | removes vs =>
    simp only [apply, Setting.machine, frames, stack]
    exact Machine.alike_continue (above pc) _
  | lost vs =>
    simp only [apply, Setting.machine, frames, stack]
    exact ⟨rfl, rfl, rfl, fun _ => ⟨above pc, _, rfl, rfl⟩⟩

variable {layout : Chunk → List Point}

theorem Waits.split {above : List Frame} {f : Frame} {st : List Value} {handlers : List Handler}
    (w : Waits layout (above ++ f :: callers) st handlers) :
    ∃ kept lower, st = kept ++ lower ∧ f.base = lower.length + 1 ∧
      Keep callers.length lower.length handlers := by
  induction above generalizing st handlers with
  | nil =>
    cases w with
    | @frame chunk pc slots catches vs below callee _ _ holding shape guard outer =>
      refine ⟨vs ++ [callee], below, by simp, rfl, fun h mem deep => ?_⟩
      rcases List.mem_append.mp mem with mem | mem
      · obtain ⟨c, -, rfl⟩ := List.mem_map.mp mem
        simp only
        omega
      · exact absurd (outer.handlers_depth h mem) (Nat.not_le_of_lt deep)
  | cons g above ih =>
    cases w with
    | @frame chunk pc slots catches vs below callee _ _ holding shape guard outer =>
      obtain ⟨kept, lower, rfl, base, keep⟩ := ih outer
      refine ⟨vs ++ callee :: kept, lower, by simp, base, fun h mem deep => ?_⟩
      rcases List.mem_append.mp mem with mem | mem
      · obtain ⟨c, -, rfl⟩ := List.mem_map.mp mem
        simp only [List.length_append]
        omega
      · exact keep h mem deep

theorem Heap.Sound.arity {h : Heap} (sound : h.Sound Chunk.Sourced) (r : FunctionRef) :
    (h.chunk r).arity < Nat.pow 2 63 := by
  unfold Heap.chunk
  cases found : h.chunks[r.slot]? with
  | none => exact Nat.pow_pos (by decide)
  | some c => exact (sound.chunks c (Array.mem_of_getElem? found)).arity

/-- The machine with other values at the bottom of the stack. -/
def Machine.withBelow (m : Machine) (lower : Array Value) : Machine :=
  { m with stack := lower ++ m.stack.extract lower.size m.stack.size }

theorem Machine.withBelow_pile {m : Machine} (upper : List Value)
    (stack : m.stack = pile (upper ++ old)) (same : old.length = new.length) :
    m.withBelow (pile new) = { m with stack := pile (upper ++ new) } := by
  have upper : (pile (upper ++ old)).extract old.length (pile (upper ++ old)).size =
      pile upper := by
    simp [pile, List.take_of_length_le]
  rw [Machine.withBelow, pile_size, ← same, stack, upper]
  simp [pile]

theorem Active.split {above : List Frame} {f : Frame} {st : List Value} {handlers : List Handler}
    (active : Active layout (above ++ f :: callers) st handlers) (traceback : Option Traceback)
    (limit : Nat) : ∃ (s : Setting) (pc : Nat) (sh : Shape) (vs kept old : List Value),
      Machine.running (above ++ f :: callers) st handlers traceback limit = s.machine pc vs ∧
      st = s.stack vs ∧ Holding layout s.chunk sh vs ∧ ShapeAt (layout s.chunk) pc sh ∧
      s.below = kept ++ old ∧ f.base = old.length + 1 ∧
      Keep callers.length old.length s.handlers ∧ ∀ pc, Above f.base callers (s.frames pc) := by
  cases above with
  | nil =>
    cases active with
    | @frame chunk pc sh vs below callee _ outer holding shape waits =>
      refine ⟨⟨chunk, callee, callers, below, handlersOf callers below sh.catches ++ outer,
        traceback, limit⟩, pc, sh, vs, [], below, rfl, rfl, holding, shape, rfl, rfl, ?_,
        fun pc => ⟨[], _, rfl, rfl⟩⟩
      intro h mem deep
      rcases List.mem_append.mp mem with mem | mem
      · obtain ⟨c, -, rfl⟩ := List.mem_map.mp mem
        simp only
        omega
      · exact absurd (waits.handlers_depth h mem) (Nat.not_le_of_lt deep)
  | cons g above =>
    cases active with
    | @frame chunk pc sh vs below callee _ outer holding shape waits =>
      obtain ⟨kept, lower, split, base, keep⟩ := waits.split
      refine ⟨⟨chunk, callee, above ++ f :: callers, below,
        handlersOf (above ++ f :: callers) below sh.catches ++ outer, traceback, limit⟩, pc, sh, vs,
        kept, lower, rfl, rfl, holding, shape, split, base, ?_, fun pc => ⟨_ :: above, f, rfl, rfl⟩⟩
      intro h mem deep
      rcases List.mem_append.mp mem with mem | mem
      · obtain ⟨c, -, rfl⟩ := List.mem_map.mp mem
        simp only [split, List.length_append]
        omega
      · exact keep h mem deep

/-- A step is the same whatever is below a callee that has not been left. -/
theorem Machine.Sound.step_alike {limit : Nat} {m : Machine} (sound : env.Sound Chunk.Sourced)
    (s : m.Sound layout limit env.heap) (runs : m.isRunning) {above : List Frame} {f : Frame}
    (frames : m.frames = above ++ f :: callers) :
    ∃ kept old, m.stack = pile (kept ++ old) ∧ f.base = old.length + 1 ∧
      ∀ new, old.length = new.length → Stepped.Alike f.base callers old new (m.step env)
        ((m.withBelow (pile new)).step env) := by
  obtain ⟨mframes, stack, handlers, control, traceback, bound⟩ := m
  obtain ⟨rfl, depth, st, rfl, known, disciplined⟩ := s
  subst frames
  cases control with
  | running =>
    obtain ⟨s, pc, sh, vs, kept, old, machine, rfl, holding, shape, below, base, keep, frames⟩ :=
      Active.split disciplined traceback bound
    have known' := (List.forall_mem_append.mp known).1
    obtain ⟨i, fetched, flows⟩ := holding.verified.instr shape
    obtain ⟨e, does, -⟩ := Instr.effect_keeps sound known' holding.fits flows
    have whole : s.stack vs = (vs ++ s.callee :: kept) ++ old := by simp [Setting.stack, below]
    refine ⟨vs ++ s.callee :: kept, old, by rw [whole], base, fun new same => ?_⟩
    change Stepped.Alike f.base callers old new
      ((Machine.running (above ++ f :: callers) (s.stack vs) handlers traceback bound).step env)
      (((Machine.running (above ++ f :: callers) (s.stack vs) handlers traceback bound).withBelow
        (pile new)).step env)
    have other : (s.machine pc vs).withBelow (pile new) =
        { s with below := kept ++ new }.machine pc vs := by
      rw [Machine.withBelow_pile (vs ++ s.callee :: kept) (congrArg pile whole) same]
      simp [Setting.machine, Machine.running, Setting.frames, Setting.stack, below, same]
    rw [machine, other, s.step_effect fetched does,
      Setting.step_effect { s with below := kept ++ new } fetched does]
    exact Effect.apply_alike below rfl same keep sound.heap.arity frames e
  | returned v | thrown v | suspended request => cases runs

/-- A step with other values below a callee does the same. -/
theorem Machine.Sound.step_withBelow {limit : Nat} {m : Machine} (sound : env.Sound Chunk.Sourced)
    (s : m.Sound layout limit env.heap) (runs : m.isRunning) {above : List Frame} {f : Frame}
    (frames : m.frames = above ++ f :: callers) {lower : Array Value}
    (fits : lower.size + 1 = f.base) :
    ((m.withBelow lower).step env).env = (m.step env).env ∧
      ((m.withBelow lower).step env).verdict = (m.step env).verdict ∧
      ((m.withBelow lower).step env).machine =
        { (m.step env).machine with stack := ((m.withBelow lower).step env).machine.stack } := by
  obtain ⟨kept, old, stack, base, alike⟩ := s.step_alike sound runs frames
  have same : old.length = lower.toList.reverse.length := by
    simp
    omega
  have alike := alike _ same
  rw [pile_toList] at alike
  exact ⟨alike.env, alike.verdict, alike.machine⟩

/-- And it leaves these values, as long as the callee has not been left. -/
theorem Machine.Sound.step_withBelow_stack {limit : Nat} {m : Machine}
    (sound : env.Sound Chunk.Sourced) (s : m.Sound layout limit env.heap) (runs : m.isRunning)
    {above : List Frame} {f : Frame} (frames : m.frames = above ++ f :: callers)
    {lower : Array Value} (fits : lower.size + 1 = f.base)
    (deep : callers.length < (m.step env).machine.frames.length) :
    ((m.withBelow lower).step env).machine = (m.step env).machine.withBelow lower := by
  obtain ⟨kept, old, stack, base, alike⟩ := s.step_alike sound runs frames
  have same : old.length = lower.toList.reverse.length := by
    simp
    omega
  have alike := alike _ same
  obtain ⟨-, kept', stack', stack''⟩ := alike.stack deep
  have replaced := Machine.withBelow_pile kept' stack' same
  rw [← stack'', ← alike.machine] at replaced
  rw [pile_toList] at replaced
  exact replaced.symm

/-- A callee above these frames runs: it takes steps without being left, is resumed, and
others change what is around it. -/
inductive Runs (callers : List Frame) (m : Machine) (env : Env) : Machine → Env → Prop
  | start : Runs callers m env m env
  | step {m' : Machine} {env' : Env} (before : Runs callers m env m' env') (runs : m'.isRunning)
    (ends : (m'.step env').verdict ≠ .lost)
    (deep : callers.length < (m'.step env').machine.frames.length) :
    Runs callers m env (m'.step env').machine (m'.step env').env
  | resume {m' next : Machine} {env' : Env} {v : Value} (before : Runs callers m env m' env')
    (known : v.Known env'.heap) (resumed : m'.resume? v = some next) :
    Runs callers m env next env'
  | meanwhile {m' : Machine} {env' after : Env} (before : Runs callers m env m' env')
    (sound : after.Sound Chunk.Sourced)
    (grown : env'.heap.chunks.size ≤ after.heap.chunks.size) : Runs callers m env m' after

theorem Runs.reachable {limit : Nat} {m m' : Machine} {env' : Env}
    (runs : Runs callers m env m' env')
    (h : Reachable limit m env) : Reachable limit m' env' := by
  induction runs with
  | start => exact h
  | step before runs ends deep ih => exact ih.step ends
  | resume before known resumed ih => exact ih.resume known resumed
  | meanwhile before sound grown ih => exact ih.meanwhile sound grown

theorem Machine.Sound.split {limit : Nat} {h : Heap} {m : Machine} (s : m.Sound layout limit h)
    (above : Above base callers m.frames) :
    ∃ kept old, m.stack = pile (kept ++ old) ∧ base = old.length + 1 := by
  obtain ⟨upper, f, frames, rfl⟩ := above
  obtain ⟨mframes, stack, handlers, control, traceback, bound⟩ := m
  obtain ⟨-, -, st, rfl, -, disciplined⟩ := s
  subst frames
  cases control with
  | running =>
    obtain ⟨s, pc, sh, vs, kept, old, -, rfl, -, -, below, base, -⟩ :=
      Active.split disciplined traceback bound
    exact ⟨vs ++ s.callee :: kept, old, by simp [Setting.stack, below], base⟩
  | suspended request =>
    obtain ⟨kept, old, rfl, base, -⟩ := Waits.split disciplined
    exact ⟨kept, old, rfl, base⟩
  | returned v | thrown v => exact absurd disciplined.1 (by simp)

theorem Machine.resume?_frames {m next : Machine} {v : Value} (frames : m.frames ≠ []) :
    m.resume? v = some next ↔
      m.isSuspended ∧ { m with control := .running, stack := m.stack.push v } = next := by
  obtain ⟨mframes, stack, handlers, control, traceback, bound⟩ := m
  cases mframes with
  | nil => exact absurd rfl frames
  | cons f rest => cases control <;> simp [resume?, isSuspended, deliver, push]

/-- A run of a callee leaves what is below it as it is, and would be the same above anything
else. -/
theorem Runs.isolated {limit : Nat} {m m' : Machine} {env' : Env}
    (runs : Runs callers m env m' env') (reachable : Reachable limit m env)
    (above : Above base callers m.frames) :
    Above base callers m'.frames ∧ m'.stack.take (base - 1) = m.stack.take (base - 1) ∧
      ∀ lower : Array Value, lower.size + 1 = base →
        Runs callers (m.withBelow lower) env (m'.withBelow lower) env' := by
  induction runs with
  | start => exact ⟨above, rfl, fun _ _ => .start⟩
  | @step m' env' before runs ends deep ih =>
    obtain ⟨above', unwritten, replaced⟩ := ih
    obtain ⟨upper, f, frames, rfl⟩ := above'
    obtain ⟨s, sound⟩ := (before.reachable reachable).sound someLayout_verified
    obtain ⟨kept, old, stack, base, alike⟩ := s.step_alike sound runs frames
    obtain ⟨above'', kept', stack', -⟩ := (alike old rfl).stack deep
    have size : f.base - 1 = old.length := by omega
    refine ⟨above'', ?_, fun lower fits => ?_⟩
    · rw [← unwritten, stack, stack', size, pile_take_below, pile_take_below]
    · obtain ⟨env_same, verdict, machine⟩ := s.step_withBelow sound runs frames fits
      have next := (replaced lower fits).step runs (by rw [verdict]; exact ends)
        (by rw [machine]; exact deep)
      rw [env_same] at next
      have whole := s.step_withBelow_stack sound runs frames fits deep
      rwa [whole] at next
  | @resume m' next env' v before known resumed ih =>
    obtain ⟨above', unwritten, replaced⟩ := ih
    obtain ⟨s, -⟩ := (before.reachable reachable).sound someLayout_verified
    obtain ⟨kept, old, stack, rfl⟩ := s.split above'
    have frames : m'.frames ≠ [] := List.ne_nil_of_length_pos (Nat.zero_lt_of_lt above'.deep)
    obtain ⟨suspended, rfl⟩ := (Machine.resume?_frames frames).mp resumed
    refine ⟨above', ?_, fun lower fits => (replaced lower fits).resume known ?_⟩
    · rw [← unwritten, stack, pile_push, Nat.add_sub_cancel, pile_take_below]
      exact pile_take_below (v :: kept) old
    · have same : old.length = lower.toList.reverse.length := by
        simp
        omega
      have frames' : (m'.withBelow lower).frames ≠ [] := frames
      refine (Machine.resume?_frames frames').mpr ⟨suspended, ?_⟩
      rw [← pile_toList lower, Machine.withBelow_pile kept stack same,
        Machine.withBelow_pile (v :: kept) (by rw [stack, pile_push, List.cons_append]) same]
      simp
  | meanwhile before sound grown ih =>
    obtain ⟨above', unwritten, replaced⟩ := ih
    exact ⟨above', unwritten, fun lower fits => (replaced lower fits).meanwhile sound grown⟩

end FrameScript
