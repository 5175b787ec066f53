import FrameScript.Proofs.Machine.Returns
import FrameScript.Proofs.Script.Origins

/-!
# Tracebacks

A machine has a traceback only if an error has escaped from it. The traceback has one entry for
each frame that was active, and every entry shows an operation of the text: that of the failed
instruction, or the call that the frame waits for.
-/

namespace FrameScript

open Script (Node lineAt)

/-- The frame waits for a call: its position is behind one. -/
def Frame.Calling (f : Frame) : Prop :=
  ∃ before argc, f.pc = before + 1 ∧ f.chunk.code[before]? = some (.call argc)

/-- The frame has just executed an instruction that is for an operation. -/
def Frame.Operating (f : Frame) : Prop :=
  ∃ before i, f.pc = before + 1 ∧ f.chunk.code[before]? = some i ∧ i.operates

theorem Frame.Calling.operating {f : Frame} (h : f.Calling) : f.Operating := by
  obtain ⟨before, argc, position, fetched⟩ := h
  exact ⟨before, .call argc, position, fetched, rfl⟩

/-- How a machine has come out of an instruction that these frames have executed. -/
def Machine.ComesFrom (frames : List Frame) (traceback : Option Traceback) (m : Machine) : Prop :=
  match m.control with
  | .running => m.traceback = traceback ∧ ∀ f ∈ m.frames.tail, f.Calling
  | .suspended _ => m.traceback = traceback ∧ ∀ f ∈ m.frames, f.Calling
  | .returned _ => m.traceback = traceback
  | .thrown _ => m.traceback = some (.ofFrames frames)

namespace Machine

variable {frames : List Frame} {st : List Value} {handlers : List Handler}
  {traceback : Option Traceback} {limit : Nat} {env : Env}

theorem running_comesFrom (tail : ∀ f ∈ frames.tail, f.Calling) (others : List Frame) :
    (running frames st handlers traceback limit).ComesFrom others traceback := ⟨rfl, tail⟩

theorem calling_tail (calling : ∀ f ∈ frames, f.Calling) : ∀ f ∈ frames.tail, f.Calling := by
  intro f mem
  exact calling f (List.mem_of_mem_tail mem)

/-- A raised error unwinds to a frame, or leaves a traceback of all of them. -/
theorem throwValue_comesFrom (tail : ∀ f ∈ frames.tail, f.Calling) (v : Value) :
    ((running frames st handlers traceback limit).throwValue env v).machine.ComesFrom frames
      traceback := by
  cases handlers with
  | nil =>
    rw [throwValue_nil]
    rfl
  | cons handler rest =>
    by_cases lost : handler.frameDepth = 0 ∨ frames.length < handler.frameDepth
    · rw [throwValue_lost lost]
      exact running_comesFrom tail frames
    · rw [throwValue_cons lost]
      have left : ∀ f ∈ (frames.drop (frames.length - handler.frameDepth)).tail, f.Calling := by
        intro f mem
        rw [List.tail_drop, ← List.drop_tail] at mem
        exact tail f (List.mem_of_mem_drop mem)
      unfold jump
      dsimp only
      split
      · rename_i frame callers eq
        rw [eq] at left
        exact ⟨rfl, left⟩
      · exact ⟨rfl, left⟩

theorem pushResult_comesFrom (tail : ∀ f ∈ frames.tail, f.Calling) (v : Value)
    (others : List Frame) :
    ((running frames st handlers traceback limit).pushResult env v).machine.ComesFrom others
      traceback := by
  cases frames with
  | nil =>
    rw [pushResult_nil]
    rfl
  | cons frame callers =>
    rw [pushResult_cons]
    exact running_comesFrom tail others

theorem answer_comesFrom (calling : ∀ f ∈ frames, f.Calling) (reply : NativeReply) :
    ((running frames st handlers traceback limit).answer env reply).machine.ComesFrom frames
      traceback := by
  have tail := calling_tail calling
  unfold answer
  split
  · exact pushResult_comesFrom tail _ frames
  · exact throwValue_comesFrom tail _
  · split
    · exact ⟨rfl, calling⟩
    · exact throwValue_comesFrom tail _
  · exact running_comesFrom tail frames

theorem callValue_comesFrom (calling : ∀ f ∈ frames, f.Calling)
    (arity : ∀ r, (env.heap.chunk r).arity < Nat.pow 2 63) (args : List Value) (callee : Value) :
    ((running frames (args.reverse ++ callee :: st) handlers traceback limit).callValue env
      args.length).machine.ComesFrom frames traceback := by
  have tail := calling_tail calling
  rw [callValue_running]
  cases callee with
  | function r =>
    dsimp only
    by_cases full : limit ≤ frames.length
    · rw [enter_full full]
      exact throwValue_comesFrom tail _
    · rw [enter_room full (arity r)]
      exact ⟨rfl, calling⟩
  | native name =>
    dsimp only
    cases found : env.natives.get? name with
    | none =>
      rw [callNative_missing found]
      exact throwValue_comesFrom tail _
    | some native =>
      rw [callNative_found found]
      exact answer_comesFrom calling _
  | _ => exact throwValue_comesFrom tail _

end Machine

namespace Effect

def fallible : Effect → Bool
  | raises _ _ | calls _ _ _ => true
  | _ => false

def quiet : Effect → Bool
  | calls _ _ _ => false
  | _ => true

theorem quiet_value (env : Env) (pc : Nat) (vs : List Value) (r : Except ErrorInfo Value) :
    (value env pc vs r).quiet = true := by
  cases r <;> rfl

theorem quiet_write (env : Env) (pc : Nat) (vs : List Value) (r : Except ErrorInfo Heap) :
    (write env pc vs r).quiet = true := by
  cases r <;> rfl

theorem quiet_round (env : Env) (pc index exit : Nat) (vs : List Value) (v : Value) (x : Number) :
    (round env pc index exit vs v x).quiet = true := by
  cases v with
  | list r =>
    rw [round]
    split <;> rfl
  | _ => rfl

end Effect

variable {env : Env} {pc : Nat} {vs : List Value} {e : Effect}

/-- Only an instruction that is for an operation can fail, and only a call calls. -/
theorem Instr.effect_kind {i : Instr} (h : i.effect env pc vs = some e) :
    (i.operates = true ∨ e.fallible = false) ∧ ((∃ argc, i = .call argc) ∨ e.quiet = true) := by
  cases i with
  | call argc => exact ⟨.inl rfl, .inl ⟨argc, rfl⟩⟩
  | push | jump | pushHandler | popHandler =>
    cases h
    exact ⟨.inr rfl, .inr rfl⟩
  | getLocal slot =>
    obtain ⟨v, -, rfl⟩ := Option.map_eq_some_iff.mp h
    exact ⟨.inl rfl, .inr rfl⟩
  | getGlobal name =>
    rw [effect] at h
    split at h <;> cases h <;> exact ⟨.inl rfl, .inr rfl⟩
  | popN n | makeList n | makeObject keys =>
    rw [effect] at h
    split at h <;> cases h
    exact ⟨.inr rfl, .inr rfl⟩
  | unary | getMember =>
    cases vs <;> cases h
    exact ⟨.inl rfl, .inr (Effect.quiet_value _ _ _ _)⟩
  | getIndex =>
    rcases vs with _ | ⟨index, _ | ⟨v, rest⟩⟩ <;> cases h
    exact ⟨.inl rfl, .inr (Effect.quiet_value _ _ _ _)⟩
  | setMember name =>
    rcases vs with _ | ⟨value, _ | ⟨v, rest⟩⟩ <;> cases h
    exact ⟨.inl rfl, .inr (Effect.quiet_write _ _ _ _)⟩
  | setIndex =>
    rcases vs with _ | ⟨value, _ | ⟨index, _ | ⟨v, rest⟩⟩⟩ <;> cases h
    exact ⟨.inl rfl, .inr (Effect.quiet_write _ _ _ _)⟩
  | binary op =>
    rcases vs with _ | ⟨right, _ | ⟨left, rest⟩⟩
    · cases h
    · cases h
    · rw [effect] at h
      split at h <;> cases h
      · exact ⟨.inl rfl, .inr (Effect.quiet_value _ _ _ _)⟩
      · exact ⟨.inl rfl, .inr rfl⟩
  | iterNext list index exit =>
    rw [effect] at h
    split at h <;> cases h
    exact ⟨.inl rfl, .inr (Effect.quiet_round _ _ _ _ _ _ _)⟩
  | setLocal slot =>
    cases vs with
    | nil => cases h
    | cons v rest =>
      rw [effect] at h
      split at h <;> cases h
      exact ⟨.inr rfl, .inr rfl⟩
  | jumpIfFalseKeep target | jumpIfTrueKeep target =>
    cases vs with
    | nil => cases h
    | cons v rest =>
      cases h
      split <;> exact ⟨.inr rfl, .inr rfl⟩
  | throw =>
    cases vs <;> cases h
    exact ⟨.inl rfl, .inr rfl⟩
  | pop | setGlobal | jumpIfFalse | ret =>
    cases vs <;> cases h
    exact ⟨.inr rfl, .inr rfl⟩

/-- What comes out of an effect, if the callers wait for calls and so does the frame itself
where the effect is one. -/
theorem Effect.apply_comesFrom {s : Setting} (waiting : ∀ f ∈ s.callers, f.Calling)
    (own : e.quiet = false → ∀ f ∈ s.frames pc, f.Calling)
    (arity : ∀ r, (env.heap.chunk r).arity < Nat.pow 2 63) :
    (e.apply s env pc).machine.ComesFrom (s.frames pc) s.traceback := by
  cases e with
  | goes env' target vs => exact ⟨rfl, waiting⟩
  | raises v vs =>
    have tail : ∀ f ∈ (s.frames pc).tail, f.Calling := waiting
    exact Machine.throwValue_comesFrom tail v
  | calls args callee vs => exact Machine.callValue_comesFrom (own rfl) arity args callee
  | returns v => exact Machine.pushResult_comesFrom (Machine.calling_tail waiting) v _
  | installs target vs | removes vs | lost vs => exact ⟨rfl, waiting⟩

theorem Effect.fallible_of_thrown {s : Setting} {v : Value}
    (thrown : (e.apply s env pc).machine.control = .thrown v) : e.fallible := by
  cases e with
  | raises | calls => rfl
  | returns w =>
    rw [apply] at thrown
    cases callers : s.callers with
    | nil =>
      rw [callers, Machine.pushResult_nil] at thrown
      cases thrown
    | cons frame others =>
      rw [callers, Machine.pushResult_cons] at thrown
      cases thrown
  | goes | installs | removes | lost => cases thrown

def Machine.waiting (m : Machine) : List Frame :=
  match m.control with
  | .running => m.frames.tail
  | _ => m.frames

/-- The frames in which a machine executes its next instruction, the innermost already past it. -/
def Machine.active (m : Machine) : List Frame :=
  match m.frames with
  | [] => []
  | frame :: callers => { frame with pc := frame.pc + 1 } :: callers

/-- A machine and its environment after a run, with the frames that were active in the last
instruction of the run. A call that ends at once has none. -/
inductive Machine.Ran (limit : Nat) : Machine → Env → List Frame → Prop
  | start {env : Env} {callee : Value} {args : List Value} (sound : env.Sound Chunk.Sourced)
    (known : ∀ v ∈ callee :: args, v.Known env.heap)
    (ends : ((Machine.new limit).startCall env callee args).verdict ≠ .lost) :
    Ran limit ((Machine.new limit).startCall env callee args).machine
      ((Machine.new limit).startCall env callee args).env []
  | step {m : Machine} {env : Env} {active : List Frame} (before : Ran limit m env active)
    (ends : (m.step env).verdict ≠ .lost) :
    Ran limit (m.step env).machine (m.step env).env (if m.isRunning then m.active else active)
  | resume {m m' : Machine} {env : Env} {active : List Frame} {v : Value}
    (before : Ran limit m env active) (known : v.Known env.heap)
    (resumed : m.resume? v = some m') : Ran limit m' env active
  | meanwhile {m : Machine} {env env' : Env} {active : List Frame}
    (before : Ran limit m env active) (sound : env'.Sound Chunk.Sourced)
    (grown : env.heap.chunks.size ≤ env'.heap.chunks.size) : Ran limit m env' active

variable {limit : Nat} {m : Machine} {active : List Frame}

theorem reachable_iff_ran : Reachable limit m env ↔ ∃ active, Machine.Ran limit m env active := by
  constructor
  · intro h
    induction h with
    | start sound known ends => exact ⟨[], .start sound known ends⟩
    | step before ends ih =>
      obtain ⟨active, ran⟩ := ih
      exact ⟨_, ran.step ends⟩
    | resume before known resumed ih =>
      obtain ⟨active, ran⟩ := ih
      exact ⟨active, ran.resume known resumed⟩
    | meanwhile before sound grown ih =>
      obtain ⟨active, ran⟩ := ih
      exact ⟨active, ran.meanwhile sound grown⟩
  · rintro ⟨active, ran⟩
    induction ran with
    | start sound known ends => exact .start sound known ends
    | step before ends ih => exact ih.step ends
    | resume before known resumed ih => exact ih.resume known resumed
    | meanwhile before sound grown ih => exact ih.meanwhile sound grown

/-- Waiting frames are behind their calls, and a traceback tells of the active frames. -/
structure Machine.Traced (active : List Frame) (m : Machine) : Prop where
  calling : ∀ f ∈ m.waiting, f.Calling
  untold : (∀ v, m.control ≠ .thrown v) → m.traceback = none
  told : ∀ v, m.control = .thrown v → m.traceback = some (.ofFrames active) ∧
    (∀ f ∈ active, f.chunk.Sourced ∧ f.Operating) ∧ ∀ f ∈ active.tail, f.Calling

theorem Machine.ComesFrom.traced (h : m.ComesFrom active none)
    (told : ∀ v, m.control = .thrown v →
      (∀ f ∈ active, f.chunk.Sourced ∧ f.Operating) ∧ ∀ f ∈ active.tail, f.Calling)
    (empty : m.isFinished → m.frames = []) : m.Traced active := by
  obtain ⟨mframes, stack, handlers, control, traceback, bound⟩ := m
  cases control with
  | running => exact ⟨h.2, fun _ => h.1, by simp⟩
  | suspended request => exact ⟨h.2, fun _ => h.1, by simp⟩
  | returned v =>
    refine ⟨?_, fun _ => h, by simp⟩
    rw [waiting, empty rfl]
    simp
  | thrown v =>
    refine ⟨?_, fun other => absurd rfl (other v), fun w _ => ⟨h, told v rfl⟩⟩
    rw [waiting, empty rfl]
    simp

theorem Reachable.running_frames (h : Reachable limit m env) (runs : m.isRunning) :
    ∃ f callers, m.frames = f :: callers := by
  obtain ⟨⟨-, -, st, -, -, disciplined⟩, -⟩ := h.sound someLayout_verified
  obtain ⟨mframes, stack, handlers, control, traceback, bound⟩ := m
  cases control with
  | running =>
    cases disciplined with
    | frame => exact ⟨_, _, rfl⟩
  | returned v | thrown v | suspended request => cases runs

theorem Machine.Traced.step (traced : m.Traced active) (h : Reachable limit m env)
    (runs : m.isRunning) (ends : (m.step env).verdict ≠ .lost) :
    (m.step env).machine.Traced m.active := by
  obtain ⟨f, callers, frames⟩ := h.running_frames runs
  obtain ⟨sound, env_sound⟩ := h.sound someLayout_verified
  obtain ⟨s, vs, i, e, machine, frame, rfl, fetched, does⟩ := sound.effect env_sound runs frames
  obtain ⟨operates, calls⟩ := i.effect_kind does
  have control : m.control = .running := by rw [machine]; rfl
  have behind : s.frames (f.pc + 1) = { f with pc := f.pc + 1 } :: s.callers := by
    rw [Setting.frames]
    exact congrArg (· :: s.callers) (by rw [frame])
  have chunk : s.chunk = f.chunk := by rw [frame]
  have waiting : ∀ g ∈ s.callers, g.Calling := by
    have calling := traced.calling
    rw [waiting, control, frames] at calling
    exact calling
  have own : e.quiet = false → ∀ g ∈ s.frames (f.pc + 1), g.Calling := by
    intro loud
    rcases calls with ⟨argc, rfl⟩ | quiet
    · rw [behind, List.forall_mem_cons]
      exact ⟨⟨f.pc, argc, rfl, chunk ▸ fetched⟩, waiting⟩
    · rw [quiet] at loud
      cases loud
  have steps : m.step env = e.apply s env (f.pc + 1) := by
    conv_lhs => rw [machine]
    exact s.step_effect fetched does
  have untold : s.traceback = none := by
    have none_yet := traced.untold (by rw [control]; simp)
    rw [machine] at none_yet
    exact none_yet
  have now : m.active = { f with pc := f.pc + 1 } :: s.callers := by
    rw [Machine.active, frames]
  have comes : (m.step env).machine.ComesFrom m.active none := by
    rw [steps, now, ← behind, ← untold]
    exact Effect.apply_comesFrom waiting own env_sound.heap.arity
  refine comes.traced ?_ fun ends' => ((h.step ends).finished ends').1
  intro v thrown
  rw [steps] at thrown
  have fails := Effect.fallible_of_thrown thrown
  rw [now]
  refine ⟨?_, waiting⟩
  intro g mem
  rcases List.mem_cons.mp mem with rfl | mem
  · have sourced : f.chunk.Sourced := h.sourced (frames.trans (List.nil_append _).symm)
    refine ⟨sourced, f.pc, i, rfl, chunk ▸ fetched, ?_⟩
    rcases operates with operates | never
    · exact operates
    · rw [never] at fails
      cases fails
  · obtain ⟨inner, outer, split⟩ := List.append_of_mem mem
    have listed : m.frames = (f :: inner) ++ g :: outer := by rw [frames, split]; rfl
    exact ⟨h.sourced listed, (waiting g mem).operating⟩

theorem Machine.Ran.traced (h : Machine.Ran limit m env active) : m.Traced active := by
  induction h with
  | @start env callee args sound known ends =>
    have begins : ((Machine.new limit).startCall env callee args) =
        (Machine.running [] (args.reverse ++ [callee]) [] none limit).callValue env
          args.length := by
      simp [Machine.startCall, Machine.new, Machine.running, pile]
    have comes : ((Machine.new limit).startCall env callee args).machine.ComesFrom [] none := by
      rw [begins]
      exact Machine.callValue_comesFrom (by simp) sound.heap.arity args callee
    refine comes.traced (by simp) ?_
    intro ends'
    exact ((Reachable.start sound known ends).finished ends').1
  | @step m env active before ends ih =>
    cases runs : m.isRunning with
    | true => exact ih.step (reachable_iff_ran.mpr ⟨active, before⟩) runs ends
    | false =>
      have still : m.step env = ⟨m, env, .done⟩ := by
        rw [Machine.step, runs]
        rfl
      rw [still]
      exact ih
  | @resume m m' env active v before known resumed ih =>
    obtain ⟨frames, stack, handlers, control, traceback, bound⟩ := m
    cases control with
    | suspended request =>
      have untold : traceback = none := ih.untold (by simp)
      cases resumed
      cases frames with
      | nil =>
        refine ⟨?_, fun _ => untold, by simp [Machine.deliver]⟩
        simp [Machine.waiting, Machine.deliver]
      | cons frame callers =>
        refine ⟨?_, fun _ => untold, by simp [Machine.deliver, Machine.push]⟩
        intro f mem
        exact ih.calling f (List.mem_cons_of_mem _ mem)
    | running | returned _ | thrown _ => cases resumed
  | meanwhile before sound grown ih => exact ih

/-- The line of the text that an operation shows: for a call that of its bracket, and otherwise
that on which the innermost statement around it begins. -/
def Operation.Shows (o : Operation) (text : List Char) (root : Node) (line : Nat) : Prop :=
  match o.kind with
  | .call callee args own => ∃ position, Expr.ArgumentsAt root callee args own position ∧
      text[position]? = some '(' ∧ line = lineAt text position
  | _ => ∃ position, o.owner.BeginsAt root position ∧ line = lineAt text position

theorem Operation.StandsIn.shows {o : Operation} {text : List Char} {root : Node}
    (h : o.StandsIn text root) : o.Shows text root o.line := by
  obtain ⟨owner, kind⟩ := o
  cases kind with
  | call callee args line =>
    obtain ⟨position, arguments, opens, shown⟩ := h.call callee args line rfl
    exact ⟨position, arguments, opens, shown⟩
  | _ => exact h.owner

def OperationKind.isCall : OperationKind → Bool
  | call _ _ _ => true
  | _ => false

/-- The entry shows, for a frame behind an instruction, the operation of that instruction in any
text that the frame's chunk is compiled from. -/
def TraceFrame.PointsAt (t : TraceFrame) (f : Frame) (outer : Bool) : Prop :=
  t.function = f.chunk.name ∧ t.source = f.chunk.source ∧
    ∀ name text compiled, compileSource name text = .ok compiled → f.chunk ∈ compiled.chunks →
      ∃ attempts root script r before i o,
        Script.matchRule .program text.toList = (attempts, some root) ∧
        Script.parse text = .ok script ∧ r ∈ script.routines name ∧ r.Compiles f.chunk ∧
        f.pc = before + 1 ∧ f.chunk.code[before]? = some i ∧
        r.operationAt? f.chunk before = some o ∧ o.kind.Does i ∧
        (outer → o.kind.isCall) ∧ o.Shows text.toList root t.line

theorem OperationKind.isCall_of_does {kind : OperationKind} {argc : Nat}
    (h : kind.Does (.call argc)) : kind.isCall := by
  cases kind with
  | call => rfl
  | load name => rcases h with h | ⟨slot, h⟩ <;> cases h
  | round =>
    obtain ⟨list, index, exit, h⟩ := h
    cases h
  | _ => cases h

/-- The line table leads every instruction of an operation back to the text. -/
theorem Frame.Operating.points {f : Frame} (h : f.Operating) {outer : Bool}
    (calling : outer → f.Calling) : (TraceFrame.ofFrame f).PointsAt f outer := by
  obtain ⟨before, i, position, fetched, operates⟩ := h
  refine ⟨rfl, rfl, ?_⟩
  intro name text compiled done mem
  unfold compileSource at done
  split at done
  · cases done
  · rename_i script parsed
    split at done
    · cases done
    · rename_i compiled' compiles
      cases done
      obtain ⟨r, declared, code, traces⟩ := compile_traces compiles f.chunk mem
      obtain ⟨o, own, does, line⟩ := traces.line fetched operates
      obtain ⟨attempts, root, matched, read⟩ := Script.parse_read parsed
      have stands := Script.routine_stands (Script.matchRule_placed matched) read declared
        (Routine.operationAt?_mem own)
      refine ⟨attempts, root, script, r, before, i, o, matched, parsed, declared, code, position,
        fetched, own, does, ?_, ?_⟩
      · intro is_outer
        obtain ⟨before', argc, position', fetched'⟩ := calling is_outer
        cases Nat.succ.inj (position.symm.trans position')
        rw [fetched] at fetched'
        cases fetched'
        exact OperationKind.isCall_of_does does
      · have shown : (TraceFrame.ofFrame f).line = o.line := by
          rw [← line, TraceFrame.ofFrame, position]
          rfl
        rw [shown]
        exact stands.shows

/-- An error that escapes leaves a traceback with an entry for each frame that was active at the
throw, the innermost first. Every entry shows the operation that its frame has executed last, and
all but the first a call. Without an escaped error there is no traceback. -/
theorem errors_point_back (limit : Nat) (m : Machine) (env : Env) (active : List Frame)
    (h : Machine.Ran limit m env active) :
    ((∀ v, m.control ≠ .thrown v) → m.traceback = none) ∧
    ∀ v, m.control = .thrown v → ∃ entries, m.traceback = some ⟨entries⟩ ∧
      entries.length = active.length ∧
      ∀ (k : Nat) (f : Frame) (t : TraceFrame), active[k]? = some f → entries[k]? = some t →
        f.chunk.Sourced ∧ t.PointsAt f (k != 0) := by
  refine ⟨h.traced.untold, ?_⟩
  intro v thrown
  obtain ⟨traceback, operating, calling⟩ := h.traced.told v thrown
  refine ⟨active.map TraceFrame.ofFrame, traceback, List.length_map _, ?_⟩
  intro k f t listed shown
  obtain ⟨sourced, operates⟩ := operating f (List.mem_of_getElem? listed)
  rw [List.getElem?_map, listed] at shown
  cases shown
  refine ⟨sourced, operates.points ?_⟩
  intro outer
  cases k with
  | zero => cases outer
  | succ k =>
    have later : active.tail[k]? = some f := by rw [List.getElem?_tail]; exact listed
    exact calling f (List.mem_of_getElem? later)

/-- A sum fails in a call that begins on another line, after an error that was caught. -/
def failingText : String :=
  "function f(g) \x7b
  try \x7b g(null) \x7d catch (e) \x7b\x7d
  return [0,
    g([g(1)])]
\x7d
function g(x) \x7b return x
  + 1 \x7d"

theorem failingText_arities : (functionsOf "sum.cds" failingText).map (·.arity) = [1, 1] := by
  decide +kernel

/-- Both calls are active when the sum fails. Their traceback shows the line on which the statement
of the sum begins, and that of the bracket of the outer call. -/
theorem errors_point_back_over_lines : ∃ halt active,
    runCall "sum.cds" failingText [.function ⟨1⟩] 60 = some halt ∧
    halt.machine.control = .thrown (.error ⟨ErrorCode.typeError,
      "attempt to add a list and a number value"⟩) ∧
    halt.machine.traceback = some ⟨[⟨"g", "sum.cds", 6⟩, ⟨"f", "sum.cds", 4⟩]⟩ ∧
    Machine.Ran defaultMaxCallDepth halt.machine halt.env active ∧
    active.map (·.chunk.name) = ["g", "f"] ∧
    ((∀ v, halt.machine.control ≠ .thrown v) → halt.machine.traceback = none) ∧
    ∀ v, halt.machine.control = .thrown v → ∃ entries,
      halt.machine.traceback = some ⟨entries⟩ ∧ entries.length = active.length ∧
      ∀ (k : Nat) (f : Frame) (t : TraceFrame), active[k]? = some f → entries[k]? = some t →
        f.chunk.Sourced ∧ t.PointsAt f (k != 0) := by
  have fails : (runCall "sum.cds" failingText [.function ⟨1⟩] 60).map (fun halt =>
      (halt.fault, halt.machine.control, halt.machine.traceback)) =
      some (none, .thrown (.error ⟨ErrorCode.typeError,
        "attempt to add a list and a number value"⟩),
        some ⟨[⟨"g", "sum.cds", 6⟩, ⟨"f", "sum.cds", 4⟩]⟩) := by
    decide +kernel
  obtain ⟨halt, runs, ends⟩ := Option.map_eq_some_iff.mp fails
  simp only [Prod.mk.injEq] at ends
  obtain ⟨faultless, thrown, traceback⟩ := ends
  have two : (functionsOf "sum.cds" failingText).length = 2 := by
    rw [← List.length_map, failingText_arities]
    rfl
  have declared : functionsOf "sum.cds" failingText ≠ [] := by
    rw [← List.length_pos_iff, two]
    decide
  have small : ∀ c ∈ functionsOf "sum.cds" failingText, c.arity < Nat.pow 2 63 := by
    rw [← List.forall_mem_map (f := Chunk.arity) (P := (· < Nat.pow 2 63)), failingText_arities]
    decide
  have known : ∀ v ∈ [Value.function ⟨1⟩],
      v.Known (Env.ofFunctions (functionsOf "sum.cds" failingText)).heap := by
    simp [Value.Known, Env.ofFunctions_chunks, two]
  have reachable := reachable_of_runCall declared small known runs faultless
  obtain ⟨active, ran⟩ := reachable_iff_ran.mp reachable
  have back := errors_point_back defaultMaxCallDepth _ _ active ran
  refine ⟨halt, active, runs, thrown, traceback, ran, ?_, back⟩
  obtain ⟨entries, told, length, points⟩ := back.2 _ thrown
  cases told.symm.trans traceback
  obtain ⟨inner, outer, rfl⟩ := List.length_eq_two.mp length.symm
  have names := (points 0 inner _ rfl rfl).2.1
  have names' := (points 1 outer _ rfl rfl).2.1
  rw [List.map_cons, List.map_cons, ← names, ← names']
  rfl

end FrameScript
