import FrameScript.Proofs.Code.Flow
import FrameScript.Proofs.Machine.Calls
import FrameScript.Proofs.Value.Known
import Mathlib.Data.List.Forall2

/-!
# The discipline of stack and handlers

A machine keeps the discipline of a layout if every frame holds exactly the
slots that the layout has at its position, and has installed exactly the
handlers there. Frames below the innermost one wait for the result of a call.
-/

namespace FrameScript

def SlotKind.Holds : SlotKind → Value → Prop
  | .plain, _ => True
  | .position, v => ∃ x, v = .num x

/-- The values, the latest first, are held in the slots. -/
abbrev Fits (slots : List SlotKind) (vs : List Value) : Prop :=
  List.Forall₂ SlotKind.Holds slots vs

/-- The chunk has the code of a layout in which everything flows. -/
structure Verified (code : List Point) (chunk : Chunk) : Prop where
  instrs : chunk.code.toList = code.map (·.instr)
  flows : Flowing code 0 code
  entry : ShapeAt code 0 ⟨List.replicate chunk.arity .plain, []⟩
  /-- A chunk with more parameters has no room in memory. -/
  arity : chunk.arity < Nat.pow 2 63

/-- Every handler goes on where the layout has its slots, the raised value and the handlers
around it. -/
def Lands (code : List Point) : List Catch → Prop
  | [] => True
  | c :: outer => ShapeAt code c.target ⟨.plain :: c.slots, outer⟩ ∧ Lands code outer

/-- The handlers of a frame above these frames and values. -/
def handlersOf (callers : List Frame) (below : List Value) (catches : List Catch) :
    List Handler :=
  catches.map fun c => ⟨callers.length + 1, below.length + 1 + c.slots.length, c.target⟩

variable (layout : Chunk → List Point)

/-- A frame has a shape: these values, and handlers that land. -/
structure Holding (chunk : Chunk) (sh : Shape) (vs : List Value) : Prop where
  verified : Verified (layout chunk) chunk
  fits : Fits sh.slots vs
  lands : Lands (layout chunk) sh.catches

/-- Frames that wait for the result of a call, with their stack and handlers. -/
inductive Waits : List Frame → List Value → List Handler → Prop
  | bottom : Waits [] [] []
  | frame {chunk : Chunk} {pc : Nat} {slots : List SlotKind} {catches : List Catch}
    {vs below : List Value} {callee : Value} {callers : List Frame} {handlers : List Handler}
    (holding : Holding layout chunk ⟨slots, catches⟩ vs)
    (shape : ShapeAt (layout chunk) pc ⟨.plain :: slots, catches⟩)
    (guard : Guards catches slots) (outer : Waits callers below handlers) :
    Waits (⟨chunk, pc, below.length + 1⟩ :: callers) (vs ++ callee :: below)
      (handlersOf callers below catches ++ handlers)

/-- Frames of which the innermost one is about to execute an instruction. -/
inductive Active : List Frame → List Value → List Handler → Prop
  | frame {chunk : Chunk} {pc : Nat} {sh : Shape} {vs below : List Value} {callee : Value}
    {callers : List Frame} {handlers : List Handler} (holding : Holding layout chunk sh vs)
    (shape : ShapeAt (layout chunk) pc sh) (outer : Waits layout callers below handlers) :
    Active (⟨chunk, pc, below.length + 1⟩ :: callers) (vs ++ callee :: below)
      (handlersOf callers below sh.catches ++ handlers)

/-- The stack and the handlers are what the frames need at their positions. -/
def Machine.Disciplined (m : Machine) (st : List Value) : Prop :=
  match m.control with
  | .running => Active layout m.frames st m.handlers
  | .suspended _ => Waits layout m.frames st m.handlers
  | .returned _ | .thrown _ => m.frames = [] ∧ st = [] ∧ m.handlers = []

/-- A machine with its depth bounded, its functions known, and its discipline kept. -/
structure Machine.Sound (limit : Nat) (h : Heap) (m : Machine) : Prop where
  bound : m.maxCallDepth = limit
  depth : m.frames.length ≤ limit
  disciplined : ∃ st, m.stack = pile st ∧ (∀ v ∈ st, v.Known h) ∧ m.Disciplined layout st

/-- A step that does not fault, and leaves all as it should be if it ends. -/
structure Stepped.Good (ok : Chunk → Prop) (limit : Nat) (s : Stepped) : Prop where
  faultless : ∀ f, s.verdict ≠ .fault f
  grown : s.verdict ≠ .lost → s.machine.Sound layout limit s.env.heap
  env : s.verdict ≠ .lost → s.env.Sound ok
  stopped : s.verdict = .done → s.machine.control ≠ .running

namespace Verified

variable {code : List Point} {chunk : Chunk}

/-- At a shape of the layout there is an instruction that flows. -/
theorem instr (h : Verified code chunk) {pc : Nat} {sh : Shape} (shape : ShapeAt code pc sh) :
    ∃ i, chunk.code[pc]? = some i ∧ (⟨sh, i⟩ : Point).Flows code pc := by
  obtain ⟨i, listed⟩ := shape
  refine ⟨i, ?_, ?_⟩
  · rw [← Array.getElem?_toList, h.instrs, List.getElem?_map, listed]
    rfl
  · have flows := h.flows pc ⟨sh, i⟩ listed
    rwa [Nat.zero_add] at flows

end Verified

variable {layout}

namespace Waits

variable {frames : List Frame} {st : List Value} {handlers : List Handler}

theorem handlers_depth (w : Waits layout frames st handlers) :
    ∀ h ∈ handlers, h.frameDepth ≤ frames.length := by
  induction w with
  | bottom => simp
  | frame holding shape guard outer ih =>
    intro h mem
    rcases List.mem_append.mp mem with mem | mem
    · obtain ⟨c, -, rfl⟩ := List.mem_map.mp mem
      exact Nat.le_refl _
    · exact Nat.le_succ_of_le (ih h mem)

theorem empty (w : Waits layout [] st handlers) : st = [] ∧ handlers = [] := by
  cases w
  exact ⟨rfl, rfl⟩

end Waits

theorem Holding.push {chunk : Chunk} {sh : Shape} {vs : List Value}
    (h : Holding layout chunk sh vs) (v : Value) : Holding layout chunk sh.push (v :: vs) :=
  ⟨h.verified, .cons trivial h.fits, h.lands⟩

/-- A waiting frame goes on with the result of its call. -/
theorem Waits.receive {frame : Frame} {callers : List Frame} {st : List Value}
    {handlers : List Handler} (w : Waits layout (frame :: callers) st handlers) (v : Value) :
    Active layout (frame :: callers) (v :: st) handlers := by
  cases w with
  | frame holding shape guard outer => exact .frame (holding.push v) shape outer

variable (layout) in
/-- A handler with which an error lands in one of the frames, and the handlers further out. -/
inductive Landing : List Frame → List Value → Handler → List Handler → Prop
  | frame {skipped callers : List Frame} {chunk : Chunk} {pc : Nat} {c : Catch}
    {outer : List Catch} {upper vs below : List Value} {callee : Value} {handlers : List Handler}
    (holding : Holding layout chunk ⟨c.slots, outer⟩ vs)
    (shape : ShapeAt (layout chunk) c.target ⟨.plain :: c.slots, outer⟩)
    (outside : Waits layout callers below handlers) :
    Landing (skipped ++ ⟨chunk, pc, below.length + 1⟩ :: callers) (upper ++ (vs ++ callee :: below))
      ⟨callers.length + 1, below.length + 1 + vs.length, c.target⟩
      (handlersOf callers below outer ++ handlers)

namespace Landing

variable {frames : List Frame} {st : List Value} {handler : Handler} {rest : List Handler}

theorem above (h : Landing layout frames st handler rest) (skipped : List Frame)
    (upper : List Value) : Landing layout (skipped ++ frames) (upper ++ st) handler rest := by
  cases h with
  | frame holding shape outside =>
    rw [← List.append_assoc, ← List.append_assoc upper]
    exact .frame holding shape outside

theorem own {chunk : Chunk} {pc : Nat} {slots : List SlotKind} {c : Catch}
    {outer : List Catch} {vs below : List Value} {callee : Value} {callers : List Frame}
    {handlers : List Handler} (holding : Holding layout chunk ⟨slots, c :: outer⟩ vs)
    (guard : Guards (c :: outer) slots) (outside : Waits layout callers below handlers) :
    Landing layout (⟨chunk, pc, below.length + 1⟩ :: callers) (vs ++ callee :: below)
      ⟨callers.length + 1, below.length + 1 + c.slots.length, c.target⟩
      (handlersOf callers below outer ++ handlers) := by
  obtain ⟨upper, split⟩ := guard c rfl
  have fits : Fits slots vs := holding.fits
  rw [← split] at fits
  have kept := List.forall₂_drop upper.length fits
  rw [List.drop_left] at kept
  have stack : vs ++ callee :: below =
      vs.take upper.length ++ (vs.drop upper.length ++ callee :: below) := by
    rw [← List.append_assoc, List.take_append_drop]
  rw [kept.length_eq, stack, ← List.nil_append (⟨chunk, pc, below.length + 1⟩ :: callers)]
  exact .frame ⟨holding.verified, kept, holding.lands.2⟩ holding.lands.1 outside

end Landing

/-- The innermost handler of waiting frames belongs to one of them. -/
theorem Waits.landing {frames : List Frame} {st : List Value} {handler : Handler}
    {rest : List Handler} (w : Waits layout frames st (handler :: rest)) :
    Landing layout frames st handler rest := by
  generalize all : handler :: rest = installed at w
  induction w with
  | bottom => cases all
  | frame holding shape guard outer ih =>
    rename_i catches vs below callee callers handlers
    cases catches with
    | nil => simpa using (ih all).above [_] (vs ++ [callee])
    | cons c outer' =>
      cases all
      exact Landing.own holding guard outer

theorem Waits.landing_over {frames : List Frame} {st : List Value} {handlers : List Handler}
    (w : Waits layout frames st handlers) (upper : List Value) (handler : Handler)
    (rest : List Handler) (all : handlers = handler :: rest) :
    Landing layout frames (upper ++ st) handler rest := by
  subst all
  exact w.landing.above [] upper

theorem Holding.landing {chunk : Chunk} {pc : Nat} {slots : List SlotKind}
    {catches : List Catch} {vs below : List Value} {callee : Value} {callers : List Frame}
    {handlers rest : List Handler} {handler : Handler}
    (holding : Holding layout chunk ⟨slots, catches⟩ vs)
    (guard : Guards catches slots) (outside : Waits layout callers below handlers)
    (all : handlersOf callers below catches ++ handlers = handler :: rest) :
    Landing layout (⟨chunk, pc, below.length + 1⟩ :: callers) (vs ++ callee :: below) handler
      rest := by
  cases catches with
  | nil =>
    change handlers = handler :: rest at all
    subst all
    simpa using outside.landing.above [_] (vs ++ [callee])
  | cons c outer =>
    cases all
    exact Landing.own holding guard outside

namespace Machine

variable {ok : Chunk → Prop} {frames : List Frame} {st : List Value} {handlers : List Handler}
  {traceback : Option Traceback} {limit : Nat} {env : Env}

/-- An error that lands goes on in the frame of the handler. -/
theorem throwValue_good (env_sound : env.Sound ok) (depth : frames.length ≤ limit)
    (known : ∀ v ∈ st, v.Known env.heap)
    (landing : ∀ handler rest, handlers = handler :: rest → Landing layout frames st handler rest)
    {v : Value} (known' : v.Known env.heap) :
    ((running frames st handlers traceback limit).throwValue env v).Good layout ok limit := by
  cases handlers with
  | nil =>
    rw [throwValue_nil]
    exact ⟨by simp, fun _ => ⟨rfl, Nat.zero_le _, [], rfl, by simp, rfl, rfl, rfl⟩,
      fun _ => env_sound, by simp⟩
  | cons handler rest =>
    cases landing handler rest rfl with
    | @frame skipped callers chunk pc c outer upper vs below callee handlers holding shape
        outside =>
      have reached : ¬ (callers.length + 1 = 0 ∨
          (skipped ++ ⟨chunk, pc, below.length + 1⟩ :: callers).length < callers.length + 1) := by
        simp only [List.length_append, List.length_cons]
        omega
      have above : (skipped ++ ⟨chunk, pc, below.length + 1⟩ :: callers).length -
          (callers.length + 1) = skipped.length := by
        simp
      have position : below.length + 1 + vs.length = (vs ++ callee :: below).length := by
        simp
        omega
      rw [throwValue_cons reached, above, List.drop_left, position, pile_take_below, pile_push]
      refine ⟨by simp, fun _ => ⟨rfl, ?_, _, rfl, ?_, ?_⟩, fun _ => env_sound, by simp⟩
      · simp [jump] at depth ⊢
        omega
      · intro w mem
        rcases List.mem_cons.mp mem with rfl | mem
        · exact known'
        · exact known w (List.mem_append_right upper mem)
      · exact .frame (holding.push v) shape outside

theorem throwInfo_good (env_sound : env.Sound ok) (depth : frames.length ≤ limit)
    (known : ∀ v ∈ st, v.Known env.heap)
    (landing : ∀ handler rest, handlers = handler :: rest → Landing layout frames st handler rest)
    (e : ErrorInfo) :
    ((running frames st handlers traceback limit).throwInfo env e).Good layout ok limit :=
  throwValue_good env_sound depth known landing trivial

theorem continues_good (env_sound : env.Sound ok) (depth : frames.length ≤ limit)
    (known : ∀ v ∈ st, v.Known env.heap) (active : Active layout frames st handlers) :
    (⟨running frames st handlers traceback limit, env, .continue⟩ : Stepped).Good layout ok
      limit :=
  ⟨by simp, fun _ => ⟨rfl, depth, st, rfl, known, active⟩, fun _ => env_sound, by simp⟩

theorem pushResult_good (env_sound : env.Sound ok) (depth : frames.length ≤ limit)
    (known : ∀ v ∈ st, v.Known env.heap) (waits : Waits layout frames st handlers) {v : Value}
    (known' : v.Known env.heap) :
    ((running frames st handlers traceback limit).pushResult env v).Good layout ok limit := by
  cases frames with
  | nil =>
    obtain ⟨rfl, rfl⟩ := waits.empty
    rw [pushResult_nil]
    exact ⟨by simp, fun _ => ⟨rfl, Nat.zero_le _, [], rfl, by simp, rfl, rfl, rfl⟩,
      fun _ => env_sound, by simp⟩
  | cons frame callers =>
    rw [pushResult_cons]
    exact continues_good env_sound depth (List.forall_mem_cons.mpr ⟨known', known⟩)
      (waits.receive v)

theorem fillArgs_known {h : Heap} {args : List Value} (known : ∀ v ∈ args, v.Known h)
    (arity : Nat) : ∀ v ∈ fillArgs args arity, v.Known h := by
  intro v mem
  rcases List.mem_append.mp (List.mem_of_mem_take mem) with mem | mem
  · exact known v mem
  · rw [List.eq_of_mem_replicate mem]
    trivial

theorem enter_good (env_sound : env.Sound ok) (depth : frames.length ≤ limit)
    (waits : Waits layout frames st handlers) {args : List Value} {callee : Value} {chunk : Chunk}
    (known : ∀ v ∈ args.reverse ++ callee :: st, v.Known env.heap)
    (verified : Verified (layout chunk) chunk) :
    ((running frames (args.reverse ++ callee :: st) handlers traceback limit).enter env st.length
      chunk).Good layout ok limit := by
  by_cases full : limit ≤ frames.length
  · rw [enter_full full]
    refine throwInfo_good env_sound depth known (fun handler rest all => ?_) _
    simpa using waits.landing_over (args.reverse ++ [callee]) handler rest all
  · rw [enter_room full verified.arity]
    have holding : Holding layout chunk ⟨List.replicate chunk.arity .plain, []⟩
        (fillArgs args chunk.arity).reverse :=
      ⟨verified, List.forall₂_iff_get.mpr ⟨by simp, by simp [SlotKind.Holds]⟩, trivial⟩
    refine continues_good env_sound (Nat.lt_of_not_le full) ?_
      (.frame holding verified.entry waits)
    intro v mem
    rcases List.mem_append.mp mem with mem | mem
    · exact fillArgs_known (fun w inside => known w (by simp [inside])) _ v
        (List.mem_reverse.mp mem)
    · exact known v (List.mem_append_right _ mem)

theorem after_sound (env_sound : env.Sound ok) {reply : NativeReply}
    (heap : reply.world.heap.Sound ok)
    (grown : env.heap.chunks.size ≤ reply.world.heap.chunks.size) : (env.after reply).Sound ok :=
  ⟨heap, fun e mem => (env_sound.globals e mem).mono grown, env_sound.natives⟩

theorem callNative_good (env_sound : env.Sound ok) (depth : frames.length ≤ limit)
    (waits : Waits layout frames st handlers) {args : List Value} {callee : Value} (name : String)
    (known : ∀ v ∈ args.reverse ++ callee :: st, v.Known env.heap) :
    ((running frames (args.reverse ++ callee :: st) handlers traceback limit).callNative env
      st.length name).Good layout ok limit := by
  cases found : env.natives.get? name with
  | none =>
    rw [callNative_missing found]
    refine throwInfo_good env_sound depth known (fun handler rest all => ?_) _
    simpa using waits.landing_over (args.reverse ++ [callee]) handler rest all
  | some native =>
    obtain ⟨heap, grown, answers⟩ := env_sound.natives _ (Table.mem_of_get? found) env.context
      env.world args env_sound.heap fun v mem => known v (by simp [mem])
    rw [callNative_found found]
    dsimp only at heap grown answers
    generalize native env.context env.world args = reply at heap grown answers
    have env_sound' := after_sound env_sound heap grown
    have known' : ∀ v ∈ st, v.Known (env.after reply).heap := fun v mem =>
      (known v (by simp [mem])).mono grown
    unfold answer
    split
    · rename_i v result
      exact pushResult_good env_sound' depth known' waits (answers v result)
    · exact throwInfo_good env_sound' depth known' (waits.landing_over []) _
    · split
      · exact ⟨by simp, fun _ => ⟨rfl, depth, st, rfl, known', waits⟩, fun _ => env_sound',
          by simp⟩
      · exact throwInfo_good env_sound' depth known' (waits.landing_over []) _
    · exact ⟨by simp, by simp, by simp, by simp⟩

/-- A call of anything keeps the discipline of the frames that wait for its result. -/
theorem callValue_good (verified : ∀ c, ok c → Verified (layout c) c) (env_sound : env.Sound ok)
    (depth : frames.length ≤ limit) (waits : Waits layout frames st handlers) {args : List Value}
    {callee : Value} (known : ∀ v ∈ args.reverse ++ callee :: st, v.Known env.heap) :
    ((running frames (args.reverse ++ callee :: st) handlers traceback limit).callValue env
      args.length).Good layout ok limit := by
  have upper : ∀ handler rest, handlers = handler :: rest →
      Landing layout frames (args.reverse ++ callee :: st) handler rest := by
    intro handler rest all
    simpa using waits.landing_over (args.reverse ++ [callee]) handler rest all
  rw [callValue_running]
  cases callee with
  | function r =>
    have known' := known (.function r) (by simp)
    exact enter_good env_sound depth waits known (verified _ (env_sound.heap.chunk known'))
  | native name => exact callNative_good env_sound depth waits name known
  | _ => exact throwInfo_good env_sound depth known upper _

end Machine

end FrameScript
