import FrameScript.Proofs.Semantics.Mirror
import FrameScript.Proofs.Semantics.Situation

/-!
# Expressions on the machine

The code of an expression comes to a situation in which the value of the expression
lies above the values that were there, or in which what the expression throws is
raised. If evaluation is cut short, the code goes on for as long.
-/

namespace FrameScript

open Script (Unbracketed)

/-- A native has asked to be parked. -/
def Situation.Parked (request : WakeRequest) (scene : Scene) (t : Situation) : Prop :=
  t.verdict = .done ∧ t.machine.control = .suspended request ∧ t.env = scene.env ∧
    t.calls = scene.calls

/-- A run shows the outcome of an evaluation: it comes to where that ends, or goes on for
at least `n` steps if that times out. -/
def Ending.Shown {α : Type} (n : Nat) (s : Situation) (P : α → Scene → Situation → Prop) :
    Ending α → Prop
  | .ends a scene => ∃ t, s.Comes t ∧ P a scene t
  | .parks request scene => ∃ t, s.Comes t ∧ t.Parked request scene
  | .endless => ∃ t, s.Comes t ∧ t.verdict = .lost
  | .timeout => s.Long n

namespace Ending.Shown

variable {α β : Type} {n k : Nat} {s t : Situation} {P Q : α → Scene → Situation → Prop}
  {x : Ending α}

theorem after (h : x.Shown n t P) (comes : s.Comes t) : x.Shown n s P := by
  cases x with
  | ends a scene =>
    obtain ⟨u, rest, holds⟩ := h
    exact ⟨u, comes.trans rest, holds⟩
  | parks request scene =>
    obtain ⟨u, rest, holds⟩ := h
    exact ⟨u, comes.trans rest, holds⟩
  | endless =>
    obtain ⟨u, rest, holds⟩ := h
    exact ⟨u, comes.trans rest, holds⟩
  | timeout => exact comes.long h

theorem later (h : x.Shown n s.next P) (goes : s.verdict = .continue) : x.Shown (n + 1) s P := by
  cases x with
  | timeout => exact ⟨goes, h⟩
  | ends _ _ | parks _ _ | endless => exact after h (.one goes)

theorem fewer (h : x.Shown n s P) (less : k ≤ n) : x.Shown k s P := by
  cases x with
  | timeout => exact Situation.Long.le h less
  | ends _ _ | parks _ _ | endless => exact h

theorem further (h : x.Shown n s P) (more : ∀ a scene t, P a scene t →
    ∃ u, t.Comes u ∧ Q a scene u) : x.Shown n s Q := by
  cases x with
  | ends a scene =>
    obtain ⟨t, comes, holds⟩ := h
    obtain ⟨u, rest, holds'⟩ := more a scene t holds
    exact ⟨u, comes.trans rest, holds'⟩
  | parks _ _ | endless | timeout => exact h

theorem mono (h : x.Shown n s P) (imp : ∀ a scene t, P a scene t → Q a scene t) :
    x.Shown n s Q :=
  h.further fun a scene t holds => ⟨t, .refl t, imp a scene t holds⟩

theorem bind {Q : β → Scene → Situation → Prop} {f : α → Scene → Ending β}
    (h : x.Shown n s P) (rest : ∀ a scene t, s.Comes t → P a scene t → (f a scene).Shown n t Q) :
    (x.bind f).Shown n s Q := by
  cases x with
  | ends a scene =>
    obtain ⟨t, comes, holds⟩ := h
    exact after (rest a scene t comes holds) comes
  | parks _ _ | endless | timeout => exact h

end Ending.Shown

namespace Setting

variable (s : Setting)

def situation (pc : Nat) (vs : List Value) (scene : Scene) : Situation :=
  ⟨⟨s.machine pc vs, scene.env, .continue⟩, scene.calls⟩

/-- A value is raised while the frame has these values, in the frame or further in. -/
def Raised (base : List Value) (v : Value) (scene : Scene) (t : Situation) : Prop :=
  ∃ pc above upper, t = ⟨(Machine.running (above ++ s.frames pc) (upper ++ s.stack base)
    s.handlers s.traceback s.limit).throwValue scene.env v, scene.calls⟩

/-- The result of an evaluation, or what it throws. -/
def Yields {α : Type} (base : List Value) (P : α → Scene → Situation → Prop) :
    Except Value α → Scene → Situation → Prop
  | .ok a => P a
  | .error v => s.Raised base v

def Evaluated (base : List Value) (pc : Nat) (vs : List Value) :
    Except Value Value → Scene → Situation → Prop :=
  s.Yields base fun v scene t => t = s.situation pc (v :: vs) scene

variable {s} {pc : Nat} {vs base : List Value} {scene : Scene} {i : Instr} {n : Nat}

theorem nativeCalls_quiet (fetched : s.chunk.code[pc]? = some i) (quiet : ∀ argc, i ≠ .call argc)
    (env : Env) : (s.machine pc vs).nativeCalls env = [] := by
  simp only [Machine.nativeCalls, machine, Machine.running, Machine.isRunning, frames, fetched]
  cases i with
  | call argc => exact absurd rfl (quiet argc)
  | _ => rfl

/-- What a step leads to that calls nothing. -/
theorem next_situation {e : Effect} (fetched : s.chunk.code[pc]? = some i)
    (does : i.effect scene.env (pc + 1) vs = some e)
    (quiet : ∀ args callee rest, e ≠ .calls args callee rest) :
    (s.situation pc vs scene).next = ⟨e.apply s scene.env (pc + 1), scene.calls⟩ := by
  have silent : (s.machine pc vs).nativeCalls scene.env = [] := by
    refine nativeCalls_quiet fetched ?_ scene.env
    rintro argc rfl
    simp only [Instr.effect] at does
    split at does
    · cases does
      exact quiet _ _ _ rfl
    · cases does
  simp only [Situation.next, situation, s.step_effect fetched does, silent, List.append_nil]

theorem next_goes {env : Env} {pc' : Nat} {vs' : List Value} (fetched : s.chunk.code[pc]? = some i)
    (does : i.effect scene.env (pc + 1) vs = some (.goes env pc' vs')) :
    (s.situation pc vs scene).next = s.situation pc' vs' ⟨env, scene.calls⟩ :=
  next_situation fetched does (by simp)

theorem moves {env : Env} {pc' : Nat} {vs' : List Value} (fetched : s.chunk.code[pc]? = some i)
    (does : i.effect scene.env (pc + 1) vs = some (.goes env pc' vs')) :
    (s.situation pc vs scene).Comes (s.situation pc' vs' ⟨env, scene.calls⟩) := by
  have comes := Situation.Comes.one (s := s.situation pc vs scene) rfl
  rwa [next_goes fetched does] at comes

theorem raises {v : Value} (temps : List Value) (fetched : s.chunk.code[pc]? = some i)
    (does : i.effect scene.env (pc + 1) vs = some (.raises v (temps ++ base))) :
    ∃ t, (s.situation pc vs scene).Comes t ∧ s.Raised base v scene t := by
  have next := next_situation fetched does (by simp)
  refine ⟨_, .one rfl, pc + 1, [], temps, ?_⟩
  rw [next, List.nil_append, stack, ← List.append_assoc]
  rfl

variable {α β : Type}

/-- Evaluations in a row. -/
theorem bind_shown {x : Eval α} {f : α → Eval β} {t : Situation}
    {P : α → Scene → Situation → Prop} {Q : β → Scene → Situation → Prop}
    (first : (x scene).Shown n t (s.Yields base P))
    (rest : ∀ a scene' u, t.Comes u → P a scene' u → (f a scene').Shown n u (s.Yields base Q)) :
    ((x >>= f : Eval β) scene).Shown n t (s.Yields base Q) := by
  refine first.bind fun r scene' u comes yields => ?_
  cases r with
  | ok a => exact rest a scene' u comes yields
  | error v => exact ⟨u, .refl u, yields⟩

theorem lift_shown {temps : List Value} {r : Except ErrorInfo Value}
    (fetched : s.chunk.code[pc]? = some i)
    (does : i.effect scene.env (pc + 1) vs =
      some (.value scene.env (pc + 1) (temps ++ base) r)) :
    (Eval.lift r scene).Shown n (s.situation pc vs scene)
      (s.Evaluated base (pc + 1) (temps ++ base)) := by
  cases r with
  | ok v => exact ⟨_, moves fetched does, rfl⟩
  | error e => exact raises temps fetched does

theorem operate_shown {op : BinaryOp} {v w : Value} {temps : List Value}
    (fetched : s.chunk.code[pc]? = some (.binary op)) :
    (Eval.operate op v w scene).Shown n (s.situation pc (w :: v :: (temps ++ base)) scene)
      (s.Evaluated base (pc + 1) (temps ++ base)) := by
  unfold Eval.operate
  cases result : Value.binary? scene.env.heap op v w with
  | some r => exact lift_shown fetched (by simp only [Instr.effect, result])
  | none =>
    have does : Instr.effect scene.env (pc + 1) (w :: v :: (temps ++ base)) (.binary op) =
        some (.lost (temps ++ base)) := by
      simp only [Instr.effect, result]
    have next := next_situation fetched does (by simp)
    exact ⟨_, .one rfl, by rw [next]; rfl⟩

theorem writing_shown (temps : List Value) {f : Heap → Except ErrorInfo Heap}
    (fetched : s.chunk.code[pc]? = some i)
    (does : i.effect scene.env (pc + 1) vs =
      some (.write scene.env (pc + 1) (temps ++ base) (f scene.env.heap))) :
    (Eval.writing f scene).Shown n (s.situation pc vs scene) (s.Yields base fun _ scene t =>
      t = s.situation (pc + 1) (temps ++ base) scene) := by
  unfold Eval.writing
  cases written : f scene.env.heap with
  | ok h =>
    rw [written] at does
    exact ⟨_, moves fetched does, rfl⟩
  | error e =>
    rw [written] at does
    exact raises temps fetched does

end Setting

/-- The caller goes on with the result of a call, or what it throws is raised. -/
def Machine.Answered (frames : List Frame) (st : List Value) (handlers : List Handler)
    (traceback : Option Traceback) (limit : Nat) : Except Value Value → Scene → Situation → Prop
  | .ok v, scene, t => t =
    ⟨(running frames st handlers traceback limit).pushResult scene.env v, scene.calls⟩
  | .error v, scene, t => ∃ above upper, t = ⟨(running (above ++ frames) (upper ++ st) handlers
    traceback limit).throwValue scene.env v, scene.calls⟩

/-- The machine shows what calls from a number of frames evaluate to. -/
def Callable.Shown (call : Callable) (n limit depth : Nat) : Prop :=
  ∀ (frames : List Frame) (st : List Value) (handlers : List Handler)
    (traceback : Option Traceback) (scene : Scene) (callee : Value) (args : List Value),
    frames.length = depth → (∀ h ∈ handlers, h.frameDepth ≤ depth) →
    scene.env.Sound Chunk.Sourced → callee.Known scene.env.heap →
    let start : Situation :=
      ⟨(Machine.running frames (args.reverse ++ callee :: st) handlers traceback limit).callValue
        scene.env args.length, scene.calls ++ scene.env.nativeCalls callee args⟩
    start.Good limit → (call callee args scene).Shown n start
      (Machine.Answered frames st handlers traceback limit)

/-- The frame has the code of a layout, and the machine shows what its calls evaluate to. -/
structure Setting.Executes (s : Setting) (code : List Point) (call : Callable) (n : Nat) :
    Prop where
  instrs : s.chunk.code.toList = code.map (·.instr)
  handlers : ∀ h ∈ s.handlers, h.frameDepth ≤ s.callers.length + 1
  calls : call.Shown n s.limit (s.callers.length + 1)

namespace Setting

variable {s : Setting} {code : List Point} {call : Callable} {n pc : Nat}

theorem Executes.instr (h : s.Executes code call n) {sh : Shape} {i : Instr} {rest : List Point}
    (placed : Placed code pc (⟨sh, i⟩ :: rest)) : s.chunk.code[pc]? = some i := by
  rw [← Array.getElem?_toList, h.instrs, List.getElem?_map, placed.head]
  rfl

theorem good_situation {vs : List Value} {scene : Scene}
    (good : (s.situation pc vs scene).Good s.limit) :
    scene.env.Sound Chunk.Sourced ∧ ∀ v ∈ vs, v.Known scene.env.heap := by
  refine ⟨Stepped.Good.env good nofun, ?_⟩
  obtain ⟨st, stack, known, -⟩ := (Stepped.Good.grown good nofun).disciplined
  have same : s.stack vs = st := by
    have lists : pile (s.stack vs) = pile st := stack
    simpa [pile] using lists
  intro v mem
  exact known v (same ▸ List.mem_append_left _ mem)

theorem Executes.call_shown (h : s.Executes code call n) {args temps base : List Value}
    {callee : Value} {scene : Scene} (fetched : s.chunk.code[pc]? = some (.call args.length))
    (good : (s.situation pc (args.reverse ++ callee :: (temps ++ base)) scene).Good s.limit) :
    (call callee args scene).Shown (n + 1)
      (s.situation pc (args.reverse ++ callee :: (temps ++ base)) scene)
      (s.Evaluated base (pc + 1) (temps ++ base)) := by
  have size : (args.reverse ++ callee :: (temps ++ base)).take args.length = args.reverse := by
    simp
  have rest : (args.reverse ++ callee :: (temps ++ base)).drop args.length =
      callee :: (temps ++ base) := by
    simp
  have next : (s.situation pc (args.reverse ++ callee :: (temps ++ base)) scene).next =
      ⟨(Machine.running (s.frames (pc + 1)) (args.reverse ++ callee :: s.stack (temps ++ base))
        s.handlers s.traceback s.limit).callValue scene.env args.length,
        scene.calls ++ scene.env.nativeCalls callee args⟩ := by
    have does : Instr.effect scene.env (pc + 1) (args.reverse ++ callee :: (temps ++ base))
        (.call args.length) = some (.calls args callee (temps ++ base)) := by
      simp only [Instr.effect, rest, size, List.reverse_reverse]
    have made : (s.machine pc (args.reverse ++ callee :: (temps ++ base))).nativeCalls scene.env =
        scene.env.nativeCalls callee args := by
      simp [Machine.nativeCalls, machine, Machine.running, Machine.isRunning, frames, fetched,
        Machine.nativeCallsBelow, stack, pile]
    simp only [Situation.next, situation, s.step_effect fetched does, made]
    rfl
  obtain ⟨sound, known⟩ := good_situation good
  have good' := good.next rfl
  rw [next] at good'
  have shown := h.calls (s.frames (pc + 1)) (s.stack (temps ++ base)) s.handlers s.traceback scene
    callee args rfl h.handlers sound (known callee (by simp)) good'
  refine Ending.Shown.later (Ending.Shown.mono (next ▸ shown) ?_) rfl
  rintro (v | v) scene' t answered
  · obtain ⟨above, upper, rfl⟩ := answered
    refine ⟨pc + 1, above, upper ++ temps, ?_⟩
    simp [stack]
  · exact answered.trans (by rw [frames, Machine.pushResult_cons]; rfl)

end Setting

namespace Expr

open Setting

variable {s : Setting} {code : List Point} {call : Callable} {n : Nat} {scope : List Slot}
  {marks : Marks} {locals : Locals} {base : List Value}

theorem load_shown (ex : s.Executes code call n) (mirrors : Mirrors marks scope locals base)
    {temps : List Value} {scene : Scene} {sh : Shape} {pc : Nat} {name : String}
    (word : Unbracketed name)
    (placed : Placed code pc [⟨sh, loadInstr scope name⟩]) :
    (load locals name scene).Shown (n + 1) (s.situation pc (temps ++ base) scene)
      (s.Evaluated base (pc + 1) (temps ++ base)) := by
  have fetched := ex.instr placed
  cases found : slotIn? name scope with
  | none =>
    simp only [loadInstr, found] at fetched
    simp only [load, mirrors.get?_none found, Eval.getGlobal]
    cases global : scene.env.globals.get? name with
    | none => exact raises temps fetched (by simp only [Instr.effect, global])
    | some v => exact ⟨_, moves fetched (by simp only [Instr.effect, global]), rfl⟩
  | some slot =>
    obtain ⟨v, known, held⟩ := mirrors.get?_some word found
    simp only [loadInstr, found] at fetched
    simp only [load, known]
    have low : slot < base.reverse.length := (List.getElem?_eq_some_iff.mp held).1
    have reads : (temps ++ base).reverse[slot]? = some v := by
      rw [List.reverse_append, List.getElem?_append_left low]
      exact held
    exact ⟨_, moves fetched (by rw [Instr.effect, reads]; rfl), rfl⟩

mutual

/-- The code of an expression pushes its value. -/
theorem eval_shown (ex : s.Executes code call n) (mirrors : Mirrors marks scope locals base)
    {sh : Shape} {pc : Nat} (temps : List Value) (scene : Scene) :
    (e : Expr) → e.Uses Unbracketed → Placed code pc (e.points scope pc sh) →
      (s.situation pc (temps ++ base) scene).Good s.limit →
      (e.eval call locals scene).Shown (n + 1) (s.situation pc (temps ++ base) scene)
        (s.Evaluated base (pc + e.size) (temps ++ base))
  | null, _, placed, _ => ⟨_, moves (ex.instr placed) rfl, rfl⟩
  | bool _, _, placed, _ => ⟨_, moves (ex.instr placed) rfl, rfl⟩
  | num _, _, placed, _ => ⟨_, moves (ex.instr placed) rfl, rfl⟩
  | str _, _, placed, _ => ⟨_, moves (ex.instr placed) rfl, rfl⟩
  | list items, uses, placed, good => by
    have made := placed.behind (length_pointsAll ..)
    refine bind_shown (evalAll_shown ex mirrors temps scene items uses placed.left good) ?_
    rintro values scene' u comes ⟨length, rfl⟩
    refine ⟨_, moves (ex.instr made) ?_, rfl⟩
    simp [Instr.effect, ← length]
    rfl
  | object fields, uses, placed, good => by
    have made := placed.behind (length_pointsFields ..)
    refine bind_shown (evalFields_shown ex mirrors temps scene fields uses placed.left good) ?_
    rintro values scene' u comes ⟨length, rfl⟩
    refine ⟨_, moves (ex.instr made) ?_, rfl⟩
    simp [Instr.effect, ← length]
    rfl
  | ident name, word, placed, _ => load_shown ex mirrors word placed
  | member e name, uses, placed, good => by
    have last := placed.behind (length_points ..)
    refine bind_shown (eval_shown ex mirrors temps scene e uses placed.left good) ?_
    rintro v scene' u comes rfl
    exact lift_shown (ex.instr last) rfl
  | index e position, uses, placed, good => by
    have second := placed.behind (length_points ..)
    have last := second.behind (length_points ..)
    refine bind_shown (eval_shown ex mirrors temps scene e uses.1 placed.left good) ?_
    rintro v scene' u comes rfl
    have good' := comes.good good
    refine bind_shown (eval_shown ex mirrors (v :: temps) scene' position uses.2 second.left
      good') ?_
    rintro i scene'' u comes' rfl
    have ends : pc + (index e position).size = pc + e.size + position.size + 1 := by
      simp only [size, Nat.add_assoc]
    rw [ends]
    exact lift_shown (ex.instr last) rfl
  | .call callee args line, uses, placed, good => by
    have second := placed.behind (length_points ..)
    have last := second.behind (length_pointsAll ..)
    refine bind_shown (eval_shown ex mirrors temps scene callee uses.1 placed.left good) ?_
    rintro f scene' u comes rfl
    have good' := comes.good good
    refine bind_shown (evalAll_shown ex mirrors (f :: temps) scene' args uses.2 second.left
      good') ?_
    rintro values scene'' u comes' ⟨length, rfl⟩
    have fetched := ex.instr last
    rw [← length] at fetched
    have ends : pc + (Expr.call callee args line).size =
        pc + callee.size + sizes args + 1 := by
      simp only [size, Nat.add_assoc]
    rw [ends]
    exact ex.call_shown fetched (comes'.good good')
  | unary op operand, uses, placed, good => by
    have last := placed.behind (length_points ..)
    refine bind_shown (eval_shown ex mirrors temps scene operand uses placed.left good) ?_
    rintro v scene' u comes rfl
    exact lift_shown (ex.instr last) rfl
  | binary op left right, uses, placed, good => by
    have second := placed.behind (length_points ..)
    have last := second.behind (length_points ..)
    refine bind_shown (eval_shown ex mirrors temps scene left uses.1 placed.left good) ?_
    rintro v scene' u comes rfl
    have good' := comes.good good
    refine bind_shown (eval_shown ex mirrors (v :: temps) scene' right uses.2 second.left
      good') ?_
    rintro w scene'' u comes' rfl
    have ends : pc + (binary op left right).size = pc + left.size + right.size + 1 := by
      simp only [size, Nat.add_assoc]
    rw [ends]
    exact operate_shown (ex.instr last)
  | logical op left right, uses, placed, good => by
    have second := placed.behind (length_points ..)
    refine bind_shown (eval_shown ex mirrors temps scene left uses.1 placed.left good) ?_
    rintro v scene' u comes rfl
    have ends : pc + (logical op left right).size = pc + left.size + 1 + right.size := by
      simp only [size, Nat.add_assoc]
    have fetched := ex.instr second
    have there : pc + (left.size + 1 + right.size) = pc + left.size + 1 + right.size := by
      simp only [Nat.add_assoc]
    rw [ends]
    -- The operand that decides stays; otherwise the other one is evaluated in its place.
    let decided := s.situation (pc + left.size) (v :: (temps ++ base)) scene'
    have stays (comes' : decided.Comes (s.situation (pc + left.size + 1 + right.size)
        (v :: (temps ++ base)) scene')) :
        ((pure v : Eval Value) scene').Shown (n + 1) decided
          (s.Evaluated base (pc + left.size + 1 + right.size) (temps ++ base)) :=
      ⟨_, comes', rfl⟩
    have other (comes' : decided.Comes (s.situation (pc + left.size + 1) (temps ++ base) scene')) :
        (right.eval call locals scene').Shown (n + 1) decided
          (s.Evaluated base (pc + left.size + 1 + right.size) (temps ++ base)) :=
      (eval_shown ex mirrors temps scene' right uses.2 second.tail
        (comes'.good (comes.good good))).after comes'
    cases op with
    | and =>
      cases truthy : v.isTruthy with
      | true =>
        simp only [if_pos]
        exact other (moves fetched (by simp only [Instr.effect, truthy]; rfl))
      | false =>
        simp only [Bool.false_eq_true, if_false]
        exact stays (moves fetched (by simp only [Instr.effect, truthy, there]; rfl))
    | or =>
      cases truthy : v.isTruthy with
      | true =>
        simp only [if_pos]
        exact stays (moves fetched (by simp only [Instr.effect, truthy, there]; rfl))
      | false =>
        simp only [Bool.false_eq_true, if_false]
        exact other (moves fetched (by simp only [Instr.effect, truthy]; rfl))

theorem evalAll_shown (ex : s.Executes code call n) (mirrors : Mirrors marks scope locals base)
    {sh : Shape} {pc : Nat} (temps : List Value) (scene : Scene) :
    (es : List Expr) → AllUse Unbracketed es → Placed code pc (pointsAll scope pc sh es) →
      (s.situation pc (temps ++ base) scene).Good s.limit →
      (evalAll call locals es scene).Shown (n + 1) (s.situation pc (temps ++ base) scene)
        (s.Yields base fun values scene t => values.length = es.length ∧
          t = s.situation (pc + sizes es) (values.reverse ++ (temps ++ base)) scene)
  | [], _, _, _ => ⟨_, .refl _, rfl, rfl⟩
  | e :: rest, uses, placed, good => by
    have others := placed.behind (length_points ..)
    refine bind_shown (eval_shown ex mirrors temps scene e uses.1 placed.left good) ?_
    rintro v scene' u comes rfl
    have good' := comes.good good
    refine bind_shown (evalAll_shown ex mirrors (v :: temps) scene' rest uses.2 others good') ?_
    rintro values scene'' u comes' ⟨length, rfl⟩
    exact ⟨_, .refl _, by simp [length], by simp [sizes, Nat.add_assoc]⟩

theorem evalFields_shown (ex : s.Executes code call n) (mirrors : Mirrors marks scope locals base)
    {sh : Shape} {pc : Nat} (temps : List Value) (scene : Scene) :
    (fields : List (String × Expr)) → FieldsUse Unbracketed fields →
      Placed code pc (pointsFields scope pc sh fields) →
      (s.situation pc (temps ++ base) scene).Good s.limit →
      (evalFields call locals fields scene).Shown (n + 1) (s.situation pc (temps ++ base) scene)
        (s.Yields base fun values scene t => values.length = fields.length ∧
          t = s.situation (pc + fieldSizes fields) (values.reverse ++ (temps ++ base)) scene)
  | [], _, _, _ => ⟨_, .refl _, rfl, rfl⟩
  | (_, e) :: rest, uses, placed, good => by
    have others := placed.behind (length_points ..)
    refine bind_shown (eval_shown ex mirrors temps scene e uses.1 placed.left good) ?_
    rintro v scene' u comes rfl
    have good' := comes.good good
    refine bind_shown (evalFields_shown ex mirrors (v :: temps) scene' rest uses.2 others
      good') ?_
    rintro values scene'' u comes' ⟨length, rfl⟩
    exact ⟨_, .refl _, by simp [length], by simp [fieldSizes, Nat.add_assoc]⟩

end

end Expr

end FrameScript
