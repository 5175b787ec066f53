import FrameScript.Proofs.Machine.Stack

/-!
# Effects of instructions

What an instruction does with the values of its own frame, without the frames
and values below. A step of the machine is the effect of its instruction in the
surroundings of the frame.
-/

namespace FrameScript

/-- What an instruction does. The values of the frame have the latest first. -/
inductive Effect where
  /-- Go on at a position. -/
  | goes (env : Env) (pc : Nat) (vs : List Value)
  | raises (v : Value) (vs : List Value)
  | calls (args : List Value) (callee : Value) (vs : List Value)
  | returns (v : Value)
  | installs (target : Nat) (vs : List Value)
  | removes (vs : List Value)
  | lost (vs : List Value)

namespace Effect

def value (env : Env) (pc : Nat) (vs : List Value) : Except ErrorInfo Value → Effect
  | .ok v => .goes env pc (v :: vs)
  | .error e => .raises (.error e) vs

def write (env : Env) (pc : Nat) (vs : List Value) : Except ErrorInfo Heap → Effect
  | .ok h => .goes (env.withHeap h) pc vs
  | .error e => .raises (.error e) vs

end Effect

def ErrorInfo.undefinedVariable (name : String) : ErrorInfo :=
  ⟨ErrorCode.undefinedVariable, "undefined variable '" ++ name ++ "'"⟩

def ErrorInfo.notIterable (v : Value) : ErrorInfo :=
  ⟨ErrorCode.typeError, "cannot iterate over a " ++ v.typeName ++ " value"⟩

def Effect.round (env : Env) (pc index exit : Nat) (vs : List Value) : Value → Number → Effect
  | .list r, x =>
    match (env.heap.list r)[x.toWord]? with
    | some item =>
      .goes env pc (item :: (vs.reverse.set index (.num (Number.ofNat (x.toWord + 1)))).reverse)
    | none => .goes env exit vs
  | v, _ => .raises (.error (.notIterable v)) vs

/-- The effect of an instruction that is followed by a position, if the frame has the values
that it takes. -/
def Instr.effect (env : Env) (pc : Nat) (vs : List Value) : Instr → Option Effect
  | .push v => some (.goes env pc (v :: vs))
  | .pop =>
    match vs with
    | _ :: rest => some (.goes env pc rest)
    | [] => none
  | .popN n => if n ≤ vs.length then some (.goes env pc (vs.drop n)) else none
  | .getLocal slot => vs.reverse[slot]?.map fun v => .goes env pc (v :: vs)
  | .setLocal slot =>
    match vs with
    | v :: rest =>
      if slot < rest.length then some (.goes env pc (rest.reverse.set slot v).reverse) else none
    | [] => none
  | .getGlobal name =>
    match env.globals.get? name with
    | some v => some (.goes env pc (v :: vs))
    | none => some (.raises (.error (.undefinedVariable name)) vs)
  | .setGlobal name =>
    match vs with
    | v :: rest => some (.goes { env with globals := env.globals.insert name v } pc rest)
    | [] => none
  | .makeList n =>
    if n ≤ vs.length then
      let (h, v) := env.heap.newList (vs.take n).reverse.toArray
      some (.goes (env.withHeap h) pc (v :: vs.drop n))
    else none
  | .makeObject keys =>
    if keys.length ≤ vs.length then
      let (h, v) := env.heap.newObject (Table.ofList (keys.zip (vs.take keys.length).reverse))
      some (.goes (env.withHeap h) pc (v :: vs.drop keys.length))
    else none
  | .getMember name =>
    match vs with
    | v :: rest => some (.value env pc rest (v.getMember env.heap name))
    | [] => none
  | .setMember name =>
    match vs with
    | value :: v :: rest => some (.write env pc rest (v.setMember env.heap name value))
    | _ => none
  | .getIndex =>
    match vs with
    | index :: v :: rest => some (.value env pc rest (v.getIndex env.heap index))
    | _ => none
  | .setIndex =>
    match vs with
    | value :: index :: v :: rest => some (.write env pc rest (v.setIndex env.heap index value))
    | _ => none
  | .unary op =>
    match vs with
    | v :: rest => some (.value env pc rest (Value.unary op v))
    | [] => none
  | .binary op =>
    match vs with
    | right :: left :: rest =>
      match Value.binary? env.heap op left right with
      | some result => some (.value env pc rest result)
      | none => some (.lost rest)
    | _ => none
  | .jump target => some (.goes env target vs)
  | .jumpIfFalse target =>
    match vs with
    | v :: rest => some (.goes env (if v.isTruthy then pc else target) rest)
    | [] => none
  | .jumpIfFalseKeep target =>
    match vs with
    | v :: rest => some (if v.isTruthy then .goes env pc rest else .goes env target vs)
    | [] => none
  | .jumpIfTrueKeep target =>
    match vs with
    | v :: rest => some (if v.isTruthy then .goes env target vs else .goes env pc rest)
    | [] => none
  | .call argc =>
    match vs.drop argc with
    | callee :: rest => some (.calls (vs.take argc).reverse callee rest)
    | [] => none
  | .ret =>
    match vs with
    | v :: _ => some (.returns v)
    | [] => none
  | .iterNext list index exit =>
    match vs.reverse[list]?, vs.reverse[index]? with
    | some v, some (.num x) => some (.round env pc index exit vs v x)
    | _, _ => none
  | .pushHandler target => some (.installs target vs)
  | .popHandler => some (.removes vs)
  | .throw =>
    match vs with
    | v :: rest => some (.raises v rest)
    | [] => none

/-- A running machine with its stack as a list. -/
def Machine.running (frames : List Frame) (st : List Value) (handlers : List Handler)
    (traceback : Option Traceback) (limit : Nat) : Machine :=
  ⟨frames, pile st, handlers, .running, traceback, limit⟩

/-- What a frame's position and values stand in. -/
structure Setting where
  chunk : Chunk
  callee : Value
  callers : List Frame
  /-- The values below the callee, the latest first. -/
  below : List Value
  handlers : List Handler
  traceback : Option Traceback
  limit : Nat

namespace Setting

def frames (s : Setting) (pc : Nat) : List Frame :=
  ⟨s.chunk, pc, s.below.length + 1⟩ :: s.callers

def stack (s : Setting) (vs : List Value) : List Value := vs ++ s.callee :: s.below

/-- The machine in which the frame is at a position with these values. -/
def machine (s : Setting) (pc : Nat) (vs : List Value) : Machine :=
  .running (s.frames pc) (s.stack vs) s.handlers s.traceback s.limit

def handler (s : Setting) (target : Nat) (vs : List Value) : Handler :=
  ⟨s.callers.length + 1, s.below.length + 1 + vs.length, target⟩

/-- The handlers that stay when the frame returns. -/
def keptHandlers (s : Setting) : List Handler :=
  s.handlers.filter fun h => h.frameDepth ≤ s.callers.length

end Setting

/-- An effect in the surroundings of the frame, whose position is already past the
instruction. -/
def Effect.apply (s : Setting) (env : Env) (pc : Nat) : Effect → Stepped
  | .goes env pc vs => ⟨s.machine pc vs, env, .continue⟩
  | .raises v vs => (s.machine pc vs).throwValue env v
  | .calls args callee vs =>
    (Machine.running (s.frames pc) (args.reverse ++ callee :: s.stack vs) s.handlers s.traceback
      s.limit).callValue env args.length
  | .returns v =>
    (Machine.running s.callers s.below s.keptHandlers s.traceback s.limit).pushResult env v
  | .installs target vs =>
    ⟨{ s with handlers := s.handler target vs :: s.handlers }.machine pc vs, env, .continue⟩
  | .removes vs => ⟨{ s with handlers := s.handlers.drop 1 }.machine pc vs, env, .continue⟩
  | .lost vs => ⟨s.machine pc vs, env, .lost⟩

namespace Setting

variable (s : Setting) (env : Env) (pc : Nat) (vs : List Value)

@[simp] theorem machine_stack : (s.machine pc vs).stack = pile (s.stack vs) := rfl

theorem length_stack : (s.stack vs).length = s.below.length + 1 + vs.length := by
  simp [stack]
  omega

theorem push_machine (v : Value) : (s.machine pc vs).push v = s.machine pc (v :: vs) := by
  simp [machine, Machine.running, Machine.push, stack]

theorem dropTop_machine (v : Value) : (s.machine pc (v :: vs)).dropTop = s.machine pc vs := by
  simp [machine, Machine.running, Machine.dropTop, stack]

theorem back?_machine (v : Value) : (s.machine pc (v :: vs)).stack.back? = some v := by
  simp [stack]

theorem jump_machine (target : Nat) : (s.machine pc vs).jump target = s.machine target vs := rfl

theorem pushOrThrow_machine (r : Except ErrorInfo Value) :
    (s.machine pc vs).pushOrThrow env r = (Effect.value env pc vs r).apply s env pc := by
  cases r with
  | error e => rfl
  | ok v => simp [Machine.pushOrThrow, Effect.value, Effect.apply, push_machine]

theorem heapOrThrow_machine (r : Except ErrorInfo Heap) :
    (s.machine pc vs).heapOrThrow env r = (Effect.write env pc vs r).apply s env pc := by
  cases r <;> rfl

theorem local_machine (slot : Nat) :
    (s.machine pc vs).stack[s.below.length + 1 + slot]? = vs.reverse[slot]? :=
  pile_local vs s.below s.callee slot

theorem setLocal_machine (slot : Nat) (v : Value) :
    { s.machine pc vs with
      stack := (s.machine pc vs).stack.setIfInBounds (s.below.length + 1 + slot) v } =
      s.machine pc (vs.reverse.set slot v).reverse := by
  rw [machine_stack, stack, pile_setLocal]
  rfl

theorem takeTop_machine {n : Nat} (enough : n ≤ vs.length) :
    (s.machine pc vs).takeTop n = ((vs.take n).reverse.toArray, s.machine pc (vs.drop n)) := by
  have split : s.stack vs = vs.take n ++ s.stack (vs.drop n) := by
    rw [stack, stack, ← List.append_assoc, List.take_append_drop]
  have whole : (s.machine pc vs).stack = pile (vs.take n ++ s.stack (vs.drop n)) :=
    congrArg pile split
  have taken := takeTop_pile whole
  rw [List.length_take, Nat.min_eq_left enough] at taken
  rw [taken]
  rfl

theorem enough_machine {n : Nat} (enough : n ≤ vs.length) :
    ¬ (s.machine pc vs).stack.size < n := by
  rw [machine_stack, pile_size, length_stack]
  omega

theorem leave_machine (underflow : Fault) (v : Value) :
    (s.machine pc vs).leave env (s.below.length + 1) underflow v =
      (Effect.returns v).apply s env pc := by
  have kept : (pile (s.stack vs)).take s.below.length = pile s.below := by
    simpa [stack] using pile_take_below (vs ++ [s.callee]) s.below
  simp only [Machine.leave, if_neg (Nat.succ_ne_zero _), Nat.add_sub_cancel]
  simp only [machine, Machine.running, frames, List.drop_succ_cons, List.drop_zero, kept]
  rfl

theorem call_machine {argc : Nat} {callee : Value} {rest : List Value}
    (split : vs.drop argc = callee :: rest) :
    (s.machine pc vs).callValue env argc =
      (Effect.calls (vs.take argc).reverse callee rest).apply s env pc := by
  have enough : argc < vs.length := by
    refine Nat.lt_of_not_le fun short => ?_
    rw [List.drop_eq_nil_of_le short] at split
    cases split
  have whole : s.stack vs = vs.take argc ++ callee :: s.stack rest := by
    rw [stack, stack, ← List.cons_append, ← split, ← List.append_assoc, List.take_append_drop]
  rw [Effect.apply, List.reverse_reverse, ← whole, List.length_reverse, List.length_take,
    Nat.min_eq_left (Nat.le_of_lt enough)]
  rfl

theorem iterate_machine {list index exit : Nat} {v : Value} {x : Number} {badLocal : Nat → Fault}
    (at_list : vs.reverse[list]? = some v) (at_index : vs.reverse[index]? = some (.num x)) :
    (s.machine pc vs).iterate env (s.below.length + 1) list index exit badLocal =
      (Effect.round env pc index exit vs v x).apply s env pc := by
  simp only [Machine.iterate, local_machine, at_list, at_index]
  cases v with
  | list r =>
    unfold Effect.round
    cases found : (env.heap.list r)[x.toWord]? with
    | none => simp [found, jump_machine, Effect.apply]
    | some item =>
      simp only [found, Effect.apply, ← push_machine, ← setLocal_machine]
      rfl
  | _ => rfl

end Setting

theorem Instr.execute_effect (s : Setting) (env : Env) (function : String) (before pc : Nat)
    {vs : List Value} {i : Instr} {e : Effect} (h : i.effect env pc vs = some e) :
    (s.machine pc vs).execute env function before (s.below.length + 1) i = e.apply s env pc := by
  cases i with
  | push v =>
    cases h
    simp [Machine.execute, Effect.apply, s.push_machine]
  | pop =>
    cases vs with
    | nil => cases h
    | cons v rest =>
      cases h
      have filled : ¬ (s.machine pc (v :: rest)).stack.isEmpty = true := by
        simp [Setting.stack]
      rw [Machine.execute, if_neg filled, s.dropTop_machine]
      rfl
  | popN n =>
    simp only [effect] at h
    split at h
    · rename_i enough
      cases h
      rw [Machine.execute, if_neg (s.enough_machine pc vs enough)]
      have rest : _ = s.machine pc (vs.drop n) := congrArg Prod.snd (s.takeTop_machine pc vs enough)
      rw [Effect.apply, ← rest]
      rfl
    · cases h
  | getLocal slot =>
    obtain ⟨v, found, rfl⟩ := Option.map_eq_some_iff.mp h
    simp only [Machine.execute, s.local_machine, found, s.push_machine]
    rfl
  | setLocal slot =>
    cases vs with
    | nil => cases h
    | cons v rest =>
      simp only [effect] at h
      split at h
      · rename_i low
        cases h
        have inside : s.below.length + 1 + slot < (s.machine pc rest).stack.size := by
          rw [s.machine_stack, pile_size, s.length_stack]
          omega
        simp only [Machine.execute, s.back?_machine, s.dropTop_machine, if_pos inside,
          s.setLocal_machine]
        rfl
      · cases h
  | getGlobal name =>
    cases found : env.globals.get? name with
    | none =>
      simp only [effect, found] at h
      cases h
      simp only [Machine.execute, found]
      rfl
    | some v =>
      simp only [effect, found] at h
      cases h
      simp only [Machine.execute, found, s.push_machine]
      rfl
  | setGlobal name | throw =>
    cases vs with
    | nil => cases h
    | cons v rest =>
      cases h
      simp only [Machine.execute, s.back?_machine, s.dropTop_machine]
      rfl
  | makeList n | makeObject keys =>
    simp only [effect] at h
    split at h
    · rename_i enough
      cases h
      simp only [Machine.execute, if_neg (s.enough_machine pc vs enough),
        s.takeTop_machine pc vs enough, s.push_machine]
      rfl
    · cases h
  | getMember name | unary op =>
    cases vs with
    | nil => cases h
    | cons v rest =>
      cases h
      simp only [Machine.execute, s.back?_machine, s.dropTop_machine, s.pushOrThrow_machine]
  | setMember name =>
    rcases vs with _ | ⟨value, _ | ⟨v, rest⟩⟩
    · cases h
    · cases h
    · cases h
      simp only [Machine.execute, s.back?_machine, s.dropTop_machine, s.heapOrThrow_machine]
  | getIndex =>
    rcases vs with _ | ⟨index, _ | ⟨v, rest⟩⟩
    · cases h
    · cases h
    · cases h
      simp only [Machine.execute, s.back?_machine, s.dropTop_machine, s.pushOrThrow_machine]
  | setIndex =>
    rcases vs with _ | ⟨value, _ | ⟨index, _ | ⟨v, rest⟩⟩⟩
    · cases h
    · cases h
    · cases h
    · cases h
      simp only [Machine.execute, s.back?_machine, s.dropTop_machine, s.heapOrThrow_machine]
  | binary op =>
    rcases vs with _ | ⟨right, _ | ⟨left, rest⟩⟩
    · cases h
    · cases h
    · simp only [Machine.execute, s.back?_machine, s.dropTop_machine]
      cases result : Value.binary? env.heap op left right with
      | none =>
        simp only [effect, result] at h
        cases h
        rfl
      | some r =>
        simp only [effect, result] at h
        cases h
        simp only [s.pushOrThrow_machine]
  | jump target | popHandler =>
    cases h
    rfl
  | jumpIfFalse target | jumpIfFalseKeep target | jumpIfTrueKeep target =>
    cases vs with
    | nil => cases h
    | cons v rest =>
      cases h
      simp only [Machine.execute, s.back?_machine, s.dropTop_machine, s.jump_machine]
      cases v.isTruthy <;> rfl
  | call argc =>
    simp only [effect] at h
    split at h
    · rename_i split
      cases h
      exact s.call_machine env pc vs split
    · cases h
  | ret =>
    cases vs with
    | nil => cases h
    | cons v rest =>
      cases h
      simp only [Machine.execute, s.back?_machine, s.dropTop_machine, s.leave_machine]
  | iterNext list index exit =>
    simp only [effect] at h
    split at h
    · cases h
      exact s.iterate_machine env pc vs ‹_› ‹_›
    · cases h
  | pushHandler target =>
    cases h
    simp only [Machine.execute, Effect.apply, s.machine_stack, pile_size, s.length_stack]
    rfl

/-- A step is the effect of the instruction at the frame's position. -/
theorem Setting.step_effect (s : Setting) {env : Env} {pc : Nat} {vs : List Value} {i : Instr}
    {e : Effect} (fetched : s.chunk.code[pc]? = some i) (h : i.effect env (pc + 1) vs = some e) :
    (s.machine pc vs).step env = e.apply s env (pc + 1) := by
  rw [← i.execute_effect s env s.chunk.name pc (pc + 1) h]
  simp only [Machine.step, machine, Machine.running, Machine.isRunning, frames, fetched]
  rfl

end FrameScript
