import FrameScript.Machine.Basic
import FrameScript.Value.Operators

/-!
# Steps of the machine

A step executes one instruction of the innermost frame. An error of the script
unwinds to the innermost handler, or stops the machine and leaves a traceback.
Sums of indices have to be machine words. The sum of an index of the stack is one,
and another that is none ends the program.
-/

namespace FrameScript

/-- What answers an index that is not there. -/
def Verdict.missing (sum : Nat) (f : Fault) : Verdict :=
  if sum < Nat.pow 2 64 then .fault f else .lost

namespace Machine

/-- Hand a result to the caller; without one the machine has returned it. -/
def deliver (m : Machine) (v : Value) : Machine :=
  match m.frames with
  | [] => { m with control := .returned v }
  | _ :: _ => m.push v

/-- Hand a result over and go on, if there is a caller. -/
def pushResult (m : Machine) (env : Env) (v : Value) : Stepped :=
  let verdict : Verdict := if m.frames.isEmpty then .done else .continue
  ⟨m.deliver v, env, verdict⟩

/-- Raise a value: go on in the innermost handler, or stop. -/
def throwValue (m : Machine) (env : Env) (v : Value) : Stepped :=
  match m.handlers with
  | handler :: outer =>
    let m := { m with handlers := outer }
    let depth := m.frames.length
    if handler.frameDepth = 0 ∨ depth < handler.frameDepth then ⟨m, env, .fault .badHandler⟩
    else
      let m := { m with
        frames := m.frames.drop (depth - handler.frameDepth)
        stack := (m.stack.take handler.stackLength).push v }
      ⟨m.jump handler.catchPc, env, .continue⟩
  | [] =>
    ⟨{ m with
        traceback := some (Traceback.ofFrames m.frames)
        frames := []
        stack := #[]
        control := .thrown v }, env, .done⟩

def throwInfo (m : Machine) (env : Env) (e : ErrorInfo) : Stepped :=
  m.throwValue env (.error e)

def raiseError (m : Machine) (env : Env) (code message : String) : Stepped :=
  m.throwInfo env ⟨code, message⟩

/-- Push the value of an operation, or raise its error. -/
def pushOrThrow (m : Machine) (env : Env) : Except ErrorInfo Value → Stepped
  | .ok v => ⟨m.push v, env, .continue⟩
  | .error e => m.throwInfo env e

/-- Keep the heap after a write, or raise its error. -/
def heapOrThrow (m : Machine) (env : Env) : Except ErrorInfo Heap → Stepped
  | .ok h => ⟨m, env.withHeap h, .continue⟩
  | .error e => m.throwInfo env e

/-- Exactly `size` values: the stack cut off, or filled up with null. -/
def resize (stack : Array Value) (size : Nat) : Array Value :=
  if size ≤ stack.size then stack.take size
  else stack ++ Array.replicate (size - stack.size) .null

/-- Enter a script function whose callee is at a stack index. Missing arguments are
null and further ones are dropped. -/
def enter (m : Machine) (env : Env) (calleeSlot : Nat) (chunk : Chunk) : Stepped :=
  if m.maxCallDepth ≤ m.frames.length then
    m.raiseError env ErrorCode.stackOverflow ("stack overflow calling '" ++ chunk.name ++ "'")
  -- No stack has room for `2 ^ 63` values, so only a larger arity leads past the words.
  else if Nat.pow 2 63 ≤ chunk.arity ∧ Nat.pow 2 64 ≤ calleeSlot + 1 + chunk.arity then
    ⟨m, env, .lost⟩
  else
    ⟨{ m with
        stack := resize m.stack (calleeSlot + 1 + chunk.arity)
        frames := ⟨chunk, 0, calleeSlot + 1⟩ :: m.frames }, env, .continue⟩

/-- Call a native whose callee is at a stack index. -/
def callNative (m : Machine) (env : Env) (calleeSlot : Nat) (name : String) : Stepped :=
  match env.natives.get? name with
  | none => m.raiseError env ErrorCode.notCallable
      ("native function '" ++ name ++ "' is not registered")
  | some native =>
    let args := (m.stack.toList).drop (calleeSlot + 1)
    let m := { m with stack := m.stack.take calleeSlot }
    let ⟨globals, natives, context, world⟩ := env
    let ⟨result, context, world⟩ := native context world args
    let env : Env := ⟨globals, natives, context, world⟩
    match result with
    | .value v => m.pushResult env v
    | .throw e => m.throwInfo env e
    | .suspend request =>
      if context.suspendable then ⟨{ m with control := .suspended request }, env, .done⟩
      else m.raiseError env ErrorCode.suspendOutsideContinuation
        "attempt to suspend outside of a continuation"
    | .endless => ⟨m, env, .lost⟩

def callUnderflow (m : Machine) : Fault :=
  match m.frames with
  | frame :: _ => .stackUnderflow frame.chunk.name frame.pc
  | [] => .stackUnderflow "" 0

/-- Call the value below `argc` arguments. -/
def callValue (m : Machine) (env : Env) (argc : Nat) : Stepped :=
  if m.stack.size < argc + 1 then ⟨m, env, .missing (argc + 1) m.callUnderflow⟩
  else
    let calleeSlot := m.stack.size - (argc + 1)
    match m.stack[calleeSlot]? with
    | none => ⟨m, env, .lost⟩
    | some (.function r) => m.enter env calleeSlot (env.heap.chunk r)
    | some (.native name) => m.callNative env calleeSlot name
    | some v => m.raiseError env ErrorCode.notCallable
        ("attempt to call a " ++ v.typeName ++ " value")

/-- Leave the innermost frame with a result. -/
def leave (m : Machine) (env : Env) (base : Nat) (underflow : Fault) (v : Value) : Stepped :=
  let frames := m.frames.drop 1
  let depth := frames.length
  let m := { m with frames, handlers := m.handlers.filter fun h => h.frameDepth ≤ depth }
  if base = 0 then ⟨m, env, .fault underflow⟩
  else ({ m with stack := m.stack.take (base - 1) }).pushResult env v

/-- One round over the list in a local, with the position in another. -/
def iterate (m : Machine) (env : Env) (base list index exit : Nat)
    (badLocal : Nat → Fault) : Stepped :=
  match m.stack[base + list]?, m.stack[base + index]? with
  | none, _ => ⟨m, env, .missing (base + list) (badLocal list)⟩
  | some _, none => ⟨m, env, .missing (base + index) (badLocal index)⟩
  | some (.list r), some (.num x) =>
    let i := x.toWord
    match (env.heap.list r)[i]? with
    | some item =>
      let next := Value.num (Number.ofNat (i + 1))
      ⟨{ m with stack := (m.stack.setIfInBounds (base + index) next).push item }, env, .continue⟩
    | none => ⟨m.jump exit, env, .continue⟩
  | some v, some (.num _) =>
    m.raiseError env ErrorCode.typeError ("cannot iterate over a " ++ v.typeName ++ " value")
  | some _, some _ => ⟨m, env, .fault (badLocal index)⟩

/-- Take `count` values from the top, in the order in which they were pushed. -/
def takeTop (m : Machine) (count : Nat) : Array Value × Machine :=
  let start := m.stack.size - count
  (m.stack.extract start m.stack.size, { m with stack := m.stack.take start })

/-- Execute an instruction of a frame. The frame's position is already past it. Values
that were taken before a fault are gone. -/
def execute (m : Machine) (env : Env) (function : String) (pc base : Nat) : Instr → Stepped
  | .push v => ⟨m.push v, env, .continue⟩
  | .pop =>
    if m.stack.isEmpty then ⟨m, env, .fault (.stackUnderflow function pc)⟩
    else ⟨m.dropTop, env, .continue⟩
  | .popN n =>
    if m.stack.size < n then ⟨m, env, .fault (.stackUnderflow function pc)⟩
    else ⟨{ m with stack := m.stack.take (m.stack.size - n) }, env, .continue⟩
  | .getLocal slot =>
    match m.stack[base + slot]? with
    | some v => ⟨m.push v, env, .continue⟩
    | none => ⟨m, env, .missing (base + slot) (.badLocal function slot)⟩
  | .setLocal slot =>
    match m.stack.back? with
    | none => ⟨m, env, .fault (.stackUnderflow function pc)⟩
    | some v =>
      let m := m.dropTop
      if base + slot < m.stack.size then
        ⟨{ m with stack := m.stack.setIfInBounds (base + slot) v }, env, .continue⟩
      else ⟨m, env, .missing (base + slot) (.badLocal function slot)⟩
  | .getGlobal name =>
    match env.globals.get? name with
    | some v => ⟨m.push v, env, .continue⟩
    | none => m.raiseError env ErrorCode.undefinedVariable
        ("undefined variable '" ++ name ++ "'")
  | .setGlobal name =>
    match m.stack.back? with
    | none => ⟨m, env, .fault (.stackUnderflow function pc)⟩
    | some v => ⟨m.dropTop, { env with globals := env.globals.insert name v }, .continue⟩
  | .makeList n =>
    if m.stack.size < n then ⟨m, env, .fault (.stackUnderflow function pc)⟩
    else
      let (items, m) := m.takeTop n
      let (h, v) := env.heap.newList items
      ⟨m.push v, env.withHeap h, .continue⟩
  | .makeObject keys =>
    if m.stack.size < keys.length then ⟨m, env, .fault (.stackUnderflow function pc)⟩
    else
      let (values, m) := m.takeTop keys.length
      let (h, v) := env.heap.newObject (Table.ofList (keys.zip values.toList))
      ⟨m.push v, env.withHeap h, .continue⟩
  | .getMember name =>
    match m.stack.back? with
    | none => ⟨m, env, .fault (.stackUnderflow function pc)⟩
    | some v => m.dropTop.pushOrThrow env (v.getMember env.heap name)
  | .setMember name =>
    match m.stack.back? with
    | none => ⟨m, env, .fault (.stackUnderflow function pc)⟩
    | some value =>
      let m := m.dropTop
      match m.stack.back? with
      | none => ⟨m, env, .fault (.stackUnderflow function pc)⟩
      | some v => m.dropTop.heapOrThrow env (v.setMember env.heap name value)
  | .getIndex =>
    match m.stack.back? with
    | none => ⟨m, env, .fault (.stackUnderflow function pc)⟩
    | some index =>
      let m := m.dropTop
      match m.stack.back? with
      | none => ⟨m, env, .fault (.stackUnderflow function pc)⟩
      | some v => m.dropTop.pushOrThrow env (v.getIndex env.heap index)
  | .setIndex =>
    match m.stack.back? with
    | none => ⟨m, env, .fault (.stackUnderflow function pc)⟩
    | some value =>
      let m := m.dropTop
      match m.stack.back? with
      | none => ⟨m, env, .fault (.stackUnderflow function pc)⟩
      | some index =>
        let m := m.dropTop
        match m.stack.back? with
        | none => ⟨m, env, .fault (.stackUnderflow function pc)⟩
        | some v => m.dropTop.heapOrThrow env (v.setIndex env.heap index value)
  | .unary op =>
    match m.stack.back? with
    | none => ⟨m, env, .fault (.stackUnderflow function pc)⟩
    | some v => m.dropTop.pushOrThrow env (Value.unary op v)
  | .binary op =>
    match m.stack.back? with
    | none => ⟨m, env, .fault (.stackUnderflow function pc)⟩
    | some right =>
      let m := m.dropTop
      match m.stack.back? with
      | none => ⟨m, env, .fault (.stackUnderflow function pc)⟩
      | some left =>
        match Value.binary? env.heap op left right with
        | some result => m.dropTop.pushOrThrow env result
        | none => ⟨m.dropTop, env, .lost⟩
  | .jump target => ⟨m.jump target, env, .continue⟩
  | .jumpIfFalse target =>
    match m.stack.back? with
    | none => ⟨m, env, .fault (.stackUnderflow function pc)⟩
    | some v =>
      let m := m.dropTop
      ⟨if v.isTruthy then m else m.jump target, env, .continue⟩
  | .jumpIfFalseKeep target =>
    match m.stack.back? with
    | none => ⟨m, env, .fault (.stackUnderflow function pc)⟩
    | some v => ⟨if v.isTruthy then m.dropTop else m.jump target, env, .continue⟩
  | .jumpIfTrueKeep target =>
    match m.stack.back? with
    | none => ⟨m, env, .fault (.stackUnderflow function pc)⟩
    | some v => ⟨if v.isTruthy then m.jump target else m.dropTop, env, .continue⟩
  | .call argc => m.callValue env argc
  | .ret =>
    match m.stack.back? with
    | none => ⟨m, env, .fault (.stackUnderflow function pc)⟩
    | some v => m.dropTop.leave env base (.stackUnderflow function pc) v
  | .iterNext list index exit => m.iterate env base list index exit (.badLocal function)
  | .pushHandler target =>
    let handler : Handler := ⟨m.frames.length, m.stack.size, target⟩
    ⟨{ m with handlers := handler :: m.handlers }, env, .continue⟩
  | .popHandler => ⟨{ m with handlers := m.handlers.drop 1 }, env, .continue⟩
  | .throw =>
    match m.stack.back? with
    | none => ⟨m, env, .fault (.stackUnderflow function pc)⟩
    | some v => m.dropTop.throwValue env v

/-- Execute one instruction. A machine that has stopped stays as it is. -/
def step (m : Machine) (env : Env) : Stepped :=
  if !m.isRunning then ⟨m, env, .done⟩
  else
    match m.frames with
    | [] => ⟨m, env, .fault .noFrame⟩
    | frame :: callers =>
      match frame.chunk.code[frame.pc]? with
      | none => ⟨m, env, .fault (.badJump frame.chunk.name frame.pc)⟩
      | some instr =>
        let m := { m with frames := { frame with pc := frame.pc + 1 } :: callers }
        m.execute env frame.chunk.name frame.pc frame.base instr

end Machine
end FrameScript
