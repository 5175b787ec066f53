import FrameScript.Proofs.Code.Routine
import FrameScript.Proofs.Machine.Calls
import Mathlib.Data.List.DropRight

/-!
# Direct evaluation of scripts

What a script does, by recursion over its tree and without any code: operands are
evaluated from left to right, a block has locals of its own, and an error leaves
everything up to the innermost `try`. Calls and rounds of loops are counted down,
and an evaluation that needs more of them times out.
-/

namespace FrameScript

/-- A call of a registered native. -/
structure NativeCall where
  name : String
  args : List Value
  deriving DecidableEq

/-- What a script can touch, and the natives that it has called so far. -/
structure Scene where
  env : Env
  calls : List NativeCall

/-- How an evaluation ends, if it does. -/
inductive Ending (α : Type) where
  | ends (a : α) (scene : Scene)
  /-- A native asks to be parked. -/
  | parks (request : WakeRequest) (scene : Scene)
  /-- Something is needed that has no end, such as the text of a cyclic list. -/
  | endless
  /-- More calls or rounds are needed than were allowed. -/
  | timeout

def Ending.bind {α β : Type} (x : Ending α) (f : α → Scene → Ending β) : Ending β :=
  match x with
  | .ends a scene => f a scene
  | .parks request scene => .parks request scene
  | .endless => .endless
  | .timeout => .timeout

/-- An evaluation that ends with a result, or with a value that is thrown. -/
def Eval (α : Type) : Type := Scene → Ending (Except Value α)

namespace Eval

variable {α β : Type}

def result (r : Except Value α) : Eval α := fun scene => .ends r scene

/-- What follows is left out if a value is thrown. -/
def bind (x : Eval α) (f : α → Eval β) : Eval β := fun scene =>
  (x scene).bind fun r scene =>
    match r with
    | .ok a => f a scene
    | .error v => .ends (.error v) scene

instance : Monad Eval where
  pure a := result (.ok a)
  bind := bind

def lift : Except ErrorInfo α → Eval α
  | .ok a => result (.ok a)
  | .error e => result (.error (.error e))

def reading (f : Heap → Except ErrorInfo Value) : Eval Value := fun scene =>
  lift (f scene.env.heap) scene

def writing (f : Heap → Except ErrorInfo Heap) : Eval Unit := fun scene =>
  match f scene.env.heap with
  | .ok h => .ends (.ok ()) { scene with env := scene.env.withHeap h }
  | .error e => .ends (.error (.error e)) scene

def allocating (f : Heap → Heap × Value) : Eval Value := fun scene =>
  .ends (.ok (f scene.env.heap).2) { scene with env := scene.env.withHeap (f scene.env.heap).1 }

def operate (op : BinaryOp) (left right : Value) : Eval Value := fun scene =>
  match Value.binary? scene.env.heap op left right with
  | some r => lift r scene
  | none => .endless

def getGlobal (name : String) : Eval Value := fun scene =>
  match scene.env.globals.get? name with
  | some v => .ends (.ok v) scene
  | none => .ends (.error (.error (.undefinedVariable name))) scene

def setGlobal (name : String) (v : Value) : Eval Unit := fun scene =>
  .ends (.ok ()) { scene with env := { scene.env with globals := scene.env.globals.insert name v } }

end Eval

/-- Local variables, the latest first. -/
abbrev Locals := List (String × Value)

namespace Locals

def get? (name : String) (locals : Locals) : Option Value := Table.lookup name locals

def set (name : String) (value : Value) : Locals → Locals
  | [] => []
  | (other, v) :: rest =>
    if other = name then (other, value) :: rest else (other, v) :: set name value rest

end Locals

/-- What is called has a result of its own. -/
abbrev Callable := Value → List Value → Eval Value

namespace Expr

/-- The value of a name: the latest local of that name, else a global. -/
def load (locals : Locals) (name : String) : Eval Value :=
  match locals.get? name with
  | some v => pure v
  | none => .getGlobal name

mutual

def eval (call : Callable) (locals : Locals) : Expr → Eval Value
  | null => pure .null
  | bool b => pure (.bool b)
  | num x => pure (.num x)
  | str s => pure (.str s)
  | list items => do
    let values ← evalAll call locals items
    .allocating fun h => h.newList values.toArray
  | object fields => do
    let values ← evalFields call locals fields
    .allocating fun h => h.newObject (Table.ofList ((fields.map (·.1)).zip values))
  | ident name => load locals name
  | member e name => do
    let v ← e.eval call locals
    .reading fun h => v.getMember h name
  | index e position => do
    let v ← e.eval call locals
    let i ← position.eval call locals
    .reading fun h => v.getIndex h i
  | .call callee args _ => do
    let f ← callee.eval call locals
    let values ← evalAll call locals args
    call f values
  | unary op operand => do
    let v ← operand.eval call locals
    .lift (Value.unary op v)
  | binary op left right => do
    let v ← left.eval call locals
    let w ← right.eval call locals
    .operate op v w
  | logical op left right => do
    let v ← left.eval call locals
    match op with
    | .and => if v.isTruthy then right.eval call locals else pure v
    | .or => if v.isTruthy then pure v else right.eval call locals

def evalAll (call : Callable) (locals : Locals) : List Expr → Eval (List Value)
  | [] => pure []
  | e :: rest => do
    let v ← e.eval call locals
    let values ← evalAll call locals rest
    pure (v :: values)

def evalFields (call : Callable) (locals : Locals) : List (String × Expr) → Eval (List Value)
  | [] => pure []
  | (_, e) :: rest => do
    let v ← e.eval call locals
    let values ← evalFields call locals rest
    pure (v :: values)

end

def evalOption (call : Callable) (locals : Locals) : Option Expr → Eval Value
  | some e => e.eval call locals
  | none => pure .null

end Expr

/-- Why the statements of a block are not executed any further. -/
inductive Completion where
  /-- They have been executed. -/
  | normal
  | broke
  | continued
  | returned (v : Value)
  | thrown (v : Value)

/-- An execution of statements, which leaves locals behind. -/
def Exec : Type := Scene → Ending (Completion × Locals)

namespace Exec

def stop (completion : Completion) (locals : Locals) : Exec := fun scene =>
  .ends (completion, locals) scene

def andThen (x : Exec) (f : Completion → Locals → Exec) : Exec := fun scene =>
  (x scene).bind fun r scene => f r.1 r.2 scene

/-- Go on with the value of an expression, or with what is thrown instead. -/
def withValue {α : Type} (x : Eval α) (locals : Locals) (f : α → Exec) : Exec := fun scene =>
  (x scene).bind fun r scene =>
    match r with
    | .ok a => f a scene
    | .error v => .ends (.thrown v, locals) scene

/-- Run something in a scope, whose own locals are gone at the end. -/
def inScope (body : Locals → Exec) (locals : Locals) : Exec :=
  (body locals).andThen fun completion inner => stop completion (inner.rtake locals.length)

/-- After a round: another one, unless the body has left the loop. -/
def afterRound (again : Locals → Exec) : Completion → Locals → Exec
  | .normal, locals | .continued, locals => again locals
  | .broke, locals => stop .normal locals
  | .returned v, locals => stop (.returned v) locals
  | .thrown v, locals => stop (.thrown v) locals

/-- The rounds of a `while` loop. -/
def whileLoop (test : Locals → Eval Value) (body : Locals → Exec) : (rounds : Nat) → Locals → Exec
  | 0, _ => fun _ => .timeout
  | rounds + 1, locals =>
    withValue (test locals) locals fun v =>
      if v.isTruthy then (body locals).andThen (afterRound (whileLoop test body rounds))
      else stop .normal locals

/-- The rounds of a for-of loop from a position on. It sees the list as it is at each round. -/
def forLoop (items : Value) (body : Value → Locals → Exec) :
    (rounds : Nat) → (position : Number) → Locals → Exec
  | 0, _, _ => fun _ => .timeout
  | rounds + 1, position, locals => fun scene =>
    match items with
    | .list r =>
      match (scene.env.heap.list r)[position.toWord]? with
      | some item =>
        let next := Number.ofNat (position.toWord + 1)
        (body item locals).andThen (afterRound (forLoop items body rounds next)) scene
      | none => stop .normal locals scene
    | v => stop (.thrown (.error (.notIterable v))) locals scene

end Exec

/-- Write a name: the latest local of that name, else a global. -/
def Locals.store (name : String) (locals : Locals) (v : Value) : Exec :=
  match locals.get? name with
  | some _ => .stop .normal (locals.set name v)
  | none => .withValue (.setGlobal name v) locals fun _ => .stop .normal locals

def Target.exec (call : Callable) (locals : Locals) (value : Expr) : Target → Exec
  | ident name => .withValue (value.eval call locals) locals fun v => locals.store name v
  | member object name =>
    let written : Eval Unit := do
      let v ← object.eval call locals
      let w ← value.eval call locals
      .writing fun h => v.setMember h name w
    .withValue written locals fun _ => .stop .normal locals
  | index object position =>
    let written : Eval Unit := do
      let v ← object.eval call locals
      let i ← position.eval call locals
      let w ← value.eval call locals
      .writing fun h => v.setIndex h i w
    .withValue written locals fun _ => .stop .normal locals

namespace Stmt

mutual

/-- Execute a statement; directly at the top of a file a `let` defines a global. -/
def exec (call : Callable) (rounds : Nat) (top : Bool) : Stmt → Locals → Exec
  | block _ body, locals => .inScope (execAll call rounds false body) locals
  | declare _ name value, locals =>
    .withValue (Expr.evalOption call locals value) locals fun v =>
      if top then .withValue (.setGlobal name v) locals fun _ => .stop .normal locals
      else .stop .normal ((name, v) :: locals)
  | assign _ target value, locals => target.exec call locals value
  | ifThen _ test body, locals =>
    .withValue (test.eval call locals) locals fun v =>
      if v.isTruthy then .inScope (exec call rounds false body) locals
      else .stop .normal locals
  | ifThenElse _ test body otherwise, locals =>
    .withValue (test.eval call locals) locals fun v =>
      if v.isTruthy then .inScope (exec call rounds false body) locals
      else .inScope (exec call rounds false otherwise) locals
  | «while» _ test body, locals =>
    .whileLoop (fun locals => test.eval call locals) (.inScope (exec call rounds false body))
      rounds locals
  | forOf _ name iterable body, locals =>
    .withValue (iterable.eval call locals) locals fun v =>
      .forLoop v (fun item => .inScope fun locals =>
        exec call rounds false body ((name, item) :: locals)) rounds (Number.zero false) locals
  | tryCatch _ body name handler, locals =>
    (Exec.inScope (execAll call rounds false body) locals).andThen fun completion locals =>
      match completion with
      | .thrown v => .inScope (fun locals =>
          execAll call rounds false handler ((name, v) :: locals)) locals
      | other => .stop other locals
  | «return» _ value, locals =>
    .withValue (Expr.evalOption call locals value) locals fun v => .stop (.returned v) locals
  | throw _ value, locals =>
    .withValue (value.eval call locals) locals fun v => .stop (.thrown v) locals
  | «break» _, locals => .stop .broke locals
  | «continue» _, locals => .stop .continued locals
  | expr _ value, locals =>
    .withValue (value.eval call locals) locals fun _ => .stop .normal locals

def execAll (call : Callable) (rounds : Nat) (top : Bool) : List Stmt → Locals → Exec
  | [], locals => .stop .normal locals
  | s :: rest, locals => (exec call rounds top s locals).andThen fun completion locals =>
    match completion with
    | .normal => execAll call rounds top rest locals
    | other => .stop other locals

end

end Stmt

/-- What a body that has been executed gives its caller. -/
def Completion.result : Completion → Except Value Value
  | returned v => .ok v
  | thrown v => .error v
  | normal | broke | continued => .ok .null

namespace Routine

/-- The parameters as locals: missing arguments are null, and further ones are dropped. -/
def arguments (r : Routine) (args : List Value) : Locals :=
  (r.params.zip (fillArgs args r.params.length)).reverse

def eval (r : Routine) (call : Callable) (rounds : Nat) (args : List Value) : Eval Value :=
  fun scene =>
    (Stmt.execAll call rounds r.global r.body (r.arguments args) scene).bind fun r scene =>
      .ends r.1.result scene

end Routine

namespace Eval

/-- Call a native. Outside of a continuation it cannot be parked. -/
def native (name : String) (args : List Value) : Eval Value := fun scene =>
  match scene.env.natives.get? name with
  | none => lift (.error (.notRegistered name)) scene
  | some native =>
    let reply := native scene.env.context scene.env.world args
    let scene : Scene := ⟨scene.env.after reply, scene.calls ++ [⟨name, args⟩]⟩
    match reply.result with
    | .value v => .ends (.ok v) scene
    | .throw e => lift (.error e) scene
    | .suspend request =>
      if reply.context.suspendable then .parks request scene
      else lift (.error .notSuspendable) scene
    | .endless => .endless

/-- Call a value inside of `depth` other calls, of which there can be up to a limit. The
function of each chunk is given by where it comes from. -/
def call (origin : Chunk → Routine) (limit : Nat) : (fuel depth : Nat) → Callable
  | 0, _, _, _ => fun _ => .timeout
  | fuel + 1, depth, callee, args => fun scene =>
    match callee with
    | .function r =>
      let routine := origin (scene.env.heap.chunk r)
      if limit ≤ depth then lift (.error (.stackOverflow routine.name)) scene
      else routine.eval (call origin limit fuel (depth + 1)) (fuel + 1) args scene
    | .native name => native name args scene
    | v => lift (.error (.notCallable v)) scene

end Eval

end FrameScript
