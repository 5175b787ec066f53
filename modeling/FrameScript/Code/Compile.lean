import FrameScript.Code.Builder

/-!
# Compiling scripts

Between statements the operand stack above a frame's base holds exactly the
locals in scope, in the order of declaration; temporaries of expressions only
ever sit above them. Compilation fails on a `break` or `continue` outside of a
loop and on a function that is declared twice.
-/

namespace FrameScript

inductive CompileError where
  | breakOutsideLoop (line : Nat)
  | continueOutsideLoop (line : Nat)
  | duplicateFunction (name : String) (line : Nat)
  deriving DecidableEq

def CompileError.message : CompileError → String
  | breakOutsideLoop line => "line " ++ toString line ++ ": 'break' outside of a loop"
  | continueOutsideLoop line => "line " ++ toString line ++ ": 'continue' outside of a loop"
  | duplicateFunction name line =>
    "line " ++ toString line ++ ": function '" ++ name ++ "' is declared more than once"

/-- The code of a script: its top level, and functions to bind before that runs. -/
structure CompiledScript where
  main : Chunk
  functions : List Chunk

namespace Builder

/-- Read a name: the latest local of that name, else a global. -/
def load (name : String) (b : Builder) : Builder :=
  match b.resolve name with
  | some slot => b.emit (.getLocal slot)
  | none => b.emit (.getGlobal name)

def store (name : String) (b : Builder) : Builder :=
  match b.resolve name with
  | some slot => b.emit (.setLocal slot)
  | none => b.emit (.setGlobal name)

mutual

def expr (b : Builder) : Expr → Builder
  | .null => b.emit (.push .null)
  | .bool v => b.emit (.push (.bool v))
  | .num v => b.emit (.push (.num v))
  | .str v => b.emit (.push (.str v))
  | .list items => (b.exprs items).emit (.makeList items.length)
  | .object fields => (b.fields fields).emit (.makeObject (fields.map (·.1)))
  | .ident name => b.load name
  | .member object name => (b.expr object).emit (.getMember name)
  | .index object position => ((b.expr object).expr position).emit .getIndex
  | .call callee args line =>
    let b := (b.expr callee).exprs args
    ((b.atLine line).emit (.call args.length)).atLine b.line
  | .unary op operand => (b.expr operand).emit (.unary op)
  | .binary op left right => ((b.expr left).expr right).emit (.binary op)
  | .logical op left right =>
    let b := b.expr left
    let jump := b.here
    let b := match op with
      | .and => b.emit (.jumpIfFalseKeep 0)
      | .or => b.emit (.jumpIfTrueKeep 0)
    (b.expr right).patch jump

def exprs (b : Builder) : List Expr → Builder
  | [] => b
  | e :: rest => (b.expr e).exprs rest

def fields (b : Builder) : List (String × Expr) → Builder
  | [] => b
  | (_, e) :: rest => (b.expr e).fields rest

end

/-- A value that may be left out is null. -/
def exprOrNull (b : Builder) : Option Expr → Builder
  | some e => b.expr e
  | none => b.emit (.push .null)

def assign (b : Builder) (value : Expr) : Target → Builder
  | .ident name => (b.expr value).store name
  | .member object name => ((b.expr object).expr value).emit (.setMember name)
  | .index object position => (((b.expr object).expr position).expr value).emit .setIndex

mutual

def stmt (b : Builder) : Stmt → Except CompileError Builder
  | .block line body => do
    let b ← ((b.atLine line).openScope).stmts body
    .ok b.closeScope
  | .declare line name value =>
    let b := (b.atLine line).exprOrNull value
    .ok (if b.depth = 0 then b.emit (.setGlobal name) else b.declare name)
  | .assign line target value => .ok ((b.atLine line).assign value target)
  | .ifThen line test body => do
    let b := (b.atLine line).expr test
    let toEnd := b.here
    let b ← (b.emit (.jumpIfFalse 0)).openScope.stmt body
    .ok (b.closeScope.patch toEnd)
  | .ifThenElse line test body otherwise => do
    let b := (b.atLine line).expr test
    let toElse := b.here
    let b ← (b.emit (.jumpIfFalse 0)).openScope.stmt body
    let b := b.closeScope
    let toEnd := b.here
    let b ← ((b.emit (.jump 0)).patch toElse).openScope.stmt otherwise
    .ok (b.closeScope.patch toEnd)
  | .while line test body => do
    let b := b.atLine line
    let start := b.here
    let b := b.expr test
    let toEnd := b.here
    let b ← ((b.emit (.jumpIfFalse 0)).openLoop start).openScope.stmt body
    .ok (((b.closeScope.emit (.jump start)).patch toEnd).closeLoop)
  | .forOf line name iterable body => do
    let b := (b.atLine line).openScope.expr iterable
    let list := b.locals.length
    let b := (b.declare "(for list)").emit (.push (.num (Number.zero false)))
    let index := b.locals.length
    let b := b.declare "(for index)"
    let start := b.here
    let b := (b.emit (.iterNext list index 0)).openLoop start
    let b ← (b.openScope.declare name).openScope.stmt body
    let b := b.closeScope.closeScope.emit (.jump start)
    .ok ((b.patch start).closeLoop.closeScope)
  | .tryCatch line body name handler => do
    let b := b.atLine line
    let toCatch := b.here
    let b := b.emit (.pushHandler 0)
    let b ← ({ b with handlers := b.handlers + 1 }).openScope.stmts body
    let b := b.closeScope.emit .popHandler
    let b := { b with handlers := b.handlers - 1 }
    let toEnd := b.here
    let b := (b.emit (.jump 0)).patch toCatch
    let b ← (b.openScope.declare name).stmts handler
    .ok (b.closeScope.patch toEnd)
  | .return line value => .ok (((b.atLine line).exprOrNull value).emit .ret)
  | .throw line value => .ok (((b.atLine line).expr value).emit .throw)
  | .break line =>
    match b.loops with
    | [] => .error (.breakOutsideLoop line)
    | loop :: _ =>
      let b := (b.atLine line).unwindTo loop
      .ok ((b.emit (.jump 0)).recordBreak b.here)
  | .continue line =>
    match b.loops with
    | [] => .error (.continueOutsideLoop line)
    | loop :: _ => .ok (((b.atLine line).unwindTo loop).emit (.jump loop.start))
  | .expr line value => .ok (((b.atLine line).expr value).emit .pop)

def stmts (b : Builder) : List Stmt → Except CompileError Builder
  | [] => .ok b
  | s :: rest => (b.stmt s).bind fun b => b.stmts rest

end

end Builder

/-- The chunk of a function; its parameters are its first locals. -/
def compileFunction (source : String) (f : FunctionDecl) : Except CompileError Chunk := do
  let b := f.params.foldl (fun b p => b.declare p) (Builder.new 1 f.line)
  let b ← b.stmts f.body
  .ok (b.finish f.name source f.params.length)

/-- The chunks of functions, after functions with the names in `seen`. -/
def compileFunctions (source : String) (seen : List String) :
    List FunctionDecl → Except CompileError (List Chunk)
  | [] => .ok []
  | f :: rest =>
    if f.name ∈ seen then .error (.duplicateFunction f.name f.line)
    else do
      let chunk ← compileFunction source f
      let chunks ← compileFunctions source (f.name :: seen) rest
      .ok (chunk :: chunks)

def compile (source : String) (script : Script) : Except CompileError CompiledScript := do
  let functions ← compileFunctions source [] script.functions
  let b ← (Builder.new 0 1).stmts script.body
  .ok ⟨b.finish mainChunkName source 0, functions⟩

end FrameScript
