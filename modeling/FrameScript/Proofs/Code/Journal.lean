import FrameScript.Proofs.Code.Emission

/-!
# A journal of compiling

The code of a builder does not tell how it came about: which jumps were emitted before their
target was known, how often they were patched, and what was subtracted on the way. A journal is a
builder that also notes this. Forgetting the notes gives back the builder.
-/

namespace FrameScript

/-- What a builder does that its code does not tell in the end. -/
inductive BuildEvent where
  /-- A jump is emitted whose target is not known. -/
  | hole (position : Nat)
  /-- A jump to a position that is known is emitted. -/
  | back (position target : Nat)
  /-- A jump gets its target. -/
  | patch (position target : Nat)
  /-- A number is subtracted. -/
  | minus (total less : Nat)
  deriving DecidableEq

structure Journal where
  builder : Builder
  /-- What has happened, the latest last. -/
  events : List BuildEvent

namespace Journal

def on (change : Builder → Builder) (j : Journal) : Journal :=
  { j with builder := change j.builder }

def note (event : BuildEvent) (j : Journal) : Journal := { j with events := j.events ++ [event] }

def hole (i : Instr) (j : Journal) : Journal := (j.note (.hole j.builder.here)).on (·.emit i)

def back (target : Nat) (j : Journal) : Journal :=
  (j.note (.back j.builder.here target)).on (·.emit (.jump target))

def patch (position : Nat) (j : Journal) : Journal :=
  (j.note (.patch position j.builder.here)).on (·.patch position)

def closeScope (j : Journal) : Journal := (j.note (.minus j.builder.depth 1)).on (·.closeScope)

def closeLoop (j : Journal) : Journal :=
  match j.builder.loops with
  | [] => j
  | loop :: outer =>
    loop.breaks.foldl (fun j jump => j.patch jump) (j.on fun b => { b with loops := outer })

def unwindTo (loop : Loop) (j : Journal) : Journal :=
  ((j.note (.minus j.builder.locals.length loop.locals)).note
    (.minus j.builder.handlers loop.handlers)).on (·.unwindTo loop)

def leaveTry (j : Journal) : Journal := (j.note (.minus j.builder.handlers 1)).on (·.leaveTry)

mutual

def expr (j : Journal) : Expr → Journal
  | .null => j.on (·.emit (.push .null))
  | .bool v => j.on (·.emit (.push (.bool v)))
  | .num v => j.on (·.emit (.push (.num v)))
  | .str v => j.on (·.emit (.push (.str v)))
  | .list items => (j.exprs items).on (·.emit (.makeList items.length))
  | .object fields => (j.fields fields).on (·.emit (.makeObject (fields.map (·.1))))
  | .ident name => j.on (·.load name)
  | .member object name => (j.expr object).on (·.emit (.getMember name))
  | .index object position => ((j.expr object).expr position).on (·.emit .getIndex)
  | .call callee args line =>
    let j := (j.expr callee).exprs args
    ((j.on (·.atLine line)).on (·.emit (.call args.length))).on (·.atLine j.builder.line)
  | .unary op operand => (j.expr operand).on (·.emit (.unary op))
  | .binary op left right => ((j.expr left).expr right).on (·.emit (.binary op))
  | .logical op left right =>
    let j := j.expr left
    let jump := j.builder.here
    let j := match op with
      | .and => j.hole (.jumpIfFalseKeep 0)
      | .or => j.hole (.jumpIfTrueKeep 0)
    (j.expr right).patch jump

def exprs (j : Journal) : List Expr → Journal
  | [] => j
  | e :: rest => (j.expr e).exprs rest

def fields (j : Journal) : List (String × Expr) → Journal
  | [] => j
  | (_, e) :: rest => (j.expr e).fields rest

end

def exprOrNull (j : Journal) : Option Expr → Journal
  | some e => j.expr e
  | none => j.on (·.emit (.push .null))

def assign (j : Journal) (value : Expr) : Target → Journal
  | .ident name => (j.expr value).on (·.store name)
  | .member object name => ((j.expr object).expr value).on (·.emit (.setMember name))
  | .index object position => (((j.expr object).expr position).expr value).on (·.emit .setIndex)

mutual

def stmt (j : Journal) : Stmt → Except CompileError Journal
  | .block line body => do
    let j ← ((j.on (·.atLine line)).on (·.openScope)).stmts body
    .ok j.closeScope
  | .declare line name value =>
    let j := (j.on (·.atLine line)).exprOrNull value
    .ok (if j.builder.depth = 0 then j.on (·.emit (.setGlobal name)) else j.on (·.declare name))
  | .assign line target value => .ok ((j.on (·.atLine line)).assign value target)
  | .ifThen line test body => do
    let j := (j.on (·.atLine line)).expr test
    let toEnd := j.builder.here
    let j ← ((j.hole (.jumpIfFalse 0)).on (·.openScope)).stmt body
    .ok (j.closeScope.patch toEnd)
  | .ifThenElse line test body otherwise => do
    let j := (j.on (·.atLine line)).expr test
    let toElse := j.builder.here
    let j ← ((j.hole (.jumpIfFalse 0)).on (·.openScope)).stmt body
    let j := j.closeScope
    let toEnd := j.builder.here
    let j ← (((j.hole (.jump 0)).patch toElse).on (·.openScope)).stmt otherwise
    .ok (j.closeScope.patch toEnd)
  | .while line test body => do
    let j := j.on (·.atLine line)
    let start := j.builder.here
    let j := j.expr test
    let toEnd := j.builder.here
    let j ← (((j.hole (.jumpIfFalse 0)).on (·.openLoop start)).on (·.openScope)).stmt body
    .ok (((j.closeScope.back start).patch toEnd).closeLoop)
  | .forOf line name iterable body => do
    let j := ((j.on (·.atLine line)).on (·.openScope)).expr iterable
    let list := j.builder.locals.length
    let j := (j.on (·.declare "(for list)")).on (·.emit (.push (.num (Number.zero false))))
    let index := j.builder.locals.length
    let j := j.on (·.declare "(for index)")
    let start := j.builder.here
    let j := (j.hole (.iterNext list index 0)).on (·.openLoop start)
    let j ← (((j.on (·.openScope)).on (·.declare name)).on (·.openScope)).stmt body
    let j := j.closeScope.closeScope.back start
    .ok ((j.patch start).closeLoop.closeScope)
  | .tryCatch line body name handler => do
    let j := j.on (·.atLine line)
    let toCatch := j.builder.here
    let j := j.hole (.pushHandler 0)
    let j ← ((j.on (·.enterTry)).on (·.openScope)).stmts body
    let j := (j.closeScope.on (·.emit .popHandler)).leaveTry
    let toEnd := j.builder.here
    let j := (j.hole (.jump 0)).patch toCatch
    let j ← ((j.on (·.openScope)).on (·.declare name)).stmts handler
    .ok (j.closeScope.patch toEnd)
  | .return line value => .ok (((j.on (·.atLine line)).exprOrNull value).on (·.emit .ret))
  | .throw line value => .ok (((j.on (·.atLine line)).expr value).on (·.emit .throw))
  | .break line =>
    match j.builder.loops with
    | [] => .error (.breakOutsideLoop line)
    | loop :: _ =>
      let j := (j.on (·.atLine line)).unwindTo loop
      .ok ((j.hole (.jump 0)).on (·.recordBreak j.builder.here))
  | .continue line =>
    match j.builder.loops with
    | [] => .error (.continueOutsideLoop line)
    | loop :: _ => .ok (((j.on (·.atLine line)).unwindTo loop).back loop.start)
  | .expr line value => .ok (((j.on (·.atLine line)).expr value).on (·.emit .pop))

def stmts (j : Journal) : List Stmt → Except CompileError Journal
  | [] => .ok j
  | s :: rest => (j.stmt s).bind fun j => j.stmts rest

end

variable {j : Journal}

@[simp] theorem builder_on (change : Builder → Builder) (j : Journal) :
    (j.on change).builder = change j.builder := rfl

@[simp] theorem builder_hole (i : Instr) (j : Journal) :
    (j.hole i).builder = j.builder.emit i := rfl

@[simp] theorem builder_back (target : Nat) (j : Journal) :
    (j.back target).builder = j.builder.emit (.jump target) := rfl

@[simp] theorem builder_patch (position : Nat) (j : Journal) :
    (j.patch position).builder = j.builder.patch position := rfl

@[simp] theorem builder_closeScope (j : Journal) :
    j.closeScope.builder = j.builder.closeScope := rfl

@[simp] theorem builder_unwindTo (loop : Loop) (j : Journal) :
    (j.unwindTo loop).builder = j.builder.unwindTo loop := rfl

@[simp] theorem builder_leaveTry (j : Journal) : j.leaveTry.builder = j.builder.leaveTry := rfl

theorem builder_patches (jumps : List Nat) (j : Journal) :
    (jumps.foldl (fun j jump => j.patch jump) j).builder =
      jumps.foldl (fun b jump => b.patch jump) j.builder := by
  induction jumps generalizing j with
  | nil => rfl
  | cons jump rest ih => exact ih (j.patch jump)

@[simp] theorem builder_closeLoop (j : Journal) : j.closeLoop.builder = j.builder.closeLoop := by
  cases loops : j.builder.loops with
  | nil => simp only [closeLoop, Builder.closeLoop, loops]
  | cons loop outer =>
    simp only [closeLoop, Builder.closeLoop, loops]
    exact builder_patches loop.breaks _

mutual

@[simp] theorem builder_expr (j : Journal) : (e : Expr) → (j.expr e).builder = j.builder.expr e
  | .null | .bool _ | .num _ | .str _ | .ident _ => rfl
  | .list items => by simp [expr, Builder.expr, builder_exprs j items]
  | .object fields => by simp [expr, Builder.expr, builder_fields j fields]
  | .member object _ => by simp [expr, Builder.expr, builder_expr j object]
  | .index object position => by
    simp [expr, Builder.expr, builder_expr j object, builder_expr _ position]
  | .call callee args _ => by
    simp [expr, Builder.expr, builder_expr j callee, builder_exprs _ args]
  | .unary _ operand => by simp [expr, Builder.expr, builder_expr j operand]
  | .binary _ left right => by
    simp [expr, Builder.expr, builder_expr j left, builder_expr _ right]
  | .logical op left right => by
    cases op <;> simp [expr, Builder.expr, builder_expr j left, builder_expr _ right]

@[simp] theorem builder_exprs (j : Journal) :
    (es : List Expr) → (j.exprs es).builder = j.builder.exprs es
  | [] => rfl
  | e :: rest => by simp [exprs, Builder.exprs, builder_expr j e, builder_exprs _ rest]

@[simp] theorem builder_fields (j : Journal) :
    (es : List (String × Expr)) → (j.fields es).builder = j.builder.fields es
  | [] => rfl
  | (_, e) :: rest => by simp [fields, Builder.fields, builder_expr j e, builder_fields _ rest]

end

@[simp] theorem builder_exprOrNull (j : Journal) (value : Option Expr) :
    (j.exprOrNull value).builder = j.builder.exprOrNull value := by
  cases value with
  | none => rfl
  | some e => exact builder_expr j e

@[simp] theorem builder_assign (j : Journal) (value : Expr) (target : Target) :
    (j.assign value target).builder = j.builder.assign value target := by
  cases target <;> simp [assign, Builder.assign]

/-- What is done with a compiled part is forgotten with it. -/
theorem map_bind {x : Except CompileError Journal} {y : Except CompileError Builder}
    {f : Journal → Except CompileError Journal} {g : Builder → Except CompileError Builder}
    (parts : x.map builder = y) (goes_on : ∀ j, (f j).map builder = g j.builder) :
    (x.bind f).map builder = y.bind g := by
  subst parts
  cases x with
  | error e => rfl
  | ok j => exact goes_on j

mutual

/-- A journal compiles a statement as its builder does. -/
theorem builder_stmt (j : Journal) : (s : Stmt) → (j.stmt s).map builder = j.builder.stmt s
  | .block line body => map_bind (builder_stmts _ body) fun _ => rfl
  | .declare line name value => by
    simp only [stmt, Builder.stmt, Except.map, builder_exprOrNull, builder_on]
    split <;> simp
  | .assign line target value => by simp [stmt, Builder.stmt, Except.map]
  | .ifThen line test body => by
    refine map_bind ((builder_stmt _ body).trans (congrArg (Builder.stmt · body) ?_)) fun k => ?_
    · simp
    · simp [Except.map]
  | .ifThenElse line test body otherwise => by
    refine map_bind ((builder_stmt _ body).trans (congrArg (Builder.stmt · body) ?_)) fun k =>
      map_bind ((builder_stmt _ otherwise).trans (congrArg (Builder.stmt · otherwise) ?_))
        fun l => ?_
    · simp
    · simp
    · simp [Except.map]
  | .while line test body => by
    refine map_bind ((builder_stmt _ body).trans (congrArg (Builder.stmt · body) ?_)) fun k => ?_
    · simp
    · simp [Except.map]
  | .forOf line name iterable body => by
    refine map_bind ((builder_stmt _ body).trans (congrArg (Builder.stmt · body) ?_)) fun k => ?_
    · simp
    · simp [Except.map]
  | .tryCatch line body name handler => by
    refine map_bind (builder_stmts _ body) fun k =>
      map_bind ((builder_stmts _ handler).trans (congrArg (Builder.stmts · handler) ?_))
        fun l => ?_
    · rfl
    · rfl
  | .return line value => by simp [stmt, Builder.stmt, Except.map]
  | .throw line value => by simp [stmt, Builder.stmt, Except.map]
  | .break line => by
    cases loops : j.builder.loops <;> simp [stmt, Builder.stmt, loops, Except.map]
  | .continue line => by
    cases loops : j.builder.loops <;> simp [stmt, Builder.stmt, loops, Except.map]
  | .expr line value => by simp [stmt, Builder.stmt, Except.map]

theorem builder_stmts (j : Journal) :
    (body : List Stmt) → (j.stmts body).map builder = j.builder.stmts body
  | [] => rfl
  | s :: rest => map_bind (builder_stmt j s) fun j => builder_stmts j rest

end

theorem exists_events {x : Except CompileError Journal} {next : Builder}
    (h : x.map builder = .ok next) : ∃ events, x = .ok ⟨next, events⟩ := by
  cases x with
  | error e => cases h
  | ok k =>
    cases h
    exact ⟨k.events, rfl⟩

/-- What compiles has a journal. -/
theorem stmt_ok {s : Stmt} {next : Builder} (h : j.builder.stmt s = .ok next) :
    ∃ events, j.stmt s = .ok ⟨next, events⟩ := exists_events ((builder_stmt j s).trans h)

theorem stmts_ok {body : List Stmt} {next : Builder} (h : j.builder.stmts body = .ok next) :
    ∃ events, j.stmts body = .ok ⟨next, events⟩ := exists_events ((builder_stmts j body).trans h)

end Journal
end FrameScript
