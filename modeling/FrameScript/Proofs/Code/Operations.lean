import FrameScript.Proofs.Code.Routine

/-!
# Operations and their lines

An operation is a part of a statement that can fail: reading a name, a member access, an
operator, a call, a round of a loop, a throw. The code of a routine holds its operations in
order, one instruction for each, between others that never fail. The line table gives each
operation the line of its call or, if it is none, of the statement that it belongs to.
-/

namespace FrameScript

inductive OperationKind where
  | load (name : String)
  | getMember (name : String)
  | setMember (name : String)
  | getIndex
  | setIndex
  | unary (op : UnaryOp)
  | binary (op : BinaryOp)
  | call (callee : Expr) (args : List Expr) (line : Nat)
  /-- The next item of a for-of loop. -/
  | round
  | throw

/-- An operation with the innermost statement around it. -/
structure Operation where
  owner : Stmt
  kind : OperationKind

def Operation.line (o : Operation) : Nat :=
  match o.kind with
  | .call _ _ line => line
  | _ => o.owner.line

/-- The instruction is for the operation. -/
def OperationKind.Does : OperationKind → Instr → Prop
  | load name, i => i = .getGlobal name ∨ ∃ slot, i = .getLocal slot
  | getMember name, i => i = .getMember name
  | setMember name, i => i = .setMember name
  | getIndex, i => i = .getIndex
  | setIndex, i => i = .setIndex
  | unary op, i => i = .unary op
  | binary op, i => i = .binary op
  | call _ args _, i => i = .call args.length
  | round, i => ∃ list index exit, i = .iterNext list index exit
  | throw, i => i = .throw

def Instr.operates : Instr → Bool
  | getLocal _ | getGlobal _ | getMember _ | setMember _ | getIndex | setIndex | unary _ | binary _
  | call _ | iterNext _ _ _ | throw => true
  | _ => false

namespace Expr

mutual

/-- The operations of an expression of a statement, in the order in which they are carried out. -/
def operations (owner : Stmt) : Expr → List Operation
  | null | bool _ | num _ | str _ => []
  | list items => operationsAll owner items
  | object fields => operationsFields owner fields
  | ident name => [⟨owner, .load name⟩]
  | member e name => operations owner e ++ [⟨owner, .getMember name⟩]
  | index e position => operations owner e ++ operations owner position ++ [⟨owner, .getIndex⟩]
  | call callee args line =>
    operations owner callee ++ operationsAll owner args ++ [⟨owner, .call callee args line⟩]
  | unary op operand => operations owner operand ++ [⟨owner, .unary op⟩]
  | binary op left right =>
    operations owner left ++ operations owner right ++ [⟨owner, .binary op⟩]
  | logical _ left right => operations owner left ++ operations owner right

def operationsAll (owner : Stmt) : List Expr → List Operation
  | [] => []
  | e :: rest => operations owner e ++ operationsAll owner rest

def operationsFields (owner : Stmt) : List (String × Expr) → List Operation
  | [] => []
  | (_, e) :: rest => operations owner e ++ operationsFields owner rest

end

def optionOperations (owner : Stmt) : Option Expr → List Operation
  | some e => e.operations owner
  | none => []

end Expr

def Target.operations (owner : Stmt) (value : Expr) : Target → List Operation
  | ident _ => value.operations owner
  | member object name =>
    object.operations owner ++ value.operations owner ++ [⟨owner, .setMember name⟩]
  | index object position =>
    object.operations owner ++ position.operations owner ++ value.operations owner ++
      [⟨owner, .setIndex⟩]

namespace Stmt

mutual

/-- The operations of a statement and of those inside it, in the order of the code. -/
def operations : Stmt → List Operation
  | block _ body => operationsAll body
  | declare line name value => Expr.optionOperations (declare line name value) value
  | assign line target value => target.operations (assign line target value) value
  | ifThen line test body =>
    test.operations (ifThen line test body) ++ operations body
  | ifThenElse line test body otherwise =>
    test.operations (ifThenElse line test body otherwise) ++ operations body ++
      operations otherwise
  | «while» line test body =>
    test.operations («while» line test body) ++ operations body
  | forOf line name iterable body =>
    iterable.operations (forOf line name iterable body) ++
      [⟨forOf line name iterable body, .round⟩] ++ operations body
  | tryCatch _ body _ handler => operationsAll body ++ operationsAll handler
  | «return» line value => Expr.optionOperations («return» line value) value
  | throw line value => value.operations (throw line value) ++ [⟨throw line value, .throw⟩]
  | «break» _ | «continue» _ => []
  | expr line value => value.operations (expr line value)

def operationsAll : List Stmt → List Operation
  | [] => []
  | s :: rest => operations s ++ operationsAll rest

end

end Stmt

/-- The code holds the operations in order, each with its line; its other instructions are for
none. -/
inductive Traces : List Operation → List Instr → List Nat → Prop
  | nil : Traces [] [] []
  | quiet {ops code lines} {i : Instr} (line : Nat) (unowned : i.operates = false)
    (rest : Traces ops code lines) : Traces ops (i :: code) (line :: lines)
  | acts {ops code lines} {i : Instr} (o : Operation) (does : o.kind.Does i)
    (rest : Traces ops code lines) : Traces (o :: ops) (i :: code) (o.line :: lines)

namespace Traces

variable {ops more : List Operation} {code code' : List Instr} {lines lines' : List Nat}

theorem append (h : Traces ops code lines) (k : Traces more code' lines') :
    Traces (ops ++ more) (code ++ code') (lines ++ lines') := by
  induction h with
  | nil => exact k
  | quiet line unowned _ ih => exact .quiet line unowned ih
  | acts o does _ ih => exact .acts o does ih

theorem withTarget_operates (i : Instr) (target : Nat) :
    (i.withTarget target).operates = i.operates := by
  cases i <;> rfl

theorem does_withTarget {kind : OperationKind} {i : Instr} (does : kind.Does i) (target : Nat) :
    kind.Does (i.withTarget target) := by
  cases kind with
  | load name =>
    rcases does with rfl | ⟨slot, rfl⟩
    · exact .inl rfl
    · exact .inr ⟨slot, rfl⟩
  | round =>
    obtain ⟨list, index, exit, rfl⟩ := does
    exact ⟨list, index, target, rfl⟩
  | _ =>
    cases does
    rfl

theorem modify (h : Traces ops code lines) (position target : Nat) :
    Traces ops (code.modify position (Instr.withTarget target)) lines := by
  induction h generalizing position with
  | nil =>
    rw [List.modify_nil]
    exact .nil
  | quiet line unowned rest ih =>
    cases position with
    | zero => exact .quiet line ((withTarget_operates _ target).trans unowned) rest
    | succ position => exact .quiet line unowned (ih position)
  | acts o does rest ih =>
    cases position with
    | zero => exact .acts o (does_withTarget does target) rest
    | succ position => exact .acts o does (ih position)

theorem operates_of_does {kind : OperationKind} {i : Instr} (does : kind.Does i) :
    i.operates = true := by
  cases kind with
  | load name => rcases does with rfl | ⟨slot, rfl⟩ <;> rfl
  | round =>
    obtain ⟨list, index, exit, rfl⟩ := does
    rfl
  | _ =>
    cases does
    rfl

theorem operation_at (h : Traces ops code lines) {pc : Nat} {i : Instr}
    (fetched : code[pc]? = some i) (acts : i.operates = true) :
    ∃ o, ops[(code.take pc).countP Instr.operates]? = some o ∧ o.kind.Does i ∧
      lines[pc]? = some o.line := by
  induction h generalizing pc with
  | nil => cases fetched
  | quiet line unowned rest ih =>
    cases pc with
    | zero =>
      cases fetched
      rw [unowned] at acts
      cases acts
    | succ pc =>
      obtain ⟨o, own, does, shows⟩ := ih fetched
      refine ⟨o, ?_, does, shows⟩
      rw [List.take_succ_cons, List.countP_cons_of_neg (by simp [unowned])]
      exact own
  | acts o does rest ih =>
    cases pc with
    | zero =>
      cases fetched
      exact ⟨o, rfl, does, rfl⟩
    | succ pc =>
      obtain ⟨o', own, does', shows⟩ := ih fetched
      refine ⟨o', ?_, does', shows⟩
      rw [List.take_succ_cons, List.countP_cons_of_pos (operates_of_does does)]
      exact own

end Traces

namespace Builder

/-- The code so far holds these operations. -/
def Traces (b : Builder) (ops : List Operation) : Prop :=
  FrameScript.Traces ops b.code.toList b.lines.toList

namespace Traces

variable {b : Builder} {ops : List Operation}

theorem new (depth line : Nat) : (Builder.new depth line).Traces [] := .nil

theorem emit (h : b.Traces ops) {i : Instr} (unowned : i.operates = false) :
    (b.emit i).Traces ops := by
  have added : FrameScript.Traces [] [i] [b.line] := .quiet b.line unowned .nil
  simpa [Traces, Builder.emit] using FrameScript.Traces.append h added

theorem act (h : b.Traces ops) {o : Operation} {i : Instr} (does : o.kind.Does i)
    (line : b.line = o.line) : (b.emit i).Traces (ops ++ [o]) := by
  have added : FrameScript.Traces [o] [i] [o.line] := .acts o does .nil
  simpa [Traces, Builder.emit, line] using FrameScript.Traces.append h added

theorem atLine (h : b.Traces ops) (line : Nat) : (b.atLine line).Traces ops := h

theorem openScope (h : b.Traces ops) : b.openScope.Traces ops := h

theorem patch (h : b.Traces ops) (position : Nat) : (b.patch position).Traces ops := by
  simpa [Traces, Builder.patch] using FrameScript.Traces.modify h position b.here

theorem closeScope (h : b.Traces ops) : b.closeScope.Traces ops := by
  unfold Builder.closeScope
  dsimp only
  split
  · exact h
  · exact emit h rfl

theorem closeLoop (h : b.Traces ops) : b.closeLoop.Traces ops := by
  unfold Builder.closeLoop
  split
  · exact h
  · rename_i loop outer _
    have patched (jumps : List Nat) (b : Builder) (h : b.Traces ops) :
        (jumps.foldl (fun b jump => b.patch jump) b).Traces ops := by
      induction jumps generalizing b with
      | nil => exact h
      | cons jump rest ih => exact ih _ (h.patch jump)
    exact patched _ _ h

theorem emitTimes (h : b.Traces ops) {i : Instr} (unowned : i.operates = false) (n : Nat) :
    (b.emitTimes n i).Traces ops := by
  induction n generalizing b with
  | zero => exact h
  | succ n ih => exact ih (h.emit unowned)

theorem unwindTo (h : b.Traces ops) (loop : Loop) : (b.unwindTo loop).Traces ops := by
  unfold Builder.unwindTo
  dsimp only
  apply emitTimes _ rfl
  split
  · exact h
  · exact emit h rfl

theorem recordBreak (h : b.Traces ops) (jump : Nat) : (b.recordBreak jump).Traces ops := by
  unfold Builder.recordBreak
  split <;> exact h

theorem store (h : b.Traces ops) (name : String) : (b.store name).Traces ops := by
  unfold Builder.store
  split <;> exact h.emit rfl

theorem load (h : b.Traces ops) {owner : Stmt} (own_line : b.line = owner.line) (name : String) :
    (b.load name).Traces (ops ++ [⟨owner, .load name⟩]) := by
  unfold Builder.load
  split
  · rename_i slot _
    exact h.act (.inr ⟨slot, rfl⟩) own_line
  · exact h.act (.inl rfl) own_line

end Traces

mutual

theorem line_expr (b : Builder) : (e : Expr) → (b.expr e).line = b.line
  | .null | .bool _ | .num _ | .str _ => rfl
  | .list items => line_exprs b items
  | .object fields => line_fields b fields
  | .ident name => by
    unfold expr load
    split <;> rfl
  | .member object _ => line_expr b object
  | .index object position => (line_expr _ position).trans (line_expr b object)
  | .call callee args _ => (line_exprs _ args).trans (line_expr b callee)
  | .unary _ operand => line_expr b operand
  | .binary _ left right => (line_expr _ right).trans (line_expr b left)
  | .logical op left right => by
    cases op <;> exact (line_expr _ right).trans (line_expr b left)

theorem line_exprs (b : Builder) : (es : List Expr) → (b.exprs es).line = b.line
  | [] => rfl
  | e :: rest => (line_exprs _ rest).trans (line_expr b e)

theorem line_fields (b : Builder) : (fields : List (String × Expr)) →
    (b.fields fields).line = b.line
  | [] => rfl
  | (_, e) :: rest => (line_fields _ rest).trans (line_expr b e)

end

section

variable {b : Builder} {ops : List Operation} {owner : Stmt}

mutual

/-- The code of an expression holds its operations; only a call leaves the line of the statement,
and comes back to it. -/
theorem expr_traces {b : Builder} {ops : List Operation} (h : b.Traces ops)
    (own_line : b.line = owner.line) :
    (e : Expr) → (b.expr e).Traces (ops ++ e.operations owner)
  | .null | .bool _ | .num _ | .str _ => by
    rw [Expr.operations, List.append_nil]
    exact h.emit rfl
  | .list items => (exprs_traces h own_line items).emit rfl
  | .object fields => (fields_traces h own_line fields).emit rfl
  | .ident name => h.load own_line name
  | .member object name => by
    rw [Expr.operations, ← List.append_assoc]
    exact (expr_traces h own_line object).act rfl ((line_expr b object).trans own_line)
  | .index object position => by
    have first := expr_traces h own_line object
    have at_first := (line_expr b object).trans own_line
    have second := expr_traces first at_first position
    rw [Expr.operations, ← List.append_assoc, ← List.append_assoc]
    exact second.act rfl ((line_expr _ position).trans at_first)
  | .call callee args line => by
    have first := expr_traces h own_line callee
    have second := exprs_traces first ((line_expr b callee).trans own_line) args
    have moved : (((b.expr callee).exprs args).atLine line).Traces _ := second
    rw [Expr.operations, ← List.append_assoc, ← List.append_assoc]
    exact moved.act rfl rfl
  | .unary op operand => by
    rw [Expr.operations, ← List.append_assoc]
    exact (expr_traces h own_line operand).act rfl ((line_expr b operand).trans own_line)
  | .binary op left right => by
    have first := expr_traces h own_line left
    have at_first := (line_expr b left).trans own_line
    have second := expr_traces first at_first right
    rw [Expr.operations, ← List.append_assoc, ← List.append_assoc]
    exact second.act rfl ((line_expr _ right).trans at_first)
  | .logical op left right => by
    have first := expr_traces h own_line left
    have at_first := (line_expr b left).trans own_line
    have jumped (i : Instr) (unowned : i.operates = false) :
        ((((b.expr left).emit i).expr right).patch (b.expr left).here).Traces
          (ops ++ (left.operations owner ++ right.operations owner)) := by
      have emitted : ((b.expr left).emit i).Traces (ops ++ left.operations owner) :=
        first.emit unowned
      have second := expr_traces emitted at_first right
      rw [← List.append_assoc]
      exact second.patch _
    cases op
    · exact jumped (.jumpIfFalseKeep 0) rfl
    · exact jumped (.jumpIfTrueKeep 0) rfl

theorem exprs_traces {b : Builder} {ops : List Operation} (h : b.Traces ops)
    (own_line : b.line = owner.line) :
    (es : List Expr) → (b.exprs es).Traces (ops ++ Expr.operationsAll owner es)
  | [] => by
    rw [Expr.operationsAll, List.append_nil]
    exact h
  | e :: rest => by
    rw [Expr.operationsAll, ← List.append_assoc]
    exact exprs_traces (expr_traces h own_line e) ((line_expr b e).trans own_line) rest

theorem fields_traces {b : Builder} {ops : List Operation} (h : b.Traces ops)
    (own_line : b.line = owner.line) :
    (fields : List (String × Expr)) →
      (b.fields fields).Traces (ops ++ Expr.operationsFields owner fields)
  | [] => by
    rw [Expr.operationsFields, List.append_nil]
    exact h
  | (_, e) :: rest => by
    rw [Expr.operationsFields, ← List.append_assoc]
    exact fields_traces (expr_traces h own_line e) ((line_expr b e).trans own_line) rest

end

theorem exprOrNull_traces (h : b.Traces ops) (own_line : b.line = owner.line)
    (value : Option Expr) :
    (b.exprOrNull value).Traces (ops ++ Expr.optionOperations owner value) := by
  cases value with
  | none =>
    rw [Expr.optionOperations, List.append_nil]
    exact h.emit rfl
  | some e => exact expr_traces h own_line e

theorem assign_traces (h : b.Traces ops) (own_line : b.line = owner.line) (value : Expr)
    (target : Target) : (b.assign value target).Traces (ops ++ target.operations owner value) := by
  cases target with
  | ident name => exact (expr_traces h own_line value).store name
  | member object name =>
    have first := expr_traces h own_line object
    have at_first := (line_expr b object).trans own_line
    have second := expr_traces first at_first value
    rw [Target.operations, ← List.append_assoc, ← List.append_assoc]
    exact second.act rfl ((line_expr _ value).trans at_first)
  | index object position =>
    have first := expr_traces h own_line object
    have at_first := (line_expr b object).trans own_line
    have second := expr_traces first at_first position
    have at_second := (line_expr _ position).trans at_first
    have third := expr_traces second at_second value
    rw [Target.operations, ← List.append_assoc, ← List.append_assoc, ← List.append_assoc]
    exact third.act rfl ((line_expr _ value).trans at_second)

end

mutual

/-- The code of a statement holds its operations. -/
theorem stmt_traces {b next : Builder} {ops : List Operation} (h : b.Traces ops) :
    (s : Stmt) → b.stmt s = .ok next → next.Traces (ops ++ s.operations)
  | .block line body, built => by
    obtain ⟨b', inside, built⟩ := bind_ok built
    cases built
    exact (stmts_traces (h.atLine line).openScope body inside).closeScope
  | .declare line name value, built => by
    cases built
    have traced : ((b.atLine line).exprOrNull value).Traces
        (ops ++ Expr.optionOperations (.declare line name value) value) :=
      exprOrNull_traces (h.atLine line) rfl value
    split
    · exact traced.emit rfl
    · exact traced
  | .assign line target value, built => by
    cases built
    exact assign_traces (h.atLine line) rfl value target
  | .ifThen line test body, built => by
    obtain ⟨b', inside, built⟩ := bind_ok built
    cases built
    have tested : ((b.atLine line).expr test).Traces
        (ops ++ test.operations (.ifThen line test body)) := expr_traces (h.atLine line) rfl test
    have opened : (((b.atLine line).expr test).emit (.jumpIfFalse 0)).openScope.Traces
        (ops ++ test.operations (.ifThen line test body)) := tested.emit rfl
    rw [Stmt.operations, ← List.append_assoc]
    exact (stmt_traces opened body inside).closeScope.patch _
  | .ifThenElse line test body otherwise, built => by
    obtain ⟨b', inside, built⟩ := bind_ok built
    obtain ⟨b'', other, built⟩ := bind_ok built
    cases built
    have tested : ((b.atLine line).expr test).Traces
        (ops ++ test.operations (.ifThenElse line test body otherwise)) :=
      expr_traces (h.atLine line) rfl test
    have opened : (((b.atLine line).expr test).emit (.jumpIfFalse 0)).openScope.Traces
        (ops ++ test.operations (.ifThenElse line test body otherwise)) := tested.emit rfl
    have closed := (stmt_traces opened body inside).closeScope
    have skipped : ((b'.closeScope.emit (.jump 0)).patch ((b.atLine line).expr test).here).Traces
        (ops ++ test.operations (.ifThenElse line test body otherwise) ++ body.operations) :=
      (closed.emit rfl).patch _
    rw [Stmt.operations, ← List.append_assoc, ← List.append_assoc]
    exact (stmt_traces skipped.openScope otherwise other).closeScope.patch _
  | .while line test body, built => by
    obtain ⟨b', inside, built⟩ := bind_ok built
    cases built
    have tested : ((b.atLine line).expr test).Traces
        (ops ++ test.operations (.while line test body)) := expr_traces (h.atLine line) rfl test
    have opened : ((((b.atLine line).expr test).emit (.jumpIfFalse 0)).openLoop
        (b.atLine line).here).openScope.Traces (ops ++ test.operations (.while line test body)) :=
      tested.emit rfl
    have closed := (stmt_traces opened body inside).closeScope
    rw [Stmt.operations, ← List.append_assoc]
    exact ((closed.emit rfl).patch _).closeLoop
  | .forOf line name iterable body, built => by
    obtain ⟨b', inside, built⟩ := bind_ok built
    cases built
    let owner : Stmt := .forOf line name iterable body
    let listed := ((b.atLine line).openScope.expr iterable).declare "(for list)"
    have traced : listed.Traces (ops ++ iterable.operations owner) :=
      expr_traces (h.atLine line).openScope rfl iterable
    have own_line : listed.line = line := line_expr _ iterable
    let counted := (listed.emit (.push (.num (Number.zero false)))).declare "(for index)"
    have round (list index start : Nat) :
        (((counted.emit (.iterNext list index 0)).openLoop start).openScope.declare name).Traces
          (ops ++ iterable.operations owner ++ [⟨owner, .round⟩]) :=
      Traces.act (traced.emit rfl) ⟨list, index, 0, rfl⟩ own_line
    have closed := (stmt_traces (round _ _ _).openScope body inside).closeScope.closeScope
    rw [Stmt.operations, ← List.append_assoc, ← List.append_assoc]
    exact ((closed.emit rfl).patch _).closeLoop.closeScope
  | .tryCatch line body name handler, built => by
    obtain ⟨b', inside, built⟩ := bind_ok built
    obtain ⟨b'', caught, built⟩ := bind_ok built
    cases built
    have guarded : ((b.atLine line).emit (.pushHandler 0)).enterTry.Traces ops :=
      (h.atLine line).emit rfl
    have tried := (stmts_traces guarded.openScope body inside).closeScope
    have left : (b'.closeScope.emit .popHandler).leaveTry.Traces (ops ++ Stmt.operationsAll body) :=
      tried.emit rfl
    have landed (position : Nat) :
        ((((b'.closeScope.emit .popHandler).leaveTry.emit (.jump 0)).patch
          position).openScope.declare name).Traces (ops ++
            Stmt.operationsAll body) := Traces.patch (left.emit rfl) position
    rw [Stmt.operations, ← List.append_assoc]
    exact (stmts_traces (landed _) handler caught).closeScope.patch _
  | .return line value, built => by
    cases built
    have traced : ((b.atLine line).exprOrNull value).Traces
        (ops ++ Expr.optionOperations (.return line value) value) :=
      exprOrNull_traces (h.atLine line) rfl value
    exact traced.emit rfl
  | .throw line value, built => by
    cases built
    have traced : ((b.atLine line).expr value).Traces
        (ops ++ value.operations (.throw line value)) := expr_traces (h.atLine line) rfl value
    rw [Stmt.operations, ← List.append_assoc]
    exact traced.act rfl (line_expr _ value)
  | .break line, built => by
    rw [Stmt.operations, List.append_nil]
    rw [stmt] at built
    split at built
    · cases built
    · cases built
      exact (((h.atLine line).unwindTo _).emit rfl).recordBreak _
  | .continue line, built => by
    rw [Stmt.operations, List.append_nil]
    rw [stmt] at built
    split at built
    · cases built
    · cases built
      exact ((h.atLine line).unwindTo _).emit rfl
  | .expr line value, built => by
    cases built
    have traced : ((b.atLine line).expr value).Traces
        (ops ++ value.operations (.expr line value)) := expr_traces (h.atLine line) rfl value
    exact traced.emit rfl

theorem stmts_traces {b next : Builder} {ops : List Operation} (h : b.Traces ops) :
    (body : List Stmt) → b.stmts body = .ok next → next.Traces (ops ++ Stmt.operationsAll body)
  | [], built => by
    cases built
    rw [Stmt.operationsAll, List.append_nil]
    exact h
  | s :: rest, built => by
    obtain ⟨middle, first, others⟩ := bind_ok built
    rw [Stmt.operationsAll, ← List.append_assoc]
    exact stmts_traces (stmt_traces h s first) rest others

end

end Builder

namespace Routine

def operations (r : Routine) : List Operation := Stmt.operationsAll r.body

/-- The code of the chunk holds the operations of the routine, each with its line. -/
def Traces (r : Routine) (chunk : Chunk) : Prop :=
  FrameScript.Traces r.operations chunk.code.toList chunk.lines.toList

/-- The operation that a position of a chunk of the routine is for. -/
def operationAt? (r : Routine) (chunk : Chunk) (pc : Nat) : Option Operation :=
  r.operations[(chunk.code.toList.take pc).countP Instr.operates]?

/-- An instruction that is for an operation has its line. -/
theorem Traces.line {r : Routine} {chunk : Chunk} (h : r.Traces chunk) {pc : Nat} {i : Instr}
    (fetched : chunk.code[pc]? = some i) (acts : i.operates = true) :
    ∃ o, r.operationAt? chunk pc = some o ∧ o.kind.Does i ∧ chunk.lineAt pc = o.line := by
  have listed : chunk.code.toList[pc]? = some i := by simpa using fetched
  obtain ⟨o, own, does, shows⟩ := FrameScript.Traces.operation_at h listed acts
  refine ⟨o, own, does, ?_⟩
  have line : chunk.lines[pc]? = some o.line := by simpa using shows
  rw [Chunk.lineAt, line, Option.getD_some]

theorem operationAt?_mem {r : Routine} {chunk : Chunk} {pc : Nat} {o : Operation}
    (h : r.operationAt? chunk pc = some o) : o ∈ r.operations := List.mem_of_getElem? h

end Routine

namespace Builder

theorem finish_traces {b next : Builder} {r : Routine} (h : b.Traces [])
    (built : b.stmts r.body = .ok next) : r.Traces (next.finish r.name r.source r.params.length) :=
  ((stmts_traces h r.body built).emit rfl).emit rfl

theorem params_traces {b : Builder} (h : b.Traces []) (params : List String) :
    (params.foldl (fun b p => b.declare p) b).Traces [] := by
  induction params generalizing b with
  | nil => exact h
  | cons p rest ih => exact ih h

end Builder

theorem compileFunction_traces {source : String} {f : FunctionDecl} {chunk : Chunk}
    (h : compileFunction source f = .ok chunk) : (Routine.ofDecl source f).Traces chunk := by
  obtain ⟨b, compiled, h⟩ := bind_ok h
  cases h
  exact Builder.finish_traces (r := Routine.ofDecl source f)
    (Builder.params_traces (.new 1 f.line) f.params) compiled

/-- Every chunk of a compiled script has the code and the lines of one of the script's routines. -/
theorem compile_traces {source : String} {script : Script} {compiled : CompiledScript}
    (h : compile source script = .ok compiled) :
    ∀ chunk ∈ compiled.chunks, ∃ r ∈ script.routines source, r.Compiles chunk ∧ r.Traces chunk := by
  intro chunk mem
  have main := compile_main h
  have compiles := List.forall₂_iff_get.mp (compile_functions h)
  obtain ⟨functions, declared, h⟩ := bind_ok h
  obtain ⟨b, body, h⟩ := bind_ok h
  cases h
  rcases List.mem_cons.mp mem with rfl | mem
  · exact ⟨_, List.mem_cons_self, main, Builder.finish_traces (.new 0 1) body⟩
  · obtain ⟨i, low, rfl⟩ := List.getElem_of_mem mem
    obtain ⟨same, each⟩ := List.forall₂_iff_get.mp (compileFunctions_each declared)
    have low' : i < script.functions.length := same ▸ low
    exact ⟨_, List.mem_cons_of_mem _ (List.mem_map_of_mem (List.getElem_mem low')),
      compiles.2 i low' low, compileFunction_traces (each i low' low)⟩

end FrameScript
