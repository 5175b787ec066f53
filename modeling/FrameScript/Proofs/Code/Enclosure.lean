import FrameScript.Proofs.Code.Routine

/-!
# Jumps out of loops

A script that compiles has every `break` and `continue` inside of a loop, since
the builder knows how many loops there are around each statement.
-/

namespace FrameScript

namespace Stmt

mutual

/-- Every `break` and `continue` stands in a loop, which is a part of the statement or
around it if `inLoop` says so. -/
def Enclosed (inLoop : Prop) : Stmt → Prop
  | block _ body => AllEnclosed inLoop body
  | ifThen _ _ body => body.Enclosed inLoop
  | ifThenElse _ _ body otherwise => body.Enclosed inLoop ∧ otherwise.Enclosed inLoop
  | «while» _ _ body | forOf _ _ _ body => body.Enclosed True
  | tryCatch _ body _ handler => AllEnclosed inLoop body ∧ AllEnclosed inLoop handler
  | «break» _ | «continue» _ => inLoop
  | declare _ _ _ | assign _ _ _ | «return» _ _ | throw _ _ | expr _ _ => True

def AllEnclosed (inLoop : Prop) : List Stmt → Prop
  | [] => True
  | s :: rest => s.Enclosed inLoop ∧ AllEnclosed inLoop rest

end

mutual

theorem Enclosed.mono {p q : Prop} (imp : p → q) : (s : Stmt) → s.Enclosed p → s.Enclosed q
  | block _ body, h => AllEnclosed.mono imp body h
  | ifThen _ _ body, h => Enclosed.mono imp body h
  | ifThenElse _ _ body otherwise, h =>
    ⟨Enclosed.mono imp body h.1, Enclosed.mono imp otherwise h.2⟩
  | «while» _ _ _, h | forOf _ _ _ _, h => h
  | tryCatch _ body _ handler, h =>
    ⟨AllEnclosed.mono imp body h.1, AllEnclosed.mono imp handler h.2⟩
  | «break» _, h | «continue» _, h => imp h
  | declare _ _ _, _ | assign _ _ _, _ | «return» _ _, _ | throw _ _, _ | expr _ _, _ => trivial

theorem AllEnclosed.mono {p q : Prop} (imp : p → q) :
    (body : List Stmt) → AllEnclosed p body → AllEnclosed q body
  | [], _ => trivial
  | s :: rest, h => ⟨Enclosed.mono imp s h.1, AllEnclosed.mono imp rest h.2⟩

end

end Stmt

namespace Builder

def nesting (b : Builder) : Nat := b.loops.length

section

variable (b : Builder)

@[simp] theorem nesting_emit (i : Instr) : (b.emit i).nesting = b.nesting := rfl

@[simp] theorem nesting_atLine (line : Nat) : (b.atLine line).nesting = b.nesting := rfl

@[simp] theorem nesting_patch (position : Nat) : (b.patch position).nesting = b.nesting := rfl

@[simp] theorem nesting_declare (name : String) : (b.declare name).nesting = b.nesting := rfl

@[simp] theorem nesting_openScope : b.openScope.nesting = b.nesting := rfl

@[simp] theorem nesting_handlers (handlers : Nat) :
    ({ b with handlers } : Builder).nesting = b.nesting := rfl

@[simp] theorem nesting_openLoop (start : Nat) : (b.openLoop start).nesting = b.nesting + 1 := rfl

@[simp] theorem nesting_closeScope : b.closeScope.nesting = b.nesting := by
  unfold closeScope
  dsimp only
  split <;> rfl

@[simp] theorem nesting_closeLoop : b.closeLoop.nesting = b.nesting - 1 := by
  have patched (jumps : List Nat) (b : Builder) :
      (jumps.foldl (fun b jump => b.patch jump) b).nesting = b.nesting := by
    induction jumps generalizing b with
    | nil => rfl
    | cons jump rest ih => rw [List.foldl_cons, ih, nesting_patch]
  unfold closeLoop
  split
  · rename_i loopless
    simp [nesting, loopless]
  · rename_i loop outer loops
    rw [patched]
    simp [nesting, loops]

@[simp] theorem nesting_emitTimes (n : Nat) (i : Instr) :
    (b.emitTimes n i).nesting = b.nesting := by
  induction n generalizing b with
  | zero => rfl
  | succ n ih => exact ih (b.emit i)

@[simp] theorem nesting_unwindTo (loop : Loop) : (b.unwindTo loop).nesting = b.nesting := by
  unfold unwindTo
  dsimp only
  split <;> simp

@[simp] theorem nesting_recordBreak (jump : Nat) : (b.recordBreak jump).nesting = b.nesting := by
  unfold recordBreak
  split
  · rfl
  · rename_i loops
    simp [nesting, loops]

theorem nesting_load (name : String) : (b.load name).nesting = b.nesting := by
  unfold load
  split <;> rfl

theorem nesting_store (name : String) : (b.store name).nesting = b.nesting := by
  unfold store
  split <;> rfl

end

mutual

@[simp] theorem nesting_expr (b : Builder) : (e : Expr) → (b.expr e).nesting = b.nesting
  | .null | .bool _ | .num _ | .str _ => rfl
  | .list items => nesting_exprs b items
  | .object fields => nesting_fields b fields
  | .ident name => nesting_load b name
  | .member e _ => nesting_expr b e
  | .index e position => (nesting_expr (b.expr e) position).trans (nesting_expr b e)
  | .call callee args _ => (nesting_exprs (b.expr callee) args).trans (nesting_expr b callee)
  | .unary _ operand => nesting_expr b operand
  | .binary _ left right => (nesting_expr (b.expr left) right).trans (nesting_expr b left)
  | .logical op left right => by
    cases op <;> exact (nesting_expr _ right).trans (nesting_expr b left)

@[simp] theorem nesting_exprs (b : Builder) : (es : List Expr) → (b.exprs es).nesting = b.nesting
  | [] => rfl
  | e :: rest => (nesting_exprs (b.expr e) rest).trans (nesting_expr b e)

@[simp] theorem nesting_fields (b : Builder) :
    (fields : List (String × Expr)) → (b.fields fields).nesting = b.nesting
  | [] => rfl
  | (_, e) :: rest => (nesting_fields (b.expr e) rest).trans (nesting_expr b e)

end

@[simp] theorem nesting_exprOrNull (b : Builder) (value : Option Expr) :
    (b.exprOrNull value).nesting = b.nesting := by
  cases value with
  | none => rfl
  | some e => exact nesting_expr b e

@[simp] theorem nesting_assign (b : Builder) (value : Expr) (target : Target) :
    (b.assign value target).nesting = b.nesting := by
  cases target <;> simp [assign, nesting_store]

mutual

/-- A statement that compiles is enclosed in the loops around it, and leaves them open. -/
theorem stmt_enclosed {b next : Builder} :
    (s : Stmt) → b.stmt s = .ok next → s.Enclosed (b.nesting ≠ 0) ∧ next.nesting = b.nesting
  | .block line body, h => by
    obtain ⟨mid, compiled, h⟩ := bind_ok h
    cases h
    obtain ⟨inside, same⟩ := stmts_enclosed body compiled
    exact ⟨inside, (nesting_closeScope mid).trans same⟩
  | .declare line name value, h => by
    cases h
    refine ⟨trivial, ?_⟩
    split <;> simp
  | .assign line target value, h => by
    cases h
    exact ⟨trivial, by simp⟩
  | .ifThen line test body, h => by
    obtain ⟨mid, compiled, h⟩ := bind_ok h
    cases h
    obtain ⟨inside, same⟩ := stmt_enclosed body compiled
    simp only [nesting_openScope, nesting_emit, nesting_expr, nesting_atLine] at inside same
    exact ⟨inside, by simpa using same⟩
  | .ifThenElse line test body otherwise, h => by
    obtain ⟨mid, compiled, h⟩ := bind_ok h
    obtain ⟨last, compiled', h⟩ := bind_ok h
    cases h
    obtain ⟨inside, same⟩ := stmt_enclosed body compiled
    obtain ⟨inside', same'⟩ := stmt_enclosed otherwise compiled'
    simp only [nesting_openScope, nesting_emit, nesting_expr, nesting_atLine] at inside same
    simp only [nesting_openScope, nesting_patch, nesting_emit, nesting_closeScope, same]
      at inside' same'
    exact ⟨⟨inside, inside'⟩, by simpa using same'⟩
  | .while line test body, h => by
    obtain ⟨mid, compiled, h⟩ := bind_ok h
    cases h
    obtain ⟨inside, same⟩ := stmt_enclosed body compiled
    refine ⟨Stmt.Enclosed.mono (fun _ => trivial) body inside, ?_⟩
    simp [same]
  | .forOf line name iterable body, h => by
    obtain ⟨mid, compiled, h⟩ := bind_ok h
    cases h
    obtain ⟨inside, same⟩ := stmt_enclosed body compiled
    refine ⟨Stmt.Enclosed.mono (fun _ => trivial) body inside, ?_⟩
    simp [same]
  | .tryCatch line body name handler, h => by
    obtain ⟨mid, compiled, h⟩ := bind_ok h
    obtain ⟨last, compiled', h⟩ := bind_ok h
    cases h
    obtain ⟨inside, same⟩ := stmts_enclosed body compiled
    obtain ⟨inside', same'⟩ := stmts_enclosed handler compiled'
    simp only [nesting_openScope, nesting_handlers, nesting_emit, nesting_atLine] at inside same
    simp only [nesting_openScope, nesting_declare, nesting_patch, nesting_emit, nesting_handlers,
      nesting_closeScope, same] at inside' same'
    exact ⟨⟨inside, inside'⟩, by simpa using same'⟩
  | .return line value, h => by
    cases h
    exact ⟨trivial, by simp⟩
  | .throw line value, h => by
    cases h
    exact ⟨trivial, by simp⟩
  | .break line, h => by
    cases loops : b.loops with
    | nil => simp [stmt, loops] at h
    | cons loop outer =>
      simp only [stmt, loops, Except.ok.injEq] at h
      subst h
      exact ⟨by simp [Stmt.Enclosed, nesting, loops], by simp⟩
  | .continue line, h => by
    cases loops : b.loops with
    | nil => simp [stmt, loops] at h
    | cons loop outer =>
      simp only [stmt, loops, Except.ok.injEq] at h
      subst h
      exact ⟨by simp [Stmt.Enclosed, nesting, loops], by simp⟩
  | .expr line value, h => by
    cases h
    exact ⟨trivial, by simp⟩

theorem stmts_enclosed {b next : Builder} :
    (body : List Stmt) → b.stmts body = .ok next →
      Stmt.AllEnclosed (b.nesting ≠ 0) body ∧ next.nesting = b.nesting
  | [], h => by
    cases h
    exact ⟨trivial, rfl⟩
  | s :: rest, h => by
    obtain ⟨mid, compiled, h⟩ := bind_ok h
    obtain ⟨first, same⟩ := stmt_enclosed s compiled
    obtain ⟨others, same'⟩ := stmts_enclosed rest h
    rw [same] at others same'
    exact ⟨⟨first, others⟩, same'⟩

end

theorem stmts_enclosed_of_new {b next : Builder} (outside : b.loops = []) (body : List Stmt)
    (h : b.stmts body = .ok next) : Stmt.AllEnclosed False body :=
  Stmt.AllEnclosed.mono (fun inside => inside (by simp [nesting, outside])) body
    (stmts_enclosed body h).1

end Builder

/-- Bodies of functions that compile have no jump out of a loop that they are not in. -/
theorem compileFunctions_enclosed {source : String} {seen : List String}
    {functions : List FunctionDecl} {chunks : List Chunk}
    (h : compileFunctions source seen functions = .ok chunks) :
    ∀ f ∈ functions, Stmt.AllEnclosed False f.body := by
  intro f mem
  obtain ⟨i, low, rfl⟩ := List.getElem_of_mem mem
  obtain ⟨same, each⟩ := List.forall₂_iff_get.mp (compileFunctions_each h)
  obtain ⟨b, body, -⟩ := bind_ok (each i low (same ▸ low))
  exact Builder.stmts_enclosed_of_new (Builder.params_locals _ _).2.2.2.1 _ body

/-- Neither has the body of any routine of a script that compiles. -/
theorem compile_enclosed {source : String} {script : Script} {compiled : CompiledScript}
    (h : compile source script = .ok compiled) :
    ∀ r ∈ script.routines source, Stmt.AllEnclosed False r.body := by
  obtain ⟨functions, declared, h⟩ := bind_ok h
  obtain ⟨b, body, h⟩ := bind_ok h
  intro r mem
  rcases List.mem_cons.mp mem with rfl | mem
  · exact Builder.stmts_enclosed_of_new rfl script.body body
  · obtain ⟨f, declared', rfl⟩ := List.mem_map.mp mem
    exact compileFunctions_enclosed declared f declared'

end FrameScript
