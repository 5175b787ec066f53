import FrameScript.Proofs.Code.Layout

/-!
# Emitting expressions

A builder that emits code and changes nothing else is described by the code it
has appended. The code of an expression is what its layout lists.
-/

namespace FrameScript

namespace Builder

@[simp] theorem here_atLine (b : Builder) (line : Nat) : (b.atLine line).here = b.here := rfl

@[simp] theorem here_openScope (b : Builder) : b.openScope.here = b.here := rfl

@[simp] theorem here_openLoop (b : Builder) (start : Nat) : (b.openLoop start).here = b.here := rfl

@[simp] theorem here_declare (b : Builder) (name : String) : (b.declare name).here = b.here := rfl

def enterTry (b : Builder) : Builder := { b with handlers := b.handlers + 1 }

def leaveTry (b : Builder) : Builder := { b with handlers := b.handlers - 1 }

@[simp] theorem here_enterTry (b : Builder) : b.enterTry.here = b.here := rfl

@[simp] theorem here_leaveTry (b : Builder) : b.leaveTry.here = b.here := rfl

@[simp] theorem here_emit (b : Builder) (i : Instr) : (b.emit i).here = b.here + 1 := by
  simp [here, emit]

@[simp] theorem here_patch (b : Builder) (position : Nat) :
    (b.patch position).here = b.here := by
  simp [here, patch]

/-- The builder has emitted code and stands at the same place. -/
structure Emits (b : Builder) (code : List Instr) (next : Builder) : Prop where
  code : next.code.toList = b.code.toList ++ code
  locals : next.locals = b.locals
  depth : next.depth = b.depth
  loops : next.loops = b.loops
  handlers : next.handlers = b.handlers

namespace Emits

variable {b middle next : Builder} {first second : List Instr}

theorem refl (b : Builder) : Emits b [] b := ⟨by simp, rfl, rfl, rfl, rfl⟩

theorem atLine (b : Builder) (line : Nat) : Emits b [] (b.atLine line) :=
  ⟨by simp [Builder.atLine], rfl, rfl, rfl, rfl⟩

theorem emit (b : Builder) (i : Instr) : Emits b [i] (b.emit i) :=
  ⟨by simp [Builder.emit], rfl, rfl, rfl, rfl⟩

theorem trans (h : Emits b first middle) (k : Emits middle second next) :
    Emits b (first ++ second) next where
  code := by rw [k.code, h.code, List.append_assoc]
  locals := k.locals.trans h.locals
  depth := k.depth.trans h.depth
  loops := k.loops.trans h.loops
  handlers := k.handlers.trans h.handlers

theorem here (h : Emits b first next) : next.here = b.here + first.length := by
  have := congrArg List.length h.code
  simpa [Builder.here] using this

end Emits

/-- A patched jump has its target; nothing else changes. -/
theorem patch_code {b : Builder} {before after : List Instr} {i : Instr} {position : Nat}
    (h : b.code.toList = before ++ i :: after) (place : before.length = position) :
    (b.patch position).code.toList = before ++ i.withTarget b.here :: after := by
  subst place
  simp [patch, h, List.modify_eq_take_cons_drop]

theorem Emits.patch {b middle next : Builder} {before after : List Instr} {i : Instr}
    (h : Emits b before middle) (k : Emits middle (i :: after) next) :
    Emits b (before ++ i.withTarget next.here :: after) (next.patch middle.here) where
  code := by
    rw [← List.append_assoc, ← h.code]
    exact patch_code k.code rfl
  locals := k.locals.trans h.locals
  depth := k.depth.trans h.depth
  loops := k.loops.trans h.loops
  handlers := k.handlers.trans h.handlers

end Builder

namespace Builder

def Names (b : Builder) (scope : List Slot) : Prop :=
  b.locals.map (·.name) = scope.map (·.name)

theorem Names.of_emits {b next : Builder} {code : List Instr} {scope : List Slot}
    (h : b.Names scope) (k : Emits b code next) : next.Names scope := by
  rw [Names, k.locals]
  exact h

theorem slotOf?_eq {locals : List Local} {scope : List Slot} (name : String)
    (h : locals.map (·.name) = scope.map (·.name)) : slotOf? name locals = slotIn? name scope := by
  induction locals generalizing scope with
  | nil =>
    cases scope with
    | nil => rfl
    | cons s earlier => simp at h
  | cons l earlier ih =>
    cases scope with
    | nil => simp at h
    | cons s rest =>
      simp only [List.map_cons, List.cons.injEq] at h
      have lengths : earlier.length = rest.length := by simpa using congrArg List.length h.2
      simp [slotOf?, slotIn?, h.1, ih h.2, lengths]

theorem load_emits {b : Builder} {scope : List Slot} (h : b.Names scope) (name : String) :
    Emits b [Expr.loadInstr scope name] (b.load name) := by
  unfold load Expr.loadInstr
  rw [resolve, slotOf?_eq name h]
  cases slotIn? name scope <;> exact Emits.emit _ _

theorem store_emits {b : Builder} {scope : List Slot} (h : b.Names scope) (name : String) :
    Emits b [storeInstr scope name] (b.store name) := by
  unfold store storeInstr
  rw [resolve, slotOf?_eq name h]
  cases slotIn? name scope <;> exact Emits.emit _ _

mutual

/-- The code of an expression is its layout, whatever the shape is called. -/
theorem expr_emits {b : Builder} {scope : List Slot} (h : b.Names scope) (sh : Shape) :
    (e : Expr) → Emits b ((e.points scope b.here sh).map (·.instr)) (b.expr e)
  | .null | .bool _ | .num _ | .str _ => Emits.emit _ _
  | .list items => by
    simpa [Expr.points, expr] using (exprs_emits h sh items).trans (Emits.emit _ _)
  | .object fields => by
    simpa [Expr.points, expr] using (fields_emits h sh fields).trans (Emits.emit _ _)
  | .ident name => by simpa [Expr.points, expr] using load_emits h name
  | .member e name => by
    simpa [Expr.points, expr] using (expr_emits h sh e).trans (Emits.emit _ _)
  | .index e position => by
    have first := expr_emits h sh e
    have second := expr_emits (h.of_emits first) sh.push position
    rw [first.here, List.length_map, Expr.length_points] at second
    simpa [Expr.points, expr] using first.trans (second.trans (Emits.emit _ _))
  | .call callee args line => by
    have first := expr_emits h sh callee
    have second := exprs_emits (h.of_emits first) sh.push args
    rw [first.here, List.length_map, Expr.length_points] at second
    have called := ((Emits.atLine ((b.expr callee).exprs args) line).trans
      (Emits.emit _ (.call args.length))).trans (Emits.atLine _ ((b.expr callee).exprs args).line)
    simpa [Expr.points, expr] using first.trans (second.trans called)
  | .unary op operand => by
    simpa [Expr.points, expr] using (expr_emits h sh operand).trans (Emits.emit _ _)
  | .binary op left right => by
    have first := expr_emits h sh left
    have second := expr_emits (h.of_emits first) sh.push right
    rw [first.here, List.length_map, Expr.length_points] at second
    simpa [Expr.points, expr] using first.trans (second.trans (Emits.emit _ _))
  | .logical op left right => by
    have first := expr_emits h sh left
    have jumped (i : Instr) : Emits b
        ((left.points scope b.here sh).map (·.instr) ++
          i.withTarget (b.here + (left.size + 1 + right.size)) ::
          (right.points scope (b.here + left.size + 1) sh).map (·.instr))
        ((((b.expr left).emit i).expr right).patch (b.expr left).here) := by
      have emitted := Emits.emit (b.expr left) i
      have second := emitted.trans (expr_emits ((h.of_emits first).of_emits emitted) sh right)
      have patched := first.patch second
      rw [second.here, emitted.here] at patched
      simpa [first.here, Nat.add_assoc, Nat.add_comm, Nat.add_left_comm] using patched
    cases op
    · simpa [Expr.points, expr, Instr.withTarget] using jumped (.jumpIfFalseKeep 0)
    · simpa [Expr.points, expr, Instr.withTarget] using jumped (.jumpIfTrueKeep 0)

theorem exprs_emits {b : Builder} {scope : List Slot} (h : b.Names scope) (sh : Shape) :
    (es : List Expr) →
      Emits b ((Expr.pointsAll scope b.here sh es).map (·.instr)) (b.exprs es)
  | [] => Emits.refl _
  | e :: rest => by
    have first := expr_emits h sh e
    have second := exprs_emits (h.of_emits first) sh.push rest
    rw [first.here, List.length_map, Expr.length_points] at second
    simpa [Expr.pointsAll, exprs] using first.trans second

theorem fields_emits {b : Builder} {scope : List Slot} (h : b.Names scope) (sh : Shape) :
    (fields : List (String × Expr)) →
      Emits b ((Expr.pointsFields scope b.here sh fields).map (·.instr)) (b.fields fields)
  | [] => Emits.refl _
  | (_, e) :: rest => by
    have first := expr_emits h sh e
    have second := fields_emits (h.of_emits first) sh.push rest
    rw [first.here, List.length_map, Expr.length_points] at second
    simpa [Expr.pointsFields, fields] using first.trans second

end

theorem exprOrNull_emits {b : Builder} {scope : List Slot} (h : b.Names scope) (sh : Shape)
    (value : Option Expr) :
    Emits b ((Expr.optionPoints scope b.here sh value).map (·.instr)) (b.exprOrNull value) := by
  cases value with
  | none => exact Emits.emit _ _
  | some e => exact expr_emits h sh e

theorem assign_emits {b : Builder} {c : Site} (h : b.Names c.scope) (value : Expr)
    (target : Target) :
    Emits b ((target.points c b.here value).map (·.instr)) (b.assign value target) := by
  cases target with
  | ident name =>
    have first := expr_emits h c.shape value
    simpa [Target.points, assign] using first.trans (store_emits (h.of_emits first) name)
  | member object name =>
    have first := expr_emits h c.shape object
    have second := expr_emits (h.of_emits first) c.shape.push value
    rw [first.here, List.length_map, Expr.length_points] at second
    simpa [Target.points, assign] using first.trans (second.trans (Emits.emit _ _))
  | index object position =>
    have first := expr_emits h c.shape object
    have second := expr_emits (h.of_emits first) c.shape.push position
    have third := expr_emits ((h.of_emits first).of_emits second) c.shape.push.push value
    rw [second.here, first.here, List.length_map, List.length_map, Expr.length_points,
      Expr.length_points] at third
    rw [first.here, List.length_map, Expr.length_points] at second
    simpa [Target.points, assign] using
      first.trans (second.trans (third.trans (Emits.emit _ _)))

end Builder

end FrameScript
