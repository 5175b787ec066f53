import FrameScript.Proofs.Script.Reading

/-!
# Names that scripts use

The names that a tree reads and writes, and what all of them satisfy in a tree
that comes from a source: an identifier has no bracket in it.
-/

namespace FrameScript

namespace Expr

mutual

/-- Every name that the expression reads satisfies `P`. -/
def Uses (P : String → Prop) : Expr → Prop
  | null | bool _ | num _ | str _ => True
  | list items => AllUse P items
  | object fields => FieldsUse P fields
  | ident name => P name
  | member e _ => e.Uses P
  | index e position => e.Uses P ∧ position.Uses P
  | call callee args _ => callee.Uses P ∧ AllUse P args
  | unary _ operand => operand.Uses P
  | binary _ left right => left.Uses P ∧ right.Uses P
  | logical _ left right => left.Uses P ∧ right.Uses P

def AllUse (P : String → Prop) : List Expr → Prop
  | [] => True
  | e :: rest => e.Uses P ∧ AllUse P rest

def FieldsUse (P : String → Prop) : List (String × Expr) → Prop
  | [] => True
  | (_, e) :: rest => e.Uses P ∧ FieldsUse P rest

end

def OptionUses (P : String → Prop) : Option Expr → Prop
  | some e => e.Uses P
  | none => True

end Expr

def Target.Uses (P : String → Prop) : Target → Prop
  | ident name => P name
  | member e _ => e.Uses P
  | index e position => e.Uses P ∧ position.Uses P

namespace Stmt

mutual

/-- Every name that the statement reads or writes satisfies `P`. What it declares is free. -/
def Uses (P : String → Prop) : Stmt → Prop
  | block _ body => AllUse P body
  | declare _ _ value => Expr.OptionUses P value
  | assign _ target value => target.Uses P ∧ value.Uses P
  | ifThen _ test body => test.Uses P ∧ body.Uses P
  | ifThenElse _ test body otherwise => test.Uses P ∧ body.Uses P ∧ otherwise.Uses P
  | «while» _ test body => test.Uses P ∧ body.Uses P
  | forOf _ _ iterable body => iterable.Uses P ∧ body.Uses P
  | tryCatch _ body _ handler => AllUse P body ∧ AllUse P handler
  | «return» _ value => Expr.OptionUses P value
  | throw _ value => value.Uses P
  | «break» _ | «continue» _ => True
  | expr _ value => value.Uses P

def AllUse (P : String → Prop) : List Stmt → Prop
  | [] => True
  | s :: rest => s.Uses P ∧ AllUse P rest

end

end Stmt

def Script.Uses (P : String → Prop) (s : Script) : Prop :=
  Stmt.AllUse P s.body ∧ ∀ f ∈ s.functions, Stmt.AllUse P f.body

namespace Script

variable {root : Node}

theorem allUse_of_forall {P : String → Prop} {es : List Expr} (h : ∀ e ∈ es, e.Uses P) :
    Expr.AllUse P es := by
  induction es with
  | nil => trivial
  | cons e rest ih =>
    obtain ⟨here, others⟩ := List.forall_mem_cons.mp h
    exact ⟨here, ih others⟩

theorem fieldsUse_of_forall {P : String → Prop} {fields : List (String × Expr)}
    (h : ∀ e ∈ fields.map (·.2), e.Uses P) : Expr.FieldsUse P fields := by
  induction fields with
  | nil => trivial
  | cons field rest ih =>
    obtain ⟨here, others⟩ := List.forall_mem_cons.mp h
    exact ⟨here, ih others⟩

theorem stmtsUse_of_forall {P : String → Prop} {body : List Stmt} (h : ∀ s ∈ body, s.Uses P) :
    Stmt.AllUse P body := by
  induction body with
  | nil => trivial
  | cons s rest ih =>
    obtain ⟨here, others⟩ := List.forall_mem_cons.mp h
    exact ⟨here, ih others⟩

theorem uses_of_read (wf : root.WellFormed) {e : Expr} (h : e.ReadFrom root) :
    e.Uses Unbracketed := by
  induction h with
  | null | bool | num | str => trivial
  | list _ ih => exact allUse_of_forall ih
  | object _ ih => exact fieldsUse_of_forall ih
  | ident own word => exact (wf.within own).word word
  | member _ _ ih => exact ih
  | index _ _ ih ih' => exact ⟨ih, ih'⟩
  | call _ _ _ _ _ ih ih' => exact ⟨ih, allUse_of_forall ih'⟩
  | unary _ _ ih => exact ih
  | binary _ _ _ ih ih' => exact ⟨ih, ih'⟩
  | logical _ _ _ ih ih' => exact ⟨ih, ih'⟩

theorem option_uses {P : String → Prop} {value : Option Expr}
    (h : ∀ e ∈ value.toList, e.Uses P) : Expr.OptionUses P value := by
  cases value with
  | none => trivial
  | some e => exact h e List.mem_cons_self

theorem target_uses {P : String → Prop} {t : Target} (h : ∀ e ∈ t.exprs, e.Uses P) :
    t.Uses P := by
  cases t with
  | ident name => exact h (.ident name) List.mem_cons_self
  | member e name => exact h e List.mem_cons_self
  | index e position =>
    exact ⟨h e List.mem_cons_self, h position (List.mem_cons_of_mem _ List.mem_cons_self)⟩

theorem stmt_uses_of_read (wf : root.WellFormed) {s : Stmt} (h : s.ReadFrom root) :
    s.Uses Unbracketed := by
  induction h with
  | @mk n s own rule built expressions inside ih =>
    have uses : ∀ e ∈ s.exprs, e.Uses Unbracketed := by
      intro e mem
      exact uses_of_read wf (expressions e mem)
    clear expressions inside built
    cases s with
    | block line body => exact stmtsUse_of_forall ih
    | declare line name value | «return» line value => exact option_uses uses
    | assign line target value =>
      obtain ⟨written, read⟩ := List.forall_mem_append.mp uses
      exact ⟨target_uses written, read value List.mem_cons_self⟩
    | ifThen line test body | «while» line test body | forOf line name test body =>
      exact ⟨uses test List.mem_cons_self, ih body List.mem_cons_self⟩
    | ifThenElse line test body otherwise =>
      exact ⟨uses test List.mem_cons_self, ih body List.mem_cons_self,
        ih otherwise (List.mem_cons_of_mem _ List.mem_cons_self)⟩
    | tryCatch line body name handler =>
      obtain ⟨tried, caught⟩ := List.forall_mem_append.mp ih
      exact ⟨stmtsUse_of_forall tried, stmtsUse_of_forall caught⟩
    | throw line value | expr line value => exact uses value List.mem_cons_self
    | «break» line | «continue» line => trivial

/-- No name that a parsed script reads or writes has a bracket in it. -/
theorem parse_uses {source : String} {script : Script} (h : parse source = .ok script) :
    script.Uses Unbracketed := by
  obtain ⟨attempts, root, matched, body, functions⟩ := parse_read h
  have wf := matchRule_wellFormed matched
  constructor
  · exact stmtsUse_of_forall fun s mem => stmt_uses_of_read wf (body s mem)
  · intro f mem
    exact stmtsUse_of_forall fun s mem' => stmt_uses_of_read wf (functions f mem s mem')

end Script

end FrameScript
