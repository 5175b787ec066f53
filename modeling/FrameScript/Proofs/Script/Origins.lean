import FrameScript.Proofs.Code.Operations
import FrameScript.Proofs.Script.Positions
import FrameScript.Proofs.Script.Reading

/-!
# Operations in sources

Every operation of a parsed script can be shown in its text: the statement that it belongs to
begins at a character of the text, on the line that the statement carries, and a call has its
bracket on the line that the call carries.
-/

namespace FrameScript

open Script (Node lineAt)

/-- The tree has the statement at the position. No blank and no comment begins there. -/
def Stmt.BeginsAt (root : Node) (s : Stmt) (position : Nat) : Prop :=
  ∃ n, root.Within n ∧ n.rule ≠ .statement ∧ Script.buildStmt n = .ok s ∧ n.start.Settled ∧
    n.start.position = position

/-- The tree has the arguments of the call at the position. -/
def Expr.ArgumentsAt (root : Node) (callee : Expr) (args : List Expr) (line position : Nat) :
    Prop :=
  ∃ n, root.Within n ∧ n.rule = .callSuffix ∧
    Script.buildSuffix callee n = .ok (.call callee args line) ∧ n.start.position = position

/-- The call opens its bracket in the text, on its line. -/
def Expr.OpensIn (text : List Char) (root : Node) (callee : Expr) (args : List Expr)
    (line : Nat) : Prop :=
  ∃ position, Expr.ArgumentsAt root callee args line position ∧ text[position]? = some '(' ∧
    line = lineAt text position

/-- The operation stands in the text: its statement begins on its line, and so does the bracket of
a call. -/
structure Operation.StandsIn (o : Operation) (text : List Char) (root : Node) : Prop where
  owner : ∃ position, o.owner.BeginsAt root position ∧ o.owner.line = lineAt text position
  call : ∀ callee args line, o.kind = .call callee args line →
    Expr.OpensIn text root callee args line

theorem Expr.mem_operationsAll {owner : Stmt} {es : List Expr} {o : Operation} :
    o ∈ operationsAll owner es ↔ ∃ e ∈ es, o ∈ e.operations owner := by
  induction es with
  | nil => simp [operationsAll]
  | cons e rest ih => simp [operationsAll, ih]

theorem Expr.mem_operationsFields {owner : Stmt} {fields : List (String × Expr)}
    {o : Operation} : o ∈ operationsFields owner fields ↔
      ∃ e ∈ fields.map (·.2), o ∈ e.operations owner := by
  induction fields with
  | nil => simp [operationsFields]
  | cons field rest ih => simp [operationsFields, ih]

theorem Stmt.mem_operationsAll {body : List Stmt} {o : Operation} :
    o ∈ operationsAll body ↔ ∃ s ∈ body, o ∈ s.operations := by
  induction body with
  | nil => simp [operationsAll]
  | cons s rest ih => simp [operationsAll, ih]

theorem Expr.mem_optionOperations {owner : Stmt} {value : Option Expr} {o : Operation} :
    o ∈ optionOperations owner value ↔ ∃ e ∈ value.toList, o ∈ e.operations owner := by
  cases value <;> simp [optionOperations]

/-- An operation of a statement belongs to an expression directly in it, to the statement itself
or to a part. -/
theorem Stmt.mem_operations {s : Stmt} {o : Operation} (h : o ∈ s.operations) :
    (∃ e ∈ s.exprs, o ∈ e.operations s) ∨
      (o.owner = s ∧ ∀ callee args line, o.kind ≠ .call callee args line) ∨
      ∃ p ∈ s.parts, o ∈ p.operations := by
  cases s with
  | block line body => exact .inr (.inr (mem_operationsAll.mp h))
  | declare line name value | «return» line value => exact .inl (Expr.mem_optionOperations.mp h)
  | assign line target value =>
    cases target with
    | ident name => exact .inl ⟨value, by simp [exprs], h⟩
    | member object name =>
      rcases List.mem_append.mp h with h | h
      · rcases List.mem_append.mp h with h | h
        · exact .inl ⟨object, by simp [exprs, Target.exprs], h⟩
        · exact .inl ⟨value, by simp [exprs], h⟩
      · cases List.mem_singleton.mp h
        exact .inr (.inl ⟨rfl, by simp⟩)
    | index object position =>
      rcases List.mem_append.mp h with h | h
      · rcases List.mem_append.mp h with h | h
        · rcases List.mem_append.mp h with h | h
          · exact .inl ⟨object, by simp [exprs, Target.exprs], h⟩
          · exact .inl ⟨position, by simp [exprs, Target.exprs], h⟩
        · exact .inl ⟨value, by simp [exprs], h⟩
      · cases List.mem_singleton.mp h
        exact .inr (.inl ⟨rfl, by simp⟩)
  | ifThen line test body | «while» line test body =>
    rcases List.mem_append.mp h with h | h
    · exact .inl ⟨test, List.mem_cons_self, h⟩
    · exact .inr (.inr ⟨body, List.mem_cons_self, h⟩)
  | ifThenElse line test body otherwise =>
    rcases List.mem_append.mp h with h | h
    · rcases List.mem_append.mp h with h | h
      · exact .inl ⟨test, List.mem_cons_self, h⟩
      · exact .inr (.inr ⟨body, List.mem_cons_self, h⟩)
    · exact .inr (.inr ⟨otherwise, by simp [parts], h⟩)
  | forOf line name iterable body =>
    rcases List.mem_append.mp h with h | h
    · rcases List.mem_append.mp h with h | h
      · exact .inl ⟨iterable, List.mem_cons_self, h⟩
      · cases List.mem_singleton.mp h
        exact .inr (.inl ⟨rfl, by simp⟩)
    · exact .inr (.inr ⟨body, List.mem_cons_self, h⟩)
  | tryCatch line body name handler =>
    rcases List.mem_append.mp h with h | h
    · obtain ⟨s, mem, own⟩ := mem_operationsAll.mp h
      exact .inr (.inr ⟨s, List.mem_append_left _ mem, own⟩)
    · obtain ⟨s, mem, own⟩ := mem_operationsAll.mp h
      exact .inr (.inr ⟨s, List.mem_append_right _ mem, own⟩)
  | throw line value =>
    rcases List.mem_append.mp h with h | h
    · exact .inl ⟨value, List.mem_cons_self, h⟩
    · cases List.mem_singleton.mp h
      exact .inr (.inl ⟨rfl, by simp⟩)
  | «break» line | «continue» line => cases h
  | expr line value => exact .inl ⟨value, List.mem_cons_self, h⟩

namespace Script

variable {text : List Char} {root : Node}

theorem Node.Placed.within {n : Node} (h : root.Placed text) (within : root.Within n) :
    n.Placed text := by
  induction within with
  | root => exact h
  | child _ mem ih =>
    cases ih with
    | mk _ _ _ inside => exact inside _ mem

theorem Node.Placed.opensIn {n : Node} (h : root.Placed text) (own : root.Within n)
    (suffix : n.rule = .callSuffix) {callee : Expr} {args : List Expr}
    (built : buildSuffix callee n = .ok (.call callee args n.line)) :
    Expr.OpensIn text root callee args n.line := by
  cases h.within own with
  | @mk r start length nodes stands _ opens _ =>
    refine ⟨start.position, ⟨_, own, suffix, built, rfl⟩, ?_, stands.line⟩
    rw [← List.head?_drop, ← stands.rest]
    exact opens suffix

theorem buildStmt_line {n : Node} (rule : n.rule ≠ .statement) {s : Stmt}
    (h : buildStmt n = .ok s) :
    s.line = n.start.line ∧ n.rule ≠ .program ∧ n.rule ≠ .stringContent := by
  rw [buildStmt.eq_def] at h
  split at h
  case h_1 => exact absurd rfl rule
  case h_2 | h_3 | h_5 | h_6 | h_12 =>
    obtain ⟨_, _, rfl⟩ := map_ok h
    exact ⟨rfl, by simp [Node.rule], by simp [Node.rule]⟩
  case h_4 | h_7 | h_9 | h_10 | h_11 =>
    obtain ⟨_, _, h⟩ := bind_ok h
    obtain ⟨_, _, h⟩ := bind_ok h
    cases h
    exact ⟨rfl, by simp [Node.rule], by simp [Node.rule]⟩
  case h_8 =>
    obtain ⟨_, _, h⟩ := bind_ok h
    obtain ⟨_, _, h⟩ := bind_ok h
    obtain ⟨_, _, h⟩ := bind_ok h
    cases h
    exact ⟨rfl, by simp [Node.rule], by simp [Node.rule]⟩
  case h_13 | h_14 =>
    cases h
    exact ⟨rfl, by simp [Node.rule], by simp [Node.rule]⟩
  case h_15 => cases h

theorem Node.Placed.beginsAt {n : Node} (h : root.Placed text) (own : root.Within n)
    (rule : n.rule ≠ .statement) {s : Stmt} (built : buildStmt n = .ok s) :
    ∃ position, s.BeginsAt root position ∧ s.line = lineAt text position := by
  obtain ⟨line, program, content⟩ := buildStmt_line rule built
  cases h.within own with
  | @mk r start length nodes stands settled _ _ =>
    refine ⟨start.position, ⟨_, own, rule, built, settled program content, rfl⟩, ?_⟩
    exact line.trans stands.line

theorem expr_opens (placed : root.Placed text) {e : Expr} (h : e.ReadFrom root) {owner : Stmt}
    {o : Operation} (mem : o ∈ e.operations owner) :
    o.owner = owner ∧ ∀ callee args line, o.kind = .call callee args line →
      Expr.OpensIn text root callee args line := by
  induction h with
  | null | bool | num | str => cases mem
  | list _ ih =>
    obtain ⟨e, inside, mem⟩ := Expr.mem_operationsAll.mp mem
    exact ih e inside mem
  | object _ ih =>
    obtain ⟨e, inside, mem⟩ := Expr.mem_operationsFields.mp mem
    exact ih e inside mem
  | ident _ _ =>
    cases List.mem_singleton.mp mem
    exact ⟨rfl, by simp⟩
  | member _ _ ih | unary _ _ ih =>
    rcases List.mem_append.mp mem with mem | mem
    · exact ih mem
    · cases List.mem_singleton.mp mem
      exact ⟨rfl, by simp⟩
  | index _ _ ih ih' | binary _ _ _ ih ih' =>
    rcases List.mem_append.mp mem with mem | mem
    · rcases List.mem_append.mp mem with mem | mem
      · exact ih mem
      · exact ih' mem
    · cases List.mem_singleton.mp mem
      exact ⟨rfl, by simp⟩
  | call own suffix _ _ built ih ih' =>
    rcases List.mem_append.mp mem with mem | mem
    · rcases List.mem_append.mp mem with mem | mem
      · exact ih mem
      · obtain ⟨e, inside, mem⟩ := Expr.mem_operationsAll.mp mem
        exact ih' e inside mem
    · cases List.mem_singleton.mp mem
      refine ⟨rfl, ?_⟩
      intro callee args line eq
      cases eq
      exact placed.opensIn own suffix built
  | logical _ _ _ ih ih' =>
    rcases List.mem_append.mp mem with mem | mem
    · exact ih mem
    · exact ih' mem

/-- The operations of a statement stand in the text. -/
theorem stmt_stands (placed : root.Placed text) {s : Stmt} (h : s.ReadFrom root) {o : Operation}
    (mem : o ∈ s.operations) : o.StandsIn text root := by
  induction h with
  | @mk n s own rule built expressions inside ih =>
    have begins := placed.beginsAt own rule built
    rcases Stmt.mem_operations mem with ⟨e, read, mem⟩ | ⟨rfl, other⟩ | ⟨p, part, mem⟩
    · obtain ⟨rfl, calls⟩ := expr_opens placed (expressions e read) mem
      exact ⟨begins, calls⟩
    · exact ⟨begins, fun callee args line eq => absurd eq (other callee args line)⟩
    · exact ih p part mem

theorem routine_stands (placed : root.Placed text) {script : Script}
    (h : script.ReadFrom root) {source : String} {r : Routine}
    (declared : r ∈ script.routines source) {o : Operation} (mem : o ∈ r.operations) :
    o.StandsIn text root := by
  obtain ⟨s, inside, own⟩ := Stmt.mem_operationsAll.mp mem
  rcases List.mem_cons.mp declared with rfl | declared
  · exact stmt_stands placed (h.1 s inside) own
  · obtain ⟨f, function, rfl⟩ := List.mem_map.mp declared
    exact stmt_stands placed (h.2 f function s inside) own

end Script
end FrameScript
