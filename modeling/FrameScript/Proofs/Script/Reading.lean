import FrameScript.Proofs.Offences
import FrameScript.Proofs.Script.Derivation
import FrameScript.Script.Reader

/-!
# What is read from a tree

An expression or statement that is built from a node is made of parts that are built from other
nodes of the same tree. What holds of all nodes of a tree is carried to the script by induction
on how its parts are read.
-/

namespace FrameScript
namespace Script

/-- A node of a tree. -/
inductive Node.Within (root : Node) : Node → Prop
  | root : root.Within root
  | child {n m : Node} (h : root.Within n) (mem : m ∈ n.children) : root.Within m

end Script

open Script (Node)

/-- How an expression is read from the nodes of a tree. -/
inductive Expr.ReadFrom (root : Node) : Expr → Prop
  | null : ReadFrom root .null
  | bool (b : Bool) : ReadFrom root (.bool b)
  | num (x : Number) : ReadFrom root (.num x)
  | str (s : String) : ReadFrom root (.str s)
  | list {items : List Expr} (all : ∀ e ∈ items, ReadFrom root e) : ReadFrom root (.list items)
  | object {fields : List (String × Expr)} (all : ∀ e ∈ fields.map (·.2), ReadFrom root e) :
    ReadFrom root (.object fields)
  | ident {n : Node} (own : root.Within n) (word : n.rule = .identifier) :
    ReadFrom root (.ident n.text)
  | member {e : Expr} (object : ReadFrom root e) (name : String) : ReadFrom root (.member e name)
  | index {e position : Expr} (object : ReadFrom root e) (inside : ReadFrom root position) :
    ReadFrom root (.index e position)
  | call {n : Node} {callee : Expr} {args : List Expr} (own : root.Within n)
    (suffix : n.rule = .callSuffix) (object : ReadFrom root callee)
    (all : ∀ e ∈ args, ReadFrom root e)
    (built : Script.buildSuffix callee n = .ok (.call callee args n.line)) :
    ReadFrom root (.call callee args n.line)
  | unary (op : UnaryOp) {e : Expr} (operand : ReadFrom root e) : ReadFrom root (.unary op e)
  | binary (op : BinaryOp) {left right : Expr} (first : ReadFrom root left)
    (second : ReadFrom root right) : ReadFrom root (.binary op left right)
  | logical (op : LogicalOp) {left right : Expr} (first : ReadFrom root left)
    (second : ReadFrom root right) : ReadFrom root (.logical op left right)

/-- The expressions of a target. A name that is written to counts as one. -/
def Target.exprs : Target → List Expr
  | ident name => [.ident name]
  | member e _ => [e]
  | index e position => [e, position]

namespace Stmt

def exprs : Stmt → List Expr
  | declare _ _ value | «return» _ value => value.toList
  | assign _ target value => target.exprs ++ [value]
  | ifThen _ e _ | ifThenElse _ e _ _ | «while» _ e _ | forOf _ _ e _ | throw _ e | expr _ e => [e]
  | block _ _ | tryCatch _ _ _ _ | «break» _ | «continue» _ => []

def parts : Stmt → List Stmt
  | block _ body => body
  | ifThen _ _ body | «while» _ _ body | forOf _ _ _ body => [body]
  | ifThenElse _ _ body otherwise => [body, otherwise]
  | tryCatch _ body _ handler => body ++ handler
  | _ => []

/-- How a statement is read from the nodes of a tree. -/
inductive ReadFrom (root : Node) : Stmt → Prop
  | mk {n : Node} {s : Stmt} (own : root.Within n) (rule : n.rule ≠ .statement)
    (built : Script.buildStmt n = .ok s) (expressions : ∀ e ∈ s.exprs, e.ReadFrom root)
    (inside : ∀ p ∈ s.parts, ReadFrom root p) : ReadFrom root s

end Stmt

/-- All statements of a script are read from the tree. -/
def Script.ReadFrom (root : Node) (script : Script) : Prop :=
  (∀ s ∈ script.body, s.ReadFrom root) ∧ ∀ f ∈ script.functions, ∀ s ∈ f.body, s.ReadFrom root

namespace Script

variable {root : Node}

theorem Node.Within.all {n : Node} (h : root.Within n) : ∀ m ∈ n.children, root.Within m :=
  fun _ mem => h.child mem

theorem Node.WellFormed.inside {n : Node} (h : n.WellFormed) : ∀ m ∈ n.children, m.WellFormed := by
  cases h with
  | mk _ _ inside => exact inside

theorem Node.WellFormed.within {n : Node} (h : root.WellFormed) (within : root.Within n) :
    n.WellFormed := by
  induction within with
  | root => exact h
  | child _ mem ih => exact ih.inside _ mem

theorem Node.WellFormed.first {n : Node} (h : n.WellFormed) {q : Rule}
    (rule : n.rule.first? = some q) : ∀ m ∈ n.children.head?, m.rule = q := by
  cases h with
  | mk _ first _ => exact first q rule

theorem Node.WellFormed.word {n : Node} (h : n.WellFormed) (rule : n.rule = .identifier) :
    Unbracketed n.text := by
  cases h with
  | mk word _ _ => exact word rule

theorem Operator.apply_read (o : Operator) {left right : Expr} (h : left.ReadFrom root)
    (k : right.ReadFrom root) : (o.apply left right).ReadFrom root := by
  cases o with
  | binary op => exact .binary op h k
  | logical op => exact .logical op h k

theorem negate_read {e : Expr} (h : e.ReadFrom root) : (negate e).ReadFrom root := by
  cases e with
  | num x => exact .num x.neg
  | _ => exact .unary .neg h

/-- The expression or suffix of a node, and the expressions of its parts, are read from the
tree. -/
structure Node.Reads (root n : Node) : Prop where
  expr : ∀ e, buildExpr n = .ok e → e.ReadFrom root
  suffix : ∀ object e, object.ReadFrom root → buildSuffix object n = .ok e → e.ReadFrom root
  parts : ∀ m ∈ n.children, ∀ e, buildExpr m = .ok e → e.ReadFrom root

theorem buildChain_read {left e : Expr} (read : left.ReadFrom root) : (nodes : List Node) →
    (∀ n ∈ nodes, root.Reads n) → buildChain left nodes = .ok e → e.ReadFrom root
  | [], _, h => by
    cases h
    exact read
  | [_], _, h => by cases h
  | op :: operand :: rest, all, h => by
    rw [buildChain] at h
    split at h
    · rename_i o _
      obtain ⟨right, built, h⟩ := bind_ok h
      have read' := (all operand (by simp)).expr right built
      exact buildChain_read (o.apply_read read read') rest (fun n mem => all n (by simp [mem])) h
    · cases h

theorem buildPrefixed_read {nodes : List Node} {line : Nat} {e : Expr}
    (all : ∀ n ∈ nodes, root.Reads n) (h : buildPrefixed line nodes = .ok e) :
    e.ReadFrom root := by
  induction nodes generalizing e with
  | nil => cases h
  | cons n rest ih =>
    have others := fun m mem => all m (List.mem_cons_of_mem n mem)
    rw [buildPrefixed.eq_def] at h
    split at h
    · rename_i eq
      cases eq
      obtain ⟨operand, built, rfl⟩ := map_ok h
      exact .unary .not (ih others built)
    · rename_i eq
      cases eq
      obtain ⟨operand, built, rfl⟩ := map_ok h
      exact negate_read (ih others built)
    · rename_i eq
      cases eq
      exact (all n List.mem_cons_self).expr e h
    · cases h

theorem buildSuffixes_read {nodes : List Node} {object e : Expr}
    (all : ∀ n ∈ nodes, root.Reads n) (read : object.ReadFrom root)
    (h : buildSuffixes object nodes = .ok e) : e.ReadFrom root := by
  induction nodes generalizing object with
  | nil =>
    cases h
    exact read
  | cons suffix rest ih =>
    obtain ⟨next, built, h⟩ := bind_ok h
    have read' := (all suffix List.mem_cons_self).suffix object next read built
    exact ih (fun n mem => all n (List.mem_cons_of_mem _ mem)) read' h

theorem buildItems_read {nodes : List Node} {es : List Expr}
    (all : ∀ n ∈ nodes, ∀ e, buildExpr n = .ok e → e.ReadFrom root)
    (h : buildItems nodes = .ok es) : ∀ e ∈ es, e.ReadFrom root := by
  induction nodes generalizing es with
  | nil =>
    cases h
    simp
  | cons item rest ih =>
    obtain ⟨e, built, h⟩ := bind_ok h
    obtain ⟨others, built', rfl⟩ := map_ok h
    rw [List.forall_mem_cons]
    constructor
    · exact all item List.mem_cons_self e built
    · exact ih (fun n mem => all n (List.mem_cons_of_mem _ mem)) built'

theorem buildFields_read {nodes : List Node} {fields : List (String × Expr)}
    (all : ∀ n ∈ nodes, root.Reads n) (h : buildFields nodes = .ok fields) :
    ∀ e ∈ fields.map (·.2), e.ReadFrom root := by
  induction nodes generalizing fields with
  | nil =>
    cases h
    simp
  | cons n rest ih =>
    rw [buildFields.eq_def] at h
    split at h
    · cases h
      simp
    · rename_i eq
      cases eq
      obtain ⟨e, built, h⟩ := bind_ok h
      obtain ⟨others, built', rfl⟩ := map_ok h
      rw [List.map_cons, List.forall_mem_cons]
      constructor
      · exact (all _ List.mem_cons_self).parts _ (by simp [Node.children]) e built
      · exact ih (fun n mem => all n (List.mem_cons_of_mem _ mem)) built'
    · cases h

theorem buildSuffix_read {n : Node} (own : root.Within n) {object e : Expr}
    (all : ∀ m ∈ n.children, root.Reads m) (read : object.ReadFrom root)
    (h : buildSuffix object n = .ok e) : e.ReadFrom root := by
  have built := h
  rw [buildSuffix.eq_def] at h
  split at h
  · cases h
    exact .call own rfl read (by simp) built
  · obtain ⟨args, inside, rfl⟩ := map_ok h
    exact .call own rfl read (buildItems_read (all _ List.mem_cons_self).parts inside) built
  · cases h
    exact .member read _
  · obtain ⟨i, inside, rfl⟩ := map_ok h
    exact .index read ((all _ List.mem_cons_self).expr i inside)
  · cases h

theorem buildExpr_read {n : Node} (own : root.Within n) {e : Expr}
    (all : ∀ m ∈ n.children, root.Reads m) (h : buildExpr n = .ok e) : e.ReadFrom root := by
  rw [buildExpr.eq_def] at h
  split at h
  case h_1 | h_2 | h_3 => exact (all _ List.mem_cons_self).expr e h
  case h_4 | h_5 | h_6 | h_7 | h_8 | h_9 =>
    obtain ⟨left, built, h⟩ := bind_ok h
    have read := (all _ List.mem_cons_self).expr left built
    exact buildChain_read read _ (fun n mem => all n (List.mem_cons_of_mem _ mem)) h
  case h_10 => exact buildPrefixed_read all h
  case h_11 =>
    obtain ⟨object, built, h⟩ := bind_ok h
    have read := (all _ List.mem_cons_self).expr object built
    exact buildSuffixes_read (fun n mem => all n (List.mem_cons_of_mem _ mem)) read h
  case h_12 =>
    cases h
    exact .ident own rfl
  case h_13 =>
    dsimp only at h
    split at h
    · cases h
      exact .num _
    · cases h
  case h_14 =>
    cases h
    exact .bool _
  case h_15 =>
    cases h
    exact .null
  case h_16 =>
    cases h
    exact .str _
  case h_17 =>
    obtain ⟨items, built, rfl⟩ := map_ok h
    exact .list (buildItems_read (fun n mem => (all n mem).expr) built)
  case h_18 =>
    obtain ⟨fields, built, rfl⟩ := map_ok h
    exact .object (buildFields_read all built)
  case h_19 => cases h

/-- Every node of a well-formed tree is read. -/
theorem Node.WellFormed.reads {n : Node} (wf : n.WellFormed) (own : root.Within n) :
    root.Reads n := by
  induction wf with
  | @mk r start length nodes _ _ _ ih =>
    have all : ∀ m ∈ (Node.mk r start length nodes).children, root.Reads m := by
      intro m mem
      exact ih m mem (own.child mem)
    constructor
    · intro e h
      exact buildExpr_read own all h
    · intro object e read h
      exact buildSuffix_read own all read h
    · intro m mem
      exact (all m mem).expr

section

variable (wf : root.WellFormed)

include wf

theorem Node.WellFormed.readsAt {n : Node} (own : root.Within n) : root.Reads n :=
  (wf.within own).reads own

theorem buildTargetFrom_read (nodes : List Node) (own : ∀ n ∈ nodes, root.Within n)
    {object : Expr} {t : Target} (read : object.ReadFrom root)
    (h : buildTargetFrom object nodes = .ok t) : ∀ e ∈ t.exprs, e.ReadFrom root := by
  induction nodes generalizing object with
  | nil => cases h
  | cons suffix rest ih =>
    rw [buildTargetFrom.eq_def] at h
    split at h
    · cases h
    · cases h
      simpa [Target.exprs] using read
    · rename_i eq
      obtain ⟨rfl, rfl⟩ := eq
      obtain ⟨i, built, rfl⟩ := map_ok h
      have inside := (wf.readsAt (own _ List.mem_cons_self)).parts _ List.mem_cons_self i built
      simpa [Target.exprs] using ⟨read, inside⟩
    · rename_i eq
      obtain ⟨rfl, rfl⟩ := eq
      obtain ⟨next, built, h⟩ := bind_ok h
      have read' := (wf.readsAt (own _ List.mem_cons_self)).suffix object next read built
      exact ih (fun n mem => own n (by simp [mem])) read' h

theorem buildTarget_read {n : Node} (own : root.Within n) (rule : n.rule = .assignTarget)
    {t : Target} (h : buildTarget n = .ok t) : ∀ e ∈ t.exprs, e.ReadFrom root := by
  have first := (wf.within own).first (by rw [rule]; rfl : n.rule.first? = some .identifier)
  rw [buildTarget.eq_def] at h
  split at h
  · rename_i name
    cases h
    have read : (Expr.ident name.text).ReadFrom root :=
      .ident (own.child List.mem_cons_self) (first name rfl)
    simpa [Target.exprs] using read
  · rename_i name suffix rest
    have read : (Expr.ident name.text).ReadFrom root :=
      .ident (own.child List.mem_cons_self) (first name rfl)
    exact buildTargetFrom_read wf _ (fun n mem => own.child (List.mem_cons_of_mem _ mem)) read h
  · cases h

theorem buildOption_read (nodes : List Node) (own : ∀ n ∈ nodes, root.Within n)
    {value : Option Expr} (h : buildOption nodes = .ok value) :
    ∀ e ∈ value.toList, e.ReadFrom root := by
  cases nodes with
  | nil =>
    cases h
    simp
  | cons n rest =>
    obtain ⟨e, built, rfl⟩ := map_ok h
    have read := (wf.readsAt (own n List.mem_cons_self)).expr e built
    simpa using read

end

/-- The statement of a node and those of its parts are read from the tree. -/
structure Node.Writes (root n : Node) : Prop where
  stmt : ∀ s, buildStmt n = .ok s → s.ReadFrom root
  parts : ∀ m ∈ n.children, ∀ s, buildStmt m = .ok s → s.ReadFrom root

theorem buildBody_read {nodes : List Node} {body : List Stmt}
    (all : ∀ n ∈ nodes, ∀ s, buildStmt n = .ok s → s.ReadFrom root)
    (h : buildBody nodes = .ok body) : ∀ s ∈ body, s.ReadFrom root := by
  induction nodes generalizing body with
  | nil =>
    cases h
    simp
  | cons n rest ih =>
    obtain ⟨s, built, h⟩ := bind_ok h
    obtain ⟨others, built', rfl⟩ := map_ok h
    rw [List.forall_mem_cons]
    constructor
    · exact all n List.mem_cons_self s built
    · exact ih (fun n mem => all n (List.mem_cons_of_mem _ mem)) built'

theorem buildStmt_read (wf : root.WellFormed) {n : Node} (own : root.Within n) {s : Stmt}
    (all : ∀ m ∈ n.children, root.Writes m) (h : buildStmt n = .ok s) : s.ReadFrom root := by
  have built := h
  rw [buildStmt.eq_def] at h
  split at h
  case h_1 => exact (all _ List.mem_cons_self).stmt s h
  case h_2 =>
    obtain ⟨body, inside, rfl⟩ := map_ok h
    exact .mk own (by simp [Node.rule]) built (by simp [Stmt.exprs])
      (buildBody_read (fun n mem => (all n mem).stmt) inside)
  case h_3 =>
    obtain ⟨value, inside, rfl⟩ := map_ok h
    exact .mk own (by simp [Node.rule]) built
      (buildOption_read wf _ (fun n mem => own.child (List.mem_cons_of_mem _ mem)) inside)
      (by simp [Stmt.parts])
  case h_4 =>
    rename_i start length target value rest
    obtain ⟨t, left, h⟩ := bind_ok h
    obtain ⟨e, right, h⟩ := bind_ok h
    cases h
    have rule := (wf.within own).first (by rfl : Rule.first? .assignStmt = some .assignTarget)
      target rfl
    have written := buildTarget_read wf (own.child List.mem_cons_self) rule left
    have read := (wf.readsAt own).parts value (by simp [Node.children]) e right
    refine .mk own (by simp [Node.rule]) built ?_ (by simp [Stmt.parts])
    exact List.forall_mem_append.mpr ⟨written, by simpa using read⟩
  case h_5 =>
    obtain ⟨e, inside, rfl⟩ := map_ok h
    have read := (wf.readsAt own).parts _ List.mem_cons_self e inside
    exact .mk own (by simp [Node.rule]) built (by simpa [Stmt.exprs] using read)
      (by simp [Stmt.parts])
  case h_6 =>
    obtain ⟨value, inside, rfl⟩ := map_ok h
    exact .mk own (by simp [Node.rule]) built (buildOption_read wf _ own.all inside)
      (by simp [Stmt.parts])
  case h_7 =>
    rename_i test body
    obtain ⟨e, tested, h⟩ := bind_ok h
    obtain ⟨s, inside, h⟩ := bind_ok h
    cases h
    have read := (wf.readsAt own).parts test List.mem_cons_self e tested
    have read' := (all body (by simp [Node.children])).stmt s inside
    exact .mk own (by simp [Node.rule]) built (by simpa [Stmt.exprs] using read)
      (by simpa [Stmt.parts] using read')
  case h_8 =>
    rename_i test body _ otherwise _
    obtain ⟨e, tested, h⟩ := bind_ok h
    obtain ⟨s, inside, h⟩ := bind_ok h
    obtain ⟨t, inside', h⟩ := bind_ok h
    cases h
    have read := (wf.readsAt own).parts test List.mem_cons_self e tested
    have read' := (all body (by simp [Node.children])).stmt s inside
    have read'' := (all otherwise (by simp [Node.children])).stmt t inside'
    exact .mk own (by simp [Node.rule]) built (by simpa [Stmt.exprs] using read)
      (by simpa [Stmt.parts] using ⟨read', read''⟩)
  case h_9 =>
    rename_i test body _
    obtain ⟨e, tested, h⟩ := bind_ok h
    obtain ⟨s, inside, h⟩ := bind_ok h
    cases h
    have read := (wf.readsAt own).parts test List.mem_cons_self e tested
    have read' := (all body (by simp [Node.children])).stmt s inside
    exact .mk own (by simp [Node.rule]) built (by simpa [Stmt.exprs] using read)
      (by simpa [Stmt.parts] using read')
  case h_10 =>
    rename_i iterable body _
    obtain ⟨e, listed, h⟩ := bind_ok h
    obtain ⟨s, inside, h⟩ := bind_ok h
    cases h
    have read := (wf.readsAt own).parts iterable (by simp [Node.children]) e listed
    have read' := (all body (by simp [Node.children])).stmt s inside
    exact .mk own (by simp [Node.rule]) built (by simpa [Stmt.exprs] using read)
      (by simpa [Stmt.parts] using read')
  case h_11 =>
    obtain ⟨body, inside, h⟩ := bind_ok h
    obtain ⟨handler, inside', h⟩ := bind_ok h
    cases h
    have tried := all _ List.mem_cons_self
    have caught := all _ (List.mem_cons_of_mem _ (List.mem_cons_of_mem _ List.mem_cons_self))
    refine .mk own (by simp [Node.rule]) built (by simp [Stmt.exprs]) ?_
    exact List.forall_mem_append.mpr
      ⟨buildBody_read tried.parts inside, buildBody_read caught.parts inside'⟩
  case h_12 =>
    obtain ⟨e, inside, rfl⟩ := map_ok h
    have read := (wf.readsAt own).parts _ List.mem_cons_self e inside
    exact .mk own (by simp [Node.rule]) built (by simpa [Stmt.exprs] using read)
      (by simp [Stmt.parts])
  case h_13 | h_14 =>
    cases h
    exact .mk own (by simp [Node.rule]) built (by simp [Stmt.exprs]) (by simp [Stmt.parts])
  case h_15 => cases h

theorem Node.WellFormed.writes (wf : root.WellFormed) {n : Node} (own : root.Within n) :
    root.Writes n := by
  have here := wf.within own
  induction here with
  | @mk r start length nodes _ _ _ ih =>
    have all : ∀ m ∈ (Node.mk r start length nodes).children, root.Writes m := by
      intro m mem
      exact ih m mem (own.child mem)
    constructor
    · intro s h
      exact buildStmt_read wf own all h
    · intro m mem
      exact (all m mem).stmt

theorem buildFunction_read (wf : root.WellFormed) {n : Node} (own : root.Within n)
    {f : FunctionDecl} (h : buildFunction n = .ok f) : ∀ s ∈ f.body, s.ReadFrom root := by
  rw [buildFunction.eq_def] at h
  split at h
  · dsimp only at h
    split at h
    · cases h
    · obtain ⟨body, built, rfl⟩ := map_ok h
      have block := own.child (List.mem_cons_of_mem _ (List.mem_cons_of_mem _ List.mem_cons_self))
      exact buildBody_read (wf.writes block).parts built
  · obtain ⟨body, built, rfl⟩ := map_ok h
    have block := own.child (List.mem_cons_of_mem _ List.mem_cons_self)
    exact buildBody_read (wf.writes block).parts built
  · cases h

theorem buildProgram_read (wf : root.WellFormed) {nodes : List Node}
    (own : ∀ n ∈ nodes, root.Within n) {script : Script} (h : buildProgram nodes = .ok script) :
    script.ReadFrom root := by
  induction nodes generalizing script with
  | nil =>
    cases h
    constructor <;> simp
  | cons n rest ih =>
    have here := own n List.mem_cons_self
    have others := fun m mem => own m (List.mem_cons_of_mem n mem)
    rw [buildProgram] at h
    split at h
    · obtain ⟨f, built, h⟩ := bind_ok h
      obtain ⟨script, built', h⟩ := bind_ok h
      cases h
      obtain ⟨body, functions⟩ := ih others built'
      constructor
      · exact body
      · exact List.forall_mem_cons.mpr ⟨buildFunction_read wf here built, functions⟩
    · obtain ⟨s, built, h⟩ := bind_ok h
      obtain ⟨script, built', h⟩ := bind_ok h
      cases h
      obtain ⟨body, functions⟩ := ih others built'
      constructor
      · exact List.forall_mem_cons.mpr ⟨(wf.writes here).stmt s built, body⟩
      · exact functions
    · exact ih others h
    · cases h

/-- A parsed script is read from the tree of its source. -/
theorem parse_read {source : String} {script : Script} (h : parse source = .ok script) :
    ∃ attempts root, matchRule .program source.toList = (attempts, some root) ∧
      script.ReadFrom root := by
  unfold parse at h
  dsimp only at h
  split at h
  · rename_i attempts program matched
    have wf := matchRule_wellFormed matched
    exact ⟨attempts, program, matched, buildProgram_read wf Node.Within.root.all h⟩
  · cases h

end Script
end FrameScript
