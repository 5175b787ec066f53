import FrameScript.Proofs.Script.Outlines

namespace FrameScript
namespace Script

open Node (outlineAll)

variable {r : Rule} {start : Cursor} {length : Nat} {h : Nat → Nat} {n : Node} {nodes : List Node}

/-- The rules from whose nodes statements are built. -/
def Rule.imperative : Rule → Bool
  | statement | block | declareStmt | assignStmt | exprStmt | returnStmt | ifStmt | whileStmt
  | forStmt | tryStmt | throwStmt | breakStmt | continueStmt => true
  | _ => false

/-- The statement is built from the node, and from its outline but for lines. -/
def Node.Performs (n : Node) (s : Stmt) : Prop :=
  buildStmt n = .ok s ∧ ∀ h, buildStmt (n.outline h) = .ok (s.mapLines h)

def PerformsAll (nodes : List Node) (body : List Stmt) : Prop :=
  buildBody nodes = .ok body ∧ ∀ h, buildBody (outlineAll h nodes) = .ok (Stmt.bodyMapLines h body)

/-- What is built from the nodes of statements. -/
structure Node.Runs (n : Node) : Prop where
  stmt : n.rule.imperative → ∃ s, n.Performs s
  body : n.rule = .block → ∃ body, PerformsAll n.children body

theorem performsAll (all : ∀ n ∈ nodes, ∃ s, n.Performs s) : ∃ body, PerformsAll nodes body := by
  induction nodes with
  | nil => exact ⟨[], rfl, fun _ => rfl⟩
  | cons n rest ih =>
    obtain ⟨⟨s, built, outlined⟩, others⟩ := List.forall_mem_cons.mp all
    obtain ⟨body, built', outlined'⟩ := ih others
    refine ⟨s :: body, ?_, fun h => ?_⟩
    · rw [buildBody, built, built']
      rfl
    · rw [outlineAll, buildBody, outlined, outlined']
      rfl

theorem buildTargetFrom_last (g : n.Grammatical)
    (rule : n.rule = .memberSuffix ∨ n.rule = .indexSuffix) (object : Expr) :
    ∃ t, buildTargetFrom object [n] = .ok t ∧
      ∀ h, buildTargetFrom (object.mapLines h) [n.outline h] = .ok (t.mapLines h) := by
  obtain ⟨r, start, length, parts⟩ := n
  rcases rule with rule | rule
  · obtain rfl : r = .memberSuffix := rule
    obtain ⟨a, b, rfl, rfl, whole⟩ := g.produces (by decide)
    obtain ⟨name, _, rfl, rule, -⟩ := List.map_eq_cons_iff.mp whole
    refine ⟨.member object name.text, rfl, fun h => ?_⟩
    rw [Node.outline, outlineAll, buildTargetFrom, Node.text_outline h (by rw [rule]; rfl)]
    rfl
  · obtain rfl : r = .indexSuffix := rule
    obtain ⟨a, b, rfl, ⟨c, d, rfl, rfl, rfl⟩, whole⟩ := g.produces (by decide)
    obtain ⟨position, _, rfl, rule, -⟩ := List.map_eq_cons_iff.mp whole
    obtain ⟨e, built, outlined⟩ := (g.all position (by simp)).builds.expr (by rw [rule]; rfl)
    refine ⟨.index object e, ?_, fun h => ?_⟩
    · rw [buildTargetFrom, built]
      rfl
    · rw [Node.outline, outlineAll, buildTargetFrom, outlined]
      rfl

theorem buildTargetFrom_outline (nonempty : nodes ≠ [])
    (all : ∀ n ∈ nodes, n.Grammatical ∧ (n.rule = .memberSuffix ∨ n.rule = .indexSuffix))
    (object : Expr) : ∃ t, buildTargetFrom object nodes = .ok t ∧
      ∀ h, buildTargetFrom (object.mapLines h) (outlineAll h nodes) = .ok (t.mapLines h) := by
  induction nodes generalizing object with
  | nil => exact absurd rfl nonempty
  | cons n rest ih =>
    obtain ⟨⟨g, rule⟩, others⟩ := List.forall_mem_cons.mp all
    cases rest with
    | nil => exact buildTargetFrom_last g rule object
    | cons m rest =>
      have suffix : n.rule ∈ [Rule.callSuffix, .memberSuffix, .indexSuffix] := by
        rcases rule with rule | rule <;> simp [rule]
      obtain ⟨next, built, outlined⟩ := g.builds.suffix suffix object
      obtain ⟨t, built', outlined'⟩ := ih (by simp) others next
      refine ⟨t, ?_, fun h => ?_⟩
      · rw [buildTargetFrom, built]
        · exact built'
        all_goals simp
      · rw [outlineAll, outlineAll, buildTargetFrom, outlined]
        · exact outlined' h
        all_goals simp

theorem buildTarget_outline (g : n.Grammatical) (rule : n.rule = .assignTarget) :
    ∃ t, buildTarget n = .ok t ∧ ∀ h, buildTarget (n.outline h) = .ok (t.mapLines h) := by
  obtain ⟨r, start, length, parts⟩ := n
  obtain rfl : r = .assignTarget := rule
  obtain ⟨a, b, rfl, ⟨made, shapes, rfl⟩, whole⟩ := g.produces (by decide)
  obtain ⟨name, rest, rfl, rule, rules⟩ := List.map_eq_cons_iff.mp whole
  have text (h : Nat → Nat) := Node.text_outline (n := name) h (by rw [rule]; rfl)
  have suffixed : ∀ n ∈ rest, n.rule = .memberSuffix ∨ n.rule = .indexSuffix := by
    refine rules_flatten (P := fun r => r = .memberSuffix ∨ r = .indexSuffix)
      (fun part mem r own => ?_) rules
    rcases shapes part mem with rfl | rfl
    · exact .inl (List.mem_singleton.mp own)
    · exact .inr (List.mem_singleton.mp own)
  cases rest with
  | nil =>
    refine ⟨.ident name.text, rfl, fun h => ?_⟩
    rw [Node.outline, outlineAll, outlineAll, buildTarget, text]
    rfl
  | cons suffix rest =>
    obtain ⟨t, built, outlined⟩ := buildTargetFrom_outline (List.cons_ne_nil suffix rest)
      (fun n mem => ⟨g.all n (List.mem_cons_of_mem _ mem), suffixed n mem⟩) (.ident name.text)
    refine ⟨t, built, fun h => ?_⟩
    rw [Node.outline, outlineAll, outlineAll, buildTarget, text]
    exact outlined h

theorem buildOption_outline (all : ∀ n ∈ nodes, n.Grammatical ∧ n.rule = .expression) :
    ∃ value, buildOption nodes = .ok value ∧
      ∀ h, buildOption (outlineAll h nodes) = .ok (value.map (Expr.mapLines h)) := by
  cases nodes with
  | nil => exact ⟨none, rfl, fun _ => rfl⟩
  | cons n rest =>
    obtain ⟨g, rule⟩ := all n List.mem_cons_self
    obtain ⟨e, built, outlined⟩ := g.builds.expr (by rw [rule]; rfl)
    refine ⟨some e, ?_, fun h => ?_⟩
    · rw [buildOption, built]
      rfl
    · rw [outlineAll, buildOption, outlined]
      rfl

/-- The rules of the kinds of statements, in the order in which they are tried. -/
def statements : List Rule :=
  [.assignStmt, .block, .exprStmt, .declareStmt, .returnStmt, .ifStmt, .whileStmt, .forStmt,
    .tryStmt, .throwStmt, .breakStmt, .continueStmt]

section

variable (g : (Node.mk r start length nodes).Grammatical)

include g

theorem expression_below (mem : n ∈ nodes) (rule : n.rule = .expression) : ∃ e, n.Yields e :=
  (g.all n mem).builds.expr (by rw [rule]; rfl)

theorem performs_declare (declare : r = .declareStmt) :
    ∃ s, (Node.mk r start length nodes).Performs s := by
  subst declare
  have shape : ∃ name value, nodes = name :: value ∧ name.rule = .identifier ∧
      ∀ n ∈ value, n.rule = .expression := by
    obtain ⟨a, b, rfl, ⟨c, d, rfl, value, rfl⟩, whole⟩ := g.produces (by decide)
    obtain ⟨name, rest, rfl, rule, rules⟩ := List.map_eq_cons_iff.mp whole
    refine ⟨name, rest, rfl, rule, ?_⟩
    rcases value with rfl | ⟨x, y, rfl, rfl, rfl⟩
    · simp [List.map_eq_nil_iff.mp rules]
    · have each : ∀ r ∈ rest.map Node.rule, r = .expression := by rw [rules]; simp
      exact List.forall_mem_map.mp each
  obtain ⟨name, value, rfl, rule, rules⟩ := shape
  have own : ∀ n ∈ value, n.Grammatical ∧ n.rule = .expression := fun n mem =>
    ⟨g.all n (List.mem_cons_of_mem _ mem), rules n mem⟩
  obtain ⟨e, built, outlined⟩ := buildOption_outline own
  refine ⟨.declare start.line name.text e, ?_, fun h => ?_⟩
  · rw [buildStmt, built]
    rfl
  · rw [Node.outline, outlineAll, buildStmt, outlined, Node.text_outline h (by rw [rule]; rfl)]
    rfl

theorem performs_return (own_rule : r = .returnStmt) :
    ∃ s, (Node.mk r start length nodes).Performs s := by
  subst own_rule
  have rules : ∀ n ∈ nodes, n.rule = .expression := by
    obtain ⟨a, b, rfl, value, whole⟩ := g.produces (by decide)
    rcases value with rfl | rfl
    · simp [List.map_eq_nil_iff.mp whole]
    · have each : ∀ r ∈ nodes.map Node.rule, r = .expression := by rw [whole]; simp
      exact List.forall_mem_map.mp each
  obtain ⟨e, built, outlined⟩ := buildOption_outline fun n mem => ⟨g.all n mem, rules n mem⟩
  refine ⟨.return start.line e, ?_, fun h => ?_⟩
  · rw [buildStmt, built]
    rfl
  · rw [Node.outline, buildStmt, outlined]
    rfl

theorem performs_assign (assign : r = .assignStmt) :
    ∃ s, (Node.mk r start length nodes).Performs s := by
  subst assign
  have shape : ∃ target value, nodes = [target, value] ∧ target.rule = .assignTarget ∧
      value.rule = .expression := by
    simpa [Rule.pattern, Pattern.Produces, Pattern.concat, Pattern.lit, List.map_eq_cons_iff]
      using g.produces (by decide)
  obtain ⟨target, value, rfl, rule, rule'⟩ := shape
  obtain ⟨t, built, outlined⟩ := buildTarget_outline (g.all target (by simp)) rule
  obtain ⟨e, built', outlined'⟩ := expression_below g (n := value) (by simp) rule'
  refine ⟨.assign start.line t e, ?_, fun h => ?_⟩
  · rw [buildStmt, built, built']
    rfl
  · rw [Node.outline, outlineAll, outlineAll, buildStmt, outlined, outlined']
    rfl

theorem performs_value (value : r = .exprStmt ∨ r = .throwStmt) :
    ∃ s, (Node.mk r start length nodes).Performs s := by
  have shape : ∃ value, nodes = [value] ∧ value.rule = .expression := by
    rcases value with rfl | rfl
    · simpa [Rule.pattern, Pattern.Produces, List.map_eq_cons_iff] using g.produces (by decide)
    · simpa [Rule.pattern, Pattern.Produces, Pattern.lit, List.map_eq_cons_iff]
        using g.produces (by decide)
  obtain ⟨n, rfl, rule⟩ := shape
  obtain ⟨e, built, outlined⟩ := expression_below g (n := n) (by simp) rule
  rcases value with rfl | rfl
  · refine ⟨.expr start.line e, ?_, fun h => ?_⟩
    · rw [buildStmt, built]
      rfl
    · rw [Node.outline, outlineAll, buildStmt, outlined]
      rfl
  · refine ⟨.throw start.line e, ?_, fun h => ?_⟩
    · rw [buildStmt, built]
      rfl
    · rw [Node.outline, outlineAll, buildStmt, outlined]
      rfl

end

section

variable (g : (Node.mk r start length nodes).Grammatical) (all : ∀ n ∈ nodes, n.Runs)

include g all

omit g in
theorem statement_below (mem : n ∈ nodes) (rule : n.rule = .statement) : ∃ s, n.Performs s :=
  (all n mem).stmt (by rw [rule]; rfl)

theorem block_below (block : r = .block) : ∃ body, PerformsAll nodes body := by
  subst block
  obtain ⟨a, b, rfl, ⟨c, d, ⟨parts, shapes, rfl⟩, rfl, rfl⟩, whole⟩ := g.produces (by decide)
  rw [List.nil_append, List.append_nil] at whole
  have rules : ∀ n ∈ nodes, n.rule = .statement :=
    rules_flatten (P := (· = .statement)) (fun part mem r own => by
      obtain rfl := shapes part mem
      exact List.mem_singleton.mp own) whole
  exact performsAll fun n mem => statement_below all mem (rules n mem)

theorem performs_statement (statement : r = .statement) :
    ∃ s, (Node.mk r start length nodes).Performs s := by
  subst statement
  obtain ⟨a, b, chosen, last, whole⟩ := g.produces (by decide)
  obtain ⟨q, mem, rfl⟩ := Pattern.produces_choice statements (by decide) chosen
  obtain ⟨inner, rest, rfl, rule, -⟩ := List.map_eq_cons_iff.mp whole
  have kinds : ∀ q ∈ statements, q.imperative := by decide
  obtain ⟨s, built, outlined⟩ := (all inner (by simp)).stmt (by rw [rule]; exact kinds q mem)
  exact ⟨s, built, outlined⟩

theorem performs_if (own_rule : r = .ifStmt) : ∃ s, (Node.mk r start length nodes).Performs s := by
  subst own_rule
  have shape : (∃ test body, nodes = [test, body] ∧ test.rule = .expression ∧
      body.rule = .statement) ∨ ∃ test body word otherwise, nodes = [test, body, word, otherwise] ∧
      test.rule = .expression ∧ body.rule = .statement ∧ word.rule = .elseKw ∧
      otherwise.rule = .statement := by
    simpa [Rule.pattern, Pattern.Produces, Pattern.concat, Pattern.lit, List.map_eq_cons_iff]
      using g.produces (by decide)
  rcases shape with ⟨test, body, rfl, rule, rule'⟩ | ⟨test, body, word, otherwise, rfl, rule, rule',
    -, rule''⟩
  · obtain ⟨e, built, outlined⟩ := expression_below g (n := test) (by simp) rule
    obtain ⟨s, built', outlined'⟩ := statement_below all (n := body) (by simp) rule'
    refine ⟨.ifThen start.line e s, ?_, fun h => ?_⟩
    · rw [buildStmt, built, built']
      rfl
    · rw [Node.outline, outlineAll, outlineAll, outlineAll, buildStmt, outlined, outlined']
      rfl
  · obtain ⟨e, built, outlined⟩ := expression_below g (n := test) (by simp) rule
    obtain ⟨s, built', outlined'⟩ := statement_below all (n := body) (by simp) rule'
    obtain ⟨t, built'', outlined''⟩ := statement_below all (n := otherwise) (by simp) rule''
    refine ⟨.ifThenElse start.line e s t, ?_, fun h => ?_⟩
    · rw [buildStmt, built, built', built'']
      rfl
    · rw [Node.outline, outlineAll, outlineAll, outlineAll, outlineAll, buildStmt, outlined,
        outlined', outlined'']
      rfl

theorem performs_while (own_rule : r = .whileStmt) :
    ∃ s, (Node.mk r start length nodes).Performs s := by
  subst own_rule
  have shape : ∃ test body, nodes = [test, body] ∧ test.rule = .expression ∧
      body.rule = .statement := by
    simpa [Rule.pattern, Pattern.Produces, Pattern.concat, Pattern.lit, List.map_eq_cons_iff]
      using g.produces (by decide)
  obtain ⟨test, body, rfl, rule, rule'⟩ := shape
  obtain ⟨e, built, outlined⟩ := expression_below g (n := test) (by simp) rule
  obtain ⟨s, built', outlined'⟩ := statement_below all (n := body) (by simp) rule'
  refine ⟨.while start.line e s, ?_, fun h => ?_⟩
  · rw [buildStmt, built, built']
    rfl
  · rw [Node.outline, outlineAll, outlineAll, buildStmt, outlined, outlined']
    rfl

theorem performs_for (own_rule : r = .forStmt) :
    ∃ s, (Node.mk r start length nodes).Performs s := by
  subst own_rule
  have shape : ∃ name word iterable body, nodes = [name, word, iterable, body] ∧
      name.rule = .identifier ∧ word.rule = .ofKw ∧ iterable.rule = .expression ∧
      body.rule = .statement := by
    simpa [Rule.pattern, Pattern.Produces, Pattern.concat, Pattern.lit, List.map_eq_cons_iff]
      using g.produces (by decide)
  obtain ⟨name, word, iterable, body, rfl, rule, -, rule', rule''⟩ := shape
  obtain ⟨e, built, outlined⟩ := expression_below g (n := iterable) (by simp) rule'
  obtain ⟨s, built', outlined'⟩ := statement_below all (n := body) (by simp) rule''
  refine ⟨.forOf start.line name.text e s, ?_, fun h => ?_⟩
  · rw [buildStmt, built, built']
    rfl
  · rw [Node.outline, outlineAll, outlineAll, outlineAll, outlineAll, buildStmt, outlined,
      outlined', Node.text_outline h (by rw [rule]; rfl)]
    rfl

theorem performs_try (own_rule : r = .tryStmt) :
    ∃ s, (Node.mk r start length nodes).Performs s := by
  subst own_rule
  have shape : ∃ body name handler, nodes = [body, name, handler] ∧ body.rule = .block ∧
      name.rule = .identifier ∧ handler.rule = .block := by
    simpa [Rule.pattern, Pattern.Produces, Pattern.concat, Pattern.lit, List.map_eq_cons_iff]
      using g.produces (by decide)
  obtain ⟨body, name, handler, rfl, rule, rule', rule''⟩ := shape
  obtain ⟨b, built, outlined⟩ := (all body (by simp)).body rule
  obtain ⟨b', built', outlined'⟩ := (all handler (by simp)).body rule''
  obtain ⟨_, _, _, nodes⟩ := body
  obtain ⟨_, _, _, nodes'⟩ := handler
  rw [Node.children] at built built' outlined outlined'
  refine ⟨.tryCatch start.line b name.text b', ?_, fun h => ?_⟩
  · rw [buildStmt, built, built']
    rfl
  · rw [Node.outline, outlineAll, outlineAll, outlineAll, Node.outline, Node.outline, buildStmt,
      outlined, outlined', Node.text_outline h (by rw [rule']; rfl)]
    rfl

theorem performs (imperative : r.imperative) : ∃ s, (Node.mk r start length nodes).Performs s := by
  cases r with
  | statement => exact performs_statement g all rfl
  | block =>
    obtain ⟨body, built, outlined⟩ := block_below g all rfl
    refine ⟨.block start.line body, ?_, fun h => ?_⟩
    · rw [buildStmt, built]
      rfl
    · rw [Node.outline, buildStmt, outlined]
      rfl
  | declareStmt => exact performs_declare g rfl
  | assignStmt => exact performs_assign g rfl
  | exprStmt => exact performs_value g (.inl rfl)
  | throwStmt => exact performs_value g (.inr rfl)
  | returnStmt => exact performs_return g rfl
  | ifStmt => exact performs_if g all rfl
  | whileStmt => exact performs_while g all rfl
  | forStmt => exact performs_for g all rfl
  | tryStmt => exact performs_try g all rfl
  | breakStmt => exact ⟨.break start.line, rfl, fun h => rfl⟩
  | continueStmt => exact ⟨.continue start.line, rfl, fun h => rfl⟩
  | _ => cases imperative

end

/-- Statements are built from the nodes of statements. -/
theorem Node.Grammatical.runs {n : Node} (grammatical : n.Grammatical) : n.Runs := by
  induction grammatical with
  | @mk r start length nodes leaf shape value inside ih =>
    have g : (Node.mk r start length nodes).Grammatical := .mk leaf shape value inside
    exact ⟨performs g ih, block_below g ih⟩

theorem texts_outline (h : Nat → Nat) (lettered : ∀ n ∈ nodes, n.rule.lettered) :
    (outlineAll h nodes).map Node.text = nodes.map Node.text := by
  induction nodes with
  | nil => rfl
  | cons n rest ih =>
    obtain ⟨first, others⟩ := List.forall_mem_cons.mp lettered
    rw [outlineAll, List.map_cons, List.map_cons, Node.text_outline h first, ih others]

theorem buildFunction_outline (g : n.Grammatical) (rule : n.rule = .functionDecl) (h : Nat → Nat) :
    (buildFunction (n.outline h)).toOption =
      (buildFunction n).toOption.map (FunctionDecl.mapLines h) := by
  obtain ⟨r, start, length, nodes⟩ := n
  obtain rfl : r = .functionDecl := rule
  have shape : (∃ name body, nodes = [name, body] ∧ name.rule = .identifier ∧
      body.rule = .block) ∨ ∃ name params body, nodes = [name, params, body] ∧
      name.rule = .identifier ∧ params.rule = .paramList ∧ body.rule = .block := by
    simpa [Rule.pattern, Pattern.Produces, Pattern.concat, Pattern.lit, List.map_eq_cons_iff]
      using g.produces (by decide)
  rcases shape with ⟨name, body, rfl, rule, rule'⟩ | ⟨name, params, body, rfl, rule, rule', rule''⟩
  · obtain ⟨b, built, outlined⟩ := (g.all body (by simp)).runs.body rule'
    obtain ⟨_, _, _, nodes⟩ := body
    rw [Node.children] at built outlined
    rw [Node.outline, outlineAll, outlineAll, outlineAll, Node.outline, buildFunction,
      buildFunction, built, outlined, Node.text_outline h (by rw [rule]; rfl)]
    · rfl
    all_goals simp
  · obtain ⟨b, built, outlined⟩ := (g.all body (by simp)).runs.body rule''
    have g' := g.all params (by simp)
    obtain ⟨_, _, _, nodes⟩ := body
    obtain ⟨r, _, _, names⟩ := params
    obtain rfl : r = .paramList := rule'
    obtain ⟨-, -, -, rules⟩ := comma_nodes (g'.produces (by decide))
    have lettered : ∀ n ∈ names, n.rule.lettered := fun n mem => by rw [rules n mem]; rfl
    have texts := texts_outline h lettered
    rw [Node.children] at built outlined
    rw [Node.outline, outlineAll, outlineAll, outlineAll, outlineAll, Node.outline, Node.outline,
      buildFunction, buildFunction, built, outlined, Node.text_outline h (by rw [rule]; rfl), texts]
    dsimp only
    cases firstRepeated? (names.map Node.text) [] <;> rfl

theorem toOption_bind {α β : Type} (x : Parsed α) (f : α → Parsed β) :
    (x >>= f).toOption = x.toOption.bind fun a => (f a).toOption := by
  cases x <;> rfl

/-- A script is built from the nodes of a program if one is built from their outlines, and it is
the same but for lines. -/
theorem buildProgram_outline
    (all : ∀ n ∈ nodes, n.Grammatical ∧ n.rule ∈ [Rule.functionDecl, .statement, .endOfInput])
    (h : Nat → Nat) :
    (buildProgram (outlineAll h nodes)).toOption =
      (buildProgram nodes).toOption.map (Script.mapLines h) := by
  induction nodes with
  | nil => rfl
  | cons n rest ih =>
    obtain ⟨⟨g, rule⟩, others⟩ := List.forall_mem_cons.mp all
    have ih := ih others
    simp only [List.mem_cons, List.not_mem_nil, or_false] at rule
    rw [outlineAll, buildProgram, buildProgram, Node.rule_outline]
    rcases rule with rule | rule | rule
    · have same := buildFunction_outline g rule h
      rw [rule]
      dsimp only
      rw [toOption_bind, toOption_bind, same]
      cases (buildFunction n).toOption with
      | none => rfl
      | some f =>
        rw [Option.map_some, Option.bind_some, Option.bind_some, toOption_bind, toOption_bind, ih]
        cases (buildProgram rest).toOption <;> rfl
    · obtain ⟨s, built, outlined⟩ := g.runs.stmt (by rw [rule]; rfl)
      rw [rule]
      dsimp only
      rw [built, outlined, toOption_bind, toOption_bind]
      change (buildProgram _ >>= _).toOption = ((buildProgram rest >>= _).toOption).map _
      rw [toOption_bind, toOption_bind, ih]
      cases (buildProgram rest).toOption <;> rfl
    · rw [rule]
      exact ih

end Script
end FrameScript
