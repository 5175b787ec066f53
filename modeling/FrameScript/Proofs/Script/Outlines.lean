import FrameScript.Proofs.Script.Shapes
import FrameScript.Proofs.Script.Reading

/-!
# Outlines of trees

What is built from a tree depends on its rules, on the texts of names, numerals and strings, and on
lines, but neither on positions nor on the layout between its parts. The outline of a tree keeps
what matters, with a function applied to its lines.
-/

namespace FrameScript

mutual

/-- The expression with a function applied to its lines. -/
def Expr.mapLines (h : Nat → Nat) : Expr → Expr
  | .list items => .list (itemsMapLines h items)
  | .object fields => .object (fieldsMapLines h fields)
  | .member e name => .member (e.mapLines h) name
  | .index e position => .index (e.mapLines h) (position.mapLines h)
  | .call callee args line => .call (callee.mapLines h) (itemsMapLines h args) (h line)
  | .unary op e => .unary op (e.mapLines h)
  | .binary op left right => .binary op (left.mapLines h) (right.mapLines h)
  | .logical op left right => .logical op (left.mapLines h) (right.mapLines h)
  | e => e

def Expr.itemsMapLines (h : Nat → Nat) : List Expr → List Expr
  | [] => []
  | e :: rest => e.mapLines h :: itemsMapLines h rest

def Expr.fieldsMapLines (h : Nat → Nat) : List (String × Expr) → List (String × Expr)
  | [] => []
  | (key, e) :: rest => (key, e.mapLines h) :: fieldsMapLines h rest

end

def Target.mapLines (h : Nat → Nat) : Target → Target
  | .ident name => .ident name
  | .member e name => .member (e.mapLines h) name
  | .index e position => .index (e.mapLines h) (position.mapLines h)

mutual

def Stmt.mapLines (h : Nat → Nat) : Stmt → Stmt
  | .block line body => .block (h line) (bodyMapLines h body)
  | .declare line name value => .declare (h line) name (value.map (Expr.mapLines h))
  | .assign line target value => .assign (h line) (target.mapLines h) (value.mapLines h)
  | .ifThen line test body => .ifThen (h line) (test.mapLines h) (body.mapLines h)
  | .ifThenElse line test body otherwise =>
    .ifThenElse (h line) (test.mapLines h) (body.mapLines h) (otherwise.mapLines h)
  | .while line test body => .while (h line) (test.mapLines h) (body.mapLines h)
  | .forOf line binding iterable body =>
    .forOf (h line) binding (iterable.mapLines h) (body.mapLines h)
  | .tryCatch line body name handler =>
    .tryCatch (h line) (bodyMapLines h body) name (bodyMapLines h handler)
  | .return line value => .return (h line) (value.map (Expr.mapLines h))
  | .throw line value => .throw (h line) (value.mapLines h)
  | .break line => .break (h line)
  | .continue line => .continue (h line)
  | .expr line value => .expr (h line) (value.mapLines h)

def Stmt.bodyMapLines (h : Nat → Nat) : List Stmt → List Stmt
  | [] => []
  | s :: rest => s.mapLines h :: bodyMapLines h rest

end

def FunctionDecl.mapLines (h : Nat → Nat) (f : FunctionDecl) : FunctionDecl :=
  ⟨f.name, f.params, Stmt.bodyMapLines h f.body, h f.line⟩

def Script.mapLines (h : Nat → Nat) (script : Script) : Script :=
  ⟨script.functions.map (FunctionDecl.mapLines h), Stmt.bodyMapLines h script.body⟩

namespace Script

/-- The rules whose text is read. -/
def Rule.lettered : Rule → Bool
  | identifier | number | boolean | stringContent => true
  | _ => false

mutual

/-- The tree without positions and layout, and with a function applied to its lines. -/
def Node.outline (h : Nat → Nat) : Node → Node
  | .mk r start length nodes =>
    let letters := if r.lettered then start.rest.take length else []
    .mk r ⟨letters, 0, h start.line⟩ letters.length (outlineAll h nodes)

def Node.outlineAll (h : Nat → Nat) : List Node → List Node
  | [] => []
  | n :: rest => n.outline h :: outlineAll h rest

end

variable {h : Nat → Nat} {n : Node} {nodes : List Node}

@[simp] theorem Node.rule_outline (h : Nat → Nat) (n : Node) : (n.outline h).rule = n.rule := by
  cases n
  rfl

@[simp] theorem Node.line_outline (h : Nat → Nat) (n : Node) : (n.outline h).line = h n.line := by
  cases n
  rfl

@[simp] theorem Node.children_outline (h : Nat → Nat) (n : Node) :
    (n.outline h).children = outlineAll h n.children := by
  cases n
  rfl

theorem Node.outlineAll_append (h : Nat → Nat) (nodes more : List Node) :
    outlineAll h (nodes ++ more) = outlineAll h nodes ++ outlineAll h more := by
  induction nodes with
  | nil => rfl
  | cons n rest ih => rw [List.cons_append, outlineAll, outlineAll, ih, List.cons_append]

theorem Node.text_outline (h : Nat → Nat) (lettered : n.rule.lettered) :
    (n.outline h).text = n.text := by
  obtain ⟨r, start, length, nodes⟩ := n
  have own : r.lettered = true := lettered
  rw [outline, if_pos own, text, List.take_length]
  rfl

/-- The expression is built from the node, and from its outline but for lines. -/
def Node.Yields (n : Node) (e : Expr) : Prop :=
  buildExpr n = .ok e ∧ ∀ h, buildExpr (n.outline h) = .ok (e.mapLines h)

/-- The rules from whose nodes expressions are built. -/
def Rule.expressive : Rule → Bool
  | expression | logicalOrExpr | logicalAndExpr | equalityExpr | comparisonExpr | additiveExpr
  | multiplicativeExpr | unaryExpr | callExpr | primary | literal | arrayLit | objectLit | number
  | string | boolean | nullLit | identifier => true
  | _ => false

/-- What is built from the nodes of expressions. -/
structure Node.Builds (n : Node) : Prop where
  expr : n.rule.expressive → ∃ e, n.Yields e
  args : n.rule = .argList → ∃ es, buildItems n.children = .ok es ∧
    ∀ h, buildItems (outlineAll h n.children) = .ok (Expr.itemsMapLines h es)
  suffix : n.rule ∈ [Rule.callSuffix, .memberSuffix, .indexSuffix] → ∀ object, ∃ e,
    buildSuffix object n = .ok e ∧
      ∀ h, buildSuffix (object.mapLines h) (n.outline h) = .ok (e.mapLines h)
  field : n.rule = .property → ∃ key e, ∀ rest,
    buildFields (n :: rest) = (buildFields rest).map ((key, e) :: ·) ∧
      ∀ h, buildFields (n.outline h :: rest) = (buildFields rest).map ((key, e.mapLines h) :: ·)

theorem Operator.mapLines_apply (o : Operator) (h : Nat → Nat) (left right : Expr) :
    (o.apply left right).mapLines h = o.apply (left.mapLines h) (right.mapLines h) := by
  cases o <;> rfl

theorem negate_mapLines (h : Nat → Nat) (e : Expr) :
    negate (e.mapLines h) = (negate e).mapLines h := by
  cases e <;> rfl

theorem buildItems_outline (all : ∀ n ∈ nodes, ∃ e, n.Yields e) :
    ∃ es, buildItems nodes = .ok es ∧
      ∀ h, buildItems (Node.outlineAll h nodes) = .ok (Expr.itemsMapLines h es) := by
  induction nodes with
  | nil => exact ⟨[], rfl, fun _ => rfl⟩
  | cons n rest ih =>
    obtain ⟨⟨e, built, outlined⟩, others⟩ := List.forall_mem_cons.mp all
    obtain ⟨es, built', outlined'⟩ := ih others
    refine ⟨e :: es, ?_, fun h => ?_⟩
    · rw [buildItems, built, built']
      rfl
    · rw [Node.outlineAll, buildItems, outlined, outlined']
      rfl

theorem buildFields_outline (all : ∀ n ∈ nodes, n.Builds ∧ n.rule = .property) :
    ∃ fs, buildFields nodes = .ok fs ∧
      ∀ h, buildFields (Node.outlineAll h nodes) = .ok (Expr.fieldsMapLines h fs) := by
  induction nodes with
  | nil => exact ⟨[], rfl, fun _ => rfl⟩
  | cons n rest ih =>
    obtain ⟨⟨first, rule⟩, others⟩ := List.forall_mem_cons.mp all
    obtain ⟨key, e, field⟩ := first.field rule
    obtain ⟨fs, built, outlined⟩ := ih others
    refine ⟨(key, e) :: fs, ?_, fun h => ?_⟩
    · rw [(field rest).1, built]
      rfl
    · rw [Node.outlineAll, (field _).2, outlined]
      rfl

theorem buildChain_outline {operand : Rule} {parts : List (List Rule)}
    (shape : ∀ a ∈ parts, ∃ o : Operator, a = [o.rule, operand])
    (rules : nodes.map Node.rule = parts.flatten)
    (all : ∀ n ∈ nodes, n.rule = operand → ∃ e, n.Yields e) (left : Expr) :
    ∃ e, buildChain left nodes = .ok e ∧
      ∀ h, buildChain (left.mapLines h) (Node.outlineAll h nodes) = .ok (e.mapLines h) := by
  induction parts generalizing nodes left with
  | nil =>
    obtain rfl := List.map_eq_nil_iff.mp rules
    exact ⟨left, rfl, fun _ => rfl⟩
  | cons part parts ih =>
    obtain ⟨⟨o, rfl⟩, shapes⟩ := List.forall_mem_cons.mp shape
    simp only [List.flatten_cons, List.cons_append, List.nil_append, List.map_eq_cons_iff] at rules
    obtain ⟨op, _, rfl, rule, right, rest, rfl, rule', rules⟩ := rules
    obtain ⟨e, built, outlined⟩ := all right (by simp) rule'
    obtain ⟨whole, built', outlined'⟩ := ih shapes rules
      (fun n mem => all n (by simp [mem])) (o.apply left e)
    refine ⟨whole, ?_, fun h => ?_⟩
    · rw [buildChain, rule, o.operator?_rule]
      dsimp only
      rw [built]
      exact built'
    · rw [Node.outlineAll, Node.outlineAll, buildChain, Node.rule_outline, rule, o.operator?_rule]
      dsimp only
      rw [outlined]
      have others := outlined' h
      rw [o.mapLines_apply] at others
      exact others

theorem buildPrefixed_outline {operand : Node} {signs : List Node}
    (shape : ∀ n ∈ signs, n.rule = .opNot ∨ n.rule = .opNeg) (rule : operand.rule = .callExpr)
    (yields : ∃ e, operand.Yields e) (line : Nat) :
    ∃ e, buildPrefixed line (signs ++ [operand]) = .ok e ∧
      ∀ h line', buildPrefixed line' (Node.outlineAll h (signs ++ [operand])) =
        .ok (e.mapLines h) := by
  induction signs with
  | nil =>
    obtain ⟨e, built, outlined⟩ := yields
    obtain ⟨r, start, length, nodes⟩ := operand
    obtain rfl : r = .callExpr := rule
    exact ⟨e, built, fun h _ => outlined h⟩
  | cons sign rest ih =>
    obtain ⟨first, others⟩ := List.forall_mem_cons.mp shape
    obtain ⟨e, built, outlined⟩ := ih others
    obtain ⟨r, start, length, nodes⟩ := sign
    rcases first with same | same
    · obtain rfl : r = .opNot := same
      refine ⟨.unary .not e, ?_, fun h line' => ?_⟩
      · rw [List.cons_append, buildPrefixed, built]
        rfl
      · rw [List.cons_append, Node.outlineAll, Node.outline, buildPrefixed, outlined]
        rfl
    · obtain rfl : r = .opNeg := same
      refine ⟨negate e, ?_, fun h line' => ?_⟩
      · rw [List.cons_append, buildPrefixed, built]
        rfl
      · rw [List.cons_append, Node.outlineAll, Node.outline, buildPrefixed, outlined,
          ← negate_mapLines]
        rfl

theorem buildSuffixes_outline
    (all : ∀ n ∈ nodes, n.Builds ∧ n.rule ∈ [Rule.callSuffix, .memberSuffix, .indexSuffix])
    (object : Expr) : ∃ e, buildSuffixes object nodes = .ok e ∧
      ∀ h, buildSuffixes (object.mapLines h) (Node.outlineAll h nodes) = .ok (e.mapLines h) := by
  induction nodes generalizing object with
  | nil => exact ⟨object, rfl, fun _ => rfl⟩
  | cons n rest ih =>
    obtain ⟨⟨first, rule⟩, others⟩ := List.forall_mem_cons.mp all
    obtain ⟨next, built, outlined⟩ := first.suffix rule object
    obtain ⟨e, built', outlined'⟩ := ih others next
    refine ⟨e, ?_, fun h => ?_⟩
    · rw [buildSuffixes, built]
      exact built'
    · rw [Node.outlineAll, buildSuffixes, outlined]
      exact outlined' h

variable {r : Rule} {start : Cursor} {length : Nat}

/-- Operands of a level, with its operators between them. -/
theorem Level.produces {ℓ : Level} {made : List Rule} (repeats : ℓ.repeats) (other : ℓ ≠ .suffixed)
    (shape : ℓ.rule.pattern.Produces made) : ∃ parts : List (List Rule),
      (∀ a ∈ parts, ∃ o : Operator, a = [o.rule, ℓ.tighter.rule]) ∧
      made = ℓ.tighter.rule :: parts.flatten := by
  rw [Level.pattern_rule repeats] at shape
  obtain ⟨a, b, rfl, ⟨parts, shapes, rfl⟩, rfl⟩ := shape
  refine ⟨parts, fun part mem => ?_, rfl⟩
  have own := shapes part mem
  have body : ℓ.body = .seq (.choice ((ℓ.operators.map Operator.rule).map .rule))
      (.rule ℓ.tighter.rule) := by
    cases ℓ <;> first | rfl | exact absurd rfl other
  rw [body] at own
  obtain ⟨a, b, chosen, rfl, rfl⟩ := own
  have nonempty : ℓ.operators.map Operator.rule ≠ [] := by
    cases ℓ <;> first | exact List.cons_ne_nil _ _ | exact absurd rfl other | cases repeats
  obtain ⟨q, tried, rfl⟩ := Pattern.produces_choice _ nonempty chosen
  obtain ⟨o, -, rfl⟩ := List.mem_map.mp tried
  exact ⟨o, rfl⟩

theorem rules_flatten {parts : List (List Rule)} {P : Rule → Prop}
    (each : ∀ a ∈ parts, ∀ r ∈ a, P r) (rules : nodes.map Node.rule = parts.flatten) :
    ∀ n ∈ nodes, P n.rule := by
  intro n mem
  obtain ⟨a, inside, own⟩ := List.mem_flatten.mp (rules ▸ List.mem_map_of_mem mem)
  exact each a inside n.rule own

section

variable (g : (Node.mk r start length nodes).Grammatical) (all : ∀ n ∈ nodes, n.Builds)

include g all

theorem yields_level {ℓ : Level} (repeats : ℓ.repeats) (other : ℓ ≠ .suffixed)
    (level : r = ℓ.rule) :
    ∃ e, (Node.mk r start length nodes).Yields e := by
  subst level
  have shown : ℓ.rule.spacing ≠ some .atomic := by simp [ℓ.spacing_rule]
  have expressive : ℓ.tighter.rule.expressive := by cases ℓ <;> rfl
  have extend : ℓ.extend = buildChain := by cases ℓ <;> first | rfl | exact absurd rfl other
  obtain ⟨parts, shapes, whole⟩ := Level.produces repeats other (g.produces shown)
  obtain ⟨first, rest, rfl, rule, rules⟩ := List.map_eq_cons_iff.mp whole
  obtain ⟨build, others⟩ := List.forall_mem_cons.mp all
  obtain ⟨left, built, outlined⟩ := build.expr (by rw [rule]; exact expressive)
  obtain ⟨e, built', outlined'⟩ := buildChain_outline shapes rules
    (fun n mem same => (others n mem).expr (by rw [same]; exact expressive)) left
  refine ⟨e, ?_, fun h => ?_⟩
  · rw [Level.build_rule repeats, built, extend]
    exact built'
  · rw [Node.outline, Node.outlineAll, Level.build_rule repeats, outlined, extend]
    exact outlined' h

theorem yields_unary (unary : r = .unaryExpr) : ∃ e, (Node.mk r start length nodes).Yields e := by
  subst unary
  have shape := g.produces (by decide)
  simp only [Rule.pattern, Pattern.Produces] at shape
  obtain ⟨a, b, ⟨parts, shapes, rfl⟩, rfl, whole⟩ := shape
  obtain ⟨signs, last, rfl, rules, final⟩ := List.map_eq_append_iff.mp whole
  obtain ⟨operand, _, rfl, rule, rest⟩ := List.map_eq_cons_iff.mp final
  obtain rfl := List.map_eq_nil_iff.mp rest
  have signed : ∀ n ∈ signs, n.rule = .opNot ∨ n.rule = .opNeg := by
    refine rules_flatten (P := fun r => r = .opNot ∨ r = .opNeg) (fun part mem r own => ?_) rules
    rcases shapes part mem with rfl | rfl
    · exact .inl (List.mem_singleton.mp own)
    · exact .inr (List.mem_singleton.mp own)
  obtain ⟨e, built, outlined⟩ := buildPrefixed_outline signed rule
    ((all operand (by simp)).expr (by rw [rule]; rfl)) start.line
  refine ⟨e, ?_, fun h => ?_⟩
  · rw [buildExpr]
    exact built
  · rw [Node.outline, buildExpr]
    exact outlined h _

theorem yields_call (call : r = .callExpr) : ∃ e, (Node.mk r start length nodes).Yields e := by
  subst call
  have shape := g.produces (by decide)
  simp only [Rule.pattern, Pattern.Produces, Pattern.choice] at shape
  obtain ⟨a, b, rfl, ⟨parts, shapes, rfl⟩, whole⟩ := shape
  obtain ⟨first, rest, rfl, rule, rules⟩ := List.map_eq_cons_iff.mp whole
  obtain ⟨build, others⟩ := List.forall_mem_cons.mp all
  have suffixed : ∀ n ∈ rest, n.rule ∈ [Rule.callSuffix, .memberSuffix, .indexSuffix] := by
    refine rules_flatten (P := fun r => r ∈ [Rule.callSuffix, .memberSuffix, .indexSuffix])
      (fun part mem r own => ?_) rules
    rcases shapes part mem with rfl | rfl | rfl <;> rw [List.mem_singleton.mp own] <;> simp
  obtain ⟨left, built, outlined⟩ := build.expr (by rw [rule]; rfl)
  obtain ⟨e, built', outlined'⟩ := buildSuffixes_outline
    (fun n mem => ⟨others n mem, suffixed n mem⟩) left
  refine ⟨e, ?_, fun h => ?_⟩
  · rw [buildExpr, built]
    exact built'
  · rw [Node.outline, Node.outlineAll, buildExpr, outlined]
    exact outlined' h

omit g in
theorem yields_around {inner : Rule} (whole : nodes.map Node.rule = [inner])
    (expressive : inner.expressive)
    (build : ∀ start length n, buildExpr (.mk r start length [n]) = buildExpr n) :
    ∃ e, (Node.mk r start length nodes).Yields e := by
  obtain ⟨n, _, rfl, rule, rest⟩ := List.map_eq_cons_iff.mp whole
  obtain rfl := List.map_eq_nil_iff.mp rest
  obtain ⟨e, built, outlined⟩ := (all n (by simp)).expr (by rw [rule]; exact expressive)
  exact ⟨e, (build ..).trans built, fun h => (build ..).trans (outlined h)⟩

end

theorem comma_nodes {item : Rule} (shape : (Pattern.commaList (.rule item)).Produces
    (nodes.map Node.rule)) : ∃ first rest, nodes = first :: rest ∧ ∀ n ∈ nodes, n.rule = item := by
  obtain ⟨a, b, rfl, ⟨parts, shapes, rfl⟩, whole⟩ := shape
  obtain ⟨first, rest, rfl, rule, rules⟩ := List.map_eq_cons_iff.mp whole
  refine ⟨first, rest, rfl, List.forall_mem_cons.mpr ⟨rule, ?_⟩⟩
  refine rules_flatten (P := (· = item)) (fun part mem r own => ?_) rules
  obtain ⟨x, y, rfl, rfl, rfl⟩ := shapes part mem
  exact List.mem_singleton.mp own

theorem bracketed_nodes {opening closing : String} {item : Rule}
    (shape : (Pattern.bracketed opening closing item).Produces (nodes.map Node.rule)) :
    ∀ n ∈ nodes, n.rule = item := by
  obtain ⟨a, b, rfl, ⟨c, d, inside, rfl, rfl⟩, whole⟩ := shape
  rw [List.nil_append, List.append_nil] at whole
  rcases inside with rfl | ⟨x, y, list, last, rfl⟩
  · simp [List.map_eq_nil_iff.mp whole]
  · obtain rfl : y = [] := by rcases last with rfl | rfl <;> rfl
    rw [List.append_nil] at whole
    obtain ⟨-, -, -, all⟩ := comma_nodes (whole ▸ list)
    exact all

section

variable (g : (Node.mk r start length nodes).Grammatical) (all : ∀ n ∈ nodes, n.Builds)

include g all

theorem yields_list (list : r = .arrayLit) : ∃ e, (Node.mk r start length nodes).Yields e := by
  subst list
  have rules := bracketed_nodes (g.produces (by decide))
  obtain ⟨es, built, outlined⟩ := buildItems_outline fun n mem =>
    (all n mem).expr (by rw [rules n mem]; rfl)
  refine ⟨.list es, ?_, fun h => ?_⟩
  · rw [buildExpr, built]
    rfl
  · rw [Node.outline, buildExpr, outlined]
    rfl

theorem yields_object (object : r = .objectLit) :
    ∃ e, (Node.mk r start length nodes).Yields e := by
  subst object
  have rules := bracketed_nodes (g.produces (by decide))
  obtain ⟨fs, built, outlined⟩ := buildFields_outline fun n mem => ⟨all n mem, rules n mem⟩
  refine ⟨.object fs, ?_, fun h => ?_⟩
  · rw [buildExpr, built]
    rfl
  · rw [Node.outline, buildExpr, outlined]
    rfl

omit all in
/-- A string has its content below it, which is kept. -/
theorem string_content (string : r = .string) :
    ∀ h, stringValue (Node.outlineAll h nodes) = stringValue nodes := by
  subst string
  have shape := g.produces (by decide)
  simp only [Rule.pattern, Pattern.Produces, Pattern.concat, Pattern.lit] at shape
  obtain ⟨a, b, rfl, ⟨c, d, rfl, rfl, rfl⟩, whole⟩ := shape
  obtain ⟨content, rest, rfl, rule, -⟩ := List.map_eq_cons_iff.mp whole
  intro h
  rw [Node.outlineAll, stringValue, stringValue, Node.text_outline h (by rw [rule]; rfl)]

omit all in
theorem yields_token (token : r ∈ [Rule.number, .string, .boolean, .nullLit, .identifier]) :
    ∃ e, (Node.mk r start length nodes).Yields e := by
  have kept (lettered : r.lettered) (h : Nat → Nat) :
      ((Node.mk r start length nodes).outline h).text = (Node.mk r start length nodes).text :=
    Node.text_outline h lettered
  simp only [List.mem_cons, List.not_mem_nil, or_false] at token
  rcases token with rfl | rfl | rfl | rfl | rfl
  · obtain ⟨x, value⟩ := g.number
    refine ⟨.num x, ?_, fun h => ?_⟩
    · rw [buildExpr, value]
    · have text := kept rfl h
      rw [Node.outline] at text ⊢
      rw [buildExpr, text, value]
      rfl
  · refine ⟨.str (stringValue nodes), rfl, fun h => ?_⟩
    rw [Node.outline, buildExpr, string_content g rfl]
    rfl
  · refine ⟨.bool (_ == "true"), rfl, fun h => ?_⟩
    have text := kept rfl h
    rw [Node.outline] at text ⊢
    rw [buildExpr, text]
    rfl
  · exact ⟨.null, rfl, fun h => rfl⟩
  · refine ⟨.ident _, rfl, fun h => ?_⟩
    have text := kept rfl h
    rw [Node.outline] at text ⊢
    rw [buildExpr, text]
    rfl

theorem yields_expression (expressive : r.expressive) :
    ∃ e, (Node.mk r start length nodes).Yields e := by
  cases r with
  | expression => exact yields_around all (g.produces (by decide)) rfl fun _ _ _ => rfl
  | primary =>
    have shape := g.produces (by decide)
    simp only [Rule.pattern, Pattern.Produces, Pattern.choice, Pattern.concat, Pattern.lit] at shape
    rcases shape with whole | whole | ⟨a, b, rfl, ⟨c, d, rfl, rfl, rfl⟩, whole⟩
    · exact yields_around all whole rfl fun _ _ _ => rfl
    · exact yields_around all whole rfl fun _ _ _ => rfl
    · exact yields_around all whole rfl fun _ _ _ => rfl
  | literal =>
    obtain ⟨q, mem, whole⟩ := Pattern.produces_choice literals (by decide) (g.produces (by decide))
    have kinds : ∀ q ∈ literals, q.expressive := by decide
    exact yields_around all whole (kinds q mem) fun _ _ _ => rfl
  | logicalOrExpr => exact yields_level g all (ℓ := .disjunction) rfl (by decide) rfl
  | logicalAndExpr => exact yields_level g all (ℓ := .conjunction) rfl (by decide) rfl
  | equalityExpr => exact yields_level g all (ℓ := .equality) rfl (by decide) rfl
  | comparisonExpr => exact yields_level g all (ℓ := .comparison) rfl (by decide) rfl
  | additiveExpr => exact yields_level g all (ℓ := .sum) rfl (by decide) rfl
  | multiplicativeExpr => exact yields_level g all (ℓ := .product) rfl (by decide) rfl
  | unaryExpr => exact yields_unary g all rfl
  | callExpr => exact yields_call g all rfl
  | arrayLit => exact yields_list g all rfl
  | objectLit => exact yields_object g all rfl
  | number | string | boolean | nullLit | identifier => exact yields_token g (by decide)
  | _ => cases expressive

theorem builds_suffix (suffix : r ∈ [Rule.callSuffix, .memberSuffix, .indexSuffix])
    (object : Expr) : ∃ e, buildSuffix object (.mk r start length nodes) = .ok e ∧
      ∀ h, buildSuffix (object.mapLines h) ((Node.mk r start length nodes).outline h) =
        .ok (e.mapLines h) := by
  simp only [List.mem_cons, List.not_mem_nil, or_false] at suffix
  rcases suffix with rfl | rfl | rfl
  · have shape := g.produces (by decide)
    simp only [Rule.pattern, Pattern.Produces, Pattern.concat, Pattern.lit] at shape
    obtain ⟨a, b, rfl, ⟨c, d, inside, rfl, rfl⟩, whole⟩ := shape
    rcases inside with rfl | rfl
    · obtain rfl := List.map_eq_nil_iff.mp whole
      exact ⟨.call object [] start.line, rfl, fun h => rfl⟩
    · obtain ⟨n, _, rfl, rule, rest⟩ := List.map_eq_cons_iff.mp whole
      obtain rfl := List.map_eq_nil_iff.mp rest
      obtain ⟨args, built, outlined⟩ := (all n (by simp)).args rule
      obtain ⟨r, start', length', nodes⟩ := n
      refine ⟨.call object args start.line, ?_, fun h => ?_⟩
      · rw [buildSuffix]
        rw [Node.children] at built
        rw [built]
        rfl
      · have own := outlined h
        rw [Node.children] at own
        rw [Node.outline, Node.outlineAll, Node.outlineAll, Node.outline, buildSuffix, own]
        rfl
  · have shape := g.produces (by decide)
    simp only [Rule.pattern, Pattern.Produces, Pattern.lit] at shape
    obtain ⟨a, b, rfl, rfl, whole⟩ := shape
    obtain ⟨n, _, rfl, rule, rest⟩ := List.map_eq_cons_iff.mp whole
    refine ⟨.member object n.text, rfl, fun h => ?_⟩
    rw [Node.outline, Node.outlineAll, buildSuffix, Node.text_outline h (by rw [rule]; rfl)]
    rfl
  · have shape := g.produces (by decide)
    simp only [Rule.pattern, Pattern.Produces, Pattern.concat, Pattern.lit] at shape
    obtain ⟨a, b, rfl, ⟨c, d, rfl, rfl, rfl⟩, whole⟩ := shape
    obtain ⟨n, _, rfl, rule, rest⟩ := List.map_eq_cons_iff.mp whole
    obtain ⟨e, built, outlined⟩ := (all n (by simp)).expr (by rw [rule]; rfl)
    refine ⟨.index object e, ?_, fun h => ?_⟩
    · rw [buildSuffix, built]
      rfl
    · rw [Node.outline, Node.outlineAll, buildSuffix, outlined]
      rfl

theorem builds_field (property : r = .property) : ∃ key e, ∀ rest,
    buildFields (.mk r start length nodes :: rest) =
      (buildFields rest).map ((key, e) :: ·) ∧
    ∀ h, buildFields ((Node.mk r start length nodes).outline h :: rest) =
      (buildFields rest).map ((key, e.mapLines h) :: ·) := by
  subst property
  have shape := g.produces (by decide)
  simp only [Rule.pattern, Pattern.Produces, Pattern.concat, Pattern.lit] at shape
  obtain ⟨a, b, keys, ⟨c, d, rfl, rfl, rfl⟩, whole⟩ := shape
  obtain ⟨keyRule, either, rfl⟩ : ∃ q, (q = .identifier ∨ q = .string) ∧ a = [q] := by
    rcases keys with rfl | rfl
    · exact ⟨_, .inl rfl, rfl⟩
    · exact ⟨_, .inr rfl, rfl⟩
  obtain ⟨key, _, rfl, rule, rest⟩ := List.map_eq_cons_iff.mp whole
  obtain ⟨value, _, rfl, rule', rest⟩ := List.map_eq_cons_iff.mp rest
  obtain rfl := List.map_eq_nil_iff.mp rest
  obtain ⟨e, built, outlined⟩ := (all value (by simp)).expr (by rw [rule']; rfl)
  have keyed := g.all key (by simp)
  obtain ⟨q, start', length', parts⟩ := key
  obtain rfl : q = keyRule := rule
  refine ⟨if q = .string then stringValue parts else Node.text (.mk q start' length' parts), e,
    fun rest => ⟨?_, fun h => ?_⟩⟩
  · rw [buildFields, built]
    rfl
  · rw [Node.outline, Node.outlineAll, Node.outlineAll, Node.outlineAll]
    rcases either with rfl | rfl
    · have text := Node.text_outline (n := .mk .identifier start' length' parts) h rfl
      rw [Node.outline] at text ⊢
      rw [buildFields, outlined, text]
      rfl
    · rw [Node.outline, buildFields, outlined, string_content keyed rfl]
      rfl

end

/-- Expressions are built from the nodes of expressions. -/
theorem Node.Grammatical.builds {n : Node} (grammatical : n.Grammatical) : n.Builds := by
  induction grammatical with
  | @mk r start length nodes leaf shape value inside ih =>
    have g : (Node.mk r start length nodes).Grammatical := .mk leaf shape value inside
    refine ⟨yields_expression g ih, ?_, builds_suffix g ih, builds_field g ih⟩
    intro args
    obtain rfl : r = .argList := args
    obtain ⟨-, -, -, rules⟩ := comma_nodes (g.produces (by decide))
    exact buildItems_outline fun n mem => (ih n mem).expr (by rw [rules n mem]; rfl)

end Script
end FrameScript
