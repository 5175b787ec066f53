import FrameScript.Proofs.Script.Alternatives
import FrameScript.Proofs.Script.Relayout
import FrameScript.Proofs.Script.RoundTrip

/-!
# Single expressions

A source that is one expression, with layout around it, is read as the expression that it is as the
value of a declaration, unless it begins with braces around nothing: these are a block. But a source
is accepted by its first statement alone, whatever functions and statements there are besides.
-/

namespace FrameScript

mutual

theorem Expr.mapLines_id : (e : Expr) → e.mapLines id = e
  | .null | .bool _ | .num _ | .str _ | .ident _ => rfl
  | .list items => congrArg Expr.list (itemsMapLines_id items)
  | .object fields => congrArg Expr.object (fieldsMapLines_id fields)
  | .member e _ => congrArg (Expr.member · _) e.mapLines_id
  | .index e position => congrArg₂ Expr.index e.mapLines_id position.mapLines_id
  | .call callee args _ =>
    congrArg₂ (Expr.call · · _) callee.mapLines_id (itemsMapLines_id args)
  | .unary _ e => congrArg (Expr.unary _) e.mapLines_id
  | .binary _ left right => congrArg₂ (Expr.binary _) left.mapLines_id right.mapLines_id
  | .logical _ left right => congrArg₂ (Expr.logical _) left.mapLines_id right.mapLines_id

theorem Expr.itemsMapLines_id : (es : List Expr) → itemsMapLines id es = es
  | [] => rfl
  | e :: rest => congrArg₂ List.cons e.mapLines_id (itemsMapLines_id rest)

theorem Expr.fieldsMapLines_id : (fs : List (String × Expr)) → fieldsMapLines id fs = fs
  | [] => rfl
  | (key, e) :: rest =>
    congrArg₂ List.cons (congrArg (key, ·) e.mapLines_id) (fieldsMapLines_id rest)

end

namespace Script

open Node (outlineAll)

variable {c d : Cursor} {f g : Found} {t k : List Char} {n : Node} {e : Expr}

/-- The text begins with an expression, and this is left behind it and the layout. -/
def ExpressionThen (t k : List Char) : Prop :=
  ∃ f, Finds .spaced (.once (.rule .expression)) (skipLayout (.start t)) (some f) ∧
    (skipLayout f.cursor).rest = k

/-- The text as a whole is an expression, with layout around it. -/
def IsExpression (t : List Char) : Prop := ExpressionThen t []

/-- The text is an expression and a semicolon, with layout around them. -/
def Terminated (t : List Char) : Prop :=
  ∃ k, ExpressionThen t (';' :: k) ∧ (skipLayout (.start k)).rest = []

theorem yields_of_expression (h : Finds .spaced (.once (.rule .expression)) c (some f)) :
    ∃ n e, f.nodes = [n] ∧ n.Yields e := by
  obtain ⟨_, -, rfl⟩ := h.within rfl
  obtain ⟨-, all⟩ := h.grammatical (by decide) _ rfl
  obtain ⟨e, yields⟩ := (all _ (List.mem_singleton_self _)).builds.expr rfl
  exact ⟨_, e, rfl, yields⟩

/-- In another place of the same line an expression is the same. -/
theorem expression_elsewhere (h : Finds .spaced (.once (.rule .expression)) c (some ⟨d, [n]⟩))
    (settled : c.Settled) (yields : n.Yields e) {c' : Cursor} (alike : c.Alike true c') :
    ∃ d' n', Finds .spaced (.once (.rule .expression)) c' (some ⟨d', [n']⟩) ∧
      d.Alike true d' ∧ buildExpr n' = .ok e := by
  obtain ⟨_, found, same⟩ := h.alike (by decide) (by decide) (fun _ _ _ => settled) alike
  cases same with
  | @some _ f same =>
    obtain ⟨n', e', nodes, yields'⟩ := yields_of_expression found
    obtain ⟨d', _⟩ := f
    obtain rfl := nodes
    have trees := same.trees
    simp only [outlineAll, List.cons.injEq, and_true] at trees
    have outlined := yields.2 (counted true)
    rw [trees, yields'.2] at outlined
    have lines : counted true = id := rfl
    rw [lines, e.mapLines_id, e'.mapLines_id] at outlined
    cases outlined
    exact ⟨d', n', found, same.behind, yields'.1⟩

theorem parse_declared_text {text : String} {value : Node}
    (found : Finds .spaced (.once (.rule .expression)) (skipLayout (.start text.toList))
      (some ⟨d, [value]⟩))
    (ends : (skipLayout d).rest = []) (yields : value.Yields e) :
    parse ("let x = " ++ text) = .ok ⟨[], [.declare 1 "x" (some e)]⟩ := by
  have alike : (Cursor.start text.toList).Alike true
      ((Cursor.start ("let x = ".toList ++ text.toList)).after "let x = ".toList) :=
    ⟨by rw [Cursor.rest_after rfl]; exact .same, fun _ => rfl⟩
  obtain ⟨d', value', found', behind, built⟩ :=
    expression_elsewhere found (Cursor.skipLayout_settled _) yields alike.skip
  have ends' : (skipLayout d').rest = [] := (ends ▸ behind.skip.rest).nil
  have parsed := parse_declared found' ends' built
  rwa [String.ofList_toList] at parsed

/-- Where a whole expression comes, neither a function nor an assignment is found, and a block only
with braces around nothing. -/
theorem nothing_before (found : Finds .spaced (.once (.rule .expression)) c (some f))
    (ends : (skipLayout f.cursor).rest = []) :
    Finds .spaced (.once (.rule .functionDecl)) c none ∧
      Finds .spaced (.once (.rule .assignStmt)) c none ∧
      (¬ EmptyBraces c → Finds .spaced (.once (.rule .block)) c none) := by
  have early {d : Cursor} {ch : Char} {k : List Char} (reaches : Reaches (.rule .expression) c d)
      (next : (skipLayout d).rest = ch :: k) : False := by
    rw [← reaches.ends found, ends] at next
    cases next
  refine ⟨?_, ?_, fun full => ?_⟩
  · obtain ⟨function, finds⟩ := exists_finds .spaced (p := .rule .functionDecl) rfl c
    cases function with
    | none => exact finds
    | some g =>
      rcases function_ends finds with none_here | ⟨d, k, reaches, next⟩
      · cases found.unique none_here
      · exact (early reaches next).elim
  · obtain ⟨assign, finds⟩ := exists_finds .spaced (p := .rule .assignStmt) rfl c
    cases assign with
    | none => exact finds
    | some g =>
      obtain ⟨d, k, reaches, next⟩ := assignment_ends finds
      exact (early reaches next).elim
  · obtain ⟨block, finds⟩ := exists_finds .spaced (p := .rule .block) rfl c
    cases block with
    | none => exact finds
    | some g => exact absurd (block_empty finds found) full

/-- A whole expression is a script of one statement, unless it begins with braces around nothing. -/
theorem parse_single {text : String}
    (found : Finds .spaced (.once (.rule .expression)) (skipLayout (.start text.toList))
      (some ⟨d, [n]⟩))
    (ends : (skipLayout d).rest = []) (full : ¬ EmptyBraces (skipLayout (.start text.toList)))
    (built : buildExpr n = .ok e) : ∃ line, parse text = .ok ⟨[], [.expr line e]⟩ := by
  obtain ⟨no_function, no_assign, no_block⟩ := nothing_before found ends
  have statement := finds_expression_statement no_assign (no_block full) found (by simp [ends])
  refine ⟨(skipLayout (.start text.toList)).line, parse_statement no_function statement ends rfl ?_⟩
  rw [buildStmt, buildStmt, built]
  rfl

theorem parse_whole {text : String} (whole : IsExpression text.toList)
    (full : ¬ EmptyBraces (skipLayout (.start text.toList))) : ∃ line e,
      parse text = .ok ⟨[], [.expr line e]⟩ ∧
        parse ("let x = " ++ text) = .ok ⟨[], [.declare 1 "x" (some e)]⟩ := by
  obtain ⟨f, found, ends⟩ := whole
  obtain ⟨n, e, nodes, yields⟩ := yields_of_expression found
  obtain ⟨d, _⟩ := f
  obtain rfl := nodes
  obtain ⟨line, parsed⟩ := parse_single found ends full yields.1
  exact ⟨line, e, parsed, parse_declared_text found ends yields⟩

theorem parseExpression_ok_iff {text : String} : parseExpression text = .ok e ↔
    ∃ script line rest, parse text = .ok script ∧ script.body = .expr line e :: rest := by
  constructor
  · intro h
    obtain ⟨script, parsed, first⟩ := bind_ok h
    cases body : script.body with
    | nil => simp [body] at first
    | cons s rest =>
      rw [body] at first
      cases s with
      | expr line e' =>
        cases first
        exact ⟨script, line, rest, parsed, body⟩
      | _ => cases first
  · rintro ⟨script, line, rest, parsed, body⟩
    simp only [parseExpression, parsed, bind, Except.bind, body]

theorem buildProgram_statement {nodes : List Node} {script : Script} (rule : n.rule = .statement)
    (built : buildProgram (n :: nodes) = .ok script) : ∃ s rest,
      buildStmt n = .ok s ∧ buildProgram nodes = .ok rest ∧
        script = ⟨rest.functions, s :: rest.body⟩ := by
  rw [buildProgram, rule] at built
  dsimp only at built
  obtain ⟨s, first, built⟩ := bind_ok built
  obtain ⟨rest, others, built⟩ := bind_ok built
  cases built
  exact ⟨s, rest, first, others, rfl⟩

theorem buildProgram_function {nodes : List Node} {script : Script} (rule : n.rule = .functionDecl)
    (built : buildProgram (n :: nodes) = .ok script) : script.functions ≠ [] := by
  rw [buildProgram, rule] at built
  dsimp only at built
  obtain ⟨_, -, built⟩ := bind_ok built
  obtain ⟨_, -, built⟩ := bind_ok built
  cases built
  exact List.cons_ne_nil _ _

/-- Only from an expression statement an expression is built as a statement. -/
theorem exprStmt_of_built {line : Nat} (other : n.rule ≠ .statement)
    (built : buildStmt n = .ok (.expr line e)) : n.rule = .exprStmt := by
  rw [buildStmt.eq_def] at built
  split at built
  case h_1 => exact absurd rfl other
  case h_5 => rfl
  case h_2 | h_3 | h_6 | h_12 =>
    obtain ⟨_, _, same⟩ := map_ok built
    cases same
  case h_4 | h_7 | h_9 | h_10 | h_11 =>
    obtain ⟨_, _, built⟩ := bind_ok built
    obtain ⟨_, _, built⟩ := bind_ok built
    cases built
  case h_8 =>
    obtain ⟨_, _, built⟩ := bind_ok built
    obtain ⟨_, _, built⟩ := bind_ok built
    obtain ⟨_, _, built⟩ := bind_ok built
    cases built
  case h_13 | h_14 => cases built
  case h_15 => cases built

theorem Finds.of_choice {s : Spacing} (rules : List Rule) (nonempty : rules ≠ [])
    (h : Finds s (.once (.choice (rules.map .rule))) c (some f)) :
    ∃ r ∈ rules, Finds s (.once (.rule r)) c (some f) := by
  induction rules with
  | nil => exact absurd rfl nonempty
  | cons r rest ih =>
    cases rest with
    | nil => exact ⟨r, List.mem_cons_self, h⟩
    | cons q rest =>
      rcases h.of_alt with first | ⟨-, others⟩
      · exact ⟨r, List.mem_cons_self, first⟩
      · obtain ⟨q, mem, found⟩ := ih (by simp) others
        exact ⟨q, List.mem_cons_of_mem r mem, found⟩

theorem expression_of_statement {line : Nat} {d : Cursor}
    (h : Finds .spaced (.once (.rule .statement)) c (some ⟨d, [n]⟩))
    (built : buildStmt n = .ok (.expr line e)) :
    ∃ f, Finds .spaced (.once (.rule .expression)) c (some f) ∧
      (d = skipLayout f.cursor ∨
        ∃ k, (skipLayout f.cursor).rest = ';' :: k ∧ d = (skipLayout f.cursor).after [';']) := by
  obtain ⟨_, whole, same⟩ := h.within rfl
  obtain ⟨g, g', chosen, semicolon, rfl⟩ := whole.of_seq
  obtain ⟨rfl, nodes⟩ := Found.mk.inj same
  obtain rfl := List.singleton_inj.mp nodes
  obtain ⟨r, mem, found⟩ := Finds.of_choice statements (by decide) chosen
  have spacing : r.spacing = none := by
    have all : ∀ r ∈ statements, r.spacing = none := by decide
    exact all r mem
  obtain ⟨m, inside, rfl⟩ := found.within spacing
  have own := exprStmt_of_built (n := .mk r c _ m.nodes) (by rintro rfl; revert mem; decide) built
  obtain rfl : r = .exprStmt := own
  refine ⟨m, inside, ?_⟩
  rcases semicolon.of_opt with semicolon | ⟨-, rfl⟩
  · obtain ⟨k, next, rfl⟩ := semicolon.of_text
    exact .inr ⟨k, next, rfl⟩
  · exact .inl rfl

theorem node_of_item
    (h : Finds .spaced (.once (.alt (.rule .functionDecl) (.rule .statement))) c (some f)) :
    ∃ n, f.nodes = [n] ∧ (n.rule = .functionDecl ∨ n.rule = .statement ∧
      Finds .spaced (.once (.rule .statement)) c (some f)) := by
  rcases h.of_alt with function | ⟨-, statement⟩
  · obtain ⟨_, -, rfl⟩ := function.within rfl
    exact ⟨_, rfl, .inl rfl⟩
  · obtain ⟨_, -, same⟩ := statement.within rfl
    subst same
    exact ⟨_, rfl, .inr ⟨rfl, statement⟩⟩

theorem Whole.first (h : Whole t f)
    (item : Finds .spaced (.once (.alt (.rule .functionDecl) (.rule .statement)))
      (skipLayout (.start t)) (some g)) : ∃ more, f.nodes = g.nodes ++ more := by
  obtain ⟨_, last, items, -, rfl⟩ := h.of_seq
  rcases items.of_many with ⟨first, others, found, -, rfl⟩ | ⟨fails, -⟩
  · cases item.unique found
    exact ⟨others.nodes ++ last.nodes, List.append_assoc ..⟩
  · cases item.unique fails

/-- A source from which one statement is built, and no function, is that statement. -/
theorem Whole.only {s : Stmt} (h : Whole t f) (built : buildProgram f.nodes = .ok ⟨[], [s]⟩) :
    ∃ d n, Finds .spaced (.once (.rule .statement)) (skipLayout (.start t)) (some ⟨d, [n]⟩) ∧
      (skipLayout d).rest = [] ∧ buildStmt n = .ok s := by
  obtain ⟨_, last, items, finish, rfl⟩ := h.of_seq
  obtain ⟨_, at_end, rfl⟩ := finish.within rfl
  rcases items.of_many with ⟨first, others, found, more, rfl⟩ | ⟨-, rfl⟩
  · obtain ⟨n, nodes, rule | ⟨rule, statement⟩⟩ := node_of_item found
    · simp only [Found.before, nodes, List.singleton_append] at built
      exact absurd rfl (buildProgram_function rule built)
    · simp only [Found.before, nodes, List.singleton_append] at built
      obtain ⟨s', rest, own, others_built, same⟩ := buildProgram_statement rule built
      obtain ⟨functions, body⟩ := Script.mk.inj same
      obtain ⟨rfl, no_more⟩ := List.cons.inj body
      obtain ⟨d, _⟩ := first
      obtain rfl := nodes
      refine ⟨d, n, statement, ?_, own⟩
      rcases more.of_again with ⟨_, _, another, -, rfl⟩ | ⟨-, rfl⟩
      · obtain ⟨m, nodes, rule | ⟨rule, -⟩⟩ := node_of_item another
        · simp only [Found.before, nodes, List.singleton_append] at others_built
          exact absurd functions.symm (buildProgram_function rule others_built)
        · simp only [Found.before, nodes, List.singleton_append] at others_built
          obtain ⟨_, _, -, -, rfl⟩ := buildProgram_statement rule others_built
          cases no_more
      · exact at_end.of_finish.1
  · cases built

theorem block_of_braces (h : EmptyBraces c) : ∃ d length,
    Finds .spaced (.once (.rule .block)) c (some ⟨d, [.mk .block c length []]⟩) := by
  obtain ⟨k, l, comes, closes⟩ := h
  have opening : Finds .spaced (.once (.lit "\x7b")) c (some (.nothing (c.after ['\x7b']))) :=
    finds_text comes
  have nothing : Finds .spaced (.once (.many (.rule .statement))) (skipLayout (c.after ['\x7b']))
      (some (.nothing _)) := .never (fails_of_avoids (by decide) _ (by decide) closes)
  have closing : Finds .spaced (.once (.lit "\x7d"))
      (skipLayout (skipLayout (c.after ['\x7b'])))
      (some (.nothing ((skipLayout (c.after ['\x7b'])).after ['\x7d']))) := by
    rw [Cursor.skipLayout_idem]
    exact finds_text closes
  exact ⟨_, _, finds_rule (r := .block) rfl (opening.both (nothing.both closing))⟩

theorem braces_rejected {text : String} (h : EmptyBraces (skipLayout (.start text.toList))) :
    parseExpression text ≠ .ok e := by
  intro accepted
  obtain ⟨script, line, rest, parsed, body⟩ := parseExpression_ok_iff.mp accepted
  obtain ⟨f, whole, built⟩ := parse_ok_iff.mp parsed
  obtain ⟨d, length, block⟩ := block_of_braces h
  obtain ⟨k, -, comes, -⟩ := h
  have no_function : Finds .spaced (.once (.rule .functionDecl)) (skipLayout (.start text.toList))
      none := fails_of_avoids (by decide) _ (by decide) comes
  have no_assign : Finds .spaced (.once (.rule .assignStmt)) (skipLayout (.start text.toList))
      none := fails_of_avoids (by decide) _ (by decide) comes
  obtain ⟨semicolon, optional⟩ := exists_finds .spaced (p := .opt (.lit ";")) rfl (skipLayout d)
  cases semicolon with
  | none => cases optional
  | some g =>
    have chosen : Finds .spaced (.once (.choice (statements.map .rule)))
        (skipLayout (.start text.toList)) _ := .second no_assign (.first block)
    have statement := finds_rule (r := .statement) rfl (chosen.both optional)
    obtain ⟨more, nodes⟩ := whole.first (.second no_function statement)
    rw [nodes] at built
    obtain ⟨s, _, own, -, rfl⟩ := buildProgram_statement rfl built
    obtain ⟨rfl, -⟩ := List.cons.inj body
    cases own

/-- A single expression is accepted and has the value that it has in a declaration, unless it begins
with braces around nothing; no text that begins with these is accepted. Every other text that is
accepted is an expression with a semicolon, or has functions or further statements. -/
theorem parseExpression_accepts (text : String) :
    (IsExpression text.toList → ¬ EmptyBraces (skipLayout (.start text.toList)) →
      ∃ e, parseExpression text = .ok e ∧
        parse ("let x = " ++ text) = .ok ⟨[], [.declare 1 "x" (some e)]⟩) ∧
    (EmptyBraces (skipLayout (.start text.toList)) → ∀ e, parseExpression text ≠ .ok e) ∧
    ∀ e, parseExpression text = .ok e → IsExpression text.toList ∨ Terminated text.toList ∨
      ∃ script, parse text = .ok script ∧ (script.functions ≠ [] ∨ 1 < script.body.length) := by
  refine ⟨fun whole full => ?_, fun braces e => braces_rejected braces, fun e accepted => ?_⟩
  · obtain ⟨line, e, parsed, declared⟩ := parse_whole whole full
    exact ⟨e, parseExpression_ok_iff.mpr ⟨_, line, [], parsed, rfl⟩, declared⟩
  · obtain ⟨⟨functions, body⟩, line, rest, parsed, rfl⟩ := parseExpression_ok_iff.mp accepted
    by_cases functions_left : functions ≠ []
    · exact .inr (.inr ⟨_, parsed, .inl functions_left⟩)
    by_cases statements_left : rest ≠ []
    · refine .inr (.inr ⟨_, parsed, .inr ?_⟩)
      simpa using List.length_pos_iff.mpr statements_left
    obtain rfl := not_not.mp functions_left
    obtain rfl := not_not.mp statements_left
    obtain ⟨f, whole, built⟩ := parse_ok_iff.mp parsed
    obtain ⟨d, n, statement, ends, own⟩ := whole.only built
    obtain ⟨g, found, rfl | ⟨k, next, rfl⟩⟩ := expression_of_statement statement own
    · rw [Cursor.skipLayout_idem] at ends
      exact .inl ⟨g, found, ends⟩
    · refine .inr (.inl ⟨k, ⟨g, found, next⟩, ?_⟩)
      have alike : ((skipLayout g.cursor).after [';']).Alike false (.start k) :=
        ⟨by rw [Cursor.rest_after (t := [';']) next]; exact .same, fun counts => by cases counts⟩
      exact (ends ▸ alike.skip.rest).nil

theorem parseExpression_accepts_comparison : ∃ e, parseExpression "a < b" = .ok e ∧
    parse "let x = a < b" = .ok ⟨[], [.declare 1 "x" (some e)]⟩ := by
  have a : IsName "a" := .of_all rfl (by decide) (by decide) (by decide)
  have b : IsName "b" := .of_all rfl (by decide) (by decide) (by decide)
  have writes : Writes (.expr .comparison _) "a < b".toList :=
    .operator (.binary .lt) ((Writes.ident a).of_atom _) gap_blank gap_blank
      ((Writes.ident b).of_atom _)
  obtain ⟨d, value, found, ends, -⟩ := writes.loosest.whole (c := .start "a < b".toList) rfl
  have full : ¬ EmptyBraces (skipLayout (.start "a < b".toList)) := by
    rintro ⟨k, l, comes, -⟩
    cases comes
  exact (parseExpression_accepts "a < b").1 ⟨_, found, ends⟩ full

/-- Two statements are accepted, and the second one is passed over. -/
theorem parseExpression_first_of_two :
    (∃ e, parseExpression "a; b" = .ok e) ∧ ¬ IsExpression "a; b".toList := by
  constructor
  · have answered : (parseExpression "a; b").toOption.isSome := by decide +kernel
    cases accepted : parseExpression "a; b" with
    | ok e => exact ⟨e, rfl⟩
    | error _ =>
      rw [accepted] at answered
      cases answered
  · rintro ⟨f, found, ends⟩
    have name : IsName "a" := .of_all rfl (by decide) (by decide) (by decide)
    have word : EndsWord "; b".toList := by
      intro ch mem
      cases mem
      decide
    have named : NameAt (skipLayout (.start "a; b".toList)) "a" := ⟨name, "; b".toList, rfl, word⟩
    have next : (skipLayout ((skipLayout (.start "a; b".toList)).after "a".toList)).rest =
        ';' :: " b".toList := rfl
    have reaches := named.operand (stops_of_apart next (by decide))
    rw [reaches.ends found, next] at ends
    cases ends

end Script
end FrameScript
