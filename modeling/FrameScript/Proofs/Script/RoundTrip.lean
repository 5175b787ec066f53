import FrameScript.Proofs.Script.Passages

/-!
# Reading what has been written

Every text of an expression is read as that expression, but for the lines of calls. By induction
on how the text is written: what follows an operand is an operator, a suffix, a bracket or the
end, and none of these continues a tighter level than the one it belongs to.
-/

namespace FrameScript
namespace Script

variable {c d : Cursor} {e : Expr} {t u k : List Char} {ch : Char} {ℓ : Level}

def ReadsField (key : String) (e : Expr) (t : List Char) (c : Cursor) : Prop :=
  ∃ (d : Cursor) (n : Node) (f : Expr), Finds .spaced (.once (.rule .property)) c (some ⟨d, [n]⟩) ∧
    skipLayout d = skipLayout (c.after t) ∧ f.withoutLines = e.withoutLines ∧
    ∀ rest, buildFields (n :: rest) = (buildFields rest).map ((key, f) :: ·)

theorem finds_key {key : String} {w : List Char} (h : WritesKey key w) (ends : EndsWord k)
    (comes : c.rest = w ++ k) : ∃ r start length parts,
      Finds .spaced (.once (.alt (.rule .identifier) (.rule .string))) c
        (some ⟨c.after w, [.mk r start length parts]⟩) ∧
      (if r = .string then stringValue parts else (Node.mk r start length parts).text) = key := by
  cases h with
  | name word =>
    obtain ⟨⟨r, start, length, parts⟩, rule, text, found⟩ := finds_identifier word ends comes
    obtain rfl : r = .identifier := rule
    exact ⟨_, _, _, _, .first found, text⟩
  | @quoted t h =>
    have comes' : c.rest = '"' :: (t ++ '"' :: k) := by simpa using comes
    obtain ⟨value, found⟩ := finds_string h comes'
    have no_name : Finds .spaced (.once (.rule .identifier)) c none :=
      fails_of_avoids (by decide) _ (by decide) comes'
    exact ⟨_, _, _, _, .second no_name found, value⟩

theorem Reads.field {key : String} {w a b : List Char} (word : WritesKey key w) (before : Gap a)
    (behind : Gap b) (starts : Starts ℓ t)
    (value : Reads .expression e t (c.after (w ++ (a ++ (':' :: b)))))
    (comes : c.rest = w ++ (a ++ (':' :: (b ++ (t ++ k))))) :
    ReadsField key e (w ++ (a ++ (':' :: (b ++ t)))) c := by
  have ends : EndsWord (a ++ (':' :: (b ++ (t ++ k)))) := by
    refine endsWord_gap before fun x mem => ?_
    cases mem
    decide
  obtain ⟨r, start, length, parts, found, read⟩ := finds_key word ends comes
  obtain ⟨to_colon, here⟩ := skipLayout_to_suffix before (by decide) comes
  have colon : Finds .spaced (.once (.lit ":")) (skipLayout (c.after w))
      (some (.nothing ((c.after (w ++ a)).after [':']))) := by
    rw [to_colon]
    exact finds_text here
  obtain ⟨d, n, found_value, -, place, f, built, same⟩ := value
  have whole : (c.after (w ++ a)).after (':' :: b) = c.after (w ++ (a ++ (':' :: b))) := by
    rw [Cursor.after_after, List.append_assoc]
  rw [← whole, ← starts.behind behind here] at found_value
  refine ⟨d, _, f, finds_rule (r := .property) rfl (found.both (colon.both found_value)), ?_, same,
    fun rest => ?_⟩
  · rw [place, Cursor.after_after]
    simp only [List.append_assoc, List.cons_append]
  · rw [Found.before, Found.before]
    simp only [Found.nothing, List.cons_append, List.nil_append]
    rw [buildFields, built, read]
    rfl

/-- The text of a phrase is read as the phrase, where nothing goes on with it. -/
def Phrase.Read : Phrase → List Char → Cursor → Prop
  | expr ℓ e, t, c => Follows ℓ.tighter (c.after t) → ReadsOpen ℓ e t c
  | field key e, t, c => Follows .disjunction (c.after t) → ReadsField key e t c
  | items es, t, c => Closes (c.after t) →
    ∃ nodes, Listed .expression nodes t c ∧ GivesItems nodes es
  | fields fs, t, c => Closes (c.after t) →
    ∃ nodes, Listed .property nodes t c ∧ GivesFields nodes fs

theorem Phrase.Read.operand (h : Phrase.Read (.expr ℓ e) t c) (starts : Starts ℓ t)
    (comes : c.rest = t ++ k) (follows : Follows ℓ (c.after t)) : Reads ℓ.rule e t c :=
  (h follows.tighter).close starts comes follows

theorem Phrase.Read.tighter (h : Phrase.Read (.expr ℓ.tighter e) t c) (starts : Starts ℓ.tighter t)
    (comes : c.rest = t ++ k) : Phrase.Read (.expr ℓ e) t c :=
  fun follows => (h.operand starts comes follows).open starts comes

theorem Phrase.Read.whole (h : Phrase.Read (.expr .disjunction e) t c)
    (starts : Starts .disjunction t) (comes : c.rest = t ++ k)
    (follows : Follows .disjunction (c.after t)) : Reads .expression e t c :=
  .around rfl rfl (fun _ _ _ => rfl) (h.operand starts comes follows)

theorem follows_of_comma {a : List Char} (before : Gap a) (comes : c.rest = a ++ ',' :: k) :
    Follows .disjunction c :=
  follows_of_next before comes
    (Cursor.settled_of_next (by decide) (Cursor.rest_after comes)) (by decide)
    (fun same => absurd same (by decide)) (by decide)

/-- Behind the object of a member comes a point, and no digit behind that. -/
theorem follows_of_point {name : String} {a b : List Char} (before : Gap a) (behind : Gap b)
    (word : IsName name) (comes : c.rest = a ++ ('.' :: (b ++ (name.toList ++ k)))) :
    Follows .atom c := by
  have settled : (c.after a).Settled :=
    Cursor.settled_of_next (by decide) (Cursor.rest_after comes)
  refine follows_of_next before comes settled (by decide) (fun _ x mem => ?_)
    (by simp [Level.continuations])
  cases b with
  | nil =>
    obtain ⟨y, rest, letters, first⟩ := word.begins
    rw [letters] at mem
    cases mem
    exact not_isDigit_of_name first
  | cons y rest =>
    cases mem
    exact EndsWord.digit (k := [x]) (fun ch mem => by
      cases mem
      exact isWordChar_of_blank (behind x List.mem_cons_self)) x rfl

theorem follows_of_bracket {a : List Char} (before : Gap a) (bracket : ch ∈ ['(', '['])
    (comes : c.rest = a ++ ch :: k) : Follows .atom c := by
  have plain : (isBlank ch = false ∧ ch ≠ '/') ∧ isWordChar ch = false ∧ ch ≠ '.' := by
    simp only [List.mem_cons, List.not_mem_nil, or_false] at bracket
    rcases bracket with rfl | rfl <;> decide
  exact follows_of_next before comes
    (Cursor.settled_of_next plain.1 (Cursor.rest_after comes)) plain.2.1
    (fun same => absurd same plain.2.2) (by simp [Level.continuations])

theorem GivesItems.cons {n : Node} {nodes : List Node} {es : List Expr} (h : n.Gives e)
    (others : GivesItems nodes es) : GivesItems (n :: nodes) (e :: es) := by
  obtain ⟨f, built, same⟩ := h
  obtain ⟨fs, built', same'⟩ := others
  refine ⟨f :: fs, ?_, ?_⟩
  · rw [buildItems, built, built']
    rfl
  · rw [Expr.itemsWithoutLines, Expr.itemsWithoutLines, same, same']

theorem givesItems_nil : GivesItems [] [] := ⟨[], rfl, rfl⟩

theorem givesFields_nil : GivesFields [] [] := ⟨[], rfl, rfl⟩

theorem GivesFields.cons {n : Node} {nodes : List Node} {key : String} {f : Expr}
    {fs : List (String × Expr)} (same : f.withoutLines = e.withoutLines)
    (build : ∀ rest, buildFields (n :: rest) = (buildFields rest).map ((key, f) :: ·))
    (others : GivesFields nodes fs) : GivesFields (n :: nodes) ((key, e) :: fs) := by
  obtain ⟨gs, built, same'⟩ := others
  refine ⟨(key, f) :: gs, ?_, ?_⟩
  · rw [build, built]
    rfl
  · rw [Expr.fieldsWithoutLines, Expr.fieldsWithoutLines, same, same']

/-- Every text of a phrase is read as the phrase, wherever it stands. -/
theorem Writes.read {p : Phrase} (h : Writes p t) (comes : c.rest = t ++ k) : p.Read t c := by
  induction h generalizing c k with
  | tighter h ih => exact (ih comes).tighter h.begins comes
  | @operator o left right t a b u h before behind h' ih ih' =>
    intro follows
    simp only [List.append_assoc] at comes
    have comes' : (c.after (t ++ (a ++ (o.symbol.toList ++ b)))).rest = u ++ k :=
      Cursor.rest_after (by simp only [List.append_assoc, comes])
    have first := ih comes (o.follows h'.begins before behind (Cursor.rest_after comes))
    rw [readsOpen_of_repeats o.repeats_level] at first ⊢
    refine first.operator o ((ih' comes').operand h'.begins comes' ?_) h'.begins before behind comes
    simpa only [Cursor.after_after, List.append_assoc] using follows
  | @not e a t gap h ih =>
    intro follows
    simp only [List.cons_append, List.append_assoc] at comes
    have comes' : (c.after ('!' :: a)).rest = t ++ k := Cursor.rest_after comes
    refine Prefixes.not h.begins gap (ih comes' ?_) comes
    rw [Cursor.after_after]
    exact follows
  | @neg e a t gap h unsigned ih =>
    intro follows
    simp only [List.cons_append, List.append_assoc] at comes
    have comes' : (c.after ('-' :: a)).rest = t ++ k := Cursor.rest_after comes
    refine Prefixes.neg h.begins gap (ih comes' ?_) unsigned comes
    rw [Cursor.after_after]
    exact follows
  | @member e name t a b h before behind word ih =>
    intro follows
    have ends := follows.numeral.word
    rw [Cursor.rest_after comes] at ends
    simp only [List.append_assoc, List.cons_append] at comes
    have object : Leads _ _ _ _ _ _ :=
      ih comes (follows_of_point before behind word (Cursor.rest_after comes))
    exact object.member before behind word ends comes
  | @index e position t a b u d h before opening h' closing ih ih' =>
    intro follows
    simp only [List.append_assoc, List.cons_append, List.nil_append] at comes
    have comes' : (c.after (t ++ (a ++ ('[' :: b)))).rest = u ++ (d ++ ']' :: k) :=
      Cursor.rest_behind comes
    have object : Leads _ _ _ _ _ _ :=
      ih comes (follows_of_bracket before (by decide) (Cursor.rest_after comes))
    have inside := (ih' comes').whole h'.begins comes'
      (closes_of_closer (by decide) closing (Cursor.rest_after comes')).follows
    exact object.index before opening inside h'.begins closing comes
  | @call e args t a b u d h before opening h' closing line ih ih' =>
    intro follows
    simp only [List.append_assoc, List.cons_append, List.nil_append] at comes
    have comes' : (c.after (t ++ (a ++ ('(' :: b)))).rest = u ++ (d ++ ')' :: k) :=
      Cursor.rest_behind comes
    have callee : Leads _ _ _ _ _ _ :=
      ih comes (follows_of_bracket before (by decide) (Cursor.rest_after comes))
    obtain ⟨nodes, listed, gives⟩ := ih' comes'
      (closes_of_closer (by decide) closing (Cursor.rest_after comes'))
    exact callee.call before opening listed gives closing line comes
  | null =>
    intro follows
    exact reads_null (Cursor.rest_after comes ▸ follows.numeral.word) comes
  | bool b =>
    intro follows
    exact reads_bool b (Cursor.rest_after comes ▸ follows.numeral.word) comes
  | num h value =>
    intro follows
    exact reads_num h value (Cursor.rest_after comes ▸ follows.numeral) comes
  | str h =>
    intro follows
    exact reads_str h (by simpa using comes)
  | ident word =>
    intro follows
    exact reads_ident word (Cursor.rest_after comes ▸ follows.numeral.word) comes
  | @list es a t b opening h closing ih =>
    intro follows
    simp only [List.append_assoc, List.cons_append, List.nil_append] at comes
    have comes' : (c.after ('[' :: a)).rest = t ++ (b ++ ']' :: k) := Cursor.rest_after comes
    obtain ⟨nodes, listed, gives⟩ := ih comes'
      (closes_of_closer (by decide) closing (Cursor.rest_after comes'))
    exact reads_list opening closing listed gives comes
  | @object fs a t b opening h closing ih =>
    intro follows
    simp only [List.append_assoc, List.cons_append, List.nil_append] at comes
    have comes' : (c.after ('\x7b' :: a)).rest = t ++ (b ++ '\x7d' :: k) := Cursor.rest_after comes
    obtain ⟨nodes, listed, gives⟩ := ih comes'
      (closes_of_closer (by decide) closing (Cursor.rest_after comes'))
    exact reads_object opening closing listed gives comes
  | @parens e a t b opening h closing ih =>
    intro follows
    simp only [List.append_assoc, List.cons_append, List.nil_append] at comes
    have comes' : (c.after ('(' :: a)).rest = t ++ (b ++ ')' :: k) := Cursor.rest_after comes
    have inside := (ih comes').whole h.begins comes'
      (closes_of_closer (by decide) closing (Cursor.rest_after comes')).follows
    exact reads_parens opening closing inside h.begins comes
  | @field key e w a b t word before behind h ih =>
    intro follows
    simp only [List.append_assoc, List.cons_append] at comes
    have comes' : (c.after (w ++ (a ++ (':' :: b)))).rest = t ++ k := Cursor.rest_behind comes
    refine ((ih comes').whole h.begins comes' ?_).field word before behind h.begins comes
    simpa only [Cursor.after_after, List.append_assoc, List.cons_append] using follows
  | noItems => exact fun _ => ⟨[], .inl ⟨rfl, rfl⟩, givesItems_nil⟩
  | noFields => exact fun _ => ⟨[], .inl ⟨rfl, rfl⟩, givesFields_nil⟩
  | lastItem h ih =>
    intro closes
    obtain ⟨d, n, found, -, at_end, gives⟩ := (ih comes).whole h.begins comes closes.follows
    exact ⟨[n], .inr ⟨.one found at_end closes.last, h.begins⟩,
      GivesItems.cons gives givesItems_nil⟩
  | lastField h ih =>
    intro closes
    obtain ⟨d, n, f, found, at_end, same, build⟩ := ih comes closes.follows
    exact ⟨[n], .inr ⟨.one found at_end closes.last, h.begins⟩,
      givesFields_nil.cons same build⟩
  | @items e f es t a b u h before behind h' ih ih' =>
    intro closes
    simp only [List.append_assoc, List.cons_append] at comes
    have starts := h'.begins.resolve_left (by simp)
    have comes' : (c.after (t ++ (a ++ (',' :: b)))).rest = u ++ k := Cursor.rest_behind comes
    obtain ⟨d, n, found, -, at_end, gives⟩ := (ih comes).whole h.begins comes
      (follows_of_comma before (Cursor.rest_after comes))
    obtain ⟨nodes, listed, others⟩ := ih' comes' (by
      simpa only [Cursor.after_after, List.append_assoc, List.cons_append] using closes)
    have list := Lists.cons found at_end before behind starts comes (listed.lists starts)
    exact ⟨n :: nodes, .inr ⟨list, Starts.append h.begins _⟩, GivesItems.cons gives others⟩
  | @fields key e f fs t a b u h before behind h' ih ih' =>
    intro closes
    simp only [List.append_assoc, List.cons_append] at comes
    have starts := h'.begins.resolve_left (by simp)
    have comes' : (c.after (t ++ (a ++ (',' :: b)))).rest = u ++ k := Cursor.rest_behind comes
    obtain ⟨d, n, g, found, at_end, same, build⟩ := ih comes
      (follows_of_comma before (Cursor.rest_after comes))
    obtain ⟨nodes, listed, others⟩ := ih' comes' (by
      simpa only [Cursor.after_after, List.append_assoc, List.cons_append] using closes)
    have list := Lists.cons found at_end before behind starts comes (listed.lists starts)
    exact ⟨n :: nodes, .inr ⟨list, Starts.append h.begins _⟩, others.cons same build⟩

section

variable (comes : c.rest = "let".toList ++ (' ' :: k))

include comes

theorem let_is_no_name : Finds .spaced (.once (.rule .identifier)) c none :=
  keyword_no_name (t := "let".toList) (by decide) (by simp [EndsWord]; decide) comes

theorem let_is_no_expression : Finds .spaced (.once (.rule .expression)) c none := by
  have begins : c.rest = 'l' :: ("et".toList ++ (' ' :: k)) := comes
  refine expression_fails (by simp [begins]) (Cursor.settled_of_next (by decide) begins) ?_
  refine .rule_fails (choice_fails fun q mem => ?_)
  simp only [List.mem_cons, List.not_mem_nil, or_false] at mem
  rcases mem with rfl | rfl | rfl
  · exact fails_of_avoids (by decide) _ (by decide) begins
  · exact let_is_no_name comes
  · exact .stuck (fails_single begins (by decide))

end

section

variable {value : Node} (comes : c.rest = "let x = ".toList ++ t)
  (found : Finds .spaced (.once (.rule .expression)) (skipLayout (c.after "let x = ".toList))
    (some ⟨d, [value]⟩))

include comes found

theorem finds_declareStmt : ∃ n : Node,
    Finds .spaced (.once (.rule .declareStmt)) c (some ⟨d, [n]⟩) ∧
      ∀ e, buildExpr value = .ok e → buildStmt n = .ok (.declare c.line "x" (some e)) := by
  have name : IsName "x" := .of_all rfl (by decide) (by decide) (by decide)
  obtain ⟨to_name, at_name⟩ := skipLayout_to_suffix (t := "let".toList) (a := [' ']) (x := 'x')
    (k := " = ".toList ++ t) gap_blank (by decide) comes
  obtain ⟨to_sign, at_sign⟩ := skipLayout_to_suffix (t := "let x".toList) (a := [' ']) (x := '=')
    (k := ' ' :: t) gap_blank (by decide) comes
  -- The tokens before the expression, each behind the blanks before it.
  have word : Finds .spaced (.once (.lit "let")) c (some (.nothing (c.after "let".toList))) :=
    finds_text comes
  obtain ⟨n, -, text, ident⟩ := finds_identifier name (k := " = ".toList ++ t) (by
    intro x mem
    cases mem
    decide) at_name
  have behind_name : (c.after ("let".toList ++ [' '])).after "x".toList = c.after "let x".toList :=
    Cursor.after_after ..
  rw [behind_name, ← to_name] at ident
  have sign : Finds .spaced (.once (.lit "=")) (c.after ("let x".toList ++ [' ']))
      (some (.nothing ((c.after ("let x".toList ++ [' '])).after ['=']))) := finds_text at_sign
  have to_value : skipLayout ((c.after ("let x".toList ++ [' '])).after ['=']) =
      skipLayout (c.after "let x = ".toList) := by
    have blank : Layout [' '] t := (Filler.blank rfl).layout
    rw [blank.skip (Cursor.rest_after (t := ['=']) at_sign), Cursor.after_after, Cursor.after_after]
    rfl
  rw [← to_value] at found
  have initial : Finds .spaced (.once (.opt (.seq (.lit "=") (.rule .expression))))
      (skipLayout (c.after "let x".toList)) _ := .present (to_sign ▸ sign.both found)
  refine ⟨_, finds_rule (r := .declareStmt) rfl (word.both (ident.both initial)), fun e built => ?_⟩
  rw [Found.before, Found.before, Found.before]
  simp only [Found.nothing, List.cons_append, List.nil_append]
  rw [buildStmt, buildOption, built, text]
  rfl

/-- Of the statements, only a declaration is found there. -/
theorem finds_declaration (ends : (skipLayout d).rest = []) : ∃ n : Node, n.rule = .statement ∧
    Finds .spaced (.once (.rule .statement)) c (some ⟨skipLayout d, [n]⟩) ∧
      ∀ e, buildExpr value = .ok e → buildStmt n = .ok (.declare c.line "x" (some e)) := by
  have keyword : c.rest = "let".toList ++ (' ' :: ("x = ".toList ++ t)) := comes
  have begins : c.rest = 'l' :: ("et x = ".toList ++ t) := comes
  obtain ⟨n, declared, built⟩ := finds_declareStmt comes found
  have fail : ∀ q ∈ [Pattern.rule .assignStmt, .rule .block, .rule .exprStmt],
      Finds .spaced (.once q) c none := by
    intro q mem
    simp only [List.mem_cons, List.not_mem_nil, or_false] at mem
    rcases mem with rfl | rfl | rfl
    · exact .rule_fails (.stuck (.rule_fails (.stuck (let_is_no_name keyword))))
    · exact fails_of_avoids (by decide) _ (by decide) begins
    · exact .rule_fails (let_is_no_expression keyword)
  have no_semicolon : Finds .spaced (.once (.opt (.lit ";"))) (Spacing.spaced.skip d)
      (some (.nothing (skipLayout d))) := by
    refine .absent (fails_text fun k' other => ?_)
    change (skipLayout d).rest = _ at other
    rw [ends] at other
    cases other
  have whole := (choice_of_fails _ [.rule .returnStmt, .rule .ifStmt, .rule .whileStmt,
    .rule .forStmt, .rule .tryStmt, .rule .throwStmt, .rule .breakStmt, .rule .continueStmt]
    fail declared).both no_semicolon
  exact ⟨_, rfl, finds_rule (r := .statement) rfl whole, built⟩

end

theorem parse_declared {value : Node}
    (found : Finds .spaced (.once (.rule .expression))
      (skipLayout ((Cursor.start ("let x = ".toList ++ t)).after "let x = ".toList))
      (some ⟨d, [value]⟩))
    (ends : (skipLayout d).rest = []) (built : buildExpr value = .ok e) :
    parse ("let x = " ++ String.ofList t) = .ok ⟨[], [.declare 1 "x" (some e)]⟩ := by
  have source : ("let x = " ++ String.ofList t).toList = "let x = ".toList ++ t := by
    simp
  have begins : (Cursor.start ("let x = ".toList ++ t)).rest = 'l' :: ("et x = ".toList ++ t) := rfl
  have settled := Cursor.settled_of_next (by decide) begins
  obtain ⟨n, rule, statement, declares⟩ := finds_declaration rfl found ends
  refine parse_statement (d := skipLayout d) ?_ ?_ ends rule (declares e built)
  · rw [source, settled.skip]
    exact fails_of_avoids (by decide) _ (by decide) begins
  · rw [source, settled.skip]
    exact statement

theorem Writes.whole (h : Writes (.expr .disjunction e) t) (comes : c.rest = t) :
    ∃ d value, Finds .spaced (.once (.rule .expression)) (skipLayout c) (some ⟨d, [value]⟩) ∧
      (skipLayout d).rest = [] ∧ value.Gives e := by
  have starts : Starts .disjunction t := h.begins
  have comes : c.rest = t ++ [] := by rw [comes, List.append_nil]
  have ends : (c.after t).rest = [] := Cursor.rest_after comes
  have settled : (c.after t).Settled := Cursor.settled_of_head (by simp [ends])
  obtain ⟨d, value, found, -, at_end, gives⟩ :=
    (h.read comes).whole starts comes (follows_end ends)
  rw [← (starts.settled comes).skip] at found
  exact ⟨d, value, found, by rw [at_end, settled.skip, ends], gives⟩

theorem parse_declaration (h : Writes (.expr .disjunction e) t) :
    ∃ e', parse ("let x = " ++ String.ofList t) = .ok ⟨[], [.declare 1 "x" (some e')]⟩ ∧
      e'.withoutLines = e.withoutLines := by
  obtain ⟨d, value, found, ends, f, built, same⟩ := h.whole
    (c := (Cursor.start ("let x = ".toList ++ t)).after "let x = ".toList) (Cursor.rest_after rfl)
  exact ⟨f, parse_declared found ends built, same⟩

/-- An expression whose numbers are not negative, without a sign before a number and without a
keyword as a name, can be written with parentheses only where they are required, and with any
numerals. A declaration with that text, and with every other text that keeps operands together, is
read as the expression, but for the lines of calls. -/
theorem expression_round_trip (h : Writable e) :
    (∀ numeral, Numerals numeral → Writes (.expr .disjunction e) (written numeral e)) ∧
    ∀ t, Writes (.expr .disjunction e) t →
      ∃ e', parse ("let x = " ++ String.ofList t) = .ok ⟨[], [.declare 1 "x" (some e')]⟩ ∧
        e'.withoutLines = e.withoutLines :=
  ⟨fun _ numerals => (h.writes numerals).loosest, fun _ writes => parse_declaration writes⟩

/-- A comparison of a difference in which parentheses are required, with a negated call. -/
def mixed : Expr :=
  .binary .lt (.binary .sub (.ident "a") (.binary .sub (.ident "b") (.num (.ofNat 1))))
    (.unary .not (.call (.member (.ident "c") "d") [.null] 1))

/-- Parentheses keep a right operand of the same level together, and a prefix takes a whole chain
of suffixes. The same expression is read from the text in which every number has all its digits. -/
theorem expression_round_trip_mixed :
    Writable mixed ∧
    (∃ e', parse "let x = a - (b - 1) < !c.d(null)" = .ok ⟨[], [.declare 1 "x" (some e')]⟩ ∧
      e'.withoutLines = .binary .lt
        (.binary .sub (.ident "a") (.binary .sub (.ident "b") (.num (.ofNat 1))))
        (.unary .not (.call (.member (.ident "c") "d") [.null] 0))) ∧
    Numerals Number.digits ∧
    ∃ e', parse ("let x = " ++ String.ofList (written Number.digits mixed)) =
        .ok ⟨[], [.declare 1 "x" (some e')]⟩ ∧ e'.withoutLines = mixed.withoutLines := by
  have a : IsName "a" := .of_all rfl (by decide) (by decide) (by decide)
  have b : IsName "b" := .of_all rfl (by decide) (by decide) (by decide)
  have c : IsName "c" := .of_all rfl (by decide) (by decide) (by decide)
  have d : IsName "d" := .of_all rfl (by decide) (by decide) (by decide)
  have one : Numeral ['1'] := .mk (d := ['1']) ⟨by decide, List.all_eq_true.mp rfl⟩ .none .none
  have value : Number.ofText? (String.ofList ['1']) = some (.ofNat 1) := by decide +kernel
  have writable : Writable mixed :=
    .operator (.binary .lt) (.operator (.binary .sub) (.ident a)
      (.operator (.binary .sub) (.ident b) (.num rfl rfl)))
      (.not (.call (.member (.ident c) d) (by simp [Writable.null]) 1))
  have inner : Writes (.expr .sum (.binary .sub (.ident "b") (.num (.ofNat 1)))) "b - 1".toList :=
    .operator (.binary .sub) ((Writes.ident b).of_atom _) gap_blank gap_blank
      ((Writes.num one value).of_atom _)
  have left : Writes (.expr .sum (.binary .sub (.ident "a")
      (.binary .sub (.ident "b") (.num (.ofNat 1))))) "a - (b - 1)".toList :=
    .operator (.binary .sub) ((Writes.ident a).of_atom _) gap_blank gap_blank
      ((Writes.parens gap_nil inner.loosest gap_nil).of_atom _)
  have call : Writes (.expr .suffixed (.call (.member (.ident "c") "d") [.null] 1))
      "c.d(null)".toList :=
    .call (.member ((Writes.ident c).of_atom _) gap_nil gap_nil d) gap_nil gap_nil
      (.lastItem (Writes.null.of_atom _)) gap_nil 1
  have right : Writes (.expr .sum (.unary .not (.call (.member (.ident "c") "d") [.null] 1)))
      "!c.d(null)".toList := .tighter (.tighter (.not gap_nil (.tighter call)))
  have whole : Writes (.expr .comparison mixed) "a - (b - 1) < !c.d(null)".toList :=
    .operator (.binary .lt) (.tighter left) gap_blank gap_blank right
  have source : "let x = " ++ String.ofList "a - (b - 1) < !c.d(null)".toList =
      "let x = a - (b - 1) < !c.d(null)" := by decide +kernel
  obtain ⟨texts, reads⟩ := expression_round_trip writable
  have full := reads _ (texts Number.digits numerals_digits)
  obtain ⟨e', parsed, same⟩ := reads _ whole.loosest
  rw [source] at parsed
  refine ⟨writable, ⟨e', parsed, same.trans ?_⟩, numerals_digits, full⟩
  simp only [mixed, Expr.withoutLines, Expr.itemsWithoutLines]

end Script
end FrameScript
