import FrameScript.Proofs.Script.Lexemes

/-!
# What is tried before an expression

A function declaration, an assignment and a block are tried before an expression, and each of them
can begin like one. Where a function declaration or an assignment is found, an expression ends
early: before the body of the function, and before the sign of the assignment. A block and an
expression begin at the same place only with braces around nothing.
-/

namespace FrameScript
namespace Script

variable {c d e : Cursor} {p q body : Pattern} {f g : Found} {t k : List Char} {ch : Char}
  {name : String} {ℓ : Level}

theorem Finds.within {r : Rule} (h : Finds .spaced (.once (.rule r)) c (some f))
    (spacing : r.spacing = none) : ∃ g, Finds .spaced (.once r.pattern) c (some g) ∧
      f = ⟨g.cursor, [.mk r c (g.cursor.position - c.position) g.nodes]⟩ := by
  obtain ⟨g, inside, same⟩ := h.of_rule
  rw [spacing] at inside
  exact ⟨g, inside, same⟩

/-- The pattern is found, and ends at this place, up to layout. -/
def Reaches (p : Pattern) (c d : Cursor) : Prop :=
  ∃ f, Finds .spaced (.once p) c (some f) ∧ skipLayout f.cursor = skipLayout d

theorem Reaches.ends (h : Reaches p c d) (found : Finds .spaced (.once p) c (some f)) :
    skipLayout f.cursor = skipLayout d := by
  obtain ⟨g, other, ends⟩ := h
  cases found.unique other
  exact ends

theorem Reaches.rule {r : Rule} (spacing : r.spacing = none) (h : Reaches r.pattern c d) :
    Reaches (.rule r) c d := by
  obtain ⟨f, found, ends⟩ := h
  exact ⟨_, finds_rule spacing found, ends⟩

theorem Reaches.seq (h : Reaches p c d) (h' : Reaches q (skipLayout d) e) :
    Reaches (.seq p q) c e := by
  obtain ⟨f, found, ends⟩ := h
  obtain ⟨g, found', ends'⟩ := h'
  rw [← ends] at found'
  exact ⟨_, found.both found', ends'⟩

theorem Reaches.alone (h : Reaches p c d) (stops : Finds .spaced (.once body) (skipLayout d) none) :
    Reaches (.seq p (.many body)) c d :=
  h.seq ⟨_, .never stops, Cursor.skipLayout_idem d⟩

/-- Nothing continues an expression that ends here. -/
def Stops (d : Cursor) : Prop :=
  ∀ ℓ : Level, ℓ.repeats → Finds .spaced (.once ℓ.body) (skipLayout d) none

theorem stops_of_end (ends : (skipLayout d).rest = []) : Stops d := by
  intro ℓ _
  apply ℓ.body_fails
  simp [ends]

theorem stops_of_apart (next : (skipLayout d).rest = ch :: k)
    (apart : ch ∉ Level.continuations .disjunction) : Stops d := by
  intro ℓ _
  have loosest : ℓ.continuations ⊆ Level.continuations .disjunction := by cases ℓ <;> decide
  refine ℓ.body_fails fun x mem inside => apart ?_
  rw [next] at mem
  cases mem
  exact loosest inside

theorem stops_of_sign (next : (skipLayout d).rest = '=' :: k) (single : '=' ∉ k.head?) :
    Stops d := by
  intro ℓ _
  by_cases suffixed : ℓ = .suffixed
  · subst suffixed
    refine Level.body_fails .suffixed fun x mem => ?_
    rw [next] at mem
    cases mem
    decide
  · have body : ℓ.body = .seq (.choice (ℓ.operators.map fun o => .rule o.rule))
        (.rule ℓ.tighter.rule) := by
      cases ℓ <;> first | rfl | exact absurd rfl suffixed
    rw [body]
    refine .stuck (choice_fails fun q mem => ?_)
    obtain ⟨o, -, rfl⟩ := List.mem_map.mp mem
    refine Operator.fails fun k' comes => single ?_
    rw [next] at comes
    rcases o with op | op <;> cases op <;> cases comes
    rfl

theorem Reaches.level (h : Reaches (.rule ℓ.tighter.rule) c d) (repeats : ℓ.repeats)
    (stops : Stops d) : Reaches (.rule ℓ.rule) c d := by
  have whole := h.alone (stops ℓ repeats)
  rw [← Level.pattern_rule repeats] at whole
  exact whole.rule ℓ.spacing_rule

section

variable (settled : c.Settled) (unsigned : ∀ ch ∈ c.rest.head?, ch ≠ '!' ∧ ch ≠ '-')
  (stops : Stops d)

include settled unsigned stops

theorem Reaches.expression (h : Reaches (.rule .callExpr) c d) :
    Reaches (.rule .expression) c d := by
  have signless : Reaches (.many signs) c c := ⟨_, .never (no_sign unsigned), rfl⟩
  rw [← settled.skip] at h
  have unary : Reaches (.rule .unaryExpr) c d := (signless.seq h).rule rfl
  have comparison : Reaches (.rule .comparisonExpr) c d :=
    ((unary.level (ℓ := .product) rfl stops).level (ℓ := .sum) rfl stops).level (ℓ := .comparison)
      rfl stops
  have conjunction : Reaches (.rule .logicalAndExpr) c d :=
    (comparison.level (ℓ := .equality) rfl stops).level (ℓ := .conjunction) rfl stops
  exact (conjunction.level (ℓ := .disjunction) rfl stops).rule rfl

theorem Reaches.operand (h : Reaches (.rule .primary) c d) : Reaches (.rule .expression) c d :=
  (h.level (ℓ := .suffixed) rfl stops).expression settled unsigned stops

end

namespace NameAt

variable (h : NameAt c name)

include h

theorem head : ∃ ch rest, c.rest = ch :: rest ∧ isWordChar ch := by
  obtain ⟨isName, k, comes, -⟩ := h
  obtain ⟨ch, rest, letters, -⟩ := isName.begins
  exact ⟨ch, rest ++ k, by rw [comes, letters]; rfl, isName.word ch (by simp [letters])⟩

theorem settled : c.Settled := by
  obtain ⟨isName, k, comes, -⟩ := h
  exact (starts_name isName .atom).settled comes

theorem unsigned : ∀ ch ∈ c.rest.head?, ch ≠ '!' ∧ ch ≠ '-' := by
  obtain ⟨x, rest, comes, word⟩ := h.head
  intro ch mem
  rw [comes] at mem
  cases mem
  constructor <;> (rintro rfl; cases word)

theorem primary : Reaches (.rule .primary) c (c.after name.toList) := by
  obtain ⟨isName, k, comes, ends⟩ := h
  obtain ⟨d, n, found, -, behind, -⟩ := reads_ident isName ends comes
  exact ⟨_, found, behind⟩

theorem operand (stops : Stops (c.after name.toList)) :
    Reaches (.rule .expression) c (c.after name.toList) :=
  h.primary.operand h.settled h.unsigned stops

end NameAt

theorem string_operand (inside : Quotable t) (comes : c.rest = '"' :: (t ++ '"' :: k))
    (stops : Stops (c.after ('"' :: (t ++ ['"'])))) :
    Reaches (.rule .expression) c (c.after ('"' :: (t ++ ['"']))) := by
  obtain ⟨d, n, found, -, behind, -⟩ := reads_str inside comes
  refine Reaches.operand (Cursor.settled_of_next (by decide) comes) ?_ stops
    ⟨_, found, behind⟩
  intro ch mem
  rw [comes] at mem
  cases mem
  decide

def accesses : Pattern := .alt (.rule .memberSuffix) (.rule .indexSuffix)

theorem access_no_call (h : Finds .spaced (.once accesses) c (some f)) :
    Finds .spaced (.once (.rule .callSuffix)) c none := by
  by_cases opens : ∃ k, c.rest = '(' :: k
  · obtain ⟨k, comes⟩ := opens
    have none_here : Finds .spaced (.once accesses) c none :=
      fails_of_avoids (by decide) _ (by decide) comes
    cases h.unique none_here
  · exact .rule_fails (.stuck (fails_text fun k comes => opens ⟨k, comes⟩))

/-- Where no call follows them, they are the suffixes of the expression, too. -/
theorem suffixes_of_accesses (h : Finds .spaced (.again accesses) c (some f)) :
    Finds .spaced (.once (.rule .callSuffix)) (skipLayout f.cursor) none →
      Finds .spaced (.again (Level.body .suffixed)) c (some f) := by
  refine Finds.again_induction (fun c last no_call => ?_)
    (fun c g g' first others no_call => ?_) h
  · exact .enough (.second no_call last)
  · exact .more (.second (access_no_call first) first) (others no_call)

/-- Where an assignment is found, an expression ends before its sign. -/
theorem assignment_ends (h : Finds .spaced (.once (.rule .assignStmt)) c (some f)) :
    ∃ d k, Reaches (.rule .expression) c d ∧ (skipLayout d).rest = '=' :: k := by
  obtain ⟨_, statement, -⟩ := h.within rfl
  obtain ⟨_, _, target, others, -⟩ := statement.of_seq
  obtain ⟨_, _, sign, others, -⟩ := others.of_seq
  obtain ⟨_, _, single, -, -⟩ := others.of_seq
  obtain ⟨k, next, rfl⟩ := sign.of_text
  obtain ⟨_, named, rfl⟩ := target.within rfl
  obtain ⟨_, m, ident, more, rfl⟩ := named.of_seq
  obtain ⟨name, _, name_at, -, -, -, rfl⟩ := ident.name
  have next : (skipLayout m.cursor).rest = '=' :: k := next
  have no_call : Finds .spaced (.once (.rule .callSuffix)) (skipLayout m.cursor) none :=
    .rule_fails (.stuck (fails_single next (by decide)))
  have alone : '=' ∉ k.head? := by
    intro mem
    obtain ⟨rest, rfl⟩ := List.head?_eq_some_iff.mp mem
    have behind : ((skipLayout m.cursor).after ['=']).rest = '=' :: rest := Cursor.rest_after next
    have settled := Cursor.settled_of_next (by decide) behind
    have none_here : Finds .spaced (.once (.lit "="))
        (skipLayout ((skipLayout m.cursor).after ['='])) none := single.of_reject.1
    rw [settled.skip] at none_here
    cases none_here.unique (finds_text behind)
  have suffixes : Finds .spaced (.once (.many (Level.body .suffixed)))
      (skipLayout (c.after name.toList)) (some m) := by
    rcases more.of_many with ⟨_, _, first, again, rfl⟩ | ⟨last, rfl⟩
    · exact .many (.second (access_no_call first) first) (suffixes_of_accesses again no_call)
    · have here := Cursor.skipLayout_idem (c.after name.toList)
      exact .never (.second (here ▸ no_call) last)
  have call : Reaches (.rule .callExpr) c m.cursor :=
    (name_at.primary.seq ⟨m, suffixes, rfl⟩).rule rfl
  exact ⟨m.cursor, k,
    call.expression name_at.settled name_at.unsigned (stops_of_sign next alone), next⟩

/-- A repetition can begin wherever the layout before it ends in the same place. -/
theorem again_of_same (same : skipLayout c = skipLayout d)
    (h : Finds .spaced (.again body) c (some f)) :
    ∃ g, Finds .spaced (.again body) d (some g) ∧ skipLayout g.cursor = skipLayout f.cursor := by
  have here : Spacing.spaced.skip c = Spacing.spaced.skip d := same
  rcases h.of_again with ⟨g, g', first, others, rfl⟩ | ⟨last, rfl⟩
  · exact ⟨_, .more (here ▸ first) others, rfl⟩
  · exact ⟨_, .enough (here ▸ last), same.symm⟩

theorem again_of_many (h : Finds .spaced (.once (.many body)) (skipLayout c) (some f)) :
    ∃ g, Finds .spaced (.again body) c (some g) ∧ skipLayout g.cursor = skipLayout f.cursor := by
  rcases h.of_many with ⟨g, g', first, others, rfl⟩ | ⟨last, rfl⟩
  · exact ⟨_, .more first others, rfl⟩
  · exact ⟨_, .enough last, (Cursor.skipLayout_idem c).symm⟩

theorem arguments_of_names
    (h : Finds .spaced (.again (.seq (.lit ",") (.rule .identifier))) c (some f)) :
    (∃ k, (skipLayout f.cursor).rest = ')' :: k) →
      Stops c ∧ ∃ g, Finds .spaced (.again (.seq (.lit ",") (.rule .expression))) c (some g) ∧
        skipLayout g.cursor = skipLayout f.cursor := by
  refine Finds.again_induction (fun c last closing => ?_)
    (fun c g g' first others closing => ?_) h
  · obtain ⟨k, closing⟩ := closing
    exact ⟨stops_of_apart closing (by decide), _,
      .enough (.stuck (fails_single closing (by decide))), rfl⟩
  · obtain ⟨stops, m, more, ends⟩ := others closing
    obtain ⟨_, _, comma, ident, rfl⟩ := first.of_seq
    obtain ⟨k, next, rfl⟩ := comma.of_text
    obtain ⟨name, n, name_at, -, -, -, rfl⟩ := ident.name
    obtain ⟨x, argument, behind⟩ := name_at.operand stops
    obtain ⟨y, more', at_end⟩ := again_of_same (d := x.cursor) behind.symm more
    exact ⟨stops_of_apart next (by decide), _, .more (comma.both argument) more',
      at_end.trans ends⟩

/-- The parameters of a function are arguments of a call. -/
theorem arguments_of_params (h : Finds .spaced (.once (.rule .paramList)) c (some f))
    (closing : (skipLayout f.cursor).rest = ')' :: k) : Reaches (.rule .argList) c f.cursor := by
  obtain ⟨_, params, rfl⟩ := h.within rfl
  obtain ⟨_, m, ident, more, rfl⟩ := params.of_seq
  obtain ⟨name, n, name_at, -, -, -, rfl⟩ := ident.name
  obtain ⟨m', names, ends⟩ := again_of_many more
  obtain ⟨stops, g, others, at_names⟩ := arguments_of_names names ⟨k, by rw [ends]; exact closing⟩
  obtain ⟨x, first, behind⟩ := name_at.operand stops
  obtain ⟨y, others, at_others⟩ := again_of_same (d := x.cursor) behind.symm others
  obtain ⟨z, many, at_many⟩ := many_of_again others
  refine Reaches.rule rfl ⟨_, first.both many, ?_⟩
  exact at_many.trans (at_others.trans (at_names.trans ends))

theorem function_no_operand (comes : c.rest = "function".toList ++ k) (ends : EndsWord k) :
    Finds .spaced (.once (.rule .primary)) c none := by
  have begins : c.rest = 'f' :: ("unction".toList ++ k) := comes
  have keyword : ["true", "false"] ⊆ keywords := by decide
  have no_boolean : Finds .atomic (.once (.wholeWord (.choice (["true", "false"].map .lit)))) c
      none :=
    wholeWord_fails (by decide) (fun w mem => keywords_words w (keyword mem))
      (keywords_words "function" (by decide)) ends comes (by decide)
  refine .rule_fails (choice_fails fun q mem => ?_)
  simp only [List.mem_cons, List.not_mem_nil, or_false] at mem
  rcases mem with rfl | rfl | rfl
  · refine .rule_fails (choice_fails fun q mem => ?_)
    simp only [List.mem_cons, List.not_mem_nil, or_false] at mem
    rcases mem with rfl | rfl | rfl | rfl | rfl | rfl
    · exact fails_of_avoids (by decide) _ (by decide) begins
    · exact fails_of_avoids (by decide) _ (by decide) begins
    · exact .rule_fails no_boolean
    · exact fails_of_avoids (by decide) _ (by decide) begins
    · exact fails_of_avoids (by decide) _ (by decide) begins
    · exact fails_of_avoids (by decide) _ (by decide) begins
  · exact keyword_no_name (t := "function".toList) (by decide) ends comes
  · exact .stuck (fails_single begins (by decide))

theorem name_of_function {w : List Char} (filled : w ≠ []) (word : ∀ ch ∈ w, isWordChar ch)
    (ends : EndsWord k) (comes : c.rest = "function".toList ++ (w ++ k)) :
    NameAt c (String.ofList ("function".toList ++ w)) := by
  refine ⟨⟨⟨'f', "unction".toList ++ w, by rw [String.toList_ofList]; rfl, by decide⟩, ?_, ?_⟩, k,
    by simp [comes], ends⟩
  · rw [String.toList_ofList]
    exact List.forall_mem_append.mpr ⟨keywords_words "function" (by decide), word⟩
  · intro mem
    have whole : "function".toList ++ w =
        (String.ofList ("function".toList ++ w)).toList ++ [] := by
      simp only [String.toList_ofList, List.append_nil]
    have letters := keywords_apart mem (by decide) whole rfl
    rw [String.toList_ofList] at letters
    exact filled (List.append_right_eq_self.mp letters)

theorem Reaches.many (h : Reaches body c d)
    (stops : Finds .spaced (.once body) (skipLayout d) none) : Reaches (.many body) c d := by
  obtain ⟨f, found, ends⟩ := h
  rw [← ends] at stops
  exact ⟨_, .many found (.enough stops), ends⟩

theorem Reaches.text (comes : c.rest = t ++ k) : Reaches (.text t) c (c.after t) :=
  ⟨_, finds_text comes, rfl⟩

theorem call_of_params {m : Found} {l : List Char} (name_at : NameAt c name)
    (opening : (skipLayout (c.after name.toList)).rest = '(' :: k)
    (params : Finds .spaced (.once (.opt (.rule .paramList)))
      (skipLayout ((skipLayout (c.after name.toList)).after ['('])) (some m))
    (closing : (skipLayout m.cursor).rest = ')' :: l)
    (stops : Stops ((skipLayout m.cursor).after [')'])) :
    Reaches (.rule .expression) c ((skipLayout m.cursor).after [')']) := by
  have arguments : Reaches (.opt (.rule .argList))
      (skipLayout ((skipLayout (c.after name.toList)).after ['('])) m.cursor := by
    rcases params.of_opt with params | ⟨-, rfl⟩
    · obtain ⟨f, found, ends⟩ := arguments_of_params params closing
      exact ⟨f, .present found, ends⟩
    · rw [Found.nothing, Cursor.skipLayout_idem] at closing
      exact ⟨_, .absent (fails_of_avoids (by decide) _ (by decide) closing), rfl⟩
  have inside : Reaches (Rule.pattern .callSuffix) (skipLayout (c.after name.toList)) _ :=
    (Reaches.text (t := ['(']) opening).seq (arguments.seq (Reaches.text (t := [')']) closing))
  obtain ⟨f, found, ends⟩ := inside.rule (r := .callSuffix) rfl
  have suffix : Reaches (Level.body .suffixed) (skipLayout (c.after name.toList)) _ :=
    ⟨f, .first found, ends⟩
  have call : Reaches (.rule .callExpr) c ((skipLayout m.cursor).after [')']) :=
    (name_at.primary.seq (suffix.many (stops .suffixed rfl))).rule rfl
  exact call.expression name_at.settled name_at.unsigned stops

/-- Where a function is found, an expression ends before its body, or there is none. -/
theorem function_ends (h : Finds .spaced (.once (.rule .functionDecl)) c (some f)) :
    Finds .spaced (.once (.rule .expression)) c none ∨
      ∃ d k, Reaches (.rule .expression) c d ∧ (skipLayout d).rest = '\x7b' :: k := by
  obtain ⟨_, declaration, -⟩ := h.within rfl
  obtain ⟨_, _, keyword, others, -⟩ := declaration.of_seq
  obtain ⟨_, _, ident, others, -⟩ := others.of_seq
  obtain ⟨_, _, opening, others, -⟩ := others.of_seq
  obtain ⟨m, _, params, others, -⟩ := others.of_seq
  obtain ⟨_, _, closing, block, -⟩ := others.of_seq
  obtain ⟨t, comes, rfl⟩ := keyword.of_text
  obtain ⟨w, k, rfl, word, ends⟩ := exists_word t
  by_cases filled : w = []
  · subst filled
    have begins : c.rest = 'f' :: ("unction".toList ++ k) := comes
    exact .inl (expression_fails (by simp [begins]) (Cursor.settled_of_next (by decide) begins)
      (function_no_operand comes ends))
  · have name_at := name_of_function filled word ends comes
    -- The name of the function is the rest of the word.
    have behind : (c.after "function".toList).rest = w ++ k := Cursor.rest_after comes
    have same : skipLayout (c.after "function".toList) = c.after "function".toList :=
      ((starts_word filled word .atom).settled behind).skip
    obtain ⟨name, _, ⟨isName, k', comes', ends'⟩, -, -, -, rfl⟩ := ident.name
    have comes' : (skipLayout (c.after "function".toList)).rest = name.toList ++ k' := comes'
    rw [same, behind] at comes'
    have letters := word_unique word isName.word ends ends' comes'
    have at_name : (skipLayout (c.after "function".toList)).after name.toList =
        c.after (String.ofList ("function".toList ++ w)).toList := by
      rw [same, Cursor.after_after, ← letters]
      exact congrArg c.after String.toList_ofList.symm
    obtain ⟨l, opens, rfl⟩ := opening.of_text
    obtain ⟨_, closes, rfl⟩ := closing.of_text
    obtain ⟨_, body, -⟩ := block.within rfl
    obtain ⟨_, _, brace, -, -⟩ := body.of_seq
    obtain ⟨k'', brace, -⟩ := brace.of_text
    have opens : (skipLayout ((skipLayout (c.after "function".toList)).after name.toList)).rest =
        '(' :: l := opens
    have params : Finds .spaced (.once (.opt (.rule .paramList))) (skipLayout ((skipLayout
        ((skipLayout (c.after "function".toList)).after name.toList)).after ['(']))
        (some m) := params
    rw [at_name] at opens params
    exact .inr ⟨_, k'', call_of_params name_at opens params closes
      (stops_of_apart brace (by decide)), brace⟩

theorem finds_expression_statement (no_assign : Finds .spaced (.once (.rule .assignStmt)) c none)
    (no_block : Finds .spaced (.once (.rule .block)) c none)
    (found : Finds .spaced (.once (.rule .expression)) c (some f))
    (apart : ∀ k, (skipLayout f.cursor).rest ≠ ';' :: k) :
    Finds .spaced (.once (.rule .statement)) c (some ⟨skipLayout f.cursor,
      [.mk .statement c ((skipLayout f.cursor).position - c.position)
        [.mk .exprStmt c (f.cursor.position - c.position) f.nodes]]⟩) := by
  have value := finds_rule (r := .exprStmt) rfl found
  have no_semicolon : Finds .spaced (.once (.opt (.lit ";"))) (Spacing.spaced.skip f.cursor)
      (some (.nothing (skipLayout f.cursor))) := .absent (fails_text apart)
  have fail : ∀ q ∈ [Pattern.rule .assignStmt, .rule .block], Finds .spaced (.once q) c none := by
    simp only [List.forall_mem_cons]
    exact ⟨no_assign, no_block, by simp⟩
  exact finds_rule (r := .statement) rfl ((choice_of_fails _ [.rule .declareStmt,
    .rule .returnStmt, .rule .ifStmt, .rule .whileStmt, .rule .forStmt, .rule .tryStmt,
    .rule .throwStmt, .rule .breakStmt,
    .rule .continueStmt] fail value).both no_semicolon)

theorem key_operand
    (h : Finds .spaced (.once (.alt (.rule .identifier) (.rule .string))) c (some f))
    (next : (skipLayout f.cursor).rest = ':' :: k) :
    Reaches (.rule .expression) c f.cursor ∧ ∃ ch rest, c.rest = ch :: rest ∧
      (isWordChar ch ∨ ch = '"') := by
  have stops : Stops f.cursor := stops_of_apart next (by decide)
  rcases h.of_alt with ident | ⟨-, string⟩
  · obtain ⟨name, n, name_at, -, -, -, rfl⟩ := ident.name
    obtain ⟨ch, rest, comes, word⟩ := name_at.head
    exact ⟨name_at.operand stops, ch, rest, comes, .inl word⟩
  · obtain ⟨t, k, inside, comes, rfl⟩ := string.string
    exact ⟨string_operand inside comes stops, _, _, comes, .inr rfl⟩

/-- Braces around nothing come next. -/
def EmptyBraces (c : Cursor) : Prop :=
  ∃ k l, c.rest = '\x7b' :: k ∧ (skipLayout (c.after ['\x7b'])).rest = '\x7d' :: l

/-- Before a key and its colon, only the key is found as a statement. -/
theorem statements_before_colon
    (key : Finds .spaced (.once (.alt (.rule .identifier) (.rule .string))) c (some f))
    (next : (skipLayout f.cursor).rest = ':' :: k)
    (many : Finds .spaced (.once (.many (.rule .statement))) c (some g)) :
    (skipLayout g.cursor).rest = ':' :: k := by
  obtain ⟨⟨f', found, ends⟩, ch, rest, comes, begins⟩ := key_operand key next
  have no_assign : Finds .spaced (.once (.rule .assignStmt)) c none := by
    obtain ⟨assign, finds⟩ := exists_finds .spaced (p := .rule .assignStmt) rfl c
    cases assign with
    | none => exact finds
    | some a =>
      obtain ⟨d, k', reaches, sign⟩ := assignment_ends finds
      rw [← reaches.ends found, ends, next] at sign
      cases sign
  have no_block : Finds .spaced (.once (.rule .block)) c none := by
    refine .rule_fails (.stuck (fails_single comes ?_))
    rintro rfl
    rcases begins with word | quote
    · cases word
    · cases quote
  have statement := finds_expression_statement no_assign no_block found (by simp [ends, next])
  rcases many.of_many with ⟨_, _, first, others, rfl⟩ | ⟨none_here, -⟩
  · cases first.unique statement
    have here : skipLayout (skipLayout f'.cursor) = skipLayout f.cursor := by
      rw [Cursor.skipLayout_idem, ends]
    rcases others.of_again with ⟨_, _, another, -, -⟩ | ⟨-, rfl⟩
    · have fails : Finds .spaced (.once (.rule .statement)) (skipLayout f.cursor) none :=
        fails_of_avoids (by decide) _ (by decide) next
      cases another.unique (here ▸ fails)
    · exact (congrArg Cursor.rest here).trans next
  · cases none_here.unique statement

theorem object_of_expression (comes : c.rest = '\x7b' :: k)
    (found : Finds .spaced (.once (.rule .expression)) c (some f)) :
    ∃ g, Finds .spaced (.once (.rule .objectLit)) c (some g) := by
  obtain ⟨object, finds⟩ := exists_finds .spaced (p := .rule .objectLit) rfl c
  cases object with
  | some g => exact ⟨g, finds⟩
  | none =>
    have primary : Finds .spaced (.once (.rule .primary)) c none := by
      refine .rule_fails (choice_fails fun q mem => ?_)
      simp only [List.mem_cons, List.not_mem_nil, or_false] at mem
      rcases mem with rfl | rfl | rfl
      · refine .rule_fails (choice_fails fun q mem => ?_)
        simp only [List.mem_cons, List.not_mem_nil, or_false] at mem
        rcases mem with rfl | rfl | rfl | rfl | rfl | rfl <;>
          first | exact finds | exact fails_of_avoids (by decide) _ (by decide) comes
      · exact fails_of_avoids (by decide) _ (by decide) comes
      · exact .stuck (fails_single comes (by decide))
    have none_here := expression_fails (by simp [comes])
      (Cursor.settled_of_next (by decide) comes) primary
    cases found.unique none_here

/-- Both a block and an expression are found only where braces are around nothing. -/
theorem block_empty (h : Finds .spaced (.once (.rule .block)) c (some f))
    (found : Finds .spaced (.once (.rule .expression)) c (some g)) : EmptyBraces c := by
  obtain ⟨_, block, -⟩ := h.within rfl
  obtain ⟨_, body, brace, others, -⟩ := block.of_seq
  obtain ⟨statements, _, many, closing, -⟩ := others.of_seq
  obtain ⟨k, comes, rfl⟩ := brace.of_text
  obtain ⟨l, closes, rfl⟩ := closing.of_text
  obtain ⟨_, object⟩ := object_of_expression comes found
  obtain ⟨_, object, -⟩ := object.within rfl
  obtain ⟨_, _, brace, others, -⟩ := object.of_seq
  obtain ⟨_, _, properties, closing, -⟩ := others.of_seq
  obtain ⟨_, -, rfl⟩ := brace.of_text
  obtain ⟨l', closes', rfl⟩ := closing.of_text
  rcases properties.of_opt with properties | ⟨-, rfl⟩
  · obtain ⟨_, _, properties, -, -⟩ := properties.of_seq
    obtain ⟨_, _, property, -, -⟩ := properties.of_seq
    obtain ⟨_, property, -⟩ := property.within rfl
    obtain ⟨_, _, key, others, -⟩ := property.of_seq
    obtain ⟨_, _, colon, -, -⟩ := others.of_seq
    obtain ⟨_, next, -⟩ := colon.of_text
    have after := statements_before_colon key next many
    cases after.symm.trans closes
  · refine ⟨k, l', comes, ?_⟩
    have here := Cursor.skipLayout_idem (c.after ['\x7b'])
    exact (congrArg Cursor.rest here).symm.trans closes'

end Script
end FrameScript
