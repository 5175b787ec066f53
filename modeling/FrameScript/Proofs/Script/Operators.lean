import FrameScript.Proofs.Script.Chains

/-!
# Levels of the grammar

Every level of expressions has its rule. Six of them are operands with operators between them,
one is an operand with suffixes, one is an operand behind prefixes. What is read at a level can go
on with what the level repeats; where nothing continues it, the rule of the level takes it whole.
-/

namespace FrameScript
namespace Script

variable {s : Spacing} {c d : Cursor} {e e' : Expr} {t u k : List Char} {ch : Char} {ℓ : Level}

/-- The pattern takes something, and nothing that begins with the character. -/
def Pattern.avoids (p : Pattern) (ch : Char) : Bool :=
  p.grounded && !p.nullable && !p.begins ch

theorem fails_of_avoids {p : Pattern} {x : Char} (avoids : p.avoids x) (s : Spacing)
    (plain : isBlank x = false ∧ x ≠ '/') (comes : c.rest = x :: k) :
    Finds s (.once p) c none := by
  simp only [Pattern.avoids, Bool.and_eq_true, Bool.not_eq_true'] at avoids
  obtain ⟨⟨grounded, taking⟩, other⟩ := avoids
  refine fails_of_begins grounded taking s (Cursor.settled_of_next plain comes) fun y mem => ?_
  rw [comes] at mem
  cases mem
  exact other

theorem Pattern.choice_cons (p : Pattern) {ps : List Pattern} (more : ps ≠ []) :
    choice (p :: ps) = .alt p (choice ps) := by
  cases ps with
  | nil => exact absurd rfl more
  | cons q rest => rfl

theorem choice_of_fails (before : List Pattern) {p : Pattern} (behind : List Pattern) {f : Found}
    (fail : ∀ q ∈ before, Finds s (.once q) c none) (h : Finds s (.once p) c (some f)) :
    Finds s (.once (.choice (before ++ p :: behind))) c (some f) := by
  induction before with
  | nil =>
    cases behind with
    | nil => exact h
    | cons q rest => exact .first h
  | cons q rest ih =>
    obtain ⟨first, others⟩ := List.forall_mem_cons.mp fail
    rw [List.cons_append, Pattern.choice_cons q (by simp)]
    exact .second first (ih others)

theorem choice_fails {ps : List Pattern} (fail : ∀ q ∈ ps, Finds s (.once q) c none) :
    Finds s (.once (.choice ps)) c none := by
  induction ps with
  | nil => exact .refused (finds_text (k := c.rest) rfl)
  | cons q rest ih =>
    obtain ⟨first, others⟩ := List.forall_mem_cons.mp fail
    cases rest with
    | nil => exact first
    | cons p rest => exact .second first (ih others)

/-- The characters that an expression of a level can begin with. -/
def Level.opens (ℓ : Level) (ch : Char) : Prop :=
  isWordChar ch ∨ ch ∈ ['"', '[', '\x7b', '('] ∨ ch ∈ ['!', '-'] ∧ ℓ ≠ .suffixed ∧ ℓ ≠ .atom

theorem Level.opens.of_tighter (h : ℓ.tighter.opens ch) : ℓ.opens ch := by
  rcases h with word | bracket | ⟨sign, suffixed, atom⟩
  · exact .inl word
  · exact .inr (.inl bracket)
  · refine .inr (.inr ⟨sign, ?_⟩)
    cases ℓ <;> simp [tighter] at suffixed atom ⊢

/-- The text begins an expression of the level. -/
def Starts (ℓ : Level) (t : List Char) : Prop := ∃ ch rest, t = ch :: rest ∧ ℓ.opens ch

theorem Starts.of_tighter (h : Starts ℓ.tighter t) : Starts ℓ t := by
  obtain ⟨ch, rest, comes, opens⟩ := h
  exact ⟨ch, rest, comes, opens.of_tighter⟩

theorem Starts.append (h : Starts ℓ t) (u : List Char) : Starts ℓ (t ++ u) := by
  obtain ⟨ch, rest, rfl, opens⟩ := h
  exact ⟨ch, rest ++ u, rfl, opens⟩

theorem starts_word {w : List Char} (filled : w ≠ []) (word : ∀ ch ∈ w, isWordChar ch)
    (ℓ : Level) : Starts ℓ w := by
  obtain ⟨ch, rest, rfl⟩ := List.exists_cons_of_ne_nil filled
  exact ⟨ch, rest, rfl, .inl (word ch List.mem_cons_self)⟩

theorem starts_bracket (bracket : ch ∈ ['"', '[', '\x7b', '(']) (t : List Char) (ℓ : Level) :
    Starts ℓ (ch :: t) := ⟨ch, t, rfl, .inr (.inl bracket)⟩

theorem starts_name {name : String} (h : IsName name) (ℓ : Level) : Starts ℓ name.toList := by
  obtain ⟨ch, rest, letters, -⟩ := h.begins
  exact starts_word (by simp [letters]) h.word ℓ

theorem starts_numeral (h : Numeral t) (ℓ : Level) : Starts ℓ t := by
  cases h with
  | mk digits fraction exponent =>
    refine (starts_word digits.filled (fun ch mem => ?_) ℓ).append _
    exact isWordChar_of_isDigit (digits.digits ch mem)

/-- The texts of a phrase that is not empty begin like an expression. -/
def Phrase.Begins : Phrase → List Char → Prop
  | expr ℓ _, t => Starts ℓ t
  | field _ _, t => Starts .disjunction t
  | items es, t => es = [] ∧ t = [] ∨ Starts .disjunction t
  | fields fs, t => fs = [] ∧ t = [] ∨ Starts .disjunction t

theorem Writes.begins {p : Phrase} (h : Writes p t) : p.Begins t := by
  induction h with
  | tighter _ ih => exact Starts.of_tighter ih
  | operator _ _ _ _ _ ih _ => exact Starts.append ih _
  | not _ _ _ => exact ⟨'!', _, rfl, .inr (.inr (by decide))⟩
  | neg _ _ _ _ => exact ⟨'-', _, rfl, .inr (.inr (by decide))⟩
  | member _ _ _ _ ih => exact Starts.append ih _
  | index _ _ _ _ _ ih _ => exact Starts.append ih _
  | call _ _ _ _ _ _ ih _ => exact Starts.append ih _
  | null => exact starts_word (by decide) (List.all_eq_true.mp rfl) _
  | bool b => cases b <;> exact starts_word (by decide) (List.all_eq_true.mp rfl) _
  | num h _ => exact starts_numeral h _
  | str _ => exact starts_bracket (by decide) _ _
  | ident word => exact starts_name word _
  | list _ _ _ _ => exact starts_bracket (by decide) _ _
  | object _ _ _ _ => exact starts_bracket (by decide) _ _
  | parens _ _ _ _ => exact starts_bracket (by decide) _ _
  | field word _ _ _ _ =>
    cases word with
    | name word => exact (starts_name word _).append _
    | quoted _ => exact starts_bracket (by decide) _ _
  | noItems => exact .inl ⟨rfl, rfl⟩
  | noFields => exact .inl ⟨rfl, rfl⟩
  | lastItem _ ih | lastField _ ih => exact .inr ih
  | items _ _ _ _ ih _ | fields _ _ _ _ ih _ => exact .inr (Starts.append ih _)

theorem Level.opens.not_mem (h : isBlank ch ∨ ℓ.opens ch) : ch ∉ ['=', '/', '*', '.', ','] := by
  intro mem
  simp only [List.mem_cons, List.not_mem_nil, or_false] at mem
  simp only [isBlank, opens, Bool.or_eq_true, decide_eq_true_eq, List.mem_cons,
    List.not_mem_nil, or_false] at h
  rcases mem with rfl | rfl | rfl | rfl | rfl <;> simp [isWordChar] at h

theorem Level.opens.not_blank (h : ℓ.opens ch) : isBlank ch = false := by
  cases blank : isBlank ch with
  | false => rfl
  | true =>
    have word := isWordChar_of_blank blank
    simp only [isBlank, Bool.or_eq_true, decide_eq_true_eq] at blank
    rw [opens, word] at h
    rcases blank with ((rfl | rfl) | rfl) | rfl <;> simp at h

theorem Starts.next {b : List Char} (h : Starts ℓ u) (gap : Gap b) (k : List Char) :
    ∀ ch ∈ (b ++ (u ++ k)).head?, isBlank ch ∨ ℓ.opens ch := by
  obtain ⟨x, rest, rfl, opens⟩ := h
  intro ch mem
  cases b with
  | nil =>
    cases mem
    exact .inr opens
  | cons y others =>
    cases mem
    exact .inl (gap ch List.mem_cons_self)

theorem Starts.settled (h : Starts ℓ t) (comes : c.rest = t ++ k) : c.Settled := by
  obtain ⟨x, rest, rfl, opens⟩ := h
  refine Cursor.settled_of_next ⟨opens.not_blank, ?_⟩ comes
  rintro rfl
  exact Level.opens.not_mem (.inr opens) (by decide)

theorem Starts.skip {b : List Char} (h : Starts ℓ u) (gap : Gap b)
    (comes : c.rest = b ++ (u ++ k)) : skipLayout c = c.after b :=
  Cursor.skipLayout_gap gap comes (h.settled (Cursor.rest_after comes))

theorem Starts.behind {x : Char} {a : List Char} (h : Starts ℓ t) (gap : Gap a)
    (comes : c.rest = x :: (a ++ (t ++ k))) : skipLayout (c.after [x]) = c.after (x :: a) := by
  rw [h.skip gap (Cursor.rest_after (t := [x]) comes), Cursor.after_after]
  rfl

def Level.rule : Level → Rule
  | disjunction => .logicalOrExpr
  | conjunction => .logicalAndExpr
  | equality => .equalityExpr
  | comparison => .comparisonExpr
  | sum => .additiveExpr
  | product => .multiplicativeExpr
  | prefixed => .unaryExpr
  | suffixed => .callExpr
  | atom => .primary

/-- The operators of a level, in the order in which they are tried. -/
def Level.operators : Level → List Operator
  | disjunction => [.logical .or]
  | conjunction => [.logical .and]
  | equality => [.binary .eq, .binary .ne]
  | comparison => [.binary .lte, .binary .gte, .binary .lt, .binary .gt]
  | sum => [.binary .add, .binary .sub]
  | product => [.binary .mul, .binary .div, .binary .mod]
  | prefixed | suffixed | atom => []

def Operator.rule : Operator → Rule
  | logical .or => .opOr
  | logical .and => .opAnd
  | binary .eq => .opEq
  | binary .ne => .opNe
  | binary .lt => .opLt
  | binary .lte => .opLte
  | binary .gt => .opGt
  | binary .gte => .opGte
  | binary .add => .opAdd
  | binary .sub => .opSub
  | binary .mul => .opMul
  | binary .div => .opDiv
  | binary .mod => .opMod

/-- What can stand any number of times behind the first operand of a level. -/
def Level.body : Level → Pattern
  | suffixed => .choice [.rule .callSuffix, .rule .memberSuffix, .rule .indexSuffix]
  | ℓ => .seq (.choice (ℓ.operators.map fun o => .rule o.rule)) (.rule ℓ.tighter.rule)

/-- How a first operand is extended by the nodes behind it. -/
def Level.extend : Level → Expr → List Node → Parsed Expr
  | suffixed => buildSuffixes
  | _ => buildChain

/-- The level is an operand with repetitions behind it. -/
def Level.repeats (ℓ : Level) : Bool := ℓ != .prefixed && ℓ != .atom

theorem Level.spacing_rule (ℓ : Level) : ℓ.rule.spacing = none := by
  cases ℓ <;> rfl

theorem Level.extend_nil (ℓ : Level) (left : Expr) : ℓ.extend left [] = .ok left := by
  cases ℓ <;> rfl

namespace Operator

theorem spacing_rule (o : Operator) : o.rule.spacing = none := by
  rcases o with op | op <;> cases op <;> rfl

theorem pattern_rule (o : Operator) : o.rule.pattern = .text o.symbol.toList := by
  rcases o with op | op <;> cases op <;> rfl

theorem operator?_rule (o : Operator) : operator? o.rule = some o := by
  rcases o with op | op <;> cases op <;> rfl

theorem repeats_level (o : Operator) : o.level.repeats := by
  rcases o with op | op <;> cases op <;> rfl

theorem level_of_mem {o : Operator} (mem : o ∈ ℓ.operators) : o.level = ℓ := by
  cases ℓ <;> simp only [Level.operators, List.mem_cons, List.not_mem_nil, or_false] at mem
  all_goals rcases mem with rfl | rfl | rfl | rfl <;> rfl

theorem symbol_head (o : Operator) : ∃ ch rest, o.symbol.toList = ch :: rest ∧
    ch ∈ o.level.continuations ∧ ch ∉ o.level.tighter.continuations ∧ isBlank ch = false ∧
    isWordChar ch = false ∧ ch ≠ '.' := by
  rcases o with op | op <;> cases op <;> exact ⟨_, _, rfl, by decide⟩

theorem fails {o : Operator} (other : ∀ k, c.rest ≠ o.symbol.toList ++ k) :
    Finds .spaced (.once (.rule o.rule)) c none := by
  have inside : Finds (o.rule.spacing.getD .spaced) (.once o.rule.pattern) c none := by
    rw [o.pattern_rule]
    exact fails_text other
  exact inside.rule_fails

end Operator

section

variable (repeats : ℓ.repeats)

include repeats

theorem Level.pattern_rule : ℓ.rule.pattern = .seq (.rule ℓ.tighter.rule) (.many ℓ.body) := by
  cases ℓ <;> first | rfl | cases repeats

theorem Level.build_rule (start : Cursor) (length : Nat) (first : Node) (rest : List Node) :
    buildExpr (.mk ℓ.rule start length (first :: rest)) =
      (buildExpr first).bind (ℓ.extend · rest) := by
  cases ℓ <;> first | rfl | cases repeats

end

theorem Level.body_fails (ℓ : Level) (apart : ∀ ch ∈ c.rest.head?, ch ∉ ℓ.continuations) :
    Finds .spaced (.once ℓ.body) c none := by
  have operators : Finds .spaced (.once (.choice (ℓ.operators.map fun o => .rule o.rule))) c
      none := by
    refine choice_fails fun q mem => ?_
    obtain ⟨o, inside, rfl⟩ := List.mem_map.mp mem
    refine Operator.fails fun k comes => ?_
    obtain ⟨ch, rest, symbol, continues, -⟩ := o.symbol_head
    rw [Operator.level_of_mem inside] at continues
    refine apart ch ?_ continues
    rw [comes, symbol]
    rfl
  have suffix {x : Char} {r : Rule} {p : Pattern} (pattern : r.pattern = .seq (.text [x]) p)
      (continues : x ∈ Level.continuations .suffixed) :
      ℓ = .suffixed → Finds .spaced (.once (.rule r)) c none := by
    rintro rfl
    have inside : Finds (r.spacing.getD .spaced) (.once r.pattern) c none := by
      rw [pattern]
      refine .stuck (fails_text fun k comes => ?_)
      exact apart x (by rw [comes]; rfl) continues
    exact inside.rule_fails
  cases ℓ with
  | suffixed =>
    refine choice_fails fun q mem => ?_
    simp only [List.mem_cons, List.not_mem_nil, or_false] at mem
    rcases mem with rfl | rfl | rfl
    · exact suffix rfl (by decide) rfl
    · exact suffix rfl (by decide) rfl
    · exact suffix rfl (by decide) rfl
  | _ => exact .stuck operators

namespace Operator

variable (o : Operator)

/-- Where no equals sign follows a symbol, none that is tried before it comes next. -/
theorem tried_before (apart : ∀ ch ∈ k.head?, ch ≠ '=') : ∃ before behind,
    o.level.operators = before ++ o :: behind ∧
      ∀ o' ∈ before, ∀ k', o.symbol.toList ++ k ≠ o'.symbol.toList ++ k' := by
  have short {x : Char} {k' : List Char} : x :: k ≠ x :: '=' :: k' := by
    intro same
    exact apart '=' (by rw [(List.cons.inj same).2]; rfl) rfl
  rcases o with op | op
  · cases op with
    | eq => exact ⟨[], [.binary .ne], rfl, by simp⟩
    | ne => exact ⟨[.binary .eq], [], rfl, by simp [symbol]⟩
    | lte => exact ⟨[], [.binary .gte, .binary .lt, .binary .gt], rfl, by simp⟩
    | gte => exact ⟨[.binary .lte], [.binary .lt, .binary .gt], rfl, by simp [symbol]⟩
    | lt =>
      refine ⟨[.binary .lte, .binary .gte], [.binary .gt], rfl, ?_⟩
      simp only [List.forall_mem_cons]
      exact ⟨fun _ => short, by simp [symbol], by simp⟩
    | gt =>
      refine ⟨[.binary .lte, .binary .gte, .binary .lt], [], rfl, ?_⟩
      simp only [List.forall_mem_cons]
      exact ⟨by simp [symbol], fun _ => short, by simp [symbol], by simp⟩
    | add => exact ⟨[], [.binary .sub], rfl, by simp⟩
    | sub => exact ⟨[.binary .add], [], rfl, by simp [symbol]⟩
    | mul => exact ⟨[], [.binary .div, .binary .mod], rfl, by simp⟩
    | div => exact ⟨[.binary .mul], [.binary .mod], rfl, by simp [symbol]⟩
    | mod => exact ⟨[.binary .mul, .binary .div], [], rfl, by simp [symbol]⟩
  · cases op with
    | or | and => exact ⟨[], [], rfl, by simp⟩

theorem finds (comes : c.rest = o.symbol.toList ++ k) (apart : ∀ ch ∈ k.head?, ch ≠ '=') :
    ∃ n : Node, n.rule = o.rule ∧
      Finds .spaced (.once (.choice (o.level.operators.map fun o => .rule o.rule))) c
        (some ⟨c.after o.symbol.toList, [n]⟩) := by
  have own : Finds .spaced (.once o.rule.pattern) c
      (some (.nothing (c.after o.symbol.toList))) := by
    rw [o.pattern_rule]
    exact finds_text comes
  obtain ⟨before, behind, order, other⟩ := o.tried_before apart
  have found := choice_of_fails (before.map fun o => .rule o.rule)
    (behind.map fun o => .rule o.rule) ?_ (finds_rule o.spacing_rule own)
  · rw [← List.map_cons (f := fun o : Operator => Pattern.rule o.rule), ← List.map_append,
      ← order] at found
    exact ⟨_, rfl, found⟩
  · intro q mem
    obtain ⟨o', inside, rfl⟩ := List.mem_map.mp mem
    exact fails fun k' comes' => other o' inside k' (comes.symm.trans comes')

theorem withoutLines_apply (left right : Expr) :
    (o.apply left right).withoutLines = o.apply left.withoutLines right.withoutLines := by
  cases o <;> rfl

/-- Behind a symbol comes a blank or an operand, so a slash begins no comment. -/
theorem settled {b : List Char} (starts : Starts ℓ u) (behind : Gap b)
    (comes : c.rest = o.symbol.toList ++ (b ++ (u ++ k))) : c.Settled := by
  have next := starts.next behind k
  obtain ⟨ch, rest, symbol, -, -, black, -, -⟩ := o.symbol_head
  by_cases slash : ch = '/'
  · have division : o = .binary .div := by
      rcases o with op | op <;> cases op <;> simp_all [Operator.symbol]
    subst division
    refine Cursor.settled_slash comes fun x mem => ?_
    have plain := Level.opens.not_mem (next x mem)
    exact ⟨fun same => plain (by simp [same]), fun same => plain (by simp [same])⟩
  · rw [symbol, List.cons_append] at comes
    exact Cursor.settled_of_next ⟨black, slash⟩ comes

/-- What stands before an operator is complete at every tighter level. -/
theorem follows {a b : List Char} (starts : Starts ℓ u) (before : Gap a) (behind : Gap b)
    (comes : c.rest = a ++ (o.symbol.toList ++ (b ++ (u ++ k)))) : Follows o.level.tighter c := by
  have settled := o.settled starts behind (Cursor.rest_after comes)
  obtain ⟨ch, rest, symbol, -, apart, -, word, point⟩ := o.symbol_head
  rw [symbol, List.cons_append] at comes
  exact follows_of_next before comes settled word (fun same => absurd same point) apart

end Operator

theorem Leads.operator (o : Operator) {left right : Expr} {a b : List Char} {first : Rule}
    (h : Leads first o.level.body o.level.extend left t c)
    (operand : Reads o.level.tighter.rule right u (c.after (t ++ (a ++ (o.symbol.toList ++ b)))))
    (starts : Starts ℓ u) (before : Gap a) (behind : Gap b)
    (comes : c.rest = t ++ (a ++ (o.symbol.toList ++ (b ++ (u ++ k))))) :
    Leads first o.level.body o.level.extend (o.apply left right)
      (t ++ (a ++ (o.symbol.toList ++ (b ++ u)))) c := by
  have body : o.level.body = .seq (.choice (o.level.operators.map fun o => .rule o.rule))
      (.rule o.level.tighter.rule) := by
    rcases o with op | op <;> cases op <;> rfl
  have extend : o.level.extend = buildChain := by
    rcases o with op | op <;> cases op <;> rfl
  have behind_left := Cursor.rest_after comes
  have behind_gap := Cursor.rest_after behind_left
  have behind_symbol := Cursor.rest_after behind_gap
  have to_symbol := Cursor.skipLayout_gap before behind_left (o.settled starts behind behind_gap)
  have to_operand := starts.skip behind behind_symbol
  have apart : ∀ ch ∈ (b ++ (u ++ k)).head?, ch ≠ '=' := by
    intro ch mem same
    exact Level.opens.not_mem (starts.next behind k ch mem) (by simp [same])
  obtain ⟨n, rule, found⟩ := o.finds behind_gap apart
  obtain ⟨d, node, second, -, at_end, f, built, same⟩ := operand
  refine h.more ⟨d, [n, node], ?_, ?_, fun l same_left => ⟨o.apply l f, ?_, fun rest => ?_⟩⟩
  · have here : Spacing.spaced.skip (((c.after t).after a).after o.symbol.toList) =
        c.after (t ++ (a ++ (o.symbol.toList ++ b))) := by
      simp only [Cursor.after_after, List.append_assoc] at to_operand ⊢
      exact to_operand
    rw [body, to_symbol]
    exact found.both (here ▸ second)
  · simpa only [Cursor.after_after, List.append_assoc] using at_end
  · rw [o.withoutLines_apply, o.withoutLines_apply, same_left, same]
  · rw [extend, List.cons_append, List.cons_append, List.nil_append, buildChain, rule,
      o.operator?_rule]
    dsimp only
    rw [built]
    rfl

def signs : Pattern := .alt (.rule .opNot) (.rule .opNeg)

section

variable (unsigned : ∀ ch ∈ c.rest.head?, ch ≠ '!' ∧ ch ≠ '-')

include unsigned

theorem no_sign : Finds .spaced (.once signs) c none := by
  have other {x : Char} {s : Spacing} (apart : x = '!' ∨ x = '-') :
      Finds s (.once (.text [x])) c none := by
    refine fails_text fun k comes => ?_
    obtain ⟨no_not, no_neg⟩ := unsigned x (by rw [comes]; rfl)
    exact apart.elim no_not no_neg
  exact .second (.rule_fails (.stuck (other (.inl rfl)))) (.rule_fails (other (.inr rfl)))

theorem expression_fails (settled : c.Settled)
    (primary : Finds .spaced (.once (.rule .primary)) c none) :
    Finds .spaced (.once (.rule .expression)) c none := by
  have call : Finds .spaced (.once (.rule .callExpr)) (Spacing.spaced.skip c) none := by
    rw [Spacing.skip_of_settled _ settled]
    exact .rule_fails (.stuck primary)
  have product : Finds .spaced (.once (.rule .multiplicativeExpr)) c none :=
    .rule_fails (.stuck (.rule_fails ((Finds.never (no_sign unsigned)).second_fails call)))
  have comparison : Finds .spaced (.once (.rule .comparisonExpr)) c none :=
    .rule_fails (.stuck (.rule_fails (.stuck product)))
  have conjunction : Finds .spaced (.once (.rule .logicalAndExpr)) c none :=
    .rule_fails (.stuck (.rule_fails (.stuck comparison)))
  exact .rule_fails (.rule_fails (.stuck conjunction))

end

/-- The text is an operand behind prefixes. -/
def Prefixes (e : Expr) (t : List Char) (c : Cursor) : Prop :=
  ∃ (m d : Cursor) (before : List Node) (node : Node) (f : Expr),
    Finds .spaced (.again signs) c (some ⟨m, before⟩) ∧
    Finds .spaced (.once (.rule .callExpr)) (skipLayout m) (some ⟨d, [node]⟩) ∧
    skipLayout d = skipLayout (c.after t) ∧ f.withoutLines = e.withoutLines ∧
    ∀ line, buildPrefixed line (before ++ [node]) = .ok f

theorem again_of_skip {body : Pattern} {f : Found}
    (h : Finds .spaced (.again body) (skipLayout c) (some f)) :
    ∃ m, Finds .spaced (.again body) c (some ⟨m, f.nodes⟩) ∧
      skipLayout m = skipLayout f.cursor := by
  have same : Spacing.spaced.skip (skipLayout c) = Spacing.spaced.skip c :=
    Cursor.skipLayout_idem c
  generalize result : some f = found at h
  cases h with
  | more first others =>
    obtain ⟨g, rfl, rfl⟩ := Option.map_eq_some_iff.mp result.symm
    rw [same] at first
    exact ⟨_, .more first others, rfl⟩
  | enough last =>
    cases result
    rw [same] at last
    exact ⟨c, .enough last, (Cursor.skipLayout_idem c).symm⟩

theorem Reads.prefixes (h : Reads .callExpr e t c) (starts : Starts .suffixed t)
    (comes : c.rest = t ++ k) : Prefixes e t c := by
  obtain ⟨d, node, found, rule, behind, f, built, same⟩ := h
  have settled := starts.settled comes
  have none_here : Finds .spaced (.once signs) c none := by
    obtain ⟨x, rest, rfl, opens⟩ := starts
    refine no_sign fun ch mem => ?_
    rw [comes] at mem
    cases mem
    rcases opens with word | bracket | ⟨-, suffixed, -⟩
    · constructor <;> (rintro rfl; cases word)
    · constructor <;> (rintro rfl; revert bracket; decide)
    · exact absurd rfl suffixed
  have here : Spacing.spaced.skip c = c := settled.skip
  refine ⟨c, d, [], node, f, .enough (here.symm ▸ none_here), settled.skip.symm ▸ found, behind,
    same, fun line => ?_⟩
  obtain ⟨r, start, length, children⟩ := node
  obtain rfl : r = .callExpr := rule
  exact built

theorem Prefixes.sign {x : Char} {a : List Char} {n : Node} (h : Prefixes e t (c.after (x :: a)))
    (starts : Starts ℓ t) (gap : Gap a) (comes : c.rest = x :: (a ++ (t ++ k)))
    (plain : isBlank x = false ∧ x ≠ '/')
    (found : Finds .spaced (.once signs) c (some ⟨c.after [x], [n]⟩))
    (build : ∀ f : Expr, f.withoutLines = e.withoutLines → ∃ f' : Expr,
      f'.withoutLines = e'.withoutLines ∧ ∀ line nodes, buildPrefixed line nodes = .ok f →
        buildPrefixed line (n :: nodes) = .ok f') :
    Prefixes e' (x :: (a ++ t)) c := by
  obtain ⟨m, d, before, node, f, many, operand, behind, same, built⟩ := h
  obtain ⟨m', again, place⟩ := again_of_skip (starts.behind gap comes ▸ many)
  have settled : c.Settled := Cursor.settled_of_next plain comes
  have first : Finds .spaced (.once signs) (Spacing.spaced.skip c)
      (some ⟨c.after [x], [n]⟩) := by
    rw [Spacing.skip_of_settled _ settled]
    exact found
  obtain ⟨f', same', build'⟩ := build f same
  refine ⟨m', d, n :: before, node, f', first.more again, place ▸ operand, ?_, same',
    fun line => build' line _ (built line)⟩
  rw [behind, Cursor.after_after]
  rfl

theorem Prefixes.close (h : Prefixes e t c) (settled : c.Settled) : Reads .unaryExpr e t c := by
  obtain ⟨m, d, before, node, f, many, operand, behind, same, build⟩ := h
  obtain ⟨m', found, place⟩ := many_of_again many
  rw [settled.skip] at found
  have operand' : Finds .spaced (.once (.rule .callExpr)) (Spacing.spaced.skip m')
      (some ⟨d, [node]⟩) := by
    rw [← place] at operand
    exact operand
  exact ⟨d, _, finds_rule (r := .unaryExpr) rfl (found.both operand'), rfl, behind, f, build _,
    same⟩

theorem finds_neg (comes : c.rest = '-' :: k) : ∃ length,
    Finds .spaced (.once signs) c (some ⟨c.after ['-'], [.mk .opNeg c length []]⟩) := by
  have taken : Finds .spaced (.once (.lit "-")) c (some (.nothing (c.after ['-']))) :=
    finds_text (k := k) comes
  have no_not : Finds .spaced (.once (.rule .opNot)) c none :=
    .rule_fails (.stuck (fails_single comes (by decide)))
  exact ⟨_, .second no_not (.rule (r := .opNeg) taken)⟩

section

variable {a : List Char} (starts : Starts ℓ t) (gap : Gap a)

include starts gap

/-- Behind an exclamation mark comes no equals sign, which would make another operator of it. -/
theorem Prefixes.not (h : Prefixes e t (c.after ('!' :: a)))
    (comes : c.rest = '!' :: (a ++ (t ++ k))) :
    Prefixes (.unary .not e) ('!' :: (a ++ t)) c := by
  have taken : Finds .atomic (.once (.lit "!")) c (some (.nothing (c.after ['!']))) :=
    finds_text (k := a ++ (t ++ k)) comes
  have single : Finds .atomic (.once (.lit "=")) (c.after ['!']) none := by
    refine fails_text fun k' comes' => ?_
    rw [Cursor.rest_after (t := ['!']) comes] at comes'
    have next : '=' ∈ (a ++ (t ++ k)).head? := congrArg List.head? comes'
    exact Level.opens.not_mem (starts.next gap k '=' next) (by decide)
  have found : Finds .spaced (.once signs) c (some ⟨c.after ['!'], [.mk .opNot c _ []]⟩) :=
    .first (.rule (r := .opNot) (taken.both (.allowed single)))
  refine h.sign starts gap comes (by decide) found fun f same => ⟨.unary .not f, ?_, ?_⟩
  · rw [Expr.withoutLines, Expr.withoutLines, same]
  · intro line nodes built
    rw [buildPrefixed, built]
    rfl

/-- A sign before anything but a number is kept. -/
theorem Prefixes.neg (h : Prefixes e t (c.after ('-' :: a))) (unsigned : ∀ x, e ≠ .num x)
    (comes : c.rest = '-' :: (a ++ (t ++ k))) :
    Prefixes (.unary .neg e) ('-' :: (a ++ t)) c := by
  obtain ⟨length, found⟩ := finds_neg comes
  refine h.sign starts gap comes (by decide) found fun f same => ⟨.unary .neg f, ?_, ?_⟩
  · rw [Expr.withoutLines, Expr.withoutLines, same]
  · intro line nodes built
    rw [buildPrefixed, built]
    cases f with
    | num x =>
      refine absurd ?_ (unsigned x)
      cases e <;> simp_all [Expr.withoutLines]
    | _ => rfl

end

/-- The text is read as an expression of the level, and what the level repeats can follow. -/
def ReadsOpen : Level → Expr → List Char → Cursor → Prop
  | .prefixed, e, t, c => Prefixes e t c
  | .atom, e, t, c => Reads .primary e t c
  | ℓ, e, t, c => Leads ℓ.tighter.rule ℓ.body ℓ.extend e t c

theorem readsOpen_of_repeats (repeats : ℓ.repeats) :
    ReadsOpen ℓ e t c = Leads ℓ.tighter.rule ℓ.body ℓ.extend e t c := by
  cases ℓ <;> first | rfl | cases repeats

/-- What the rule of the next level takes is an expression of the level. -/
theorem Reads.open (h : Reads ℓ.tighter.rule e t c) (starts : Starts ℓ.tighter t)
    (comes : c.rest = t ++ k) : ReadsOpen ℓ e t c := by
  cases ℓ with
  | prefixed => exact h.prefixes starts comes
  | atom => exact h
  | _ => exact h.leads

theorem Leads.reads (repeats : ℓ.repeats) (h : Leads ℓ.tighter.rule ℓ.body ℓ.extend e t c)
    (apart : ∀ ch ∈ (skipLayout (c.after t)).rest.head?, ch ∉ ℓ.continuations) :
    Reads ℓ.rule e t c := by
  obtain ⟨d, node, more, found, behind, f, built, same⟩ :=
    h.close (ℓ.body_fails apart) ℓ.extend_nil
  rw [← Level.pattern_rule repeats] at found
  exact ⟨d, _, finds_rule ℓ.spacing_rule found, rfl, behind, f,
    (Level.build_rule repeats ..).trans built, same⟩

/-- Where nothing continues the expression, the rule of the level takes the text. -/
theorem ReadsOpen.close (h : ReadsOpen ℓ e t c) (starts : Starts ℓ t) (comes : c.rest = t ++ k)
    (follows : Follows ℓ (c.after t)) : Reads ℓ.rule e t c := by
  cases repeats : ℓ.repeats with
  | true =>
    rw [readsOpen_of_repeats repeats] at h
    exact h.reads repeats follows.apart
  | false =>
    cases ℓ with
    | prefixed => exact Prefixes.close h (starts.settled comes)
    | atom => exact h
    | _ => cases repeats

end Script
end FrameScript
