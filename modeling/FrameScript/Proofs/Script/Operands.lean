import FrameScript.Proofs.Script.Operators

/-!
# Operands

Literals, names, brackets with lists in them, and the suffixes of an operand. What stands in
brackets ends at the closing one, since neither an expression nor a list goes on with it.
-/

namespace FrameScript
namespace Script

variable {s : Spacing} {c d : Cursor} {e e' : Expr} {t u k : List Char} {ch : Char} {ℓ : Level}
  {n : Node} {nodes : List Node}

theorem finds_identifier {name : String} (h : IsName name) (ends : EndsWord k)
    (comes : c.rest = name.toList ++ k) :
    ∃ n : Node, n.rule = .identifier ∧ n.text = name ∧
      Finds .spaced (.once (.rule .identifier)) c (some ⟨c.after name.toList, [n]⟩) := by
  refine ⟨_, rfl, ?_, .rule (r := .identifier) (finds_name h ends comes)⟩
  rw [Found.nothing, Node.text_after _ comes, String.ofList_toList]

/-- The nodes below a string with this text between its quotes. -/
def Cursor.content (c : Cursor) (t : List Char) : List Node :=
  [.mk .stringContent (c.after ['"']) t.length []]

theorem finds_string (h : Quotable t) (comes : c.rest = '"' :: (t ++ '"' :: k)) :
    stringValue (c.content t) = String.ofList (unescape t) ∧
      Finds .spaced (.once (.rule .string)) c
        (some ⟨c.after ('"' :: (t ++ ['"'])), [.mk .string c (t.length + 2) (c.content t)]⟩) := by
  have opening : Finds .joined (.once (.lit "\"")) c (some (.nothing (c.after ['"']))) :=
    finds_text (k := t ++ '"' :: k) comes
  have inside : (c.after ['"']).rest = t ++ '"' :: k := Cursor.rest_after (t := ['"']) comes
  have content : Finds .joined (.once (.rule .stringContent)) (c.after ['"']) _ :=
    .rule (r := .stringContent) (finds_content h (.quote k) inside)
  have closing : Finds .joined (.once (.lit "\"")) ((c.after ['"']).after t)
      (some (.nothing (((c.after ['"']).after t).after ['"']))) :=
    finds_text (k := k) (Cursor.rest_after inside)
  have whole : ((c.after ['"']).after t).after ['"'] = c.after ('"' :: (t ++ ['"'])) := by
    rw [Cursor.after_after, Cursor.after_after]
    rfl
  rw [whole] at closing
  refine ⟨?_, ?_⟩
  · change String.ofList (unescape (Node.mk .stringContent (c.after ['"']) t.length []).text.toList)
      = _
    rw [Node.text, inside, List.take_left' rfl, String.toList_ofList]
  · have found := Finds.rule (s := .spaced) (r := .string) (opening.both (content.both closing))
    have length : (c.after ('"' :: (t ++ ['"']))).position - c.position = t.length + 2 := by
      rw [Cursor.after_position]
      simp
    have inner : ((c.after ['"']).after t).position - (c.after ['"']).position = t.length :=
      Cursor.after_position ..
    simp only [Option.map_some, Found.before, Found.nothing, Spacing.shown] at found
    rw [length, inner] at found
    exact found

/-- The kinds of literals, in the order in which they are tried. -/
def literals : List Rule := [.number, .string, .boolean, .nullLit, .arrayLit, .objectLit]

theorem finds_literal {r : Rule} {f : Found} (before behind : List Rule)
    (order : literals = before ++ r :: behind)
    (fail : ∀ q ∈ before, Finds .spaced (.once (.rule q)) c none)
    (found : Finds .spaced (.once (.rule r)) c (some f)) :
    ∃ length length', Finds .spaced (.once (.rule .primary)) c
      (some ⟨f.cursor, [.mk .primary c length [.mk .literal c length' f.nodes]]⟩) := by
  have literal : Finds .spaced (.once (Rule.pattern .literal)) c (some f) := by
    have pattern : Rule.pattern .literal =
        .choice (before.map Pattern.rule ++ .rule r :: behind.map Pattern.rule) := by
      rw [← List.map_cons, ← List.map_append, ← order]
      rfl
    rw [pattern]
    refine choice_of_fails _ _ (fun q mem => ?_) found
    obtain ⟨q, inside, rfl⟩ := List.mem_map.mp mem
    exact fail q inside
  exact ⟨_, _, finds_rule (r := .primary) rfl (.first (finds_rule rfl literal))⟩

theorem reads_literal {r : Rule} (before behind : List Rule)
    (order : literals = before ++ r :: behind)
    (fail : ∀ q ∈ before, Finds .spaced (.once (.rule q)) c none)
    (found : Finds .spaced (.once (.rule r)) c (some ⟨c.after t, [n]⟩)) (gives : n.Gives e) :
    Reads .primary e t c := by
  obtain ⟨_, _, operand⟩ := finds_literal before behind order fail found
  obtain ⟨f, built, same⟩ := gives
  exact ⟨c.after t, _, operand, rfl, rfl, f, built, same⟩

/-- Where nothing that is tried before a literal begins with the next character. -/
theorem literals_fail {before : List Rule} {x : Char}
    (avoid : before.all fun r => (Pattern.rule r).avoids x)
    (plain : isBlank x = false ∧ x ≠ '/') (comes : c.rest = x :: k) :
    ∀ r ∈ before, Finds .spaced (.once (.rule r)) c none :=
  fun r mem => fails_of_avoids (List.all_eq_true.mp avoid r mem) _ plain comes

theorem reads_null (ends : EndsWord k) (comes : c.rest = "null".toList ++ k) :
    Reads .primary .null "null".toList c := by
  have word : Finds .atomic (.once (.wholeWord (.choice (["null"].map .lit)))) c _ :=
    wholeWord_finds (by decide) ends comes (by simp) (by simp)
  exact reads_literal [.number, .string, .boolean] [.arrayLit, .objectLit] rfl
    (literals_fail (x := 'n') (by decide) (by decide) comes) (.rule (r := .nullLit) word)
    ⟨_, rfl, rfl⟩

theorem reads_bool (b : Bool) (ends : EndsWord k)
    (comes : c.rest = (if b then "true" else "false").toList ++ k) :
    Reads .primary (.bool b) (if b then "true" else "false").toList c := by
  have word : Finds .atomic (.once (.wholeWord (.choice (["true", "false"].map .lit)))) c _ :=
    wholeWord_finds (by decide) ends comes (by cases b <;> simp) (by cases b <;> simp)
  refine reads_literal [.number, .string] [.nullLit, .arrayLit, .objectLit] rfl ?_
    (.rule (r := .boolean) word) ⟨.bool b, ?_, rfl⟩
  · cases b with
    | true => exact literals_fail (x := 't') (by decide) (by decide) comes
    | false => exact literals_fail (x := 'f') (by decide) (by decide) comes
  · rw [buildExpr, Found.nothing, Node.text_after _ comes, String.ofList_toList]
    cases b <;> rfl

theorem reads_num {x : Number} (h : Numeral t) (value : Number.ofText? (String.ofList t) = some x)
    (ends : EndsNumeral k) (comes : c.rest = t ++ k) : Reads .primary (.num x) t c := by
  refine reads_literal [] _ rfl (by simp) (.rule (r := .number) (finds_numeral h ends comes))
    ⟨.num x, ?_, rfl⟩
  rw [buildExpr, Found.nothing, Node.text_after _ comes, value]

theorem reads_str (h : Quotable t) (comes : c.rest = '"' :: (t ++ '"' :: k)) :
    Reads .primary (.str (String.ofList (unescape t))) ('"' :: (t ++ ['"'])) c := by
  obtain ⟨value, found⟩ := finds_string h comes
  refine reads_literal [.number] _ rfl
    (literals_fail (x := '"') (by decide) (by decide) comes) found ⟨_, ?_, rfl⟩
  rw [buildExpr, value]

/-- The words of literals are keywords, so a name is none of them. -/
theorem name_not_word {name : String} (h : IsName name) (ws : List String)
    (keyword : ∀ w ∈ ws, w ∈ keywords) (ends : EndsWord k) (comes : c.rest = name.toList ++ k) :
    Finds .atomic (.once (.wholeWord (.choice (ws.map .lit)))) c none := by
  refine wholeWord_fails (by decide) (fun w mem => keywords_words w (keyword w mem)) h.word ends
    comes fun w mem same => h.free ?_
  rw [← String.toList_inj.mp same]
  exact keyword w mem

theorem not_isDigit_of_name (first : ch.isAlpha ∨ ch = '_') : ch.isDigit = false := by
  rcases first with alpha | rfl
  · delta Char.isAlpha Char.isUpper Char.isLower at alpha
    delta Char.isDigit
    grind
  · decide

theorem reads_ident {name : String} (h : IsName name) (ends : EndsWord k)
    (comes : c.rest = name.toList ++ k) : Reads .primary (.ident name) name.toList c := by
  obtain ⟨n, rule, text, found⟩ := finds_identifier h ends comes
  obtain ⟨x, rest, letters, first⟩ := h.begins
  have begins : c.rest = x :: (rest ++ k) := by rw [comes, letters]; rfl
  have digit := not_isDigit_of_name first
  have word := h.word x (by simp [letters])
  have text_fails {y : Char} {s : Spacing} (other : isWordChar y = false) :
      Finds s (.once (.text [y])) c none := by
    refine fails_single begins ?_
    rintro rfl
    rw [other] at word
    cases word
  have no_literal : Finds .spaced (.once (.rule .literal)) c none := by
    refine .rule_fails (choice_fails fun q mem => ?_)
    simp only [List.mem_cons, List.not_mem_nil, or_false] at mem
    rcases mem with rfl | rfl | rfl | rfl | rfl | rfl
    · refine .rule_fails (.stuck (digits_fail fun y mem => ?_))
      rw [begins] at mem
      cases mem
      exact digit
    · exact .rule_fails (.stuck (text_fails (by decide)))
    · exact .rule_fails (name_not_word h ["true", "false"] (by decide) ends comes)
    · exact .rule_fails (name_not_word h ["null"] (by decide) ends comes)
    · exact .rule_fails (.stuck (text_fails (by decide)))
    · exact .rule_fails (.stuck (text_fails (by decide)))
  have whole : Finds .spaced (.once (Rule.pattern .primary)) c
      (some ⟨c.after name.toList, [n]⟩) := .second no_literal (.first found)
  refine ⟨_, _, finds_rule (r := .primary) rfl whole, rfl, rfl, .ident name, ?_, rfl⟩
  obtain ⟨r, start, length, children⟩ := n
  obtain rfl : r = .identifier := rule
  change buildExpr (.mk .identifier start length children) = _
  rw [buildExpr, text]

section

variable {o x : Char} {a b : List Char}

theorem finds_enclosed {p : Pattern}
    (inside : ∃ d, Finds .spaced (.once p) (skipLayout (c.after [o])) (some ⟨d, nodes⟩) ∧
      skipLayout d = skipLayout (c.after (o :: (a ++ t))))
    (closing : Gap b) (plain : isBlank x = false ∧ x ≠ '/')
    (comes : c.rest = o :: (a ++ (t ++ (b ++ x :: k)))) :
    Finds .spaced (.once (.seq (.text [o]) (.seq p (.text [x])))) c
      (some ⟨c.after (o :: (a ++ (t ++ (b ++ [x])))), nodes⟩) := by
  obtain ⟨d, found, place⟩ := inside
  have behind : (c.after (o :: (a ++ t))).rest = b ++ x :: k :=
    Cursor.rest_after (by simpa using comes)
  have behind_gap : ((c.after (o :: (a ++ t))).after b).rest = x :: k := Cursor.rest_after behind
  have settled : ((c.after (o :: (a ++ t))).after b).Settled :=
    Cursor.settled_of_next plain behind_gap
  have to_closing := place.trans (Cursor.skipLayout_gap closing behind settled)
  have first : Finds .spaced (.once (.text [o])) c (some (.nothing (c.after [o]))) :=
    finds_text (k := a ++ (t ++ (b ++ x :: k))) comes
  have last : Finds .spaced (.once (.text [x])) (Spacing.spaced.skip d)
      (some (.nothing (((c.after (o :: (a ++ t))).after b).after [x]))) := by
    change Finds .spaced _ (skipLayout d) _
    rw [to_closing]
    exact finds_text behind_gap
  have whole := first.both (found.both last)
  simp only [Found.before, Found.nothing, List.nil_append, List.append_nil, Cursor.after_after,
    List.cons_append, List.append_assoc] at whole
  exact whole

theorem Reads.enclosed (h : Reads .expression e t (c.after (o :: a))) (starts : Starts ℓ t)
    (opening : Gap a) (comes : c.rest = o :: (a ++ (t ++ k))) :
    ∃ n : Node, n.Gives e ∧ ∃ d, Finds .spaced (.once (.rule .expression))
      (skipLayout (c.after [o])) (some ⟨d, [n]⟩) ∧
      skipLayout d = skipLayout (c.after (o :: (a ++ t))) := by
  obtain ⟨d, n, found, -, place, gives⟩ := h
  rw [starts.behind opening comes]
  exact ⟨n, gives, d, found, by rw [place, Cursor.after_after]; rfl⟩

end

/-- The text is a list of items with commas between them. -/
def Lists (item : Rule) (nodes : List Node) (t : List Char) (c : Cursor) : Prop :=
  ∃ (d m : Cursor) (first : Node) (more : List Node), nodes = first :: more ∧
    Finds .spaced (.once (.rule item)) c (some ⟨d, [first]⟩) ∧
    Finds .spaced (.again (.seq (.lit ",") (.rule item))) d (some ⟨m, more⟩) ∧
    skipLayout m = skipLayout (c.after t)

def NoComma (c : Cursor) : Prop := ∀ ch ∈ (skipLayout c).rest.head?, ch ≠ ','

theorem NoComma.fails (h : NoComma c) :
    Finds .spaced (.once (.lit ",")) (skipLayout c) none := by
  refine fails_text fun k' comes => h ',' ?_ rfl
  rw [comes]
  rfl

section

variable {item : Rule}

theorem Lists.one (found : Finds .spaced (.once (.rule item)) c (some ⟨d, [n]⟩))
    (at_end : skipLayout d = skipLayout (c.after t)) (last : NoComma (c.after t)) :
    Lists item [n] t c := by
  refine ⟨d, d, n, [], rfl, found, .enough (.stuck ?_), at_end⟩
  have fails := last.fails
  rw [← at_end] at fails
  exact fails

theorem Lists.cons {a b : List Char} (found : Finds .spaced (.once (.rule item)) c (some ⟨d, [n]⟩))
    (at_end : skipLayout d = skipLayout (c.after t)) (before : Gap a) (behind : Gap b)
    (starts : Starts ℓ u) (comes : c.rest = t ++ (a ++ (',' :: (b ++ (u ++ k)))))
    (others : Lists item nodes u (c.after (t ++ (a ++ (',' :: b))))) :
    Lists item (n :: nodes) (t ++ (a ++ (',' :: (b ++ u)))) c := by
  obtain ⟨d', m, first, more, rfl, found', again, place⟩ := others
  have behind_item := Cursor.rest_after comes
  have behind_gap := Cursor.rest_after behind_item
  have settled : ((c.after t).after a).Settled := Cursor.settled_of_next (by decide) behind_gap
  have to_comma := at_end.trans (Cursor.skipLayout_gap before behind_item settled)
  have to_item : skipLayout (((c.after t).after a).after [',']) =
      c.after (t ++ (a ++ (',' :: b))) := by
    rw [starts.behind behind behind_gap, Cursor.after_after, Cursor.after_after]
  have comma : Finds .spaced (.once (.lit ",")) (Spacing.spaced.skip d)
      (some (.nothing (((c.after t).after a).after [',']))) := by
    change Finds .spaced _ (skipLayout d) _
    rw [to_comma]
    exact finds_text (k := b ++ (u ++ k)) behind_gap
  rw [← to_item] at found'
  refine ⟨d, m, n, first :: more, rfl, found, (comma.both found').more again, ?_⟩
  rw [place, Cursor.after_after]
  simp only [List.append_assoc, List.cons_append]

theorem Lists.finds (h : Lists item nodes t c) :
    ∃ d, Finds .spaced (.once (.commaList (.rule item))) c (some ⟨d, nodes⟩) ∧
      skipLayout d = skipLayout (c.after t) := by
  obtain ⟨d, m, first, more, rfl, found, again, place⟩ := h
  obtain ⟨d', many, behind⟩ := many_of_again again
  exact ⟨d', found.both many, behind.trans place⟩

/-- The list between brackets; no comma follows it. -/
theorem Lists.optional (h : Lists item nodes t c) (last : NoComma (c.after t)) :
    ∃ d, Finds .spaced (.once (.opt (.seq (.commaList (.rule item)) (.opt (.lit ","))))) c
      (some ⟨d, nodes⟩) ∧ skipLayout d = skipLayout (c.after t) := by
  obtain ⟨d, found, place⟩ := h.finds
  have no_comma : Finds .spaced (.once (.opt (.lit ","))) (Spacing.spaced.skip d)
      (some (.nothing (skipLayout d))) := by
    refine .absent ?_
    have fails := last.fails
    rw [← place] at fails
    exact fails
  have whole := found.both no_comma
  simp only [Found.before, Found.nothing, List.append_nil] at whole
  exact ⟨_, .present whole, by rw [Cursor.skipLayout_idem, place]⟩

end

/-- Neither an expression nor a list goes on here. -/
structure Closes (c : Cursor) : Prop where
  follows : Follows .disjunction c
  last : NoComma c

def closers : List Char := [')', ']', '\x7d']

section

variable {x : Char} {b : List Char} (closer : x ∈ closers)

include closer

theorem closer_plain : isBlank x = false ∧ x ≠ '/' := by
  simp only [closers, List.mem_cons, List.not_mem_nil, or_false] at closer
  rcases closer with rfl | rfl | rfl <;> decide

theorem closes_of_closer (closing : Gap b) (comes : c.rest = b ++ x :: k) : Closes c := by
  have behind : (c.after b).rest = x :: k := Cursor.rest_after comes
  have settled : (c.after b).Settled := Cursor.settled_of_next (closer_plain closer) behind
  have other : isWordChar x = false ∧ x ≠ '.' ∧ x ∉ Level.continuations .disjunction ∧ x ≠ ',' := by
    simp only [closers, List.mem_cons, List.not_mem_nil, or_false] at closer
    rcases closer with rfl | rfl | rfl <;> decide
  obtain ⟨word, point, apart, comma⟩ := other
  refine ⟨follows_of_next closing comes settled word (fun same => absurd same point) apart, ?_⟩
  intro y mem
  rw [Cursor.skipLayout_gap closing comes settled, behind] at mem
  cases mem
  exact comma

end

/-- A list that may be empty. -/
def Listed (item : Rule) (nodes : List Node) (t : List Char) (c : Cursor) : Prop :=
  nodes = [] ∧ t = [] ∨ Lists item nodes t c ∧ Starts .disjunction t

theorem Listed.lists {item : Rule} (h : Listed item nodes t c) (starts : Starts ℓ t) :
    Lists item nodes t c := by
  rcases h with ⟨-, rfl⟩ | ⟨list, -⟩
  · obtain ⟨ch, rest, filled, -⟩ := starts
    cases filled
  · exact list

section

variable {o x : Char} {a b : List Char} {item : Rule} (opening : Gap a) (closing : Gap b)
  (closer : x ∈ closers)

include opening closing closer

theorem finds_nothing {p : Pattern} (avoids : p.avoids x)
    (comes : c.rest = o :: (a ++ (b ++ x :: k))) :
    ∃ d, Finds .spaced (.once (.opt p)) (skipLayout (c.after [o])) (some ⟨d, []⟩) ∧
      skipLayout d = skipLayout (c.after (o :: (a ++ []))) := by
  have inside : (c.after [o]).rest = (a ++ b) ++ x :: k := by
    rw [List.append_assoc]
    exact Cursor.rest_after (t := [o]) comes
  have behind : (c.after (o :: a)).rest = b ++ x :: k :=
    Cursor.rest_after (by rw [comes, List.cons_append])
  have gap : Gap (a ++ b) := fun ch mem => (List.mem_append.mp mem).elim (opening ch) (closing ch)
  have here : ((c.after [o]).after (a ++ b)).rest = x :: k := Cursor.rest_after inside
  have settled : ((c.after [o]).after (a ++ b)).Settled :=
    Cursor.settled_of_next (closer_plain closer) here
  have same : (c.after (o :: a)).after b = (c.after [o]).after (a ++ b) := by
    rw [Cursor.after_after, Cursor.after_after]
    rfl
  have to_closer := Cursor.skipLayout_gap gap inside settled
  have to_closer' := Cursor.skipLayout_gap closing behind (same ▸ settled)
  rw [to_closer, List.append_nil, to_closer', same]
  exact ⟨_, .absent (fails_of_avoids avoids _ (closer_plain closer) here), settled.skip⟩

theorem Listed.finds (h : Listed item nodes t (c.after (o :: a)))
    (avoids : (Pattern.seq (.commaList (.rule item)) (.opt (.lit ","))).avoids x)
    (comes : c.rest = o :: (a ++ (t ++ (b ++ x :: k)))) :
    Finds .spaced (.once (.seq (.text [o]) (.seq
      (.opt (.seq (.commaList (.rule item)) (.opt (.lit ",")))) (.text [x])))) c
      (some ⟨c.after (o :: (a ++ (t ++ (b ++ [x])))), nodes⟩) := by
  refine finds_enclosed ?_ closing (closer_plain closer) comes
  rcases h with ⟨rfl, rfl⟩ | ⟨list, starts⟩
  · exact finds_nothing opening closing closer avoids comes
  · have behind : ((c.after (o :: a)).after t).rest = b ++ x :: k :=
      Cursor.rest_after (Cursor.rest_after (by rw [comes, List.cons_append]))
    obtain ⟨d, found, place⟩ := list.optional (closes_of_closer closer closing behind).last
    rw [starts.behind opening comes]
    exact ⟨d, found, by rw [place, Cursor.after_after]; rfl⟩

end

/-- The nodes are read as the expressions, up to the lines of calls. -/
def GivesItems (nodes : List Node) (es : List Expr) : Prop :=
  ∃ fs, buildItems nodes = .ok fs ∧ Expr.itemsWithoutLines fs = Expr.itemsWithoutLines es

def GivesFields (nodes : List Node) (fs : List (String × Expr)) : Prop :=
  ∃ gs, buildFields nodes = .ok gs ∧ Expr.fieldsWithoutLines gs = Expr.fieldsWithoutLines fs

section

variable {a b : List Char} (opening : Gap a) (closing : Gap b)

include opening closing

theorem reads_list {es : List Expr} (h : Listed .expression nodes t (c.after ('[' :: a)))
    (gives : GivesItems nodes es) (comes : c.rest = '[' :: (a ++ (t ++ (b ++ ']' :: k)))) :
    Reads .primary (.list es) ('[' :: (a ++ (t ++ (b ++ [']'])))) c := by
  obtain ⟨fs, built, same⟩ := gives
  have found := h.finds opening closing (x := ']') (by decide) (by decide +kernel) comes
  refine reads_literal [.number, .string, .boolean, .nullLit] [.objectLit] rfl
    (literals_fail (by decide) (by decide) comes) (finds_rule (r := .arrayLit) rfl found)
    ⟨.list fs, ?_, ?_⟩
  · rw [buildExpr, built]
    rfl
  · rw [Expr.withoutLines, Expr.withoutLines, same]

theorem reads_object {fs : List (String × Expr)}
    (h : Listed .property nodes t (c.after ('\x7b' :: a))) (gives : GivesFields nodes fs)
    (comes : c.rest = '\x7b' :: (a ++ (t ++ (b ++ '\x7d' :: k)))) :
    Reads .primary (.object fs) ('\x7b' :: (a ++ (t ++ (b ++ ['\x7d'])))) c := by
  obtain ⟨gs, built, same⟩ := gives
  have found := h.finds opening closing (x := '\x7d') (by decide) (by decide) comes
  refine reads_literal [.number, .string, .boolean, .nullLit, .arrayLit] [] rfl
    (literals_fail (by decide) (by decide) comes) (finds_rule (r := .objectLit) rfl found)
    ⟨.object gs, ?_, ?_⟩
  · rw [buildExpr, built]
    rfl
  · rw [Expr.withoutLines, Expr.withoutLines, same]

theorem reads_parens (h : Reads .expression e t (c.after ('(' :: a))) (starts : Starts ℓ t)
    (comes : c.rest = '(' :: (a ++ (t ++ (b ++ ')' :: k)))) :
    Reads .primary e ('(' :: (a ++ (t ++ (b ++ [')'])))) c := by
  obtain ⟨n, ⟨f, built, same⟩, inside⟩ := h.enclosed starts opening comes
  have found := finds_enclosed inside closing (by decide) comes
  have no_literal : Finds .spaced (.once (.rule .literal)) c none :=
    fails_of_avoids (by decide) _ (by decide) comes
  have no_name : Finds .spaced (.once (.rule .identifier)) c none :=
    fails_of_avoids (by decide) _ (by decide) comes
  exact ⟨_, _, finds_rule (r := .primary) rfl (.second no_literal (.second no_name found)), rfl,
    rfl, f, built, same⟩

end

theorem Leads.suffix {first : Rule} {m : Cursor} {t' : List Char}
    (h : Leads first (Level.body .suffixed) buildSuffixes e t c)
    (found : Finds .spaced (.once (Level.body .suffixed)) (skipLayout (c.after t))
      (some ⟨m, [n]⟩)) (at_end : skipLayout m = skipLayout (c.after t'))
    (build : ∀ left : Expr, left.withoutLines = e.withoutLines → ∃ left' : Expr,
      left'.withoutLines = e'.withoutLines ∧ buildSuffix left n = .ok left') :
    Leads first (Level.body .suffixed) buildSuffixes e' t' c := by
  refine h.more ⟨m, [n], found, at_end, fun left same => ?_⟩
  obtain ⟨left', same', built⟩ := build left same
  refine ⟨left', same', fun rest => ?_⟩
  rw [List.cons_append, buildSuffixes, built]
  rfl

/-- The arguments of a call are under a node of their own, unless there are none. -/
theorem Listed.arguments {a b : List Char} {args : List Expr}
    (h : Listed .expression nodes t (c.after ('(' :: a))) (opening : Gap a) (closing : Gap b)
    (built : buildItems nodes = .ok args) (comes : c.rest = '(' :: (a ++ (t ++ (b ++ ')' :: k)))) :
    ∃ children : List Node,
      (∃ d, Finds .spaced (.once (.opt (.rule .argList))) (skipLayout (c.after ['(']))
        (some ⟨d, children⟩) ∧ skipLayout d = skipLayout (c.after ('(' :: (a ++ t)))) ∧
      ∀ left start length, buildSuffix left (.mk .callSuffix start length children) =
        .ok (.call left args start.line) := by
  rcases h with ⟨rfl, rfl⟩ | ⟨list, starts⟩
  · cases built
    exact ⟨[], finds_nothing opening closing (x := ')') (by decide) (by decide +kernel) comes,
      fun left start length => rfl⟩
  · obtain ⟨d, found, place⟩ := list.finds
    have node := finds_rule (r := .argList) rfl found
    rw [← starts.behind opening comes] at node
    refine ⟨_, ⟨d, .present node, ?_⟩, fun left start length => ?_⟩
    · rw [place, Cursor.after_after]
      rfl
    · rw [buildSuffix, built]
      rfl

theorem skipLayout_to_suffix {x : Char} {a : List Char} (before : Gap a)
    (plain : isBlank x = false ∧ x ≠ '/') (comes : c.rest = t ++ (a ++ x :: k)) :
    skipLayout (c.after t) = c.after (t ++ a) ∧ (c.after (t ++ a)).rest = x :: k := by
  have here : (c.after (t ++ a)).rest = x :: k := Cursor.rest_after (by simpa using comes)
  have settled : (c.after (t ++ a)).Settled := Cursor.settled_of_next plain here
  have to_suffix := Cursor.skipLayout_gap before (Cursor.rest_after comes)
    ((Cursor.after_after c t a).symm ▸ settled)
  rw [Cursor.after_after] at to_suffix
  exact ⟨to_suffix, here⟩

section

variable {first : Rule} {a b u d : List Char}
  (h : Leads first (Level.body .suffixed) buildSuffixes e t c) (before : Gap a) (opening : Gap b)

include h before opening

theorem Leads.member {name : String} (word : IsName name) (ends : EndsWord k)
    (comes : c.rest = t ++ (a ++ ('.' :: (b ++ (name.toList ++ k))))) :
    Leads first (Level.body .suffixed) buildSuffixes (.member e name)
      (t ++ (a ++ ('.' :: (b ++ name.toList)))) c := by
  obtain ⟨to_point, here⟩ := skipLayout_to_suffix before (by decide) comes
  have point : Finds .spaced (.once (.lit ".")) (c.after (t ++ a))
      (some (.nothing ((c.after (t ++ a)).after ['.']))) := finds_text here
  obtain ⟨n, -, text, found⟩ := finds_identifier word ends
    (c := (c.after (t ++ a)).after ('.' :: b)) (Cursor.rest_after (by rw [here, List.cons_append]))
  have at_end : ((c.after (t ++ a)).after ('.' :: b)).after name.toList =
      c.after (t ++ (a ++ ('.' :: (b ++ name.toList)))) := by
    simp only [Cursor.after_after, List.append_assoc, List.cons_append]
  rw [at_end, ← (starts_name word .atom).behind opening here] at found
  have no_call : Finds .spaced (.once (.rule .callSuffix)) (c.after (t ++ a)) none :=
    .rule_fails (.stuck (fails_single here (by decide)))
  have whole : Finds .spaced (.once (Level.body .suffixed)) (c.after (t ++ a)) _ :=
    .second no_call (.first (finds_rule (r := .memberSuffix) rfl (point.both found)))
  refine h.suffix (to_point ▸ whole) rfl fun left same => ⟨.member left name, ?_, ?_⟩
  · rw [Expr.withoutLines, Expr.withoutLines, same]
  · rw [← text]
    rfl

theorem Leads.index {position : Expr}
    (inside : Reads .expression position u (c.after (t ++ (a ++ ('[' :: b)))))
    (starts : Starts ℓ u) (closing : Gap d)
    (comes : c.rest = t ++ (a ++ ('[' :: (b ++ (u ++ (d ++ ']' :: k)))))) :
    Leads first (Level.body .suffixed) buildSuffixes (.index e position)
      (t ++ (a ++ ('[' :: (b ++ (u ++ (d ++ [']'])))))) c := by
  obtain ⟨to_bracket, here⟩ := skipLayout_to_suffix before (by decide) comes
  rw [← List.append_assoc, ← Cursor.after_after] at inside
  obtain ⟨n, ⟨f, built, same_position⟩, enclosed⟩ := inside.enclosed starts opening here
  have found := finds_enclosed enclosed closing (by decide) here
  have at_end : (c.after (t ++ a)).after ('[' :: (b ++ (u ++ (d ++ [']'])))) =
      c.after (t ++ (a ++ ('[' :: (b ++ (u ++ (d ++ [']'])))))) := by
    simp only [Cursor.after_after, List.append_assoc]
  rw [at_end] at found
  have no_call : Finds .spaced (.once (.rule .callSuffix)) (c.after (t ++ a)) none :=
    .rule_fails (.stuck (fails_single here (by decide)))
  have no_member : Finds .spaced (.once (.rule .memberSuffix)) (c.after (t ++ a)) none :=
    .rule_fails (.stuck (fails_single here (by decide)))
  have whole : Finds .spaced (.once (Level.body .suffixed)) (c.after (t ++ a)) _ :=
    .second no_call (.second no_member (finds_rule (r := .indexSuffix) rfl found))
  refine h.suffix (to_bracket ▸ whole) rfl fun left same => ⟨.index left f, ?_, ?_⟩
  · rw [Expr.withoutLines, Expr.withoutLines, same, same_position]
  · rw [buildSuffix, built]
    rfl

theorem Leads.call {args : List Expr}
    (inside : Listed .expression nodes u (c.after (t ++ (a ++ ('(' :: b)))))
    (gives : GivesItems nodes args) (closing : Gap d) (line : Nat)
    (comes : c.rest = t ++ (a ++ ('(' :: (b ++ (u ++ (d ++ ')' :: k)))))) :
    Leads first (Level.body .suffixed) buildSuffixes (.call e args line)
      (t ++ (a ++ ('(' :: (b ++ (u ++ (d ++ [')'])))))) c := by
  obtain ⟨to_bracket, here⟩ := skipLayout_to_suffix before (by decide) comes
  rw [← List.append_assoc, ← Cursor.after_after] at inside
  obtain ⟨fs, built, same_args⟩ := gives
  have at_end : (c.after (t ++ a)).after ('(' :: (b ++ (u ++ (d ++ [')'])))) =
      c.after (t ++ (a ++ ('(' :: (b ++ (u ++ (d ++ [')'])))))) := by
    simp only [Cursor.after_after, List.append_assoc]
  obtain ⟨children, enclosed, build⟩ := inside.arguments opening closing built here
  have found := finds_enclosed enclosed closing (by decide) here
  rw [at_end] at found
  have whole : Finds .spaced (.once (Level.body .suffixed)) (c.after (t ++ a)) _ :=
    .first (finds_rule (r := .callSuffix) rfl found)
  refine h.suffix (to_bracket ▸ whole) rfl fun left same => ⟨.call left fs _, ?_, build ..⟩
  rw [Expr.withoutLines, Expr.withoutLines, same, same_args]

end

end Script
end FrameScript
