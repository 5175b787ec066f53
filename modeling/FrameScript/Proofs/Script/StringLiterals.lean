import FrameScript.Proofs.Script.SingleExpressions

/-!
# String literals

Where the quotes of a literal end is decided while matching, by taking each backslash together with
the character behind it; the escapes are undone later, when the tree is read. Both agree on every
text that spells a string, whatever characters are in it, so that each string has literals, as an
expression and as a key.
-/

namespace FrameScript
namespace Script

variable {c d : Cursor} {e : Expr} {s t k g : List Char} {ℓ : Level} {key : String}

/-- What can stand between quotes for a string: a quote or a backslash behind a backslash; a
newline, a tab and a carriage return raw or as an escape; every other character as it is. -/
inductive Spells : List Char → List Char → Prop
  | nil : Spells [] []
  | escaped {ch : Char} {s t : List Char} (special : ch = '"' ∨ ch = '\\') (h : Spells s t) :
    Spells (ch :: s) ('\\' :: ch :: t)
  | raw {ch : Char} {s t : List Char} (quote : ch ≠ '"') (slash : ch ≠ '\\') (h : Spells s t) :
    Spells (ch :: s) (ch :: t)
  | newline {s t : List Char} (h : Spells s t) : Spells ('\n' :: s) ('\\' :: 'n' :: t)
  | tab {s t : List Char} (h : Spells s t) : Spells ('\t' :: s) ('\\' :: 't' :: t)
  | carriageReturn {s t : List Char} (h : Spells s t) : Spells ('\r' :: s) ('\\' :: 'r' :: t)

theorem Spells.quotable (h : Spells s t) : Quotable t := by
  induction h with
  | nil => exact .nil
  | escaped _ _ ih | newline _ ih | tab _ ih | carriageReturn _ ih => exact .escape _ ih
  | raw quote slash _ ih => exact .plain quote slash ih

theorem Spells.unescape (h : Spells s t) : unescape t = s := by
  induction h with
  | nil => rfl
  | escaped special _ ih =>
    rw [Script.unescape, ih]
    rcases special with rfl | rfl <;> rfl
  | raw _ slash _ ih => rw [Script.unescape.eq_3 _ _ (by simp [slash]), ih]
  | newline _ ih | tab _ ih | carriageReturn _ ih =>
    rw [Script.unescape, ih]
    rfl

theorem spells_escaped (s : List Char) : Spells s (escaped s) := by
  induction s with
  | nil => exact .nil
  | cons ch rest ih =>
    rw [Script.escaped]
    split
    · rename_i special
      exact .escaped special ih
    · rename_i special
      obtain ⟨quote, slash⟩ := not_or.mp special
      exact .raw quote slash ih

theorem Layout.skip_to (h : Layout g k) (comes : c.rest = g ++ k) (settled : (c.after g).Settled) :
    skipLayout c = c.after g := by
  rw [h.skip comes, settled.skip]

theorem Layout.ends (h : Layout g []) (comes : c.rest = g) : (skipLayout c).rest = [] := by
  rw [← List.append_nil g] at comes
  have last : (c.after g).rest = [] := Cursor.rest_after comes
  rw [h.skip_to comes (Cursor.settled_of_head (by simp [last])), last]

/-- The rule finds an expression that ends at a place, up to layout. -/
def Denotes (r : Rule) (e : Expr) (c d : Cursor) : Prop :=
  ∃ (last : Cursor) (n : Node), Finds .spaced (.once (.rule r)) c (some ⟨last, [n]⟩) ∧
    n.rule = r ∧ skipLayout last = skipLayout d ∧ buildExpr n = .ok e

theorem Denotes.level (h : Denotes ℓ.tighter.rule e c d) (repeats : ℓ.repeats) (stops : Stops d) :
    Denotes ℓ.rule e c d := by
  obtain ⟨last, n, found, -, ends, built⟩ := h
  have stops := stops ℓ repeats
  rw [← ends] at stops
  have whole := found.both (Finds.never stops)
  rw [← Level.pattern_rule repeats] at whole
  refine ⟨_, _, finds_rule ℓ.spacing_rule whole, rfl, ?_, ?_⟩
  · exact (Cursor.skipLayout_idem last).trans ends
  · simp only [Found.before, Found.nothing, List.append_nil]
    rw [Level.build_rule repeats, built]
    exact ℓ.extend_nil e

/-- An operand that nothing continues is the whole expression. -/
theorem Denotes.expression (h : Denotes .primary e c d) (settled : c.Settled)
    (unsigned : ∀ ch ∈ c.rest.head?, ch ≠ '!' ∧ ch ≠ '-') (stops : Stops d) :
    Denotes .expression e c d := by
  have unary : Denotes .unaryExpr e c d := by
    obtain ⟨last, ⟨r, start, length, nodes⟩, found, rule, ends, built⟩ :=
      h.level (ℓ := .suffixed) rfl stops
    obtain rfl : r = .callExpr := rule
    have signless : Finds .spaced (.once (.many signs)) c (some (.nothing c)) :=
      .never (no_sign unsigned)
    have here : Spacing.spaced.skip c = c := settled.skip
    have whole := finds_rule (r := .unaryExpr) rfl (signless.both (here.symm ▸ found))
    exact ⟨_, _, whole, rfl, ends, built⟩
  have comparison : Denotes .comparisonExpr e c d :=
    ((unary.level (ℓ := .product) rfl stops).level (ℓ := .sum) rfl stops).level (ℓ := .comparison)
      rfl stops
  obtain ⟨_, n, found, -, ends, built⟩ := ((comparison.level (ℓ := .equality) rfl stops).level
    (ℓ := .conjunction) rfl stops).level (ℓ := .disjunction) rfl stops
  exact ⟨_, _, finds_rule (r := .expression) rfl found, rfl, ends, built⟩

theorem Denotes.source {before text : List Char} (layout : Layout before text)
    (h : Denotes .primary e ((Cursor.start (before ++ text)).after before) d)
    (settled : (Cursor.start text).Settled) (unsigned : ∀ ch ∈ text.head?, ch ≠ '!' ∧ ch ≠ '-')
    (ends : (skipLayout d).rest = [])
    (full : ¬ EmptyBraces ((Cursor.start (before ++ text)).after before)) :
    parseExpression (String.ofList (before ++ text)) = .ok e := by
  have comes : ((Cursor.start (before ++ text)).after before).rest = text := Cursor.rest_after rfl
  have settled : ((Cursor.start (before ++ text)).after before).Settled := settled.of_rest comes
  have begins : skipLayout (.start (String.ofList (before ++ text)).toList) =
      (Cursor.start (before ++ text)).after before := by
    rw [String.toList_ofList, layout.skip rfl, settled.skip]
  rw [← comes] at unsigned
  obtain ⟨last, n, found, -, same, built⟩ := h.expression settled unsigned (stops_of_end ends)
  rw [← begins] at found full
  obtain ⟨line, parsed⟩ := parse_single found (same ▸ ends) full built
  exact parseExpression_ok_iff.mpr ⟨_, line, [], parsed, rfl⟩

def inQuotes (t : List Char) : List Char := '"' :: (t ++ ['"'])

theorem inQuotes_append (t k : List Char) : inQuotes t ++ k = '"' :: (t ++ '"' :: k) := by
  simp [inQuotes]

/-- A property is found that ends at a place, up to layout, and it is this field of an object. -/
def DenotesField (key : String) (e : Expr) (c d : Cursor) : Prop :=
  ∃ (last : Cursor) (n : Node), Finds .spaced (.once (.rule .property)) c (some ⟨last, [n]⟩) ∧
    skipLayout last = skipLayout d ∧
    ∀ rest, buildFields (n :: rest) = (buildFields rest).map ((key, e) :: ·)

/-- A literal of a string is the string, wherever it stands. -/
theorem Spells.denotes (h : Spells key.toList t) (comes : c.rest = inQuotes t ++ k) :
    Denotes .primary (.str key) c (c.after (inQuotes t)) := by
  rw [inQuotes_append] at comes
  obtain ⟨value, found⟩ := finds_string h.quotable comes
  rw [h.unescape, String.ofList_toList] at value
  obtain ⟨_, _, operand⟩ := finds_literal [.number] _ rfl
    (literals_fail (x := '"') (by decide) (by decide) comes) found
  refine ⟨_, _, operand, rfl, rfl, ?_⟩
  rw [buildExpr, buildExpr, buildExpr, value]

theorem Spells.denotesField (h : Spells key.toList t)
    (comes : c.rest = inQuotes t ++ (g ++ ':' :: k)) (layout : Layout g [':'])
    (value : Denotes .expression e (skipLayout (c.after (inQuotes t ++ (g ++ [':'])))) d) :
    DenotesField key e c d := by
  have behind : (c.after (inQuotes t)).rest = g ++ ':' :: k := Cursor.rest_after comes
  have here : ((c.after (inQuotes t)).after g).rest = ':' :: k := Cursor.rest_after behind
  have layout : Layout g (':' :: k) := layout.next rfl
  have to_colon : skipLayout (c.after (inQuotes t)) = (c.after (inQuotes t)).after g :=
    layout.skip_to behind (Cursor.settled_of_next (by decide) here)
  have colon : Finds .spaced (.once (.lit ":")) (skipLayout (c.after (inQuotes t)))
      (some (.nothing (((c.after (inQuotes t)).after g).after [':']))) := by
    rw [to_colon]
    exact finds_text here
  have at_value : ((c.after (inQuotes t)).after g).after [':'] =
      c.after (inQuotes t ++ (g ++ [':'])) := by
    rw [Cursor.after_after, Cursor.after_after]
  rw [inQuotes_append] at comes
  obtain ⟨read, string⟩ := finds_string h.quotable comes
  rw [h.unescape, String.ofList_toList] at read
  have no_name : Finds .spaced (.once (.rule .identifier)) c none :=
    fails_of_avoids (by decide) _ (by decide) comes
  have name : Finds .spaced (.once (.alt (.rule .identifier) (.rule .string))) c _ :=
    .second no_name string
  obtain ⟨last, m, found, -, ends, built⟩ := value
  rw [← at_value] at found
  have property := finds_rule (r := .property) rfl (name.both (colon.both found))
  refine ⟨last, _, property, ends, ?_⟩
  intro rest
  simp only [Found.before, Found.nothing, List.cons_append, List.nil_append]
  rw [buildFields, if_pos rfl, read, built]
  rfl

theorem Spells.source {before behind : List Char} (h : Spells key.toList t)
    (layout : Layout before ['"']) (last : Layout behind []) :
    parseExpression (String.ofList (before ++ (inQuotes t ++ behind))) = .ok (.str key) := by
  have comes : ((Cursor.start (before ++ (inQuotes t ++ behind))).after before).rest =
      inQuotes t ++ behind := Cursor.rest_after rfl
  have layout : Layout before (inQuotes t ++ behind) := layout.next rfl
  refine (h.denotes comes).source layout ?_ ?_ ?_ ?_
  · exact Cursor.settled_of_next (by decide) rfl
  · intro ch mem
    cases mem
    decide
  · exact last.ends (Cursor.rest_after comes)
  · rintro ⟨k, l, braces, -⟩
    rw [comes] at braces
    cases braces

theorem DenotesField.object (h : DenotesField key e (skipLayout (c.after ['\x7b'])) d)
    (opens : c.rest = '\x7b' :: k) (closes : (skipLayout d).rest = '\x7d' :: g) :
    Denotes .primary (.object [(key, e)]) c ((skipLayout d).after ['\x7d']) := by
  obtain ⟨last, n, property, ends, field⟩ := h
  rw [← ends] at closes ⊢
  have opening : Finds .spaced (.once (.lit "\x7b")) c (some (.nothing (c.after ['\x7b']))) :=
    finds_text opens
  have no_comma : Finds .spaced (.once (.lit ",")) (skipLayout last) none :=
    fails_single closes (by decide)
  have alone : Finds .spaced (.once (.many (.seq (.lit ",") (.rule .property)))) (skipLayout last)
      (some (.nothing (skipLayout last))) := .never (.stuck no_comma)
  have no_last : Finds .spaced (.once (.opt (.lit ","))) (skipLayout (skipLayout last))
      (some (.nothing (skipLayout last))) := by
    rw [Cursor.skipLayout_idem]
    exact .absent no_comma
  have closing : Finds .spaced (.once (.lit "\x7d")) (skipLayout (skipLayout last))
      (some (.nothing ((skipLayout last).after ['\x7d']))) := by
    rw [Cursor.skipLayout_idem]
    exact finds_text closes
  have inside : Finds .spaced (.once (.opt (.seq (.commaList (.rule .property)) (.opt (.lit ",")))))
      (skipLayout (c.after ['\x7b'])) _ := .present ((property.both alone).both no_last)
  have object := finds_rule (r := .objectLit) rfl (opening.both (inside.both closing))
  obtain ⟨_, _, operand⟩ := finds_literal [.number, .string, .boolean, .nullLit, .arrayLit] [] rfl
    (literals_fail (by decide) (by decide) opens) object
  refine ⟨_, _, operand, rfl, rfl, ?_⟩
  simp only [Found.before, Found.nothing, List.append_nil, List.nil_append]
  rw [buildExpr, buildExpr, buildExpr, field]
  rfl

/-- Behind other text an expression ends at the same place. -/
theorem ExpressionThen.denotes (h : ExpressionThen t k) (comes : c.rest = t) :
    ∃ e d, Denotes .expression e (skipLayout c) d ∧ Alike false k (skipLayout d).rest := by
  obtain ⟨f, found, ends⟩ := h
  have alike : (Cursor.start t).Alike false c :=
    ⟨by rw [comes]; exact .same, fun counts => by cases counts⟩
  obtain ⟨_, found', same⟩ := found.alike (by decide) (by decide)
    (fun _ _ _ => Cursor.skipLayout_settled _) alike.skip
  cases same with
  | @some _ f' same =>
    obtain ⟨_, -, rfl⟩ := found'.within rfl
    obtain ⟨n, e, nodes, yields⟩ := yields_of_expression found'
    obtain rfl := List.singleton_inj.mp nodes
    exact ⟨e, _, ⟨_, _, found', rfl, rfl, yields.1⟩, ends ▸ same.behind.skip.rest⟩

theorem Spells.source_object {before opening colon value behind : List Char}
    (h : Spells key.toList t) (layout : Layout before ['\x7b']) (opens : Layout opening ['"'])
    (stands : Layout colon [':']) (whole : ExpressionThen value ('\x7d' :: behind))
    (closes : Layout behind []) :
    ∃ e, parseExpression (String.ofList (before ++
      ('\x7b' :: (opening ++ (inQuotes t ++ (colon ++ ':' :: value)))))) =
        .ok (.object [(key, e)]) := by
  generalize same : '\x7b' :: (opening ++ (inQuotes t ++ (colon ++ ':' :: value))) = text
  have begins : ((Cursor.start (before ++ text)).after before).rest =
      '\x7b' :: (opening ++ (inQuotes t ++ (colon ++ ':' :: value))) :=
    (Cursor.rest_after rfl).trans same.symm
  have inside := Cursor.rest_after (t := ['\x7b']) begins
  have at_key := Cursor.rest_after inside
  have opens : Layout opening (inQuotes t ++ (colon ++ ':' :: value)) := opens.next rfl
  have to_key : skipLayout (((Cursor.start (before ++ text)).after before).after ['\x7b']) =
      (((Cursor.start (before ++ text)).after before).after ['\x7b']).after opening :=
    opens.skip_to inside (Cursor.settled_of_next (by decide) at_key)
  have at_value := Cursor.rest_after (t := inQuotes t ++ (colon ++ [':'])) (k := value)
    (at_key.trans (by simp))
  obtain ⟨e, d, denotes, behind_value⟩ := whole.denotes at_value
  obtain ⟨l, brace, more⟩ := behind_value.next (c := .start ('\x7d' :: behind))
    (Cursor.settled_of_next (by decide) rfl) rfl (by decide)
  have field := h.denotesField at_key stands denotes
  rw [← to_key] at field
  refine ⟨e, (field.object begins brace).source (layout.next (same ▸ rfl)) ?_ ?_ ?_ ?_⟩
  · exact Cursor.settled_of_next (by decide) same.symm
  · intro ch mem
    rw [← same] at mem
    cases mem
    decide
  · have alike : (Cursor.start behind).Alike false ((skipLayout d).after ['\x7d']) :=
      ⟨by rwa [Cursor.rest_after (t := ['\x7d']) brace], fun counts => by cases counts⟩
    have left := alike.skip.rest
    rw [closes.ends rfl] at left
    exact left.nil
  · rintro ⟨k, l, -, brace⟩
    rw [to_key, at_key] at brace
    cases brace

/-- Every string can be spelled. All its literals are read as the string, as an operand in any place
and as the key of a field in any place; so is a source that is a literal with layout around it, and
the key of a source that is an object of one property, with layout between all its parts. -/
theorem string_literals (s : String) :
    (∃ t, Spells s.toList t) ∧ ∀ t, Spells s.toList t →
      (∀ c k, c.rest = inQuotes t ++ k → Denotes .primary (.str s) c (c.after (inQuotes t))) ∧
      (∀ c g k e d, c.rest = inQuotes t ++ (g ++ ':' :: k) → Layout g [':'] →
        Denotes .expression e (skipLayout (c.after (inQuotes t ++ (g ++ [':'])))) d →
        DenotesField s e c d) ∧
      (∀ before behind, Layout before ['"'] → Layout behind [] →
        parseExpression (String.ofList (before ++ (inQuotes t ++ behind))) = .ok (.str s)) ∧
      ∀ before opening colon value behind, Layout before ['\x7b'] → Layout opening ['"'] →
        Layout colon [':'] → ExpressionThen value ('\x7d' :: behind) → Layout behind [] →
        ∃ e, parseExpression (String.ofList (before ++
          ('\x7b' :: (opening ++ (inQuotes t ++ (colon ++ ':' :: value)))))) =
            .ok (.object [(s, e)]) := by
  refine ⟨⟨_, spells_escaped s.toList⟩, fun t h => ⟨?_, ?_, ?_, ?_⟩⟩
  · intro c k comes
    exact h.denotes comes
  · intro c g k e d comes layout value
    exact h.denotesField comes layout value
  · intro before behind layout last
    exact h.source layout last
  · intro before opening colon value behind layout opens stands whole closes
    exact h.source_object layout opens stands whole closes

/-- The string has a quote, openers of comments, newlines and a backslash at its end. -/
theorem string_literals_comments :
    parseExpression "/* \" */ \"/*\\\"\\n//é\n\\\\\" // \"" = .ok (.str "/*\"\n//é\n\\") ∧
      ∃ e, parseExpression "\x7b\"/*\\\"\\n//é\n\\\\\" : \"\"\x7d" =
        .ok (.object [("/*\"\n//é\n\\", e)]) := by
  have spells : Spells "/*\"\n//é\n\\".toList "/*\\\"\\n//é\n\\\\".toList := by
    refine .raw (by decide) (by decide) (.raw (by decide) (by decide) (.escaped (.inl rfl) ?_))
    refine .newline (.raw (by decide) (by decide) (.raw (by decide) (by decide) ?_))
    refine .raw (by decide) (by decide) (.raw (by decide) (by decide) (.escaped (.inr rfl) .nil))
  obtain ⟨-, -, alone, asKey⟩ := (string_literals _).2 _ spells
  have before : Layout "/* \" */ ".toList ['"'] :=
    .cons (p := "/* \" */".toList) (.block " \" ".toList (by decide)) (Filler.blank rfl).layout
  have behind : Layout " // \"".toList [] :=
    .cons (p := [' ']) (.blank rfl) (Filler.line " \"".toList (by decide) (by simp)).layout
  have value : ExpressionThen " \"\"\x7d".toList ['\x7d'] := by
    have empty : Spells "".toList [] := .nil
    have begins : (skipLayout (.start " \"\"\x7d".toList)).rest = inQuotes [] ++ ['\x7d'] := rfl
    have unsigned : ∀ ch ∈ (skipLayout (.start " \"\"\x7d".toList)).rest.head?,
        ch ≠ '!' ∧ ch ≠ '-' := by
      intro ch mem
      rw [begins] at mem
      cases mem
      decide
    obtain ⟨d, n, found, -, ends, -⟩ := (empty.denotes begins).expression
      (Cursor.skipLayout_settled _) unsigned
      (stops_of_apart (show _ = '\x7d' :: [] from rfl) (by decide))
    exact ⟨_, found, by rw [ends]; rfl⟩
  have literal := alone _ _ before behind
  obtain ⟨e, object⟩ := asKey [] [] [' '] _ [] .nil .nil (Filler.blank rfl).layout value .nil
  have source : String.ofList ("/* \" */ ".toList ++ (inQuotes "/*\\\"\\n//é\n\\\\".toList ++
      " // \"".toList)) = "/* \" */ \"/*\\\"\\n//é\n\\\\\" // \"" := by
    decide +kernel
  have source' : String.ofList ([] ++ ('\x7b' :: ([] ++ (inQuotes "/*\\\"\\n//é\n\\\\".toList ++
      ([' '] ++ ':' :: " \"\"\x7d".toList))))) = "\x7b\"/*\\\"\\n//é\n\\\\\" : \"\"\x7d" := by
    decide +kernel
  rw [source] at literal
  rw [source'] at object
  exact ⟨literal, e, object⟩

end Script
end FrameScript
