import FrameScript.Proofs.Script.Writing

/-!
# Operands and what follows them

Operators, prefixes, suffixes and lists are all repetitions around an operand. Layout behind a
match is taken in some cases and given back in others, so that ends of matches are compared only
up to layout.
-/

namespace FrameScript
namespace Script

variable {s : Spacing} {c d : Cursor} {t u k : List Char} {ch : Char}

/-- The characters that can continue an expression of a level, when layout has been skipped. -/
def Level.continuations : Level → List Char
  | atom => []
  | suffixed | prefixed => ['(', '.', '[']
  | product => ['*', '/', '%', '(', '.', '[']
  | sum => ['+', '-', '*', '/', '%', '(', '.', '[']
  | comparison => ['<', '>', '+', '-', '*', '/', '%', '(', '.', '[']
  | equality => ['=', '!', '<', '>', '+', '-', '*', '/', '%', '(', '.', '[']
  | conjunction => ['&', '=', '!', '<', '>', '+', '-', '*', '/', '%', '(', '.', '[']
  | disjunction => ['|', '&', '=', '!', '<', '>', '+', '-', '*', '/', '%', '(', '.', '[']

theorem Level.continuations_tighter (ℓ : Level) :
    ∀ ch ∈ ℓ.tighter.continuations, ch ∈ ℓ.continuations := by
  cases ℓ <;> simp [tighter, continuations]

/-- Nothing at the cursor continues an expression of the level before it. -/
structure Follows (ℓ : Level) (c : Cursor) : Prop where
  numeral : EndsNumeral c.rest
  apart : ∀ ch ∈ (skipLayout c).rest.head?, ch ∉ ℓ.continuations

theorem Follows.tighter {ℓ : Level} (h : Follows ℓ c) : Follows ℓ.tighter c :=
  ⟨h.numeral, fun ch mem inside => h.apart ch mem (ℓ.continuations_tighter ch inside)⟩

theorem isWordChar_of_blank (h : isBlank ch) : isWordChar ch = false := by
  simp only [isBlank, Bool.or_eq_true, decide_eq_true_eq] at h
  rcases h with ((rfl | rfl) | rfl) | rfl <;> decide

theorem endsWord_gap {a : List Char} (gap : Gap a) (h : EndsWord k) : EndsWord (a ++ k) := by
  cases a with
  | nil => exact h
  | cons x rest =>
    intro ch mem
    cases mem
    exact isWordChar_of_blank (gap x List.mem_cons_self)

theorem endsNumeral_gap {a : List Char} (gap : Gap a) (h : EndsNumeral k) :
    EndsNumeral (a ++ k) := by
  refine ⟨endsWord_gap gap h.word, ?_⟩
  cases a with
  | nil => exact h.fraction
  | cons x rest =>
    intro ch others point
    obtain rfl : x = '.' := (List.cons.inj point).1
    cases gap '.' List.mem_cons_self

theorem follows_of_next {ℓ : Level} {a : List Char} (gap : Gap a) (comes : c.rest = a ++ ch :: k)
    (settled : (c.after a).Settled) (word : isWordChar ch = false)
    (point : ch = '.' → ∀ x ∈ k.head?, x.isDigit = false) (apart : ch ∉ ℓ.continuations) :
    Follows ℓ c := by
  have numeral : EndsNumeral (ch :: k) := by
    refine ⟨?_, ?_⟩
    · intro x mem
      cases mem
      exact word
    · intro x rest same
      cases same
      exact point rfl x rfl
  refine ⟨comes ▸ endsNumeral_gap gap numeral, ?_⟩
  intro x mem
  rw [Cursor.skipLayout_gap gap comes settled, Cursor.rest_after comes] at mem
  cases mem
  exact apart

theorem follows_end {ℓ : Level} (ends : c.rest = []) : Follows ℓ c := by
  have settled : c.Settled := Cursor.settled_of_head (by simp [ends])
  refine ⟨?_, ?_⟩
  · rw [ends]
    exact ⟨by simp [EndsWord], by simp⟩
  · rw [settled.skip, ends]
    simp

/-- A repetition after an operand begins behind the layout, and ends up to layout where it ends
without. -/
theorem many_of_again {body : Pattern} {f : Found} (h : Finds .spaced (.again body) c (some f)) :
    ∃ d, Finds .spaced (.once (.many body)) (skipLayout c) (some ⟨d, f.nodes⟩) ∧
      skipLayout d = skipLayout f.cursor := by
  generalize same : some f = found at h
  cases h with
  | more first others =>
    obtain ⟨g, rfl, rfl⟩ := Option.map_eq_some_iff.mp same.symm
    exact ⟨_, .many first others, rfl⟩
  | enough last =>
    cases same
    exact ⟨_, .never last, Cursor.skipLayout_idem c⟩

/-- The node is read as the expression, up to the lines of calls. -/
def Node.Gives (n : Node) (e : Expr) : Prop :=
  ∃ f, buildExpr n = .ok f ∧ f.withoutLines = e.withoutLines

/-- The rule takes the text, and what it takes is read as the expression. -/
def Reads (r : Rule) (e : Expr) (t : List Char) (c : Cursor) : Prop :=
  ∃ (d : Cursor) (node : Node), Finds .spaced (.once (.rule r)) c (some ⟨d, [node]⟩) ∧
    node.rule = r ∧ skipLayout d = skipLayout (c.after t) ∧ node.Gives e

theorem finds_rule {r : Rule} (spacing : r.spacing = none) {f : Found}
    (h : Finds .spaced (.once r.pattern) c (some f)) :
    Finds .spaced (.once (.rule r)) c
      (some ⟨f.cursor, [.mk r c (f.cursor.position - c.position) f.nodes]⟩) := by
  have inside : Finds (r.spacing.getD .spaced) (.once r.pattern) c (some f) := by
    rw [spacing]
    exact h
  exact .rule inside

theorem Reads.around {outer inner : Rule} {e : Expr} (pattern : outer.pattern = .rule inner)
    (spacing : outer.spacing = none)
    (build : ∀ start length n, buildExpr (.mk outer start length [n]) = buildExpr n)
    (h : Reads inner e t c) : Reads outer e t c := by
  obtain ⟨d, node, found, -, behind, f, built, same⟩ := h
  rw [← pattern] at found
  exact ⟨d, _, finds_rule spacing found, rfl, behind, f, (build ..).trans built, same⟩

/-- The text begins with an operand and goes on with repetitions of a body, and what these add is
read as the expression; further repetitions may follow. -/
def Leads (first : Rule) (body : Pattern) (extend : Expr → List Node → Parsed Expr) (e : Expr)
    (t : List Char) (c : Cursor) : Prop :=
  ∃ (d : Cursor) (node : Node) (m : Cursor) (more : List Node) (left : Expr),
    Finds .spaced (.once (.rule first)) c (some ⟨d, [node]⟩) ∧
    skipLayout m = skipLayout (c.after t) ∧ left.withoutLines = e.withoutLines ∧
    (∀ rest, (buildExpr node).bind (extend · (more ++ rest)) = extend left rest) ∧
    ∀ f, Finds .spaced (.again body) m (some f) →
      Finds .spaced (.again body) d (some ⟨f.cursor, more ++ f.nodes⟩)

section

variable {first : Rule} {body : Pattern} {extend : Expr → List Node → Parsed Expr} {e e' : Expr}
  {t' : List Char}

theorem Reads.leads (h : Reads first e t c) : Leads first body extend e t c := by
  obtain ⟨d, node, found, -, behind, f, built, same⟩ := h
  refine ⟨d, node, d, [], f, found, behind, same, fun rest => ?_, fun g again => again⟩
  rw [built]
  rfl

theorem Leads.more (h : Leads first body extend e t c)
    (found : ∃ m nodes, Finds .spaced (.once body) (skipLayout (c.after t)) (some ⟨m, nodes⟩) ∧
      skipLayout m = skipLayout (c.after t') ∧ ∀ left : Expr, left.withoutLines = e.withoutLines →
        ∃ left' : Expr, left'.withoutLines = e'.withoutLines ∧
          ∀ rest, extend left (nodes ++ rest) = extend left' rest) :
    Leads first body extend e' t' c := by
  obtain ⟨d, node, m, more, left, operand, place, same, build, repeats⟩ := h
  obtain ⟨m', nodes, next, behind, step⟩ := found
  obtain ⟨left', same', build'⟩ := step left same
  refine ⟨d, node, m', more ++ nodes, left', operand, behind, same', fun rest => ?_,
    fun f again => ?_⟩
  · rw [List.append_assoc, build, build']
  · have next' : Finds .spaced (.once body) (Spacing.spaced.skip m) (some ⟨m', nodes⟩) := by
      rw [← place] at next
      exact next
    rw [List.append_assoc]
    exact repeats _ (.more next' again)

/-- Where no repetition follows, the whole chain is found. -/
theorem Leads.close (h : Leads first body extend e t c)
    (stops : Finds .spaced (.once body) (skipLayout (c.after t)) none)
    (whole : ∀ left, extend left [] = .ok left) :
    ∃ d node more, Finds .spaced (.once (.seq (.rule first) (.many body))) c
        (some ⟨d, node :: more⟩) ∧ skipLayout d = skipLayout (c.after t) ∧
      ∃ f, (buildExpr node).bind (extend · more) = .ok f ∧ f.withoutLines = e.withoutLines := by
  obtain ⟨d, node, m, more, left, operand, place, same, build, repeats⟩ := h
  have last : Finds .spaced (.once body) (Spacing.spaced.skip m) none := by
    rw [← place] at stops
    exact stops
  obtain ⟨d', many, behind⟩ := many_of_again (repeats _ (.enough last))
  simp only [Found.nothing, List.append_nil] at many behind
  refine ⟨d', node, more, .seq operand many, behind.trans place, left, ?_, same⟩
  rw [← List.append_nil more, build, whole]

end

end Script
end FrameScript
