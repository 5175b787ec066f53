import FrameScript.Proofs.Script.Passages
import FrameScript.Proofs.Script.Reading

/-!
# Whole words

A word of an accepted source that stands outside strings and comments and is no keyword is read as
one identifier. There are two exceptions: behind `function` and behind the `let` of a loop the
grammar does not ask for the end of a word, so that a word beginning with these letters is cut where
a function or a loop can be read instead. All other keywords are followed by a bracket, are tried
after an expression, or are asked to end.
-/

namespace FrameScript
namespace Script

variable {s : Spacing} {c d : Cursor} {t k : List Char} {ch : Char} {f g : Found}

/-- A word of the source, as long as it can be, that begins as a name does and stands outside
strings and comments. -/
structure WordIn (source before w k : List Char) : Prop where
  text : source = before ++ (w ++ k)
  begins : ∃ ch rest, w = ch :: rest ∧ isLetter ch
  word : ∀ ch ∈ w, isWordChar ch
  behind : ∀ ch ∈ before.getLast?, isWordChar ch = false
  ends : EndsWord k
  outside : Outside source (w ++ k)

variable {source before w : List Char}

theorem isWordChar_of_isLetter (h : isLetter ch) : isWordChar ch := by
  simp only [isLetter, Bool.or_eq_true, beq_iff_eq] at h
  rcases h with alpha | rfl
  · simp [isWordChar, Char.isAlphanum, alpha]
  · decide

theorem Outside.suffix (h : Outside t k) : k <:+ t := by
  induction h with
  | here => exact List.suffix_refl _
  | behind _ _ ih => exact ih.trans (List.suffix_append _ _)

namespace WordIn

variable (h : WordIn source before w k)

include h

theorem name (free : String.ofList w ∉ keywords) : IsName (String.ofList w) := by
  obtain ⟨ch, rest, letters, first⟩ := h.begins
  refine ⟨⟨ch, rest, by rw [String.toList_ofList, letters], ?_⟩, by simpa using h.word, free⟩
  simpa [isLetter] using first

/-- A word that begins within a text that comes next begins with it, or behind a character of it
that belongs to no word. -/
theorem within (stands : c.In source) (comes : c.rest = t ++ d.rest)
    (ahead : Outside c.rest (w ++ k)) (inside : d.rest.length < (w ++ k).length) :
    ∃ a b, t = a ++ b ∧ b ≠ [] ∧ w ++ k = b ++ d.rest ∧
      (∀ x ∈ a.getLast?, isWordChar x = false) := by
  obtain ⟨a, rest⟩ := ahead.suffix
  have both : a ++ (w ++ k) = t ++ d.rest := rest.trans comes
  rcases List.append_eq_append_iff.mp both with ⟨b, split, same⟩ | ⟨b, split, same⟩
  · refine ⟨a, b, split, ?_, same, fun x mem => h.behind x ?_⟩
    · rintro rfl
      rw [List.nil_append] at same
      rw [same] at inside
      exact absurd inside (Nat.lt_irrefl _)
    · have whole : source = source.take c.position ++ (a ++ (w ++ k)) := by
        rw [rest, stands.rest, List.take_append_drop]
      have front : before = source.take c.position ++ a := by
        rw [← List.append_assoc] at whole
        exact List.append_cancel_right (h.text.symm.trans whole)
      rw [front, List.getLast?_append, Option.mem_def.mp mem]
      rfl
  · rw [same, List.length_append] at inside
    omega

theorem at_once (stands : c.In source) (comes : c.rest = t ++ d.rest)
    (ahead : Outside c.rest (w ++ k)) (inside : d.rest.length < (w ++ k).length)
    (letters : ∀ x ∈ t, isWordChar x) : c.rest = w ++ k := by
  obtain ⟨a, b, rfl, -, same, apart⟩ := h.within stands comes ahead inside
  cases last : a.getLast? with
  | none =>
    obtain rfl := List.getLast?_eq_none_iff.mp last
    rw [comes, same]
    rfl
  | some x =>
    have word := letters x (List.mem_append_left _ (List.mem_of_getLast? last))
    rw [apart x last] at word
    cases word

theorem position (stands : c.In source) (here : c.rest = w ++ k) : c.position = before.length := by
  obtain ⟨ch, rest, letters, -⟩ := h.begins
  have filled : 0 < (w ++ k).length := by simp [letters]
  have length := congrArg List.length (stands.rest.symm.trans here)
  have whole := congrArg List.length h.text
  rw [List.length_drop] at length
  rw [List.length_append] at whole
  omega

theorem not_layout (ahead : Outside c.rest (w ++ k)) :
    Outside (skipLayout c).rest (w ++ k) := by
  obtain ⟨g, comes, layout, -⟩ := layout_skipped c
  by_cases before : (skipLayout c).rest.length < (w ++ k).length
  · rw [comes] at ahead
    obtain ⟨p, q, same, filler⟩ := layout.within ahead before
    obtain ⟨ch, rest, rfl, letter⟩ := h.begins
    have word := isWordChar_of_isLetter letter
    rcases filler.head with ⟨x, rfl, blank⟩ | ⟨x, others, rfl, -⟩
    · obtain ⟨rfl, -⟩ := List.cons.inj same
      rw [isWordChar_of_blank blank] at word
      cases word
    · obtain ⟨rfl, -⟩ := List.cons.inj same
      cases word
  · exact c.outside_skip.later ahead (Nat.le_of_not_lt before)

end WordIn

/-- The tree has the word as an identifier. -/
def Node.Names (root : Node) (position : Nat) (w : List Char) : Prop :=
  ∃ n, root.Within n ∧ n.rule = .identifier ∧ n.start.position = position ∧
    n.text = String.ofList w

/-- The tree has taken a keyword off the word: the rest of it is the name that a node of the rule
begins with. -/
def Node.Cuts (root : Node) (position : Nat) (w : List Char) (r : Rule) (keyword : String) : Prop :=
  ∃ n name rest, root.Within n ∧ n.rule = r ∧ n.children = name :: rest ∧
    name.rule = .identifier ∧ name.start.position = position + keyword.toList.length ∧
    w = keyword.toList ++ name.text.toList

/-- The word is read as a whole, or it is cut in one of two ways. -/
def Node.Accounts (root : Node) (position : Nat) (w : List Char) : Prop :=
  root.Names position w ∨ root.Cuts position w .functionDecl "function" ∨
    root.Cuts position w .forStmt "let"

theorem Node.Within.trans {root n m : Node} (h : root.Within n) (h' : n.Within m) :
    root.Within m := by
  induction h' with
  | root => exact h
  | child _ mem ih => exact ih.child mem

theorem Node.Accounts.within {root n : Node} {position : Nat} (h : n.Accounts position w)
    (within : root.Within n) : root.Accounts position w := by
  rcases h with ⟨m, inside, h⟩ | ⟨m, name, rest, inside, h⟩ | ⟨m, name, rest, inside, h⟩
  · exact .inl ⟨m, within.trans inside, h⟩
  · exact .inr (.inl ⟨m, name, rest, within.trans inside, h⟩)
  · exact .inr (.inr ⟨m, name, rest, within.trans inside, h⟩)

/-- A name stands behind a keyword that has been taken off the word, before other nodes. -/
def CutOff (nodes : List Node) (position : Nat) (w : List Char) (keyword : String) : Prop :=
  ∃ name rest, nodes = name :: rest ∧ name.rule = .identifier ∧
    name.start.position = position + keyword.toList.length ∧
    w = keyword.toList ++ name.text.toList

namespace Pattern

/-- What the pattern takes begins with a character of no word. -/
def sharp : Pattern → Bool
  | text (ch :: _) => !isWordChar ch
  | rule r => r == .block
  | seq first _ => first.sharp
  | _ => false

/-- A name, with more behind it. -/
def named : Pattern → Bool
  | seq (rule r) (seq _ _) => r == .identifier
  | _ => false

def isText : Pattern → Bool
  | text _ => true
  | _ => false

/-- The text that the pattern takes off a word, where a name comes behind it. -/
def cut? : Pattern → Option String
  | seq (text chars) rest =>
    if rest.named && chars.all isWordChar then some (String.ofList chars) else rest.cut?
  | _ => none

/-- At its beginning the pattern cuts no word, or takes the rest of it as a name. Where an
expression is tried first, no name comes. -/
def firm : Pattern → Bool
  | text chars => chars.all fun ch => !isWordChar ch
  | char _ => false
  | start | finish | reject _ => true
  | rule r => r ∉ [.declareStmt, .returnStmt, .throwStmt, .breakStmt, .continueStmt]
  | seq first rest => first.firm || (first.isText && (rest.sharp || rest.named))
  | alt first second => first.firm && (second.firm || first == .rule .exprStmt)
  | opt body | many body => body.firm

/-- Words that the pattern writes out are keywords, and behind its beginning it is firm. -/
def sound : Pattern → Bool
  | text chars => chars.all (fun ch => !isWordChar ch) ||
      (chars.all isWordChar && String.ofList chars ∈ keywords)
  | char _ => false
  | start | finish | reject _ => true
  | rule r => r != .stringContent && r != .keyword
  | seq first rest => first.sound && rest.sound && rest.firm && first.cut?.isNone &&
      (first.isText || rest.cut?.isNone)
  | alt first second => first.sound && second.sound && first.cut?.isNone && second.cut?.isNone
  | opt body => body.sound && body.cut?.isNone
  | many body => body.sound && body.firm && body.cut?.isNone

end Pattern

/-- The rules that cut words. -/
def Rule.cut? : Rule → Option String
  | functionDecl => some "function"
  | forStmt => some "let"
  | _ => none

/-- The rules that skip layout inside are made of such patterns. -/
theorem Rule.sound_pattern {r : Rule} (spacing : r.spacing = none) :
    r.pattern.sound ∧ ((Pattern.rule r).firm → r.pattern.firm) ∧ r.pattern.cut? = r.cut? := by
  cases r <;> first | decide | cases spacing

theorem Finds.repeated {task : Task} {found : Option Found} (h : Finds s task c found) :
    ∀ p, task = .again p → ∃ f, found = some f := by
  induction h with
  | more _ _ _ ih =>
    intro p same
    obtain ⟨f, rfl⟩ := ih p same
    exact ⟨_, rfl⟩
  | enough => exact fun _ _ => ⟨_, rfl⟩
  | _ =>
    intro p same
    cases same

theorem many_found (s : Spacing) {p : Pattern} (grounded : (Pattern.many p).grounded) (c : Cursor) :
    ∃ f, Finds s (.once (.many p)) c (some f) := by
  obtain ⟨found, finds⟩ := exists_finds s grounded c
  cases finds with
  | many first others =>
    obtain ⟨f, rfl⟩ := others.repeated _ rfl
    exact ⟨_, .many first others⟩
  | never fails => exact ⟨_, .never fails⟩

theorem Level.found {ℓ : Level} (repeats : ℓ.repeats)
    (h : Finds .spaced (.once (.rule ℓ.tighter.rule)) c (some f)) :
    ∃ g, Finds .spaced (.once (.rule ℓ.rule)) c (some g) := by
  have grounded : (Pattern.many ℓ.body).grounded := by cases ℓ <;> decide
  obtain ⟨g, more⟩ := many_found .spaced grounded (Spacing.spaced.skip f.cursor)
  have whole := h.both more
  rw [← Level.pattern_rule repeats] at whole
  exact ⟨_, finds_rule ℓ.spacing_rule whole⟩

theorem NameAt.expression {name : String} (h : NameAt c name) :
    ∃ f, Finds .spaced (.once (.rule .exprStmt)) c (some f) := by
  obtain ⟨isName, k, comes, ends⟩ := h
  obtain ⟨d, n, primary, -⟩ := reads_ident isName ends comes
  obtain ⟨ch, rest, letters, first⟩ := isName.begins
  have begins : c.rest = ch :: (rest ++ k) := by rw [comes, letters]; rfl
  have no_sign : Finds .spaced (.once (.many signs)) c (some (.nothing c)) := by
    have other : ch ≠ '!' ∧ ch ≠ '-' := by
      constructor <;> (rintro rfl; rcases first with letter | same <;> contradiction)
    exact .never (.second (.rule_fails (.stuck (fails_single begins other.1)))
      (.rule_fails (fails_single begins other.2)))
  have settled : c.Settled := (starts_name isName .atom).settled comes
  obtain ⟨f₁, call⟩ := Level.found (ℓ := .suffixed) rfl primary
  have unary : Finds .spaced (.once (.rule .unaryExpr)) c _ :=
    finds_rule (r := .unaryExpr) rfl (no_sign.both (settled.skip.symm ▸ call))
  obtain ⟨f₂, product⟩ := Level.found (ℓ := .product) rfl unary
  obtain ⟨f₃, sum⟩ := Level.found (ℓ := .sum) rfl product
  obtain ⟨f₄, comparison⟩ := Level.found (ℓ := .comparison) rfl sum
  obtain ⟨f₅, equality⟩ := Level.found (ℓ := .equality) rfl comparison
  obtain ⟨f₆, conjunction⟩ := Level.found (ℓ := .conjunction) rfl equality
  obtain ⟨f₇, disjunction⟩ := Level.found (ℓ := .disjunction) rfl conjunction
  exact ⟨_, finds_rule (r := .exprStmt) rfl (finds_rule (r := .expression) rfl disjunction)⟩

def Rule.words : Rule → List String
  | elseKw => ["else"]
  | ofKw => ["of"]
  | boolean => ["true", "false"]
  | nullLit => ["null"]
  | _ => []

theorem Rule.words_pattern {r : Rule} (nonempty : r.words ≠ []) :
    r.pattern = .wholeWord (.choice (r.words.map .lit)) ∧ r.spacing = some .atomic ∧
      ∀ w ∈ r.words, w ∈ keywords := by
  cases r <;> first | exact ⟨rfl, rfl, by decide⟩ | exact absurd rfl nonempty

theorem Pattern.Takes.choice {ws : List String}
    (h : (Pattern.choice (ws.map .lit)).Takes t) : t = [] ∨ ∃ w ∈ ws, t = w.toList := by
  induction ws with
  | nil =>
    cases h
    exact .inl rfl
  | cons w rest ih =>
    cases rest with
    | nil =>
      cases h
      exact .inr ⟨w, List.mem_cons_self, rfl⟩
    | cons w' rest =>
      cases h with
      | first h =>
        cases h
        exact .inr ⟨w, List.mem_cons_self, rfl⟩
      | second h =>
        refine (ih h).imp_right fun ⟨v, mem, same⟩ => ⟨v, List.mem_cons_of_mem w mem, same⟩

section

variable {r : Rule} (h : WordIn source before w k) (free : String.ofList w ∉ keywords)
  (stands : c.In source) (ahead : Outside c.rest (w ++ k))
  (inside : f.cursor.rest.length < (w ++ k).length)

include h free stands ahead inside

theorem WordIn.identifier (found : Finds .spaced (.once (.rule .identifier)) c (some f)) :
    ∃ m ∈ f.nodes, m.Accounts before.length w := by
  obtain ⟨name, n, named, rule, start, text, rfl⟩ := found.name
  obtain ⟨isName, k', comes, ends⟩ := named
  have here := h.at_once (d := c.after name.toList) stands (by rw [Cursor.rest_after comes, comes])
    ahead inside isName.word
  have own : NameAt c (String.ofList w) :=
    ⟨h.name free, k, by rw [here, String.toList_ofList], h.ends⟩
  have same := own.unique ⟨isName, k', comes, ends⟩
  refine ⟨n, List.mem_cons_self, .inl ⟨n, .root, rule, ?_, text.trans same.symm⟩⟩
  rw [start, h.position stands here]

omit free stands in
theorem WordIn.not_string (found : Finds .spaced (.once (.rule .string)) c (some f)) : False := by
  obtain ⟨t, k', quotable, comes, rfl⟩ := found.string
  have whole : c.rest = ('"' :: (t ++ ['"'])) ++ k' := by simp [comes]
  rw [Cursor.rest_after whole] at inside
  obtain ⟨ch, rest, rfl, letter⟩ := h.begins
  rw [whole] at ahead
  generalize text : '"' :: (t ++ ['"']) ++ k' = all at ahead
  cases ahead with
  | here =>
    obtain ⟨rfl, -⟩ := List.cons.inj text
    cases letter
  | behind piece more =>
    obtain ⟨-, rfl⟩ := (Piece.mark (.quoted quotable)).unique piece text
    exact absurd more.length_le (Nat.not_le_of_lt inside)

/-- A word that begins in a whole word is a keyword. -/
theorem WordIn.not_words (nonempty : r.words ≠ [])
    (found : Finds .spaced (.once (.rule r)) c (some f)) : False := by
  obtain ⟨pattern, spacing, keyword⟩ := Rule.words_pattern nonempty
  obtain ⟨t, k', comes, takes, same⟩ := found.token spacing
  have ends : f.cursor = c.after t := congrArg Found.cursor same
  have letters : ∀ x ∈ t, isWordChar x := by
    rw [pattern] at takes
    cases takes with
    | seq word no_more =>
      cases no_more
      rw [List.append_nil]
      rcases word.choice with rfl | ⟨v, mem, rfl⟩
      · simp
      · exact keywords_words v (keyword v mem)
  have here := h.at_once (d := f.cursor) stands (by rw [ends, Cursor.rest_after comes, comes])
    ahead inside letters
  have fails := name_not_word (h.name free) r.words keyword h.ends
    (here.trans (by rw [String.toList_ofList]))
  rw [← pattern] at fails
  have failed : Finds .spaced (.once (.rule r)) c none := .rule_fails (by rw [spacing]; exact fails)
  cases found.unique failed

omit free in
theorem WordIn.not_mark (mark : r = .number ∨ r = .opNot)
    (found : Finds .spaced (.once (.rule r)) c (some f)) : False := by
  have spacing : r.spacing = some .atomic := by rcases mark with rfl | rfl <;> rfl
  obtain ⟨t, k', comes, takes, same⟩ := found.token spacing
  have ends : f.cursor = c.after t := congrArg Found.cursor same
  obtain ⟨a, b, rfl, filled, begin, apart⟩ := h.within (d := f.cursor) stands
    (by rw [ends, Cursor.rest_after comes, comes]) ahead inside
  obtain ⟨x, b, rfl⟩ := List.exists_cons_of_ne_nil filled
  obtain ⟨ch, rest, rfl, letter⟩ := h.begins
  obtain ⟨rfl, -⟩ := List.cons.inj begin
  rcases mark with rfl | rfl
  · obtain ⟨y, last, digit⟩ := takes.numeral.behind_digit letter
    have other := apart y last
    rw [isWordChar_of_isDigit digit] at other
    cases other
  · have sign : a ++ ch :: b = ['!'] := by
      generalize a ++ ch :: b = t at takes
      cases takes with
      | seq first second =>
        cases first
        cases second
        rfl
    have mem : ch ∈ ['!'] := sign ▸ (by simp)
    obtain rfl := List.mem_singleton.mp mem
    cases letter

theorem WordIn.token (token : r.spacing ≠ none) (other : r ≠ .stringContent ∧ r ≠ .keyword)
    (found : Finds .spaced (.once (.rule r)) c (some f)) :
    ∃ m ∈ f.nodes, m.Accounts before.length w := by
  by_cases words : r.words = []
  · have one : r = .identifier ∨ r = .string ∨ r = .number ∨ r = .opNot := by
      cases r <;> first | exact absurd rfl token | exact absurd rfl other.1 |
        exact absurd rfl other.2 | exact absurd words (by decide) | simp
    rcases one with rfl | rfl | mark
    · exact h.identifier free stands ahead inside found
    · exact (h.not_string ahead inside found).elim
    · exact (h.not_mark stands ahead inside mark found).elim
  · exact (h.not_words free stands ahead inside words found).elim

end

theorem Finds.stands {task : Task} {found : Option Found} (h : Finds s task c found)
    (stands : c.In source) : ∀ f, found = some f → f.cursor.In source := by
  induction h with
  | text =>
    intro f same
    obtain ⟨next, dropped, rfl⟩ := Option.map_eq_some_iff.mp same
    exact stands.dropText? dropped
  | char =>
    intro f same
    obtain ⟨next, dropped, rfl⟩ := Option.map_eq_some_iff.mp same
    exact stands.dropClass? dropped
  | start | finish =>
    intro f same
    split at same <;> cases same
    exact stands
  | rule _ ih =>
    intro f same
    obtain ⟨g, rfl, rfl⟩ := Option.map_eq_some_iff.mp same
    exact ih stands g rfl
  | @seq s _ _ _ _ _ _ _ ih ih' =>
    intro f same
    obtain ⟨g, rfl, rfl⟩ := Option.map_eq_some_iff.mp same
    exact ih' (Spacing.skip_in (ih stands _ rfl) s) g rfl
  | many _ _ ih ih' =>
    intro f same
    obtain ⟨g, rfl, rfl⟩ := Option.map_eq_some_iff.mp same
    exact ih' (ih stands _ rfl) g rfl
  | @more s _ _ _ _ _ _ ih ih' =>
    intro f same
    obtain ⟨g, rfl, rfl⟩ := Option.map_eq_some_iff.mp same
    exact ih' (ih (Spacing.skip_in stands s) _ rfl) g rfl
  | first _ ih | present _ ih => exact ih stands
  | second _ _ _ ih => exact ih stands
  | absent | never | allowed | enough =>
    intro f same
    cases same
    exact stands
  | stuck | refused =>
    intro f same
    cases same

/-- What is sharp is found before characters of no word only. -/
theorem Pattern.sharp_found {p : Pattern} (sharp : p.sharp)
    (h : Finds .spaced (.once p) c (some f)) :
    ∃ ch rest, c.rest = ch :: rest ∧ isWordChar ch = false := by
  induction p generalizing f with
  | text chars =>
    obtain ⟨k, comes, -⟩ := h.of_text
    cases chars with
    | nil => cases sharp
    | cons x rest => exact ⟨x, rest ++ k, comes, by simpa [Pattern.sharp] using sharp⟩
  | rule r =>
    obtain rfl : r = .block := by simpa [Pattern.sharp] using sharp
    generalize same : some f = found at h
    cases h with
    | rule inside =>
      obtain ⟨g, rfl, rfl⟩ := Option.map_eq_some_iff.mp same.symm
      generalize same' : some g = found at inside
      cases inside with
      | seq first _ =>
        obtain ⟨k, comes, -⟩ := first.of_text
        exact ⟨_, k, comes, by decide⟩
      | stuck => cases same'
  | seq first rest ih _ =>
    generalize same : some f = found at h
    cases h with
    | seq first _ => exact ih sharp first
    | stuck => cases same
  | _ => cases sharp

/-- No word goes on before layout, nor where no word comes behind it. -/
theorem endsWord_skip (h : ∀ ch ∈ (skipLayout c).rest.head?, isWordChar ch = false) :
    EndsWord c.rest := by
  obtain ⟨g, comes, layout, -⟩ := layout_skipped c
  cases layout with
  | nil =>
    rw [comes]
    exact h
  | cons filler _ =>
    intro ch mem
    rw [comes] at mem
    rcases filler.head with ⟨x, rfl, blank⟩ | ⟨x, others, rfl, -⟩
    · cases mem
      exact isWordChar_of_blank blank
    · cases mem
      decide

/-- A keyword is taken off the word where a name is found behind it. -/
theorem WordIn.cut_off (h : WordIn source before w k) {chars : List Char} {a b : Pattern}
    (free : String.ofList w ∉ keywords) (stands : c.In source) (here : c.rest = w ++ k)
    (letters : ∀ x ∈ chars, isWordChar x) (keyword : String.ofList chars ∈ keywords)
    (comes : c.rest = chars ++ t)
    (found : Finds .spaced (.once (.seq (.rule .identifier) (.seq a b)))
      (skipLayout (c.after chars)) (some f)) :
    CutOff f.nodes before.length w (String.ofList chars) := by
  have behind := Cursor.rest_after comes
  have goes_on : ¬ EndsWord t := by
    intro ends
    have whole := word_unique h.word letters h.ends ends (here.symm.trans comes)
    exact free (whole ▸ keyword)
  -- So the word goes on behind the keyword, and no layout comes in between.
  have settled : (c.after chars).Settled := by
    refine Cursor.settled_of_head fun ch mem => ?_
    rw [behind] at mem
    have word : isWordChar ch := by
      by_contra other
      refine goes_on fun x mem' => ?_
      rw [mem] at mem'
      cases mem'
      simpa using other
    have plain := isPlain_of_isWordChar word
    simp only [isPlain, Bool.and_eq_true, Bool.not_eq_true', bne_iff_ne, ne_eq] at plain
    exact ⟨plain.1.1, plain.2⟩
  rw [settled.skip] at found
  generalize same : some f = result at found
  cases found with
  | seq first second =>
    obtain ⟨g, rfl, rfl⟩ := Option.map_eq_some_iff.mp same.symm
    obtain ⟨name, n, ⟨isName, k', comes', ends⟩, rule, start, text, rfl⟩ := first.name
    refine ⟨n, g.nodes, rfl, rule, ?_, ?_⟩
    · rw [start, ← h.position stands here, String.toList_ofList]
      rfl
    · rw [text, String.toList_ofList]
      refine word_unique h.word ?_ h.ends ends ?_
      · exact List.forall_mem_append.mpr ⟨letters, isName.word⟩
      · rw [List.append_assoc, ← comes', behind, ← comes, here]
  | stuck => cases same

theorem WordIn.not_text (h : WordIn source before w k) {chars : List Char} (stands : c.In source)
    (sound : (Pattern.text chars).sound) (ready : (Pattern.text chars).firm ∨ c.rest ≠ w ++ k)
    (ahead : Outside c.rest (w ++ k)) (found : Finds s (.once (.text chars)) c (some f))
    (inside : f.cursor.rest.length < (w ++ k).length) : False := by
  obtain ⟨t, comes, rfl⟩ := found.of_text
  have behind : c.rest = chars ++ (c.after chars).rest := by rw [Cursor.rest_after comes, comes]
  obtain ⟨a, b, rfl, filled, begin, -⟩ := h.within (d := c.after chars) stands behind ahead inside
  obtain ⟨x, b, rfl⟩ := List.exists_cons_of_ne_nil filled
  have word : isWordChar x := by
    obtain ⟨ch, rest, rfl, letter⟩ := h.begins
    obtain ⟨rfl, -⟩ := List.cons.inj begin
    exact isWordChar_of_isLetter letter
  have loose : ¬ (Pattern.text (a ++ x :: b)).firm := by
    simp [Pattern.firm, word]
  simp only [Pattern.sound, Bool.or_eq_true, Bool.and_eq_true] at sound
  rcases sound with firm | ⟨letters, -⟩
  · exact loose firm
  · exact ready.resolve_left loose
      (h.at_once (d := c.after (a ++ x :: b)) stands behind ahead inside
        (List.all_eq_true.mp letters))

/-- Where a word begins, a pattern takes a keyword off it, if a name is what comes behind. -/
theorem WordIn.cuts (h : WordIn source before w k) (free : String.ofList w ∉ keywords)
    {first second : Pattern} (stands : c.In source) (here : c.rest = w ++ k)
    (loose : ¬ first.firm) (sound : first.sound)
    (behind : first.isText ∧ (second.sharp ∨ second.named))
    (found : Finds .spaced (.once first) c (some f))
    (found' : Finds .spaced (.once second) (skipLayout f.cursor) (some g)) :
    ∃ keyword, (Pattern.seq first second).cut? = some keyword ∧
      CutOff (f.before g).nodes before.length w keyword := by
  obtain ⟨text, next⟩ := behind
  cases first with
  | text chars =>
    obtain ⟨t, comes, rfl⟩ := found.of_text
    simp only [Pattern.sound, Bool.or_eq_true, Bool.and_eq_true, decide_eq_true_eq] at sound
    obtain ⟨letters, keyword⟩ := sound.resolve_left loose
    rcases next with sharp | named
    · obtain ⟨ch, rest, comes', other⟩ := Pattern.sharp_found sharp found'
      have ends : EndsWord t := by
        have ends := endsWord_skip (c := c.after chars) fun x mem => by
          change (skipLayout (c.after chars)).rest = _ at comes'
          rw [comes'] at mem
          cases mem
          exact other
        rwa [Cursor.rest_after comes] at ends
      have whole := word_unique h.word (List.all_eq_true.mp letters) h.ends ends
        (here.symm.trans comes)
      exact absurd (whole ▸ keyword) free
    · cases second with
      | seq name more =>
        cases name with
        | rule r =>
          cases more with
          | seq a b =>
            obtain rfl : r = .identifier := by simpa [Pattern.named] using named
            refine ⟨String.ofList chars, ?_, h.cut_off free stands here
              (List.all_eq_true.mp letters) keyword comes found'⟩
            rw [Pattern.cut?, named, letters]
            rfl
          | _ => cases named
        | _ => cases named
      | _ => cases named
  | _ => cases text

theorem Pattern.cut?_behind {chars : List Char} {rest : Pattern} {keyword : String}
    (cut : rest.cut? = some keyword) : (Pattern.seq (.text chars) rest).cut? = some keyword := by
  have other : rest.named = false := by
    cases named : rest.named with
    | false => rfl
    | true =>
      cases rest with
      | seq name more =>
        cases name with
        | text => cases named
        | _ => cases cut
      | _ => cases cut
  rw [Pattern.cut?, other, Bool.false_and, if_neg Bool.false_ne_true, cut]

/-- A name behind a keyword that a rule has taken off a word. -/
theorem CutOff.accounts {nodes : List Node} {position : Nat} {keyword : String} {r : Rule}
    {start : Cursor} {length : Nat} (h : CutOff nodes position w keyword)
    (cut : r.cut? = some keyword) : (Node.mk r start length nodes).Accounts position w := by
  obtain ⟨name, rest, rfl, h⟩ := h
  have own : (Node.mk r start length (name :: rest)).Cuts position w r keyword :=
    ⟨_, name, rest, .root, rfl, rfl, h⟩
  cases r <;> cases cut
  · exact .inr (.inl own)
  · exact .inr (.inr own)

theorem accounted_uncut {p : Pattern} {nodes : List Node} {position : Nat} (uncut : p.cut? = none)
    (h : (∃ m ∈ nodes, m.Accounts position w) ∨
      ∃ keyword, p.cut? = some keyword ∧ CutOff nodes position w keyword) :
    ∃ m ∈ nodes, m.Accounts position w := by
  refine h.resolve_right fun off => ?_
  obtain ⟨keyword, cut, -⟩ := off
  rw [uncut] at cut
  cases cut

/-- A word that begins in a repetition begins in the first match or behind it. -/
theorem accounted_repetition {body : Pattern} (sound : (Pattern.many body).sound)
    (legible : (Pattern.many body).legible) (settled : c.Settled)
    (found : Finds .spaced (.once body) c (some f))
    (ahead : Outside c.rest (w ++ k))
    (early : f.cursor.rest.length < (w ++ k).length →
      (∃ m ∈ f.nodes, m.Accounts before.length w) ∨
        ∃ keyword, body.cut? = some keyword ∧ CutOff f.nodes before.length w keyword)
    (late : Outside f.cursor.rest (w ++ k) →
      (∃ m ∈ g.nodes, m.Accounts before.length w) ∨
        ∃ keyword, (Pattern.many body).cut? = some keyword ∧
          CutOff g.nodes before.length w keyword) :
    ∃ m ∈ (f.before g).nodes, m.Accounts before.length w := by
  simp only [Pattern.sound, Pattern.legible, Bool.and_eq_true, Bool.not_eq_true',
    Option.isNone_iff_eq_none] at sound legible
  by_cases inside : f.cursor.rest.length < (w ++ k).length
  · obtain ⟨m, mem, accounts⟩ := accounted_uncut sound.2 (early inside)
    exact ⟨m, List.mem_append_left _ mem, accounts⟩
  · have passed : Outside c.rest f.cursor.rest := by
      refine (found.passes rfl (fun _ _ => settled) legible.1 f rfl).resolve_right fun slash => ?_
      rw [show body.endsInSlash = true from slash.1] at legible
      cases legible.2
    obtain ⟨m, mem, accounts⟩ :=
      accounted_uncut rfl (late (passed.later ahead (Nat.le_of_not_lt inside)))
    exact ⟨m, List.mem_append_right _ mem, accounts⟩

/-- Words that begin in a match are accounted for by its nodes. -/
theorem WordIn.accounted (h : WordIn source before w k) (free : String.ofList w ∉ keywords)
    {task : Task} {found : Option Found} (finds : Finds s task c found) (spaced : s = .spaced)
    (stands : c.In source) (begins : ∀ p, task = .once p → c.Settled)
    (legible : task.pattern.legible) (sound : task.pattern.sound)
    (ready : task.pattern.firm ∨ c.rest ≠ w ++ k) (ahead : Outside c.rest (w ++ k)) :
    ∀ f, found = some f → f.cursor.rest.length < (w ++ k).length →
      (∃ m ∈ f.nodes, m.Accounts before.length w) ∨
        ∃ keyword, task.pattern.cut? = some keyword ∧ CutOff f.nodes before.length w keyword := by
  induction finds with
  | @text s chars c =>
    intro f same inside
    have text : Finds s (.once (.text chars)) c (some f) := same ▸ .text
    exact (h.not_text stands sound ready ahead text inside).elim
  | char => cases sound
  | start | finish =>
    intro f same inside
    split at same <;> cases same
    exact absurd ahead.length_le (Nat.not_le_of_lt inside)
  | @rule s r c found inner ih =>
    intro f same inside
    obtain ⟨g, rfl, rfl⟩ := Option.map_eq_some_iff.mp same
    subst spaced
    have settled := begins _ rfl
    simp only [Task.pattern, Pattern.sound, Bool.and_eq_true, bne_iff_ne] at sound
    by_cases spacing : r.spacing = none
    · obtain ⟨sound', firm, cut?⟩ := Rule.sound_pattern spacing
      rw [spacing] at ih
      left
      refine ⟨_, List.mem_singleton_self _, ?_⟩
      have clear : r ≠ .program := by
        rintro rfl
        cases legible
      rcases ih rfl stands (fun _ _ => settled) (Rule.legible_pattern spacing clear).1 sound'
          (ready.imp_left firm) ahead g rfl inside with ⟨m, mem, accounts⟩ | ⟨keyword, cut, off⟩
      · exact accounts.within (.child .root mem)
      · exact off.accounts (cut?.symm.trans cut)
    · exact .inl (h.token free stands ahead inside spacing sound (.rule inner))
  | @seq s first second c g found first_found second_found ih ih' =>
    intro f same inside
    obtain ⟨g', rfl, rfl⟩ := Option.map_eq_some_iff.mp same
    subst spaced
    simp only [Task.pattern, Pattern.legible, Pattern.sound, Bool.and_eq_true, Bool.or_eq_true,
      Bool.not_eq_true'] at legible sound
    obtain ⟨⟨clear, clear'⟩, apart⟩ := legible
    obtain ⟨⟨⟨⟨sound, sound'⟩, firm⟩, uncut⟩, uncut'⟩ := sound
    have passed := passes_first
      (first_found.passes rfl (fun _ _ => begins _ rfl) clear g rfl) apart second_found
    by_cases early : g.cursor.rest.length < (w ++ k).length
    · by_cases ready' : first.firm ∨ c.rest ≠ w ++ k
      · obtain ⟨m, mem, accounts⟩ := accounted_uncut (Option.isNone_iff_eq_none.mp uncut)
          (ih rfl stands (fun _ _ => begins _ rfl) clear sound ready' ahead g rfl early)
        exact .inl ⟨m, List.mem_append_left _ mem, accounts⟩
      · -- A word begins where the pattern does, and a keyword is taken off it.
        obtain ⟨loose, here⟩ := not_or.mp ready'
        have here : c.rest = w ++ k := not_not.mp here
        have behind : first.isText ∧ (second.sharp ∨ second.named) := by
          have own := ready.resolve_right (not_not.mpr here)
          simpa [Task.pattern, Pattern.firm, loose] using own
        exact .inr (h.cuts free stands here loose sound behind first_found second_found)
    · have ahead' := h.not_layout (passed.later ahead (Nat.le_of_not_lt early))
      rcases ih' rfl (Spacing.skip_in (first_found.stands stands g rfl) _)
          (fun _ _ => Spacing.skip_settled rfl _) clear' sound' (.inl firm) ahead' g' rfl
          inside with
        ⟨m, mem, accounts⟩ | ⟨keyword, cut, off⟩
      · exact .inl ⟨m, List.mem_append_right _ mem, accounts⟩
      · refine .inr ⟨keyword, ?_⟩
        have text := uncut'.resolve_right (by simp [show second.cut? = some keyword from cut])
        cases first with
        | text chars =>
          obtain ⟨t, -, rfl⟩ := first_found.of_text
          exact ⟨Pattern.cut?_behind cut, off⟩
        | _ => cases text
  | @first s first second c f _ ih =>
    intro f' same inside
    simp only [Task.pattern, Pattern.legible, Pattern.sound, Bool.and_eq_true] at legible sound
    obtain ⟨⟨⟨sound, -⟩, uncut⟩, -⟩ := sound
    have ready' : first.firm ∨ c.rest ≠ w ++ k := ready.imp_left fun firm =>
      (Bool.and_eq_true_iff.mp firm).1
    exact .inl (accounted_uncut (Option.isNone_iff_eq_none.mp uncut)
      (ih spaced stands (fun _ _ => begins _ rfl) legible.1 sound ready' ahead f' same inside))
  | @second s first second c found failed _ _ ih =>
    intro f' same inside
    simp only [Task.pattern, Pattern.legible, Pattern.sound, Bool.and_eq_true] at legible sound
    obtain ⟨⟨⟨-, sound⟩, -⟩, uncut⟩ := sound
    have ready' : second.firm ∨ c.rest ≠ w ++ k := by
      refine ready.elim (fun firm => ?_) .inr
      simp only [Task.pattern, Pattern.firm, Bool.and_eq_true, Bool.or_eq_true, beq_iff_eq] at firm
      refine firm.2.imp_right ?_
      -- Where a name comes next, the expression would have been found.
      rintro rfl here
      subst spaced
      obtain ⟨f, expression⟩ := NameAt.expression
        ⟨h.name free, k, here.trans (by rw [String.toList_ofList]), h.ends⟩
      cases failed.unique expression
    exact .inl (accounted_uncut (Option.isNone_iff_eq_none.mp uncut)
      (ih spaced stands (fun _ _ => begins _ rfl) legible.2 sound ready' ahead f' same inside))
  | @present s body c f _ ih =>
    intro f' same inside
    simp only [Task.pattern, Pattern.sound, Bool.and_eq_true] at sound
    exact .inl (accounted_uncut (Option.isNone_iff_eq_none.mp sound.2)
      (ih spaced stands (fun _ _ => begins _ rfl) legible sound.1 ready ahead f' same inside))
  | @many s body c g found first_found _ ih ih' =>
    intro f same inside
    obtain ⟨g', rfl, rfl⟩ := Option.map_eq_some_iff.mp same
    subst spaced
    have sound' := sound
    simp only [Task.pattern, Pattern.sound, Bool.and_eq_true] at sound'
    have clear := legible
    simp only [Task.pattern, Pattern.legible, Bool.and_eq_true] at clear
    refine .inl
      (accounted_repetition sound legible (begins _ rfl) first_found ahead ?_ fun ahead' => ?_)
    · exact ih rfl stands (fun _ _ => begins _ rfl) clear.1 sound'.1.1 (.inl sound'.1.2) ahead g rfl
    · exact ih' rfl (first_found.stands stands g rfl) (fun _ again => by cases again) legible sound
        (.inl sound'.1.2) ahead' g' rfl inside
  | @more s body c g found first_found _ ih ih' =>
    intro f same inside
    obtain ⟨g', rfl, rfl⟩ := Option.map_eq_some_iff.mp same
    subst spaced
    have sound' := sound
    simp only [Task.pattern, Pattern.sound, Bool.and_eq_true] at sound'
    have clear := legible
    simp only [Task.pattern, Pattern.legible, Bool.and_eq_true] at clear
    have skipped := Spacing.skip_in stands .spaced
    have settled := Spacing.skip_settled (s := .spaced) rfl c
    have ahead := h.not_layout ahead
    refine .inl (accounted_repetition sound legible settled first_found ahead ?_ fun ahead' => ?_)
    · exact ih rfl skipped (fun _ _ => settled) clear.1 sound'.1.1 (.inl sound'.1.2) ahead g rfl
    · exact ih' rfl (first_found.stands skipped g rfl) (fun _ again => by cases again) legible sound
        (.inl sound'.1.2) ahead' g' rfl inside
  | absent | never | allowed | enough =>
    intro f same inside
    cases same
    exact absurd ahead.length_le (Nat.not_le_of_lt inside)
  | stuck | refused =>
    intro f same
    cases same

/-- Every word of an accepted source that stands outside strings and comments and is no keyword is
an identifier of its tree, unless it begins with `function` and a function is read there, or with
`let` and the variable of a loop is. -/
theorem words_whole {source : String} {script : Script} (accepted : parse source = .ok script) :
    ∃ attempts root, matchRule .program source.toList = (attempts, some root) ∧
      ∀ before w k, WordIn source.toList before w k → String.ofList w ∉ keywords →
        root.Accounts before.length w := by
  obtain ⟨f, whole, -⟩ := parse_ok_iff.mp accepted
  obtain ⟨attempts, root, tree, children⟩ := whole.tree
  refine ⟨attempts, root, tree, fun before w k h free => ?_⟩
  have ahead : Outside (skipLayout (.start source.toList)).rest (w ++ k) :=
    h.not_layout (c := .start source.toList) h.outside
  have inside : f.cursor.rest.length < (w ++ k).length := by
    obtain ⟨ch, rest, rfl, -⟩ := h.begins
    simp [whole.passes.1]
  rcases h.accounted free whole rfl (Cursor.start_in _).skipLayout
      (fun _ _ => Cursor.skipLayout_settled _) (by decide) (by decide)
      (.inl (by decide)) ahead f rfl inside with ⟨m, mem, accounts⟩ | ⟨keyword, cut, -⟩
  · exact accounts.within (.child .root (children ▸ mem))
  · cases cut

theorem words_whole_letter : ∃ attempts root,
    matchRule .program "let letter = 1".toList = (attempts, some root) ∧
      root.Accounts 4 "letter".toList := by
  have accepted : (parse "let letter = 1").toOption.map (·.body.length) = some 1 := by
    decide +kernel
  obtain ⟨script, parsed, -⟩ := exists_parsed accepted
  obtain ⟨attempts, root, tree, accounts⟩ := words_whole parsed
  refine ⟨attempts, root, tree, accounts "let ".toList "letter".toList " = 1".toList ?_ (by decide)⟩
  have behind : ∀ ch ∈ "let ".toList.getLast?, isWordChar ch = false := by
    intro ch mem
    cases mem
    decide
  have ends : EndsWord " = 1".toList := by
    intro ch mem
    cases mem
    decide
  refine ⟨rfl, ⟨'l', "etter".toList, rfl, rfl⟩, List.all_eq_true.mp rfl, behind, ends, ?_⟩
  have apart : ∀ ch ∈ "let".toList, isPlain ch := List.all_eq_true.mp rfl
  exact (outside_plain apart).trans (.behind (p := [' ']) (.layout (.blank rfl)) .here)

/-- No identifier comes of this word. -/
theorem function_cut_off :
    WordIn "functionfoo() \x7b\x7d".toList [] "functionfoo".toList "() \x7b\x7d".toList ∧
    "functionfoo" ∉ keywords ∧ ∃ script, parse "functionfoo() \x7b\x7d" = .ok script ∧
      (script.functions.map (·.name), script.body.length) = (["foo"], 0) := by
  have ends : EndsWord "() \x7b\x7d".toList := by
    intro ch mem
    cases mem
    decide
  exact ⟨⟨rfl, ⟨'f', "unctionfoo".toList, rfl, rfl⟩, List.all_eq_true.mp rfl, by simp, ends,
    .here⟩, by decide, exists_parsed (by decide +kernel)⟩

end Script
end FrameScript
