import FrameScript.Proofs.Script.Layout
import FrameScript.Proofs.Script.Operands

/-!
# What tokens take

Tokens are matched without layout between their parts, so what they take is in the language of
their pattern. A name, a string and a numeral are found exactly where their texts come next.
-/

namespace FrameScript
namespace Script

variable {s : Spacing} {c d : Cursor} {t u k l : List Char} {ch : Char} {f : Found}

/-- The texts that the pattern takes without layout, whatever it looks ahead at. -/
inductive Pattern.Takes : Pattern → List Char → Prop
  | text {chars : List Char} : Takes (.text chars) chars
  | char {charClass : CharClass} {ch : Char} (holds : charClass.holds ch) :
    Takes (.char charClass) [ch]
  | start : Takes .start []
  | finish : Takes .finish []
  | rule {r : Rule} {t : List Char} (h : Takes r.pattern t) : Takes (.rule r) t
  | seq {p q : Pattern} {t u : List Char} (h : Takes p t) (k : Takes q u) :
    Takes (.seq p q) (t ++ u)
  | first {p q : Pattern} {t : List Char} (h : Takes p t) : Takes (.alt p q) t
  | second {p q : Pattern} {t : List Char} (h : Takes q t) : Takes (.alt p q) t
  | present {p : Pattern} {t : List Char} (h : Takes p t) : Takes (.opt p) t
  | absent {p : Pattern} : Takes (.opt p) []
  | many {p : Pattern} {t u : List Char} (h : Takes p t) (k : Takes (.many p) u) :
    Takes (.many p) (t ++ u)
  | never {p : Pattern} : Takes (.many p) []
  | reject {p : Pattern} : Takes (.reject p) []

def Task.pattern : Task → Pattern
  | once p => p
  | again p => .many p

/-- The match has taken a text of the pattern. -/
structure Found.Behind (f : Found) (p : Pattern) (c : Cursor) (t k : List Char) : Prop where
  comes : c.rest = t ++ k
  ends : f.cursor = c.after t
  takes : p.Takes t

theorem Found.Behind.rest {p : Pattern} (h : f.Behind p c t k) : f.cursor.rest = k := by
  rw [h.ends, Cursor.rest_after h.comes]

theorem Found.Behind.append {g : Found} {p q r : Pattern} {t' k' : List Char}
    (h : f.Behind p c t k) (h' : g.Behind q f.cursor t' k')
    (takes : p.Takes t → q.Takes t' → r.Takes (t ++ t')) :
    (f.before g).Behind r c (t ++ t') k' where
  comes := by
    rw [h.comes, List.append_assoc, ← h'.comes, h.rest]
  ends := by
    change g.cursor = _
    rw [h'.ends, h.ends, Cursor.after_after]
  takes := takes h.takes h'.takes

theorem found_nothing {p : Pattern} (takes : p.Takes []) : (Found.nothing c).Behind p c [] c.rest :=
  ⟨rfl, rfl, takes⟩

theorem Finds.takes {task : Task} {found : Option Found} (h : Finds s task c found)
    (joined : s ≠ .spaced) :
    ∀ f, found = some f → ∃ t k, f.Behind task.pattern c t k := by
  induction h with
  | text =>
    intro f same
    obtain ⟨next, dropped, rfl⟩ := Option.map_eq_some_iff.mp same
    obtain ⟨k, comes⟩ := Cursor.dropText?_prefix dropped
    rw [Cursor.dropText?_after comes] at dropped
    cases dropped
    exact ⟨_, k, comes, rfl, .text⟩
  | char =>
    intro f same
    obtain ⟨next, dropped, rfl⟩ := Option.map_eq_some_iff.mp same
    rw [Cursor.dropClass?] at dropped
    split at dropped
    · rename_i y rest comes
      simp only [Option.ite_none_right_eq_some, Option.some.injEq] at dropped
      obtain ⟨holds, rfl⟩ := dropped
      exact ⟨[y], rest, comes, Cursor.advance_eq_after comes, .char holds⟩
    · cases dropped
  | start | finish =>
    intro f same
    split at same <;> cases same
    exact ⟨[], _, found_nothing (by constructor)⟩
  | rule inside ih =>
    intro f same
    obtain ⟨g, rfl, rfl⟩ := Option.map_eq_some_iff.mp same
    obtain ⟨t, k, comes, ends, takes⟩ := ih (mt spacing_getD_spaced joined) g rfl
    exact ⟨t, k, comes, ends, .rule takes⟩
  | seq _ _ ih ih' =>
    intro f same
    obtain ⟨g, rfl, rfl⟩ := Option.map_eq_some_iff.mp same
    obtain ⟨t, k, behind⟩ := ih joined _ rfl
    obtain ⟨t', k', behind'⟩ := ih' joined g rfl
    rw [Spacing.skip, if_neg joined] at behind'
    exact ⟨_, _, behind.append behind' .seq⟩
  | many _ _ ih ih' =>
    intro f same
    obtain ⟨g, rfl, rfl⟩ := Option.map_eq_some_iff.mp same
    obtain ⟨t, k, behind⟩ := ih joined _ rfl
    obtain ⟨t', k', behind'⟩ := ih' joined g rfl
    exact ⟨_, _, behind.append behind' .many⟩
  | more _ _ ih ih' =>
    intro f same
    obtain ⟨g, rfl, rfl⟩ := Option.map_eq_some_iff.mp same
    rw [Spacing.skip, if_neg joined] at ih
    obtain ⟨t, k, behind⟩ := ih joined _ rfl
    obtain ⟨t', k', behind'⟩ := ih' joined g rfl
    exact ⟨_, _, behind.append behind' .many⟩
  | first _ ih =>
    intro f same
    obtain ⟨t, k, comes, ends, takes⟩ := ih joined f same
    exact ⟨t, k, comes, ends, .first takes⟩
  | second _ _ _ ih =>
    intro f same
    obtain ⟨t, k, comes, ends, takes⟩ := ih joined f same
    exact ⟨t, k, comes, ends, .second takes⟩
  | present _ ih =>
    intro f same
    obtain ⟨t, k, comes, ends, takes⟩ := ih joined f same
    exact ⟨t, k, comes, ends, .present takes⟩
  | absent =>
    intro f same
    cases same
    exact ⟨[], _, found_nothing .absent⟩
  | never | allowed | enough =>
    intro f same
    cases same
    exact ⟨[], _, found_nothing (by constructor)⟩
  | stuck | refused =>
    intro f same
    cases same

theorem Finds.hidden {task : Task} {found : Option Found} (h : Finds s task c found)
    (atomic : s = .atomic) : ∀ f, found = some f → f.nodes = [] := by
  induction h with
  | text | char =>
    intro f same
    obtain ⟨next, -, rfl⟩ := Option.map_eq_some_iff.mp same
    rfl
  | start | finish =>
    intro f same
    split at same <;> cases same
    rfl
  | rule =>
    intro f same
    obtain ⟨g, -, rfl⟩ := Option.map_eq_some_iff.mp same
    exact if_pos atomic
  | seq _ _ ih ih' | many _ _ ih ih' | more _ _ ih ih' =>
    intro f same
    obtain ⟨g, rfl, rfl⟩ := Option.map_eq_some_iff.mp same
    rw [Found.before, ih atomic _ rfl, ih' atomic g rfl]
    rfl
  | first _ ih | second _ _ _ ih | present _ ih => exact ih atomic
  | absent | never | allowed | enough =>
    intro f same
    cases same
    rfl
  | stuck | refused =>
    intro f same
    cases same

theorem Finds.token {r : Rule} (h : Finds s (.once (.rule r)) c (some f))
    (atomic : r.spacing = some .atomic) :
    ∃ t k, c.rest = t ++ k ∧ r.pattern.Takes t ∧
      f = ⟨c.after t, s.shown r c (.nothing (c.after t))⟩ := by
  generalize same : some f = found at h
  cases h with
  | rule inside =>
    obtain ⟨g, rfl, rfl⟩ := Option.map_eq_some_iff.mp same.symm
    rw [atomic, Option.getD_some] at inside
    obtain ⟨t, k, comes, ends, takes⟩ := inside.takes (by decide) g rfl
    have hidden : g.nodes = [] := inside.hidden rfl g rfl
    obtain ⟨cursor, nodes⟩ := g
    cases ends
    cases hidden
    exact ⟨t, k, comes, takes, rfl⟩

theorem Finds.of_text {chars : List Char} (h : Finds s (.once (.text chars)) c (some f)) :
    ∃ k, c.rest = chars ++ k ∧ f = .nothing (c.after chars) := by
  generalize same : some f = found at h
  cases h with
  | text =>
    obtain ⟨next, dropped, rfl⟩ := Option.map_eq_some_iff.mp same.symm
    obtain ⟨k, comes⟩ := Cursor.dropText?_prefix dropped
    rw [Cursor.dropText?_after comes] at dropped
    cases dropped
    exact ⟨k, comes, rfl⟩

/-- Neither a blank, nor a quote, nor a slash. -/
def isPlain (ch : Char) : Bool := !isBlank ch && ch != '"' && ch != '/'

/-- Texts and classes of plain characters, and no rule but keywords. -/
def Pattern.plain : Pattern → Bool
  | text chars => chars.all isPlain
  | char charClass => charClass != .any
  | start | finish => false
  | rule r => r == .keyword
  | seq first second | alt first second => first.plain && second.plain
  | opt body | many body | reject body => body.plain

theorem isPlain_of_isWordChar (h : isWordChar ch) : isPlain ch := by
  simp only [isPlain, isBlank, bne, Bool.and_eq_true, Bool.not_eq_true', Bool.or_eq_false_iff,
    decide_eq_false_iff_not, beq_eq_false_iff_ne]
  refine ⟨⟨⟨⟨⟨?_, ?_⟩, ?_⟩, ?_⟩, ?_⟩, ?_⟩ <;> (rintro rfl; cases h)

theorem CharClass.plain {charClass : CharClass} (other : charClass ≠ .any)
    (holds : charClass.holds ch) : isPlain ch := by
  refine isPlain_of_isWordChar ?_
  cases charClass with
  | any => exact absurd rfl other
  | digit => simp only [CharClass.holds] at holds; simp [isWordChar, Char.isAlphanum, holds]
  | letter => simp only [CharClass.holds] at holds; simp [isWordChar, Char.isAlphanum, holds]
  | alphanumeric => simp only [CharClass.holds] at holds; simp [isWordChar, holds]

theorem keyword_plain : (Rule.pattern .keyword).plain := by decide

theorem Pattern.Takes.plain {p : Pattern} (h : p.Takes t) (plain : p.plain) :
    ∀ ch ∈ t, isPlain ch := by
  induction h with
  | text => exact List.all_eq_true.mp plain
  | char holds =>
    intro ch mem
    rw [List.mem_singleton.mp mem]
    exact CharClass.plain (by simpa [Pattern.plain] using plain) holds
  | start | finish | absent | never | reject => simp
  | rule _ ih =>
    obtain rfl := beq_iff_eq.mp plain
    exact ih keyword_plain
  | seq _ _ ih ih' =>
    simp only [Pattern.plain, Bool.and_eq_true] at plain
    exact List.forall_mem_append.mpr ⟨ih plain.1, ih' plain.2⟩
  | first _ ih =>
    simp only [Pattern.plain, Bool.and_eq_true] at plain
    exact ih plain.1
  | second _ ih =>
    simp only [Pattern.plain, Bool.and_eq_true] at plain
    exact ih plain.2
  | present _ ih => exact ih plain
  | many _ _ ih ih' => exact List.forall_mem_append.mpr ⟨ih plain, ih' plain⟩

/-- Atomic rules take plain characters, but for the inside of a string. -/
theorem Rule.plain_pattern {r : Rule} (atomic : r.spacing = some .atomic)
    (other : r ≠ .stringContent) : r.pattern.plain := by
  cases r <;> first | decide | exact absurd rfl other | cases atomic

theorem keywords_apart {w w' : String} (mem : w ∈ keywords) (mem' : w' ∈ keywords)
    (same : t ++ k = w.toList ++ u) (own : w'.toList = t) : w.toList = t := by
  have apart : ∀ w ∈ keywords, ∀ w' ∈ keywords, w.toList <+: w'.toList → w = w' := by
    decide
  subst own
  rcases List.append_eq_append_iff.mp same with ⟨more, first, -⟩ | ⟨more, first, -⟩
  · rw [apart w' mem' w mem ⟨more, first.symm⟩]
  · rw [apart w mem w' mem' ⟨more, first.symm⟩]

theorem finds_keyword (mem : String.ofList t ∈ keywords) (ends : EndsWord k)
    (comes : c.rest = t ++ k) :
    Finds .atomic (.once (Rule.pattern .keyword)) c (some (.nothing (c.after t))) :=
  wholeWord_finds (by decide) ends comes mem fun w own k' same =>
    keywords_apart own mem same (String.toList_ofList)

theorem keyword_no_name (mem : String.ofList t ∈ keywords) (ends : EndsWord k)
    (comes : c.rest = t ++ k) : Finds s (.once (.rule .identifier)) c none :=
  .rule_fails (.stuck (.refused (.rule (r := .keyword) (finds_keyword mem ends comes))))

/-- The word that comes next, which may be empty. -/
theorem exists_word (t : List Char) :
    ∃ w k, t = w ++ k ∧ (∀ ch ∈ w, isWordChar ch) ∧ EndsWord k := by
  refine ⟨t.takeWhile isWordChar, t.dropWhile isWordChar, by simp, ?_, ?_⟩
  · exact List.all_eq_true.mp List.all_takeWhile
  · intro ch mem
    have stops := List.head?_dropWhile_not isWordChar t
    rw [Option.mem_def.mp mem] at stops
    simpa using stops

/-- A name comes next. -/
def NameAt (c : Cursor) (name : String) : Prop :=
  IsName name ∧ ∃ k, c.rest = name.toList ++ k ∧ EndsWord k

/-- Names are found where they come next, and only there. -/
theorem identifier_fails (other : ∀ name, ¬ NameAt c name) :
    Finds s (.once (.rule .identifier)) c none := by
  obtain ⟨found, finds⟩ := exists_finds s (p := .rule .identifier) rfl c
  cases found with
  | none => exact finds
  | some f =>
    obtain ⟨t, k, comes, takes, -⟩ := finds.token rfl
    obtain ⟨w, k', comes', word, ends⟩ := exists_word c.rest
    -- What has been taken begins as a name does, and so does the word.
    have begins : ∃ ch rest, w = ch :: rest ∧ (ch.isAlpha ∨ ch = '_') := by
      obtain ⟨x, rest, rfl, first⟩ : ∃ x rest, t = x :: rest ∧ (x.isAlpha ∨ x = '_') := by
        cases takes with
        | seq no_keyword more =>
          cases no_keyword
          cases more with
          | seq first _ =>
            cases first with
            | first h =>
              cases h with
              | char holds => exact ⟨_, _, rfl, .inl holds⟩
            | second h =>
              cases h
              exact ⟨_, _, rfl, .inr rfl⟩
      have own : isWordChar x := by
        rcases first with alpha | rfl
        · simp [isWordChar, Char.isAlphanum, alpha]
        · decide
      cases w with
      | nil =>
        have next := ends x (by rw [← List.nil_append k', ← comes', comes]; rfl)
        rw [own] at next
        cases next
      | cons y others =>
        rw [comes] at comes'
        obtain ⟨rfl, -⟩ := List.cons.inj comes'
        exact ⟨x, others, rfl, first⟩
    by_cases free : String.ofList w ∈ keywords
    · exact finds.unique (keyword_no_name free ends comes') ▸ finds
    · have name : IsName (String.ofList w) :=
        ⟨by simpa using begins, by simpa using word, free⟩
      exact absurd ⟨name, k', by rw [comes', String.toList_ofList], ends⟩ (other _)

theorem Finds.name (h : Finds .spaced (.once (.rule .identifier)) c (some f)) :
    ∃ name n, NameAt c name ∧ n.rule = .identifier ∧ n.start = c ∧ n.text = name ∧
      f = ⟨c.after name.toList, [n]⟩ := by
  by_cases some_name : ∃ name, NameAt c name
  · obtain ⟨name, isName, k, comes, ends⟩ := some_name
    have found := Finds.rule (s := .spaced) (r := .identifier) (finds_name isName ends comes)
    cases h.unique found
    refine ⟨name, _, ⟨isName, k, comes, ends⟩, rfl, rfl, ?_, rfl⟩
    rw [Found.nothing, Node.text_after _ comes, String.ofList_toList]
  · cases h.unique (identifier_fails fun name named => some_name ⟨name, named⟩)

theorem NameAt.unique {name other : String} (h : NameAt c name) (h' : NameAt c other) :
    name = other := by
  obtain ⟨isName, k, comes, ends⟩ := h
  obtain ⟨isName', k', comes', ends'⟩ := h'
  exact String.toList_inj.mp (word_unique isName.word isName'.word ends ends' (comes ▸ comes'))

theorem Pattern.Takes.digits (h : (Pattern.repeated (.char .digit)).Takes t) : Digits t := by
  have many {p : Pattern} {t : List Char} (h : p.Takes t) (same : p = .many (.char .digit)) :
      ∀ ch ∈ t, ch.isDigit := by
    induction h with
    | many h _ _ ih =>
      cases same
      cases h with
      | char holds => exact List.forall_mem_cons.mpr ⟨holds, ih rfl⟩
    | never => simp
    | _ => cases same
  cases h with
  | seq first others =>
    cases first with
    | char holds => exact ⟨by simp, List.forall_mem_cons.mpr ⟨holds, many others rfl⟩⟩

theorem Pattern.Takes.numeral (h : (Rule.pattern .number).Takes t) : Numeral t := by
  cases h with
  | seq whole more =>
    cases more with
    | seq fraction exponent =>
      refine .mk whole.digits ?_ ?_
      · cases fraction with
        | absent => exact .none
        | present h =>
          cases h with
          | seq point digits =>
            cases point
            exact .digits digits.digits
      · cases exponent with
        | absent => exact .none
        | present h =>
          cases h with
          | @seq _ _ m _ mark rest =>
            have marked : ∃ e, (e = 'e' ∨ e = 'E') ∧ m = [e] := by
              cases mark with
              | first h =>
                cases h
                exact ⟨'e', .inl rfl, rfl⟩
              | second h =>
                cases h
                exact ⟨'E', .inr rfl, rfl⟩
            obtain ⟨e, either, rfl⟩ := marked
            cases rest with
            | seq sign digits =>
              cases sign with
              | absent => exact .plain either digits.digits
              | present h =>
                cases h with
                | first h =>
                  cases h
                  exact .signed either (.inl rfl) digits.digits
                | second h =>
                  cases h
                  exact .signed either (.inr rfl) digits.digits

theorem Digits.last (h : Digits t) (u : List Char) : ∃ y ∈ (u ++ t).getLast?, y.isDigit := by
  refine ⟨t.getLast h.filled, ?_, h.digits _ (List.getLast_mem h.filled)⟩
  simp [List.getLast?_append, List.getLast?_eq_some_getLast h.filled]

def isLetter (ch : Char) : Bool := ch.isAlpha || ch == '_'

theorem isDigit_of_isLetter (h : isLetter ch) : ch.isDigit = false :=
  not_isDigit_of_name (by simpa [isLetter] using h)

/-- A letter in a numeral stands behind a digit. -/
theorem Numeral.behind_digit {a b : List Char} (h : Numeral (a ++ ch :: b)) (letter : isLetter ch) :
    ∃ y ∈ a.getLast?, y.isDigit := by
  have no_digit := isDigit_of_isLetter letter
  have apart {d : List Char} (digits : ∀ x ∈ d, x.isDigit) : ch ∉ d := fun mem => by
    rw [digits ch mem] at no_digit
    cases no_digit
  generalize whole : a ++ ch :: b = t at h
  cases h with
  | @mk d f e digits fraction exponent =>
    have fraction_apart : ch ∉ f := by
      cases fraction with
      | none => simp
      | digits more =>
        intro mem
        rcases List.mem_cons.mp mem with rfl | mem
        · cases letter
        · exact apart more.digits mem
    have ends_digit : ∃ y ∈ (d ++ f).getLast?, y.isDigit := by
      cases fraction with
      | none => simpa using digits.last []
      | digits more => simpa using more.last (d ++ ['.'])
    rw [← List.append_assoc] at whole
    -- The letter is the mark of the exponent, since neither digits nor a sign are letters.
    obtain ⟨more, rfl, exponent_is⟩ : ∃ more, a = d ++ f ++ more ∧ e = more ++ ch :: b := by
      rcases List.append_eq_append_iff.mp whole with ⟨more, left, right⟩ | ⟨more, left, right⟩
      · cases more with
        | nil => exact ⟨[], by simpa using left.symm, by simpa using right.symm⟩
        | cons x rest =>
          obtain ⟨rfl, -⟩ := List.cons.inj right
          have mem : ch ∈ d ++ f := by simp [left]
          exact absurd mem (by simp [apart digits.digits, fraction_apart])
      · exact ⟨more, left, right⟩
    cases more with
    | nil => simpa using ends_digit
    | cons x rest =>
      refine absurd (show ch ∈ rest ++ ch :: b by simp) ?_
      cases exponent with
      | none => cases exponent_is
      | plain _ more =>
        simp only [List.cons_append, List.cons.injEq] at exponent_is
        rw [← exponent_is.2]
        exact apart more.digits
      | signed _ either more =>
        simp only [List.cons_append, List.cons.injEq] at exponent_is
        rw [← exponent_is.2]
        intro mem
        rcases List.mem_cons.mp mem with rfl | mem
        · rcases either with rfl | rfl <;> cases letter
        · exact apart more.digits mem

theorem Digits.span (h : Digits t) (ends : ∀ ch ∈ k.head?, ch.isDigit = false) :
    (t ++ k).takeWhile Char.isDigit = t ∧ (t ++ k).dropWhile Char.isDigit = k :=
  Number.Decimal.takeWhile_digits h.digits ends

theorem Exponent.value {e : Char} {rest : List Char} (h : Exponent (e :: rest)) :
    ∃ n, Decimal.readExponent? rest = some n := by
  have unsigned {d : List Char} (digits : Digits d) : d.isEmpty = false ∧ d.all Char.isDigit :=
    ⟨List.isEmpty_eq_false_iff.mpr digits.filled, List.all_eq_true.mpr digits.digits⟩
  cases h with
  | plain _ digits =>
    have sign : Decimal.readSign rest = (false, rest) := by
      unfold Decimal.readSign
      split
      · cases digits.digits '-' List.mem_cons_self
      · cases digits.digits '+' List.mem_cons_self
      · rfl
    simp [Decimal.readExponent?, sign, unsigned digits]
  | signed _ either digits =>
    rcases either with rfl | rfl
    · simp [Decimal.readExponent?, Decimal.readSign, unsigned digits]
    · simp [Decimal.readExponent?, Decimal.readSign, unsigned digits]

theorem Numeral.value (h : Numeral t) : ∃ x, Number.ofText? (String.ofList t) = some x := by
  cases h with
  | @mk d f e digits fraction exponent =>
    obtain ⟨ch, rest, rfl⟩ := List.exists_cons_of_ne_nil digits.filled
    have exponent_ends : ∀ x ∈ e.head?, x.isDigit = false ∧ x ≠ '.' := by
      intro x mem
      rcases exponent.head x mem with rfl | rfl <;> decide
    have fraction_ends : ∀ x ∈ (f ++ e).head?, x.isDigit = false := by
      intro x mem
      cases fraction with
      | none => exact (exponent_ends x mem).1
      | digits _ =>
        cases mem
        decide
    obtain ⟨whole, behind⟩ := digits.span fraction_ends
    have decimal : ∃ x, Decimal.ofChars? ((ch :: rest) ++ (f ++ e)) = some x := by
      unfold Decimal.ofChars?
      dsimp only
      rw [whole, behind]
      cases fraction with
      | none =>
        cases e with
        | nil => simp
        | cons mark rest =>
          obtain ⟨n, read⟩ := exponent.value
          rcases exponent.head mark rfl with rfl | rfl <;> simp [read]
      | digits more =>
        obtain ⟨fraction_is, behind⟩ := more.span fun x mem => (exponent_ends x mem).1
        simp only [List.cons_append, fraction_is, behind]
        cases e with
        | nil => simp
        | cons mark rest =>
          obtain ⟨n, read⟩ := exponent.value
          rcases exponent.head mark rfl with rfl | rfl <;> simp [read]
    obtain ⟨x, read⟩ := decimal
    rw [List.cons_append] at read ⊢
    rw [Number.ofText?_of_digit (digits.digits ch List.mem_cons_self), read]
    exact ⟨_, rfl⟩

/-- What can stand between quotes, up to where no more can. -/
theorem exists_quotable (t : List Char) : ∃ u k, t = u ++ k ∧ Quotable u ∧ EndsQuoted k := by
  suffices both : ∀ n (t : List Char), t.length ≤ n →
      ∃ u k, t = u ++ k ∧ Quotable u ∧ EndsQuoted k from both t.length t (Nat.le_refl _)
  intro n
  induction n with
  | zero =>
    intro t short
    obtain rfl := List.length_eq_zero_iff.mp (Nat.le_zero.mp short)
    exact ⟨[], [], rfl, .nil, .nil⟩
  | succ n ih =>
    intro t short
    cases t with
    | nil => exact ⟨[], [], rfl, .nil, .nil⟩
    | cons x rest =>
      have shorter := Nat.le_of_succ_le_succ short
      by_cases quote : x = '"'
      · subst quote
        exact ⟨[], _, rfl, .nil, .quote rest⟩
      · by_cases slash : x = '\\'
        · subst slash
          cases rest with
          | nil => exact ⟨[], _, rfl, .nil, .slash⟩
          | cons y rest =>
            obtain ⟨u, k, rfl, inside, ends⟩ := ih rest (Nat.le_of_succ_le shorter)
            exact ⟨'\\' :: y :: u, k, rfl, .escape y inside, ends⟩
        · obtain ⟨u, k, rfl, inside, ends⟩ := ih rest shorter
          exact ⟨x :: u, k, rfl, .plain quote slash inside, ends⟩

theorem string_fails (other : ∀ t k, Quotable t → c.rest ≠ '"' :: (t ++ '"' :: k)) :
    Finds .spaced (.once (.rule .string)) c none := by
  by_cases opens : ∃ rest, c.rest = '"' :: rest
  · obtain ⟨rest, comes⟩ := opens
    obtain ⟨u, k, rfl, inside, ends⟩ := exists_quotable rest
    have opening : Finds .joined (.once (.lit "\"")) c (some (.nothing (c.after ['"']))) :=
      finds_text comes
    have behind : (c.after ['"']).rest = u ++ k := Cursor.rest_after (t := ['"']) comes
    have content : Finds .joined (.once (.rule .stringContent)) (c.after ['"']) _ :=
      .rule (r := .stringContent) (finds_content inside ends behind)
    have unclosed : ∀ k', k ≠ ['"'] ++ k' := by
      rintro k' rfl
      exact other u k' inside comes
    have closing : Finds .joined (.once (.lit "\"")) ((c.after ['"']).after u) none :=
      fails_text fun k' comes' => unclosed k' ((Cursor.rest_after behind).symm.trans comes')
    exact .rule_fails (opening.second_fails (content.second_fails closing))
  · exact .rule_fails (.stuck (fails_text fun rest comes => opens ⟨rest, comes⟩))

theorem Finds.string (h : Finds .spaced (.once (.rule .string)) c (some f)) :
    ∃ t k, Quotable t ∧ c.rest = '"' :: (t ++ '"' :: k) ∧
      f = ⟨c.after ('"' :: (t ++ ['"'])), [.mk .string c (t.length + 2) (c.content t)]⟩ := by
  by_cases some_string : ∃ t k, Quotable t ∧ c.rest = '"' :: (t ++ '"' :: k)
  · obtain ⟨t, k, inside, comes⟩ := some_string
    cases h.unique (finds_string inside comes).2
    exact ⟨t, k, inside, comes, rfl⟩
  · cases h.unique (string_fails fun t k inside comes => some_string ⟨t, k, inside, comes⟩)

end Script
end FrameScript
