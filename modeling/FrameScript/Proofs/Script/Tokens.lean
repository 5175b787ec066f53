import FrameScript.Proofs.Script.Beginnings
import FrameScript.Script.Reader

/-!
# Tokens

How the matcher takes texts, blanks, words, numerals and strings: the longest of them that comes
next, from its first character to the last.
-/

namespace FrameScript
namespace Script

variable {s : Spacing} {c : Cursor} {t u k : List Char} {ch : Char}

namespace Cursor

/-- The cursor behind a text that comes next. -/
def after (c : Cursor) (t : List Char) : Cursor :=
  ⟨c.rest.drop t.length, c.position + t.length, c.line + t.count '\n'⟩

@[simp] theorem after_nil (c : Cursor) : c.after [] = c := rfl

@[simp] theorem after_after (c : Cursor) (t u : List Char) :
    (c.after t).after u = c.after (t ++ u) := by
  simp [after, Nat.add_assoc]

theorem rest_after (comes : c.rest = t ++ k) : (c.after t).rest = k := by
  simp [after, comes]

theorem advance_eq_after {rest : List Char} (comes : c.rest = ch :: rest) :
    c.advance ch rest = c.after [ch] := by
  simp only [advance, after, comes, List.length_singleton, List.drop_one, List.tail_cons,
    List.count_singleton, beq_iff_eq]
  split <;> rfl

theorem rest_behind {x : Char} {a b : List Char} (comes : c.rest = t ++ (a ++ (x :: (b ++ k)))) :
    (c.after (t ++ (a ++ (x :: b)))).rest = k :=
  rest_after (by simp only [comes, List.append_assoc, List.cons_append])

theorem dropText?_after (comes : c.rest = t ++ k) : c.dropText? t = some (c.after t) := by
  induction t generalizing c with
  | nil => rfl
  | cons x xs ih =>
    rw [dropText?, comes, List.cons_append]
    dsimp only
    rw [if_pos rfl, advance_eq_after (comes.trans (List.cons_append ..)), ih, after_after]
    · rfl
    · exact rest_after (comes.trans (List.append_cons [] x (xs ++ k)))

theorem dropText?_prefix {next : Cursor} (dropped : c.dropText? t = some next) :
    ∃ k, c.rest = t ++ k := by
  induction t generalizing c with
  | nil => exact ⟨_, rfl⟩
  | cons x xs ih =>
    rw [dropText?] at dropped
    split at dropped
    · rename_i y rest comes
      split at dropped
      · rename_i same
        obtain ⟨k, behind⟩ := ih dropped
        exact ⟨k, by rw [comes, same, List.cons_append, ← behind]; rfl⟩
      · cases dropped
    · cases dropped

theorem dropText?_eq_none (other : ∀ k, c.rest ≠ t ++ k) : c.dropText? t = none := by
  cases dropped : c.dropText? t with
  | none => rfl
  | some next =>
    obtain ⟨k, comes⟩ := dropText?_prefix dropped
    exact absurd comes (other k)

end Cursor

theorem finds_text (comes : c.rest = t ++ k) :
    Finds s (.once (.text t)) c (some (.nothing (c.after t))) := by
  have found := @Finds.text s t c
  rwa [Cursor.dropText?_after comes] at found

theorem fails_text (other : ∀ k, c.rest ≠ t ++ k) : Finds s (.once (.text t)) c none := by
  have found := @Finds.text s t c
  rwa [Cursor.dropText?_eq_none other] at found

theorem fails_single {x y : Char} (comes : c.rest = x :: k) (other : x ≠ y) :
    Finds s (.once (.text [y])) c none := by
  refine fails_text fun k' comes' => other ?_
  rw [comes] at comes'
  exact (List.cons.inj comes').1

theorem finds_char {charClass : CharClass} (comes : c.rest = ch :: k)
    (holds : charClass.holds ch) :
    Finds s (.once (.char charClass)) c (some (.nothing (c.after [ch]))) := by
  have found := @Finds.char s charClass c
  have dropped : c.dropClass? charClass = some (c.after [ch]) := by
    simp [Cursor.dropClass?, comes, holds, Cursor.advance_eq_after comes]
  rwa [dropped] at found

theorem fails_char {charClass : CharClass}
    (other : ∀ ch ∈ c.rest.head?, charClass.holds ch = false) :
    Finds s (.once (.char charClass)) c none := by
  have found := @Finds.char s charClass c
  have dropped : c.dropClass? charClass = none := by
    unfold Cursor.dropClass?
    split
    · rename_i y rest comes
      simp [other y (by rw [comes]; rfl)]
    · rfl
  rwa [dropped] at found

def Gap (a : List Char) : Prop := ∀ ch ∈ a, isBlank ch

namespace Cursor

theorem settled_of_head (other : ∀ ch ∈ c.rest.head?, isBlank ch = false ∧ ch ≠ '/') :
    c.Settled := by
  refine ⟨fun ch mem => (other ch mem).1, ?_⟩
  unfold dropComment?
  split
  · rename_i rest comes
    exact absurd rfl (other '/' (by rw [comes]; rfl)).2
  · rename_i rest comes
    exact absurd rfl (other '/' (by rw [comes]; rfl)).2
  · rfl

/-- Before a character of its own, no layout comes. -/
theorem settled_of_next (plain : isBlank ch = false ∧ ch ≠ '/') (comes : c.rest = ch :: k) :
    c.Settled := by
  refine settled_of_head fun x mem => ?_
  rw [comes] at mem
  cases mem
  exact plain

/-- A slash begins no comment if neither a slash nor a star follows. -/
theorem settled_slash (comes : c.rest = '/' :: k)
    (single : ∀ ch ∈ k.head?, ch ≠ '/' ∧ ch ≠ '*') : c.Settled := by
  refine ⟨?_, ?_⟩
  · intro ch mem
    rw [comes] at mem
    cases mem
    rfl
  · unfold dropComment?
    rw [comes]
    split
    · rename_i rest eq
      cases eq
      exact absurd rfl (single '/' rfl).1
    · rename_i rest eq
      cases eq
      exact absurd rfl (single '*' rfl).2
    · rfl

theorem skipLayout_idem (c : Cursor) : skipLayout (skipLayout c) = skipLayout c :=
  (skipLayout_settled c).skip

theorem skipLayout_gap {a : List Char} (gap : Gap a) (comes : c.rest = a ++ k)
    (settled : (c.after a).Settled) : skipLayout c = c.after a := by
  induction a generalizing c with
  | nil => exact settled.skip
  | cons x xs ih =>
    obtain ⟨blank, others⟩ := List.forall_mem_cons.mp gap
    have first : c.rest = x :: (xs ++ k) := comes
    have behind : (c.after [x]).rest = xs ++ k := rest_after first
    have step : skipLayout c = skipLayout (c.after [x]) := by
      rw [skipLayout, skipLayoutWith, first]
      dsimp only
      rw [if_pos blank, advance_eq_after first, skipLayout, behind, List.length_cons]
    rw [step, ih others behind]
    · simp
    · simpa using settled

end Cursor

section

variable {body : Pattern} {pieces : List (List Char)} (joined : s ≠ .spaced)
  (each : ∀ u ∈ pieces, ∀ (d : Cursor) (k' : List Char), d.rest = u ++ k' →
    Finds s (.once body) d (some (.nothing (d.after u))))
  (ends : ∀ d : Cursor, d.rest = k → Finds s (.once body) d none)

include joined each ends

/-- Where no blanks are skipped, pieces are taken one after the other until none comes. -/
theorem again_finds (comes : c.rest = pieces.flatten ++ k) :
    Finds s (.again body) c (some (.nothing (c.after pieces.flatten))) := by
  have stays (d : Cursor) : s.skip d = d := if_neg joined
  induction pieces generalizing c with
  | nil =>
    have last : Finds s (.once body) (s.skip c) none := by
      rw [stays c]
      exact ends c comes
    exact .enough last
  | cons u rest ih =>
    have comes' : c.rest = u ++ (rest.flatten ++ k) := by simpa using comes
    have first : Finds s (.once body) (s.skip c) (some (.nothing (c.after u))) := by
      rw [stays c]
      exact each u List.mem_cons_self c _ comes'
    have others := ih (fun v mem => each v (List.mem_cons_of_mem u mem)) (Cursor.rest_after comes')
    rw [Cursor.after_after] at others
    exact .more first others

theorem many_finds (comes : c.rest = pieces.flatten ++ k) :
    Finds s (.once (.many body)) c (some (.nothing (c.after pieces.flatten))) := by
  cases pieces with
  | nil => exact .never (ends c comes)
  | cons u rest =>
    have comes' : c.rest = u ++ (rest.flatten ++ k) := by simpa using comes
    have others := again_finds joined (fun v mem => each v (List.mem_cons_of_mem u mem)) ends
      (Cursor.rest_after comes')
    rw [Cursor.after_after] at others
    exact .many (each u List.mem_cons_self c _ comes') others

end

/-- The pattern takes one character of some kind. -/
structure TakesChar (s : Spacing) (body : Pattern) (kind : Char → Bool) : Prop where
  takes : ∀ {c : Cursor} {x : Char} {k : List Char}, c.rest = x :: k → kind x →
    Finds s (.once body) c (some (.nothing (c.after [x])))
  fails : ∀ {c : Cursor}, (∀ ch ∈ c.rest.head?, kind ch = false) → Finds s (.once body) c none

theorem takes_class (s : Spacing) (charClass : CharClass) :
    TakesChar s (.char charClass) charClass.holds := ⟨finds_char, fails_char⟩

theorem TakesChar.alt {first second : Pattern} {kind other : Char → Bool}
    (h : TakesChar s first kind) (k : TakesChar s second other) :
    TakesChar s (.alt first second) fun ch => kind ch || other ch where
  takes := by
    intro c ch rest comes holds
    cases own : kind ch with
    | true => exact .first (h.takes comes own)
    | false =>
      rw [own] at holds
      refine .second (h.fails fun x mem => ?_) (k.takes comes holds)
      rw [comes] at mem
      cases mem
      exact own
  fails := by
    intro c none_here
    exact .second (h.fails fun ch mem => (Bool.or_eq_false_iff.mp (none_here ch mem)).1)
      (k.fails fun ch mem => (Bool.or_eq_false_iff.mp (none_here ch mem)).2)

theorem takes_text (s : Spacing) (x : Char) : TakesChar s (.text [x]) (· == x) where
  takes := by
    intro c ch k comes same
    obtain rfl : ch = x := by simpa using same
    exact finds_text comes
  fails := by
    intro c other
    refine fails_text fun k comes => ?_
    have apart := other x (by rw [comes]; rfl)
    simp at apart

namespace TakesChar

variable {body : Pattern} {kind : Char → Bool} (h : TakesChar s body kind) (joined : s ≠ .spaced)
  (all : ∀ ch ∈ t, kind ch) (ends : ∀ ch ∈ k.head?, kind ch = false) (comes : c.rest = t ++ k)

include h joined all ends comes

theorem many : Finds s (.once (.many body)) c (some (.nothing (c.after t))) := by
  have whole : (t.map fun ch => [ch]).flatten = t := by
    rw [← List.flatMap_def]
    exact List.flatMap_singleton' t
  have each : ∀ u ∈ t.map fun ch => [ch], ∀ (d : Cursor) (k' : List Char), d.rest = u ++ k' →
      Finds s (.once body) d (some (.nothing (d.after u))) := by
    intro u mem d k' comes'
    obtain ⟨ch, inside, rfl⟩ := List.mem_map.mp mem
    exact h.takes comes' (all ch inside)
  have last : ∀ d : Cursor, d.rest = k → Finds s (.once body) d none := by
    intro d rest
    exact h.fails (rest ▸ ends)
  have found := many_finds joined each last (by rw [whole]; exact comes)
  rwa [whole] at found

theorem repeated (filled : t ≠ []) :
    Finds s (.once (.repeated body)) c (some (.nothing (c.after t))) := by
  obtain ⟨ch, rest, rfl⟩ := List.exists_cons_of_ne_nil filled
  obtain ⟨first, others⟩ := List.forall_mem_cons.mp all
  have comes' : c.rest = [ch] ++ (rest ++ k) := comes
  have stays : s.skip (c.after [ch]) = c.after [ch] := if_neg joined
  have found := h.many joined others ends (Cursor.rest_after comes')
  rw [Cursor.after_after] at found
  exact .seq (h.takes comes first) (stays.symm ▸ found)

end TakesChar

/-- No word goes on here. -/
def EndsWord (k : List Char) : Prop := ∀ ch ∈ k.head?, isWordChar ch = false

theorem takes_wordChar (s : Spacing) : TakesChar s .wordChar isWordChar := by
  have takes := (takes_class s .alphanumeric).alt (takes_text s '_')
  have same : (fun ch => CharClass.holds .alphanumeric ch || ch == '_') = isWordChar := by
    funext ch
    rfl
  rwa [same] at takes

/-- Of words that end where no word goes on, only one comes next. -/
theorem word_unique {t u k k' : List Char} (word : ∀ ch ∈ t, isWordChar ch)
    (other : ∀ ch ∈ u, isWordChar ch) (ends : EndsWord k) (ends' : EndsWord k')
    (same : t ++ k = u ++ k') : t = u := by
  have longest {t k : List Char} (word : ∀ ch ∈ t, isWordChar ch) (ends : EndsWord k) :
      (t ++ k).takeWhile isWordChar = t := by
    rw [List.takeWhile_append_of_pos word]
    cases k with
    | nil => simp
    | cons ch rest => simp [ends ch rfl]
  rw [← longest word ends, same, longest other ends']

/-- A choice of texts takes one that comes next, and fails only if none does. -/
theorem choice_finds (ws : List String) (c : Cursor) :
    (∃ w ∈ ws, (∃ k, c.rest = w.toList ++ k) ∧
      Finds s (.once (.choice (ws.map .lit))) c (some (.nothing (c.after w.toList)))) ∨
    (∀ w ∈ ws, ∀ k, c.rest ≠ w.toList ++ k) ∧ Finds s (.once (.choice (ws.map .lit))) c none := by
  induction ws with
  | nil => exact .inr ⟨by simp, .refused (f := .nothing c) (finds_text (k := c.rest) rfl)⟩
  | cons w rest ih =>
    by_cases here : ∃ k, c.rest = w.toList ++ k
    · obtain ⟨k, comes⟩ := here
      have found : Finds s (.once (.lit w)) c (some (.nothing (c.after w.toList))) :=
        finds_text comes
      refine .inl ⟨w, List.mem_cons_self, ⟨k, comes⟩, ?_⟩
      cases rest with
      | nil => exact found
      | cons other others => exact .first found
    · have fails : Finds s (.once (.lit w)) c none :=
        fails_text fun k comes => here ⟨k, comes⟩
      cases rest with
      | nil => exact .inr ⟨by simpa using here, fails⟩
      | cons other others =>
        rcases ih with ⟨v, mem, comes, found⟩ | ⟨none_here, failed⟩
        · exact .inl ⟨v, List.mem_cons_of_mem w mem, comes, .second fails found⟩
        · refine .inr ⟨fun v mem k comes => ?_, .second fails failed⟩
          rcases List.mem_cons.mp mem with rfl | mem
          · exact here ⟨k, comes⟩
          · exact none_here v mem k comes

section

variable {ws : List String} (joined : s ≠ .spaced)
  (words : ∀ w ∈ ws, ∀ ch ∈ w.toList, isWordChar ch) (word : ∀ ch ∈ t, isWordChar ch)
  (ends : EndsWord k) (comes : c.rest = t ++ k)

include joined words word ends comes

theorem wholeWord_fails (other : ∀ w ∈ ws, w.toList ≠ t) :
    Finds s (.once (.wholeWord (.choice (ws.map .lit)))) c none := by
  have stays (d : Cursor) : s.skip d = d := if_neg joined
  rcases choice_finds ws c with ⟨w, mem, ⟨k', comes'⟩, found⟩ | ⟨-, failed⟩
  · -- One of the words begins this one, which goes on behind it.
    have goes_on : ¬ EndsWord k' := fun ends' =>
      other w mem (word_unique (words w mem) word ends' ends (comes'.symm.trans comes))
    cases k' with
    | nil => exact absurd (by simp [EndsWord]) goes_on
    | cons x rest =>
      have next : isWordChar x := by simpa [EndsWord] using goes_on
      have refused : Finds s (.once (.reject .wordChar)) (s.skip (c.after w.toList)) none := by
        rw [stays]
        exact .refused ((takes_wordChar s).takes (Cursor.rest_after comes') next)
      exact .seq found refused
  · exact .stuck failed

omit words word in
/-- A word that is the only one of these that it begins with. -/
theorem wholeWord_finds (mem : String.ofList t ∈ ws)
    (only : ∀ w ∈ ws, ∀ k', t ++ k = w.toList ++ k' → w.toList = t) :
    Finds s (.once (.wholeWord (.choice (ws.map .lit)))) c (some (.nothing (c.after t))) := by
  have stays (d : Cursor) : s.skip d = d := if_neg joined
  rcases choice_finds ws c with ⟨w, mem, ⟨k', comes'⟩, found⟩ | ⟨none_here, -⟩
  · have same := only w mem k' (comes.symm.trans comes')
    rw [same] at found
    have last : Finds s (.once .wordChar) (s.skip (c.after t)) none := by
      rw [stays]
      refine (takes_wordChar s).fails ?_
      rw [Cursor.rest_after comes]
      exact ends
    have end_here := Finds.seq found (.allowed last)
    rwa [stays] at end_here
  · exact absurd (by simpa using comes) (none_here _ mem k)

end

/-- What an identifier can be: a word that does not begin with a digit and is no keyword. -/
structure IsName (name : String) : Prop where
  begins : ∃ ch rest, name.toList = ch :: rest ∧ (ch.isAlpha ∨ ch = '_')
  word : ∀ ch ∈ name.toList, isWordChar ch
  free : name ∉ keywords

theorem IsName.of_all {name : String} {ch : Char} (head : name.toList.head? = some ch)
    (first : ch.isAlpha || ch == '_') (word : name.toList.all isWordChar)
    (free : name ∉ keywords) : IsName name := by
  refine ⟨?_, List.all_eq_true.mp word, free⟩
  obtain ⟨rest, letters⟩ := List.head?_eq_some_iff.mp head
  exact ⟨ch, rest, letters, by simpa using first⟩

theorem keywords_words : ∀ w ∈ keywords, ∀ ch ∈ w.toList, isWordChar ch := by
  have all : keywords.all fun w => w.toList.all isWordChar := by decide
  exact fun w mem => List.all_eq_true.mp (List.all_eq_true.mp all w mem)

theorem keyword_fails (word : ∀ ch ∈ t, isWordChar ch) (ends : EndsWord k)
    (comes : c.rest = t ++ k) (free : String.ofList t ∉ keywords) :
    Finds s (.once (.rule .keyword)) c none := by
  have inside := wholeWord_fails (s := .atomic) (by decide) keywords_words word ends comes ?_
  · exact .rule_fails inside
  · intro w mem same
    rw [← same, String.ofList_toList] at free
    exact free mem

theorem finds_name {name : String} (h : IsName name) (ends : EndsWord k)
    (comes : c.rest = name.toList ++ k) :
    Finds .atomic (.once (Rule.pattern .identifier)) c (some (.nothing (c.after name.toList))) := by
  obtain ⟨ch, rest, letters, first⟩ := h.begins
  have word := h.word
  have no_keyword : Finds .atomic (.once (.reject (.rule .keyword))) c (some (.nothing c)) :=
    .allowed (keyword_fails h.word ends comes (by simpa using h.free))
  rw [letters] at word comes ⊢
  have begins : Finds .atomic (.once (.alt (.char .letter) (.lit "_"))) c
      (some (.nothing (c.after [ch]))) := by
    refine ((takes_class _ _).alt (takes_text _ '_')).takes comes ?_
    simpa [CharClass.holds] using first
  have others := (takes_wordChar .atomic).many (by decide)
    (List.forall_mem_cons.mp word).2 ends (Cursor.rest_after (t := [ch]) comes)
  rw [Cursor.after_after] at others
  exact .seq no_keyword (.seq begins others)

structure Digits (t : List Char) : Prop where
  filled : t ≠ []
  digits : ∀ ch ∈ t, ch.isDigit

/-- What may follow the first digits of a numeral. -/
inductive Fraction : List Char → Prop
  | none : Fraction []
  | digits {d : List Char} (h : Digits d) : Fraction ('.' :: d)

inductive Exponent : List Char → Prop
  | none : Exponent []
  | plain {e : Char} {d : List Char} (mark : e = 'e' ∨ e = 'E') (h : Digits d) : Exponent (e :: d)
  | signed {e sign : Char} {d : List Char} (mark : e = 'e' ∨ e = 'E')
    (either : sign = '+' ∨ sign = '-') (h : Digits d) : Exponent (e :: sign :: d)

/-- The texts that are read as numbers. -/
inductive Numeral : List Char → Prop
  | mk {d f e : List Char} (digits : Digits d) (fraction : Fraction f) (exponent : Exponent e) :
    Numeral (d ++ (f ++ e))

/-- No numeral goes on here. -/
structure EndsNumeral (k : List Char) : Prop where
  word : EndsWord k
  fraction : ∀ ch rest, k = '.' :: ch :: rest → ch.isDigit = false

theorem isWordChar_of_isDigit (h : ch.isDigit) : isWordChar ch := by
  simp [isWordChar, Char.isAlphanum, h]

theorem finds_digits (h : Digits t) (ends : ∀ ch ∈ k.head?, ch.isDigit = false)
    (comes : c.rest = t ++ k) :
    Finds .atomic (.once (.repeated (.char .digit))) c (some (.nothing (c.after t))) :=
  (takes_class .atomic .digit).repeated (by decide) h.digits ends comes h.filled

theorem digits_fail (other : ∀ ch ∈ c.rest.head?, ch.isDigit = false) :
    Finds .atomic (.once (.repeated (.char .digit))) c none :=
  .stuck (fails_char other)

theorem EndsWord.digit (h : EndsWord k) : ∀ ch ∈ k.head?, ch.isDigit = false := by
  intro ch mem
  have other := h ch mem
  simp only [isWordChar, Char.isAlphanum, Bool.or_eq_false_iff] at other
  exact other.1.2

theorem finds_fraction {f : List Char} (h : Fraction f) (ends : ∀ ch ∈ k.head?, ch.isDigit = false)
    (single : f = [] → ∀ ch rest, k = '.' :: ch :: rest → ch.isDigit = false)
    (comes : c.rest = f ++ k) :
    Finds .atomic (.once (.opt (.seq (.lit ".") (.repeated (.char .digit))))) c
      (some (.nothing (c.after f))) := by
  cases h with
  | none =>
    refine .absent ?_
    by_cases point : ∃ rest, k = '.' :: rest
    · obtain ⟨rest, rfl⟩ := point
      have taken : Finds .atomic (.once (.lit ".")) c (some (.nothing (c.after ['.']))) :=
        finds_text comes
      refine taken.second_fails (digits_fail fun ch mem => ?_)
      have behind : (c.after ['.']).rest = rest := Cursor.rest_after comes
      change ch ∈ (c.after ['.']).rest.head? at mem
      rw [behind] at mem
      cases rest with
      | nil => cases mem
      | cons x others =>
        cases mem
        exact single rfl _ _ rfl
    · refine .stuck (fails_text fun rest comes' => point ⟨rest, ?_⟩)
      exact comes.symm.trans comes'
  | @digits d h =>
    have taken : Finds .atomic (.once (.lit ".")) c (some (.nothing (c.after ['.']))) :=
      finds_text comes
    have others := finds_digits h ends (Cursor.rest_after (t := ['.']) comes)
    rw [Cursor.after_after] at others
    exact .present (.seq taken others)

theorem finds_exponent {e : List Char} (h : Exponent e) (ends : EndsWord k)
    (comes : c.rest = e ++ k) :
    Finds .atomic (.once (.opt (.concat [.alt (.lit "e") (.lit "E"),
      .opt (.alt (.lit "+") (.lit "-")), .repeated (.char .digit)]))) c
      (some (.nothing (c.after e))) := by
  have marks := (takes_text .atomic 'e').alt (takes_text .atomic 'E')
  have signs := (takes_text .atomic '+').alt (takes_text .atomic '-')
  cases h with
  | none =>
    refine .absent (.stuck (marks.fails fun ch mem => ?_))
    have comes' : c.rest = k := comes
    rw [comes'] at mem
    have other := ends ch mem
    cases mark : ch == 'e' || ch == 'E' with
    | false => rfl
    | true =>
      simp only [Bool.or_eq_true, beq_iff_eq] at mark
      rcases mark with rfl | rfl <;> cases other
  | @plain x d mark h =>
    have taken := marks.takes (x := x) comes (by simpa using mark)
    have behind : (c.after [x]).rest = d ++ k := Cursor.rest_after (t := [x]) comes
    have unsigned : Finds .atomic (.once (.opt (.alt (.lit "+") (.lit "-")))) (c.after [x])
        (some (.nothing (c.after [x]))) := by
      refine .absent (signs.fails fun ch mem => ?_)
      obtain ⟨y, rest, rfl⟩ := List.exists_cons_of_ne_nil h.filled
      rw [behind] at mem
      cases mem
      have digit := h.digits ch List.mem_cons_self
      cases sign : ch == '+' || ch == '-' with
      | false => rfl
      | true =>
        simp only [Bool.or_eq_true, beq_iff_eq] at sign
        rcases sign with rfl | rfl <;> cases digit
    have others := finds_digits h ends.digit behind
    rw [Cursor.after_after] at others
    exact .present (.seq taken (.seq unsigned others))
  | @signed x sign d mark either h =>
    have taken := marks.takes (x := x) comes (by simpa using mark)
    have behind : (c.after [x]).rest = sign :: (d ++ k) := Cursor.rest_after (t := [x]) comes
    have signed : Finds .atomic (.once (.opt (.alt (.lit "+") (.lit "-")))) (c.after [x])
        (some (.nothing ((c.after [x]).after [sign]))) :=
      .present (signs.takes behind (by simpa using either))
    have others := finds_digits h ends.digit (Cursor.rest_after (t := [sign]) behind)
    rw [Cursor.after_after] at others signed
    rw [Cursor.after_after] at others
    exact .present (.seq taken (.seq signed others))

theorem Exponent.head (h : Exponent t) : ∀ ch ∈ t.head?, ch = 'e' ∨ ch = 'E' := by
  intro ch mem
  cases h with
  | none => cases mem
  | plain mark _ | signed mark _ _ =>
    cases mem
    exact mark

theorem finds_numeral (h : Numeral t) (ends : EndsNumeral k) (comes : c.rest = t ++ k) :
    Finds .atomic (.once (Rule.pattern .number)) c (some (.nothing (c.after t))) := by
  cases h with
  | @mk d f e digits fraction exponent =>
    -- Neither a fraction nor an exponent begins with a digit.
    have no_exponent_digit : ∀ ch ∈ (e ++ k).head?, ch.isDigit = false := by
      intro ch mem
      cases e with
      | nil => exact ends.word.digit ch mem
      | cons x rest =>
        cases mem
        rcases exponent.head _ rfl with rfl | rfl <;> decide
    have no_digit : ∀ ch ∈ (f ++ (e ++ k)).head?, ch.isDigit = false := by
      intro ch mem
      cases fraction with
      | none => exact no_exponent_digit ch mem
      | digits _ =>
        cases mem
        decide
    have single : f = [] → ∀ ch rest, e ++ k = '.' :: ch :: rest → ch.isDigit = false := by
      intro _ ch rest point
      cases e with
      | nil => exact ends.fraction ch rest point
      | cons x others =>
        obtain rfl : x = '.' := (List.cons.inj point).1
        rcases exponent.head '.' rfl with mark | mark <;> cases mark
    have comes' : c.rest = d ++ (f ++ (e ++ k)) := by simpa using comes
    have behind : (c.after d).rest = f ++ (e ++ k) := Cursor.rest_after comes'
    have first := finds_digits digits no_digit comes'
    have second := finds_fraction fraction no_exponent_digit single behind
    have third := finds_exponent exponent ends.word (Cursor.rest_after behind)
    rw [Cursor.after_after] at second
    rw [Cursor.after_after, Cursor.after_after, List.append_assoc] at third
    exact .seq first (.seq second third)

/-- What can stand between quotes. -/
inductive Quotable : List Char → Prop
  | nil : Quotable []
  | escape (ch : Char) {rest : List Char} (h : Quotable rest) : Quotable ('\\' :: ch :: rest)
  | plain {ch : Char} {rest : List Char} (quote : ch ≠ '"') (slash : ch ≠ '\\')
    (h : Quotable rest) : Quotable (ch :: rest)

theorem Quotable.pieces (h : Quotable t) : ∃ pieces : List (List Char), pieces.flatten = t ∧
    ∀ u ∈ pieces, (∃ ch, u = ['\\', ch]) ∨ ∃ ch, u = [ch] ∧ ch ≠ '"' ∧ ch ≠ '\\' := by
  induction h with
  | nil => exact ⟨[], rfl, by simp⟩
  | @escape ch rest _ ih =>
    obtain ⟨pieces, whole, each⟩ := ih
    exact ⟨['\\', ch] :: pieces, by simp [whole],
      List.forall_mem_cons.mpr ⟨.inl ⟨ch, rfl⟩, each⟩⟩
  | @plain ch rest quote slash _ ih =>
    obtain ⟨pieces, whole, each⟩ := ih
    exact ⟨[ch] :: pieces, by simp [whole],
      List.forall_mem_cons.mpr ⟨.inr ⟨ch, rfl, quote, slash⟩, each⟩⟩

/-- No more can stand between quotes here: the closing one comes, or the text ends. -/
inductive EndsQuoted : List Char → Prop
  | quote (k : List Char) : EndsQuoted ('"' :: k)
  | nil : EndsQuoted []
  | slash : EndsQuoted ['\\']

theorem finds_content (h : Quotable t) (ends : EndsQuoted k) (comes : c.rest = t ++ k) :
    Finds .atomic (.once (Rule.pattern .stringContent)) c (some (.nothing (c.after t))) := by
  obtain ⟨pieces, rfl, pieces_shape⟩ := h.pieces
  have special := (takes_text .atomic '"').alt (takes_text .atomic '\\')
  refine many_finds (by decide) ?_ ?_ comes
  · intro u mem d k' comes'
    rcases pieces_shape u mem with ⟨ch, rfl⟩ | ⟨ch, rfl, quote, slash⟩
    · have first : Finds .atomic (.once (.lit "\\")) d (some (.nothing (d.after ['\\']))) :=
        finds_text (k := ch :: k') comes'
      have second := (takes_class .atomic .any).takes (x := ch)
        (Cursor.rest_after (t := ['\\']) comes') rfl
      rw [Cursor.after_after] at second
      exact .first (.seq first second)
    · have no_escape : Finds .atomic (.once (.seq (.lit "\\") (.char .any))) d none := by
        refine .stuck (fails_text fun rest other => slash ?_)
        rw [comes'] at other
        cases other
        rfl
      have inside := special.fails (c := d) fun x mem => by
        rw [comes'] at mem
        cases mem
        simp [quote, slash]
      exact .second no_escape (.seq (.allowed inside)
        ((takes_class .atomic .any).takes (x := ch) comes' rfl))
  · intro d rest
    cases ends with
    | quote k =>
      have no_escape : Finds .atomic (.once (.seq (.lit "\\") (.char .any))) d none := by
        refine .stuck (fails_text fun others other => ?_)
        rw [rest] at other
        cases other
      have quote := special.takes (c := d) (x := '"') (k := k) rest rfl
      exact .second no_escape (.stuck (.refused quote))
    | nil =>
      have no_escape : Finds .atomic (.once (.seq (.lit "\\") (.char .any))) d none :=
        .stuck (fails_text (by simp [rest]))
      have no_char : Finds .atomic (.once (.char .any)) d none := fails_char (by simp [rest])
      have inside := special.fails (c := d) (by simp [rest])
      exact .second no_escape ((Finds.allowed inside).second_fails no_char)
    | slash =>
      have first : Finds .atomic (.once (.lit "\\")) d (some (.nothing (d.after ['\\']))) :=
        finds_text (k := []) rest
      have no_char : Finds .atomic (.once (.char .any)) (d.after ['\\']) none :=
        fails_char (by simp [Cursor.rest_after (t := ['\\']) (k := []) rest])
      have special_here := special.takes (c := d) (x := '\\') (k := []) rest rfl
      exact .second (first.second_fails no_char) (.stuck (.refused special_here))

theorem Cursor.after_position (c : Cursor) (t : List Char) :
    (c.after t).position - c.position = t.length := by
  simp [Cursor.after]

/-- The text of a node is what has been taken for it. -/
theorem Node.text_after (r : Rule) (comes : c.rest = t ++ k) (nodes : List Node) :
    (Node.mk r c ((c.after t).position - c.position) nodes).text = String.ofList t := by
  rw [Cursor.after_position, Node.text, comes, List.take_left']
  rfl

end Script
end FrameScript
