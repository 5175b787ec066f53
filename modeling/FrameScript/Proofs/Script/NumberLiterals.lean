import FrameScript.Native.Library
import FrameScript.Proofs.Number.Shortest
import FrameScript.Proofs.Script.SingleExpressions
import FrameScript.Value.Operators

/-!
# Numbers as literals

The text that scripts see for a finite number is digits with at most one point, behind a minus sign
if the number is less than zero. As a source it is one number literal, which takes the sign in, and
the literal is the number again; only the sign of a zero is lost.
-/

namespace FrameScript
namespace Script

variable {c : Cursor} {e : Expr} {t k : List Char} {x : Number}

theorem numeral_pointed {whole fraction : List Char} (nonempty : whole ≠ [])
    (digits : ∀ ch ∈ whole, ch.isDigit) (digits' : ∀ ch ∈ fraction, ch.isDigit) :
    Numeral (whole ++ Decimal.pointed fraction) := by
  have behind : Fraction (Decimal.pointed fraction) := by
    cases fraction with
    | nil => exact .none
    | cons ch rest => exact .digits ⟨by simp, digits'⟩
  have numeral := Numeral.mk ⟨nonempty, digits⟩ behind .none
  rwa [List.append_nil] at numeral

theorem numeral_of_writesDigits {text : String} (h : Number.WritesDigits x text) :
    Numeral text.toList ∧ Number.ofText? text = some x := by
  obtain ⟨whole, fraction, nonempty, digits, digits', rfl, read⟩ := h
  refine ⟨?_, ?_⟩
  · rw [String.toList_ofList]
    exact numeral_pointed nonempty digits digits'
  · obtain ⟨ch, rest, rfl⟩ := List.exists_cons_of_ne_nil nonempty
    rw [List.cons_append] at read ⊢
    rw [Number.ofText?_of_digit (digits ch List.mem_cons_self), read]

theorem Numeral.begins (h : Numeral t) : ∃ ch rest, t = ch :: rest ∧ ch.isDigit := by
  cases h with
  | mk digits fraction exponent =>
    obtain ⟨ch, rest, rfl⟩ := List.exists_cons_of_ne_nil digits.filled
    exact ⟨ch, _, rfl, digits.digits ch List.mem_cons_self⟩

/-- A sign goes into the number literal behind it. -/
theorem Prefixes.neg_num (h : Prefixes (.num x) t (c.after ['-']))
    (starts : Starts .prefixed t) (comes : c.rest = '-' :: (t ++ k)) :
    Prefixes (.num x.neg) ('-' :: t) c := by
  obtain ⟨length, found⟩ := finds_neg comes
  refine h.sign starts (a := []) gap_nil comes (by decide) found fun f same =>
    ⟨.num x.neg, rfl, fun line nodes built => ?_⟩
  have literal : f = .num x := by
    cases f <;> simp_all [Expr.withoutLines]
  rw [buildPrefixed, built, literal]
  rfl

theorem Phrase.Read.alone {ℓ : Level} (h : Phrase.Read (.expr ℓ e) t c) (starts : Starts ℓ t)
    (comes : c.rest = t) : Reads .expression e t c := by
  have comes : c.rest = t ++ [] := by rw [comes, List.append_nil]
  have loosest : Starts .disjunction t ∧ Phrase.Read (.expr .disjunction e) t c :=
    Level.loosen (P := fun ℓ => Starts ℓ t ∧ Phrase.Read (.expr ℓ e) t c)
      (fun _ h => ⟨h.1.of_tighter, h.2.tighter h.1 comes⟩) ⟨starts, h⟩ (Nat.zero_le _)
  exact loosest.2.whole loosest.1 comes (follows_end (Cursor.rest_after comes))

theorem parse_num {text : String} (h : Reads .expression (.num x) text.toList (.start text.toList))
    (starts : Starts .disjunction text.toList) (plain : text.toList.head? ≠ some '\x7b') :
    ∃ line, parse text = .ok ⟨[], [.expr line (.num x)]⟩ := by
  obtain ⟨d, node, found, -, behind, f, built, same⟩ := h
  have literal : f = .num x := by
    cases f <;> simp_all [Expr.withoutLines]
  have comes : (Cursor.start text.toList).rest = text.toList ++ [] := (List.append_nil _).symm
  have settled := (starts.settled comes).skip
  have last : ((Cursor.start text.toList).after text.toList).rest = [] := Cursor.rest_after comes
  rw [← settled] at found
  refine parse_single found ?_ ?_ (literal ▸ built)
  · rw [behind, (Cursor.settled_of_head (by simp [last])).skip, last]
  · rw [settled]
    rintro ⟨k, l, brace, -⟩
    exact plain (congrArg List.head? brace)

/-- Digits behind a sign, if there is one, are a literal that takes the sign in. -/
theorem parse_signed (negative : Bool) {text : String} (h : Number.WritesDigits x text) :
    ∃ line, parse (Number.signText negative ++ text) =
      .ok ⟨[], [.expr line (.num (if negative then x.neg else x))]⟩ := by
  obtain ⟨numeral, value⟩ := numeral_of_writesDigits h
  have writes : Writes (.expr .prefixed (.num x)) text.toList :=
    (Writes.num numeral (by rwa [String.ofList_toList])).of_atom .prefixed
  have starts : Starts .prefixed text.toList := writes.begins
  have read {c : Cursor} (comes : c.rest = text.toList) :
      Phrase.Read (.expr .prefixed (.num x)) text.toList c :=
    writes.read (k := []) (by rw [comes, List.append_nil])
  cases negative with
  | false =>
    have same : Number.signText false ++ text = text := String.empty_append
    rw [same]
    refine parse_num ((read rfl).alone starts rfl) (starts_numeral numeral _) fun brace => ?_
    obtain ⟨ch, rest, comes, digit⟩ := numeral.begins
    rw [comes] at brace
    cases brace
    cases digit
  | true =>
    have letters : (Number.signText true ++ text).toList = '-' :: text.toList := by
      simp [Number.signText]
    have behind : ((Cursor.start ('-' :: text.toList)).after ['-']).rest = text.toList :=
      Cursor.rest_after rfl
    have ends : (((Cursor.start ('-' :: text.toList)).after ['-']).after text.toList).rest = [] :=
      Cursor.rest_after (by rw [behind, List.append_nil])
    have operand : Prefixes (.num x) text.toList _ := read behind (follows_end ends)
    have signed : Prefixes (.num x.neg) ('-' :: text.toList) (.start ('-' :: text.toList)) :=
      operand.neg_num (k := []) starts (by rw [List.append_nil]; rfl)
    have sign (ℓ : Level) (inside : ℓ ≠ .suffixed ∧ ℓ ≠ .atom) : Starts ℓ ('-' :: text.toList) :=
      ⟨'-', _, rfl, .inr (.inr ⟨by decide, inside⟩)⟩
    have whole : Phrase.Read (.expr .prefixed (.num x.neg)) ('-' :: text.toList)
        (.start ('-' :: text.toList)) := fun _ => signed
    refine parse_num ?_ ?_ (by simp [letters])
    · rw [letters]
      exact whole.alone (sign .prefixed (by decide)) rfl
    · rw [letters]
      exact sign .disjunction (by decide)

theorem zero_or_signed (is_finite : x.isFinite = true) :
    (∃ s, x = .zero s) ∨ x.isZero = false ∧
      (if x.less (.zero false) then x.abs.neg else x.abs) = x := by
  cases x with
  | nan s | infinity s => cases is_finite
  | finite s m e h =>
    by_cases is_zero : m = 0
    · subst is_zero
      obtain rfl : e = -1074 := h.normal.resolve_right (by omega)
      exact .inl ⟨s, rfl⟩
    · have less := Number.less_zero_finite s h
      cases s <;> simp_all [Number.isZero, Number.abs, Number.neg]

theorem equals_self (number : x.isNaN = false) : x.equals x = true := by
  rw [Number.equals, Number.compare?_eq number number, Int.compare_eq_eq.mpr rfl]
  rfl

theorem standard_str : Natives.standard.get? "str" = some Native.str := by
  simp [Natives.standard, Table.ofList, Table.get?_insert]

/-- For every finite number, the text that scripts see, which the native `str` answers and which
joining the number to an empty text gives, is as a source one number literal. The literal has the
sign in and is the number, but for the sign of a zero. -/
theorem display_round_trip (is_finite : x.isFinite = true) :
    (∃ y line, parse x.display = .ok ⟨[], [.expr line (.num y)]⟩ ∧
      parseExpression x.display = .ok (.num y) ∧ y.equals x = true ∧
      (x.isZero = false → y = x)) ∧
    (∃ str, Natives.standard.get? "str" = some str ∧ ∀ context world,
      str context world [.num x] = ⟨.value (.str x.display), context, world⟩) ∧
    ∀ heap, Value.binary? heap .add (.str "") (.num x) = some (.ok (.str x.display)) := by
  refine ⟨?_, ⟨Native.str, standard_str, fun context world => rfl⟩, fun heap => ?_⟩
  · obtain ⟨text, display, digits⟩ := Number.display_eq is_finite
    obtain ⟨line, parsed⟩ := parse_signed (x.less (.zero false)) digits
    rw [← display] at parsed
    have single := parseExpression_ok_iff.mpr ⟨_, line, [], parsed, rfl⟩
    refine ⟨_, line, parsed, single, ?_⟩
    rcases zero_or_signed is_finite with ⟨s, rfl⟩ | ⟨nonzero, same⟩
    · cases s <;> exact ⟨by decide, by decide⟩
    · rw [same]
      have number : x.isNaN = false := by
        cases x with
        | nan s | infinity s => cases is_finite
        | finite s m e h => rfl
      exact ⟨equals_self number, fun _ => rfl⟩
  · have joined : "" ++ x.display = x.display := String.empty_append
    change some (Except.ok (Value.str ("" ++ x.display))) = _
    rw [joined]

/-- A negative fraction. -/
theorem display_round_trip_fraction : (Number.roundDyadic true 5 (-1)).display = "-2.5" ∧
    (∃ line, parse "-2.5" = .ok ⟨[], [.expr line (.num (.roundDyadic true 5 (-1)))]⟩) ∧
    Value.binary? .empty .add (.str "") (.num (.roundDyadic true 5 (-1))) =
      some (.ok (.str "-2.5")) := by
  have text : (Number.roundDyadic true 5 (-1)).display = "-2.5" := by decide +kernel
  have is_finite : (Number.roundDyadic true 5 (-1)).isFinite = true := by decide +kernel
  obtain ⟨⟨y, line, parsed, -, -, same⟩, -, joined⟩ := display_round_trip is_finite
  rw [text, same (by decide +kernel)] at parsed
  exact ⟨text, ⟨line, parsed⟩, by rw [joined, text]⟩

end Script
end FrameScript
