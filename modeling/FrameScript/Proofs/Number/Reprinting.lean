import FrameScript.Proofs.Number.Shortest

/-!
# Printing what was read

An integer and a number are read from the text that they print. The text of a number that has no
point is that of a natural number with a sign, so it is also read as an integer, which prints the
same text but for `-0`.
-/

namespace FrameScript

theorem toDigits_pow {n : Nat} (nonzero : n ≠ 0) (k : Nat) :
    Nat.toDigits 10 (n * 10 ^ k) = Nat.toDigits 10 n ++ List.replicate k '0' := by
  induction k with
  | zero => simp
  | succ k ih =>
    have positive : 0 < n * 10 ^ k := by positivity
    have next : n * 10 ^ (k + 1) = 10 * (n * 10 ^ k) + 0 := by rw [Nat.pow_succ]; ring
    rw [next, ← Nat.toDigits_append_toDigits (by decide) positive (by decide), ih,
      List.append_assoc, List.replicate_succ']
    rfl

theorem natOfText?_repr (n : Nat) : natOfText? n.repr = some n := by
  have all := Number.Decimal.toDigits_all n
  have value : (Nat.toDigits 10 n).foldl (fun n c => 10 * n + (c.toNat - '0'.toNat)) 0 = n :=
    Number.Decimal.digitsValue_toDigits n
  have nonempty : Nat.toDigits 10 n ≠ [] := Nat.toDigits_ne_nil
  rw [Nat.repr_eq_ofList_toDigits]
  unfold natOfText?
  rw [String.toList_ofList]
  generalize Nat.toDigits 10 n = ds at *
  cases ds with
  | nil => exact absurd rfl nonempty
  | cons ch rest =>
    have unsigned : ch ≠ '+' := by
      rintro rfl
      cases all '+' List.mem_cons_self
    split
    · rename_i comes
      exact absurd (List.cons.inj comes).1 unsigned
    · have digits : (ch :: rest).all Char.isDigit := List.all_eq_true.mpr all
      simp only [digits, value]
      simp

theorem intOfText?_signed (s : Bool) {ch : Char} (digit : ch.isDigit) (rest : List Char) :
    intOfText? (Number.signText s ++ String.ofList (ch :: rest)) =
      (natOfText? (String.ofList (ch :: rest))).map fun n : Nat =>
        if s then -(n : Int) else (n : Int) := by
  have apart : ch ≠ '-' ∧ ch ≠ '+' := by
    constructor <;> rintro rfl <;> cases digit
  cases s with
  | false =>
    have text : (Number.signText false ++ String.ofList (ch :: rest)).toList = ch :: rest := by
      simp [Number.signText]
    unfold intOfText?
    rw [text]
    split
    · rename_i comes
      exact absurd (List.cons.inj comes).1 apart.1
    · rename_i comes
      exact absurd (List.cons.inj comes).1 apart.1
    · rw [← String.toList_inj.mp (String.toList_ofList.trans text.symm)]
      cases natOfText? (String.ofList (ch :: rest)) <;> rfl
  | true =>
    have text :
        (Number.signText true ++ String.ofList (ch :: rest)).toList = '-' :: ch :: rest := by
      simp [Number.signText]
    unfold intOfText?
    rw [text]
    split
    · rename_i comes
      exact absurd (List.cons.inj (List.cons.inj comes).2).1 apart.2
    · rename_i comes
      rw [← (List.cons.inj comes).2]
      cases natOfText? (String.ofList (ch :: rest)) <;> rfl
    · rename_i other
      exact absurd rfl (other _)

theorem natOfText?_of_point {text : String} (point : '.' ∈ text.toList) :
    natOfText? text = none := by
  have some_digit {cs : List Char} (mem : '.' ∈ cs) : cs.all Char.isDigit = false :=
    List.all_eq_false.mpr ⟨'.', mem, by decide⟩
  unfold natOfText?
  split
  · rename_i comes
    rw [comes] at point
    simp [some_digit (List.mem_of_ne_of_mem (by decide) point)]
  · simp [some_digit point]

theorem intOfText?_of_point {text : String} (point : '.' ∈ text.toList) :
    intOfText? text = none := by
  unfold intOfText?
  split
  · rfl
  · rename_i comes
    rw [comes] at point
    rw [natOfText?_of_point (by simpa using point)]
    rfl
  · rw [natOfText?_of_point point]
    rfl

theorem exists_digit (n : Nat) : ∃ ch rest, ch.isDigit ∧ n.repr = String.ofList (ch :: rest) := by
  obtain ⟨ch, rest, comes⟩ := List.exists_cons_of_ne_nil (Nat.toDigits_ne_nil (n := n) (b := 10))
  refine ⟨ch, rest, Number.Decimal.toDigits_all n ch (by rw [comes]; exact List.mem_cons_self), ?_⟩
  rw [Nat.repr_eq_ofList_toDigits, comes]

theorem toString_eq_signed (n : Int) : toString n = Number.signText (n < 0) ++ n.natAbs.repr := by
  cases n with
  | ofNat n => simp [Number.signText]; rfl
  | negSucc n =>
    have negative : decide (Int.negSucc n < 0) = true := decide_eq_true (Int.negSucc_lt_zero n)
    rw [negative]
    rfl

theorem intOfText?_toString (n : Int) : intOfText? (toString n) = some n := by
  obtain ⟨ch, rest, digit, digits⟩ := exists_digit n.natAbs
  rw [toString_eq_signed, digits, intOfText?_signed _ digit, ← digits, natOfText?_repr,
    Option.map_some]
  congr 1
  split
  · rename_i negative
    have := of_decide_eq_true negative
    omega
  · rename_i natural
    have : ¬ n < 0 := fun negative => natural (decide_eq_true negative)
    omega

/-- The text begins as that of an integer or a number does. -/
def NumeralStart (text : String) : Prop :=
  ∃ ch rest, text = String.ofList (ch :: rest) ∧ (ch.isDigit ∨ ch ∈ ['-', 'i', 'N'])

theorem numeralStart_signed (s : Bool) {ch : Char} (digit : ch.isDigit) (rest : List Char) :
    NumeralStart (Number.signText s ++ String.ofList (ch :: rest)) := by
  cases s with
  | false => exact ⟨ch, rest, String.empty_append, .inl digit⟩
  | true =>
    refine ⟨'-', ch :: rest, ?_, .inr (by decide)⟩
    apply String.toList_inj.mp
    simp [Number.signText]

theorem numeralStart_toString (n : Int) : NumeralStart (toString n) := by
  obtain ⟨ch, rest, digit, digits⟩ := exists_digit n.natAbs
  rw [toString_eq_signed, digits]
  exact numeralStart_signed _ digit rest

namespace Decimal

theorem positional_cases {d : Decimal} (nonzero : d.digits ≠ 0) :
    (∃ n, n ≠ 0 ∧ positional d = n.repr) ∨ '.' ∈ (positional d).toList := by
  unfold positional
  dsimp only
  split
  · left
    refine ⟨d.digits * 10 ^ d.scale.toNat, by positivity, ?_⟩
    rw [Nat.repr_eq_ofList_toDigits, Nat.repr_eq_ofList_toDigits, toDigits_pow nonzero, zeros,
      String.ofList_append]
  · right
    split <;> simp

end Decimal

namespace Number

open FrameScript.Decimal

variable {m : Nat} {e : Int}

theorem roundRatio_true (num den : Nat) (e : Int) :
    roundRatio true num den e = (roundRatio false num den e).neg := roundDyadic_true ..

theorem toNumber_true (d : FrameScript.Decimal) : d.toNumber true = (d.toNumber false).neg := by
  unfold toNumber
  dsimp only
  split
  · rfl
  · split
    · rfl
    · split
      · rfl
      · split
        · exact roundDyadic_true ..
        · exact roundRatio_true ..

theorem toText_zero (s : Bool) {e : Int} (h : Canonical 0 e) :
    (finite s 0 e h).toText = signText s ++ "0" := by rw [toText, if_pos rfl]

/-- A number is read from its text as one that prints alike. -/
theorem ofText?_toText (x : Number) : ∃ y, ofText? x.toText = some y ∧ y.toText = x.toText := by
  cases x with
  | nan s =>
    have word : ofText? "NaN" = some (nan false) := by decide +kernel
    exact ⟨nan false, word, rfl⟩
  | infinity s =>
    have word : ∀ s, ofText? (signText s ++ "inf") = some (infinity s) := by decide +kernel
    exact ⟨infinity s, word s, rfl⟩
  | finite s m e h =>
    by_cases is_zero : m = 0
    · subst is_zero
      have word : ∀ s, ofText? (signText s ++ "0") = some (zero s) := by decide +kernel
      refine ⟨zero s, ?_, ?_⟩
      · rw [toText_zero, word]
      · rw [toText_zero, zero, toText_zero]
    · refine ⟨finite s m e h, ?_, rfl⟩
      obtain ⟨whole, fraction, filled, digits, -, text, read⟩ :=
        writesDigits_positional h is_zero (shortest_covers h is_zero .upper)
      obtain ⟨ch, rest, rfl⟩ := List.exists_cons_of_ne_nil filled
      rw [toText, if_neg is_zero, text, List.cons_append,
        ofText?_signed s (digits ch List.mem_cons_self)]
      obtain ⟨d, comes, value⟩ := Option.map_eq_some_iff.mp read
      rw [← List.cons_append, comes, Option.map_some]
      cases s with
      | false => rw [value]
      | true => rw [toNumber_true, value]; rfl

theorem numeralStart_toText (x : Number) : NumeralStart x.toText := by
  cases x with
  | nan s => exact ⟨'N', ['a', 'N'], rfl, .inr (by decide)⟩
  | infinity s =>
    cases s with
    | false => exact ⟨'i', ['n', 'f'], rfl, .inr (by decide)⟩
    | true => exact ⟨'-', ['i', 'n', 'f'], rfl, .inr (by decide)⟩
  | finite s m e h =>
    by_cases is_zero : m = 0
    · subst is_zero
      rw [toText_zero]
      have digit : ('0').isDigit := by decide
      exact numeralStart_signed s digit []
    · obtain ⟨whole, fraction, filled, digits, -, text, -⟩ :=
        writesDigits_positional h is_zero (shortest_covers h is_zero .upper)
      obtain ⟨ch, rest, rfl⟩ := List.exists_cons_of_ne_nil filled
      rw [toText, if_neg is_zero, text, List.cons_append]
      exact numeralStart_signed s (digits ch List.mem_cons_self) _

/-- A number that is read as an integer prints as the integer does, unless it is `-0`. -/
theorem toString_of_intOfText? {x : Number} {n : Int} (read : intOfText? x.toText = some n)
    (apart : x.toText ≠ "-0") : toString n = x.toText := by
  cases x with
  | nan s =>
    have word : intOfText? "NaN" = none := by decide +kernel
    rw [toText, word] at read
    cases read
  | infinity s =>
    have word : ∀ s, intOfText? (signText s ++ "inf") = none := by decide +kernel
    rw [toText, word] at read
    cases read
  | finite s m e h =>
    by_cases is_zero : m = 0
    · subst is_zero
      rw [toText_zero] at read apart ⊢
      cases s with
      | true => exact absurd rfl apart
      | false =>
        have word : intOfText? (signText false ++ "0") = some 0 := by decide +kernel
        rw [word] at read
        cases read
        rfl
    · rw [toText, if_neg is_zero] at read ⊢
      have digits := digits_of_covers is_zero (shortest_covers h is_zero .upper)
      rcases positional_cases digits with ⟨k, nonzero, text⟩ | point
      · rw [text] at read ⊢
        obtain ⟨ch, rest, digit, comes⟩ := exists_digit k
        rw [comes, intOfText?_signed s digit, ← comes, natOfText?_repr, Option.map_some] at read
        rw [← toString_signed s nonzero]
        cases read
        rfl
      · rw [intOfText?_of_point (by simp [point])] at read
        cases read

end Number
end FrameScript
