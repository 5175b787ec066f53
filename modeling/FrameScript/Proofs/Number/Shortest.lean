import FrameScript.Proofs.Number.Nearest
import Mathlib.Data.Nat.Cast.Order.Field

/-!
# The text of a number is read as the number

The digits of a number are looked for on ever finer decimal grids. Whatever is found lies in the
number's cell, and the grid of seventeen digits is finer than every cell, so something is. The
text that puts these digits in place is digits again, with at most one point, and has their value;
integers of up to fifteen digits are written by their own.
-/

namespace FrameScript
namespace Decimal

variable {m : Nat} {e : Int}

theorem belowPowerOfTen_iff (num : Nat) {den : Nat} (proper : den ≠ 0) (p : Int) :
    belowPowerOfTen num den p = true ↔ (num / den : ℚ) < 10 ^ p := by
  have divisor : (0 : ℚ) < den := Nat.cast_pos.mpr (Nat.pos_of_ne_zero proper)
  have power (k : Nat) : ((Nat.pow 10 k : Nat) : ℚ) = 10 ^ k := Nat.cast_pow 10 k
  rw [zpow_eq_div, div_lt_div_iff₀ divisor (by positivity), ← power, ← power]
  unfold belowPowerOfTen
  split
  · rename_i natural
    rw [decide_eq_true_iff, Int.toNat_eq_zero.mpr (by omega : -p ≤ 0), Nat.mul_comm]
    norm_cast
    simp
  · rename_i negative
    rw [decide_eq_true_iff, Int.toNat_eq_zero.mpr (by omega : p ≤ 0)]
    norm_cast
    simp

/-- Ten to the 59 is less than two to the 196, so the estimate of a decade is not too great. -/
theorem ten_pow_estimate_le {i : Nat} (bound : i < 1024) :
    10 ^ (i * 30103 / 100000 - 2) ≤ 2 ^ i := by
  have block : 10 ^ 59 ≤ 2 ^ 196 := by decide +kernel
  have rest : ∀ r < 196, 10 ^ (r * 30103 / 100000 - 1) ≤ 2 ^ r := by decide +kernel
  calc 10 ^ (i * 30103 / 100000 - 2)
      ≤ 10 ^ (59 * (i / 196) + (i % 196 * 30103 / 100000 - 1)) :=
        Nat.pow_le_pow_right (by decide) (by omega)
    _ = (10 ^ 59) ^ (i / 196) * 10 ^ (i % 196 * 30103 / 100000 - 1) := by rw [pow_add, pow_mul]
    _ ≤ (2 ^ 196) ^ (i / 196) * 2 ^ (i % 196) :=
        Nat.mul_le_mul (Nat.pow_le_pow_left block _) (rest _ (Nat.mod_lt _ (by decide)))
    _ = 2 ^ i := by rw [← pow_mul, ← pow_add, Nat.div_add_mod]

/-- Two to the 93 is less than ten to the 28, so neither is the estimate for a fraction. -/
theorem two_pow_le_estimate {i : Nat} (bound : i < 1075) :
    2 ^ i ≤ 10 ^ ((i * 30103 + 99999) / 100000 + 2) := by
  have block : 2 ^ 93 ≤ 10 ^ 28 := by decide +kernel
  have rest : ∀ r < 93, 2 ^ r ≤ 10 ^ ((r * 30103 + 99999) / 100000 + 1) := by decide +kernel
  calc 2 ^ i = (2 ^ 93) ^ (i / 93) * 2 ^ (i % 93) := by rw [← pow_mul, ← pow_add, Nat.div_add_mod]
    _ ≤ (10 ^ 28) ^ (i / 93) * 10 ^ ((i % 93 * 30103 + 99999) / 100000 + 1) :=
        Nat.mul_le_mul (Nat.pow_le_pow_left block _) (rest _ (Nat.mod_lt _ (by decide)))
    _ = 10 ^ (28 * (i / 93) + ((i % 93 * 30103 + 99999) / 100000 + 1)) := by
        rw [← pow_mul, ← pow_add]
    _ ≤ 10 ^ ((i * 30103 + 99999) / 100000 + 2) := Nat.pow_le_pow_right (by decide) (by omega)

theorem pow_estimate_le {log2 : Int} (low : -1074 ≤ log2) (high : log2 < 1024) :
    (10 : ℚ) ^ (log2 * 30103 / 100000 - 2) ≤ 2 ^ log2 := by
  obtain ⟨i, rfl | rfl⟩ := Int.eq_nat_or_neg log2
  · have natural : (10 : ℚ) ^ (i * 30103 / 100000 - 2) ≤ 2 ^ i := by
      exact_mod_cast ten_pow_estimate_le (by omega)
    calc (10 : ℚ) ^ ((i : Int) * 30103 / 100000 - 2)
        ≤ 10 ^ ((i * 30103 / 100000 - 2 : Nat) : Int) :=
          zpow_le_zpow_right₀ (by norm_num) (by omega)
      _ ≤ 2 ^ (i : Int) := by
          rw [zpow_natCast, zpow_natCast]
          exact natural
  · have natural : (2 : ℚ) ^ i ≤ 10 ^ ((i * 30103 + 99999) / 100000 + 2) := by
      exact_mod_cast two_pow_le_estimate (by omega)
    have power : -(i : Int) * 30103 / 100000 - 2 =
        -(((i * 30103 + 99999) / 100000 + 2 : Nat) : Int) := by omega
    rw [power, zpow_neg, zpow_neg, inv_le_inv₀ (by positivity) (by positivity), zpow_natCast,
      zpow_natCast]
    exact natural

theorem pow_decade_le {num den : Nat} {log2 : Int} (proper : den ≠ 0) (low : -1074 ≤ log2)
    (high : log2 < 1024) (least : (2 : ℚ) ^ log2 ≤ num / den) :
    10 ^ (decade num den log2 - 1) ≤ (num / den : ℚ) := by
  have below := belowPowerOfTen_iff num proper
  have estimate := pow_estimate_le low high
  have above {p : Int} (test : belowPowerOfTen num den p = false) :
      (10 : ℚ) ^ p ≤ num / den := by
    rw [← not_lt, ← below, test]
    exact Bool.false_ne_true
  unfold decade
  generalize log2 * 30103 / 100000 = guess at *
  cases first : belowPowerOfTen num den (guess - 1) with
  | true =>
    have power : guess - 1 - 1 = guess - 2 := by omega
    simpa [first, power] using estimate.trans least
  | false =>
    cases second : belowPowerOfTen num den guess with
    | true => simpa [first, second] using above first
    | false =>
      cases third : belowPowerOfTen num den (guess + 1) with
      | true => simpa [first, second, third] using above second
      | false =>
        have power : guess + 2 - 1 = guess + 1 := by omega
        simpa [first, second, third, power] using above third

namespace Cell

variable {tie : Tie} {k : Int} {c : Nat}

theorem holds_of_nearest? {cell : Cell} (found : cell.nearest? tie k = some c) :
    cell.holds k c = true := by
  unfold nearest? at found
  dsimp only at found
  split at found
  · cases found
    split <;> assumption
  · cases found
    assumption
  · cases found
    assumption
  · cases found

/-- Two neighbours of a grid that is finer than the cell do not both lie outside it. -/
theorem exists_nearest? (nonzero : m ≠ 0) (tie : Tie)
    (fine : (10 : ℚ) ^ k < ((of m e).high - (of m e).low) * (of m e).unit) :
    ∃ c, (of m e).nearest? tie k = some c := by
  obtain ⟨above, below⟩ := low_lt_magnitude (e := e) nonzero
  have value := value_eq m e
  have proper : (of m e).den ≠ 0 := (Nat.two_pow_pos _).ne'
  have covers (c : Nat) := holds_iff m e k c
  generalize of m e = cell at *
  have tens (n : Nat) : ((Nat.pow 10 n : Nat) : ℚ) = 10 ^ n := Nat.cast_pow 10 n
  have divisor : (0 : ℚ) < cell.den := Nat.cast_pos.mpr (Nat.pos_of_ne_zero proper)
  have ratio : ((cell.value * cell.num * Nat.pow 10 (-k).toNat : Nat) : ℚ) / 
      ((Nat.pow 10 k.toNat * cell.den : Nat) : ℚ) = Number.magnitude m e / 10 ^ k := by
    rw [← value, zpow_eq_div]
    push_cast [tens]
    field_simp
  unfold nearest?
  dsimp only
  have step : 0 < Nat.pow 10 k.toNat * cell.den :=
    Nat.mul_pos (Nat.pow_pos (by decide)) (Nat.pos_of_ne_zero proper)
  generalize cell.value * cell.num * Nat.pow 10 (-k).toNat = n at *
  generalize Nat.pow 10 k.toNat * cell.den = d at *
  have power : (0 : ℚ) < 10 ^ k := by positivity
  have before : (n / d : Nat) * 10 ^ k ≤ Number.magnitude m e := by
    rw [← le_div_iff₀ power, ← ratio]
    exact Nat.cast_div_le
  have after : Number.magnitude m e < (n / d + 1 : Nat) * 10 ^ k := by
    rw [← div_lt_iff₀ power, ← ratio, div_lt_iff₀ (Nat.cast_pos.mpr step)]
    exact_mod_cast Nat.lt_mul_of_div_lt (Nat.lt_succ_self _) step
  split
  · exact ⟨_, rfl⟩
  · exact ⟨_, rfl⟩
  · exact ⟨_, rfl⟩
  · rename_i left right
    rw [Bool.eq_false_iff, Ne, covers, toRat] at left right
    have left : (n / d : Nat) * 10 ^ k ≤ cell.low * cell.unit :=
      not_lt.mp fun inside => left (.of_inside inside (before.trans_lt below))
    have right : cell.high * cell.unit ≤ (n / d + 1 : Nat) * 10 ^ k :=
      not_lt.mp fun inside => right (.of_inside (above.trans after) inside)
    push_cast at left right
    linarith

end Cell

theorem strip_toRat (fuel : Nat) (d : Decimal) : (strip fuel d).toRat = d.toRat := by
  induction fuel generalizing d with
  | zero => rfl
  | succ fuel ih =>
    rw [strip]
    split
    · rename_i ends
      rw [ih, toRat, toRat]
      have digits : (d.digits : ℚ) = (d.digits / 10 : Nat) * 10 := by
        exact_mod_cast (by omega : d.digits = d.digits / 10 * 10)
      rw [digits, zpow_add_one₀ (by norm_num)]
      ring
    · rfl

theorem fine_of_pow_le (h : Canonical m e) {k : Int}
    (grid : 10 ^ (k + 16) ≤ Number.magnitude m e) :
    (10 : ℚ) ^ k < ((Cell.of m e).high - (Cell.of m e).low) * (Cell.of m e).unit := by
  have bits := h.lt
  have ends := Cell.low_cases m e
  have high : (Cell.of m e).high = 4 * m + 2 := rfl
  have width : ((4 * m : Nat) : ℚ) < ((Cell.of m e).high - (Cell.of m e).low) * 10 ^ 16 := by
    have natural : 4 * m + (Cell.of m e).low * 10 ^ 16 < (Cell.of m e).high * 10 ^ 16 := by omega
    have rational : ((4 * m : Nat) : ℚ) + (Cell.of m e).low * 10 ^ 16 <
        (Cell.of m e).high * 10 ^ 16 := by exact_mod_cast natural
    linarith
  have positive := Cell.unit_pos m e
  rw [Cell.magnitude_eq, zpow_add₀ (by norm_num)] at grid
  have tens : (10 : ℚ) ^ (16 : Int) = 10 ^ 16 := rfl
  rw [tens] at grid
  have scaled := mul_lt_mul_of_pos_right width positive
  refine lt_of_mul_lt_mul_right (a := (10 : ℚ) ^ 16) ?_ (by positivity)
  linarith

/-- The shortest digits of a number lie in its cell. -/
theorem shortest_covers (h : Canonical m e) (nonzero : m ≠ 0) (tie : Tie) :
    (Cell.of m e).Covers (shortest tie m e).toRat := by
  have range := h.exponent
  have first : Nat.log2 m < 53 := (Nat.log2_lt nonzero).mpr h.1
  have proper : (Cell.of m e).den ≠ 0 := (Nat.two_pow_pos _).ne'
  have least : (2 : ℚ) ^ (Nat.log2 m + e) ≤ Number.magnitude m e := by
    have natural : ((2 ^ Nat.log2 m : Nat) : ℚ) ≤ m := by exact_mod_cast Nat.log2_self_le nonzero
    rw [zpow_add₀ two_ne_zero, zpow_natCast, Number.magnitude]
    exact mul_le_mul_of_nonneg_right (by exact_mod_cast natural) (by positivity)
  rw [← Cell.value_eq] at least
  have decade := pow_decade_le proper (by omega) (by omega) least
  unfold shortest
  dsimp only
  generalize Decimal.decade _ _ _ = p at *
  cases found : (List.range 17).findSome? fun i =>
      ((Cell.of m e).nearest? tie (p - (i + 1 : Nat))).map fun c =>
        strip 20 ⟨c, p - (i + 1 : Nat)⟩ with
  | some d =>
    obtain ⟨i, -, taken⟩ := List.exists_of_findSome?_eq_some found
    obtain ⟨c, nearest, rfl⟩ := Option.map_eq_some_iff.mp taken
    rw [Option.getD_some, strip_toRat, ← Cell.holds_iff]
    exact Cell.holds_of_nearest? nearest
  | none =>
    rw [Cell.value_eq] at decade
    have power : p - (16 + 1 : Nat) + 16 = p - 1 := by omega
    have fine := fine_of_pow_le h (k := p - (16 + 1 : Nat)) (power ▸ decade)
    obtain ⟨c, nearest⟩ := Cell.exists_nearest? nonzero tie fine
    have missed := List.findSome?_eq_none_iff.mp found 16 (by decide)
    rw [nearest] at missed
    cases missed

/-- Digits behind a point, if there are any. -/
def pointed : List Char → List Char
  | [] => []
  | ch :: rest => '.' :: ch :: rest

theorem pointed_of_ne_nil {t : List Char} (nonempty : t ≠ []) : pointed t = '.' :: t := by
  cases t with
  | nil => exact absurd rfl nonempty
  | cons ch rest => rfl

theorem ofChars?_pointed {whole fraction : List Char} (nonempty : whole ≠ [])
    (digits : ∀ ch ∈ whole, ch.isDigit) (digits' : ∀ ch ∈ fraction, ch.isDigit) :
    ofChars? (whole ++ pointed fraction) =
      some ⟨digitsValue (whole ++ fraction), -fraction.length⟩ := by
  have ends : ∀ ch ∈ (pointed fraction).head?, ch.isDigit = false := by
    cases fraction <;> simp [pointed]
  obtain ⟨taken, left⟩ := Number.Decimal.takeWhile_digits digits ends
  obtain ⟨taken', left'⟩ := Number.Decimal.takeWhile_digits (k := []) digits' (by simp)
  rw [List.append_nil] at taken' left'
  unfold ofChars?
  dsimp only
  rw [taken, left]
  cases fraction with
  | nil => simp [pointed, nonempty]
  | cons ch rest => simp [pointed, nonempty, taken', left']

theorem digitsValue_eq (t : List Char) : digitsValue t = Nat.ofDigitChars 10 t 0 := rfl

theorem digitsValue_zeros_behind (t : List Char) (k : Nat) :
    digitsValue (t ++ List.replicate k '0') = digitsValue t * 10 ^ k := by
  rw [digitsValue_eq, Nat.ofDigitChars_append, Nat.ofDigitChars_replicate_zero, Nat.mul_comm,
    digitsValue_eq]

theorem digitsValue_zeros_before (t : List Char) (k : Nat) :
    digitsValue (List.replicate k '0' ++ t) = digitsValue t := by
  rw [digitsValue_eq, Nat.ofDigitChars_append, Nat.ofDigitChars_replicate_zero, Nat.mul_zero,
    digitsValue_eq]

/-- The text of a decimal is digits with a point among them, and it is read as the same value. -/
theorem positional_reads (d : Decimal) : ∃ whole fraction d', whole ≠ [] ∧
    (∀ ch ∈ whole, ch.isDigit) ∧ (∀ ch ∈ fraction, ch.isDigit) ∧
    positional d = String.ofList (whole ++ pointed fraction) ∧
    ofChars? (whole ++ pointed fraction) = some d' ∧ d'.toRat = d.toRat := by
  have repr : Nat.repr d.digits = String.ofList (Nat.toDigits 10 d.digits) := rfl
  have nonempty : Nat.toDigits 10 d.digits ≠ [] := Nat.toDigits_ne_nil
  have all := Number.Decimal.toDigits_all d.digits
  have value := Number.Decimal.digitsValue_toDigits d.digits
  have zero_digits (k : Nat) : ∀ ch ∈ List.replicate k '0', ch.isDigit := by
    intro ch mem
    rw [List.eq_of_mem_replicate mem]
    decide
  unfold positional
  dsimp only
  rw [repr, String.length_ofList, String.toList_ofList]
  generalize Nat.toDigits 10 d.digits = ds at *
  split
  · rename_i whole
    obtain ⟨k, scale⟩ := Int.eq_ofNat_of_zero_le whole
    have digits : ∀ ch ∈ ds ++ List.replicate k '0', ch.isDigit :=
      List.forall_mem_append.mpr ⟨all, zero_digits k⟩
    refine ⟨ds ++ List.replicate k '0', [], _, by simp [nonempty], digits, by simp, ?_,
      ofChars?_pointed (by simp [nonempty]) digits (by simp), ?_⟩
    · rw [scale, Int.toNat_natCast, zeros, pointed, List.append_nil, String.ofList_append]
    · rw [List.append_nil, digitsValue_zeros_behind, value, toRat, toRat, scale]
      simp
  · rename_i fraction
    split
    · rename_i inside
      obtain ⟨k, point⟩ := Int.eq_ofNat_of_zero_le inside.le
      rw [point, Int.toNat_natCast]
      have behind : ds.drop k ≠ [] := by simp; omega
      have first : ds.take k ≠ [] := by simp [nonempty]; omega
      have digits : ∀ ch ∈ ds.take k, ch.isDigit := fun ch mem => all ch (List.mem_of_mem_take mem)
      have digits' : ∀ ch ∈ ds.drop k, ch.isDigit := fun ch mem => all ch (List.mem_of_mem_drop mem)
      refine ⟨ds.take k, ds.drop k, _, first, digits, digits', ?_,
        ofChars?_pointed first digits digits', ?_⟩
      · apply String.toList_inj.mp
        simp [pointed_of_ne_nil behind]
      · have scale : -((ds.drop k).length : Int) = d.scale := by
          rw [List.length_drop]
          omega
        rw [List.take_append_drop, value, scale]
    · rename_i outside
      obtain ⟨k, padding⟩ := Int.eq_ofNat_of_zero_le (by omega : 0 ≤ -(d.scale + ds.length))
      rw [padding, Int.toNat_natCast]
      have digits : ∀ ch ∈ List.replicate k '0' ++ ds, ch.isDigit :=
        List.forall_mem_append.mpr ⟨zero_digits k, all⟩
      refine ⟨['0'], List.replicate k '0' ++ ds, _, by simp, by simp, digits, ?_,
        ofChars?_pointed (by simp) (by simp) digits, ?_⟩
      · apply String.toList_inj.mp
        simp [pointed_of_ne_nil (t := List.replicate k '0' ++ ds) (by simp [nonempty]), zeros]
      · have scale : -((List.replicate k '0' ++ ds).length : Int) = d.scale := by
          rw [List.length_append, List.length_replicate]
          omega
        have one : ['0'] = List.replicate 1 '0' := rfl
        rw [one, digitsValue_zeros_before, digitsValue_zeros_before, value, scale]

end Decimal

namespace Number

open FrameScript.Decimal

variable {m : Nat} {e : Int} {x : Number}

/-- The text is digits with a point among them that are read as the number. -/
def WritesDigits (x : Number) (text : String) : Prop := ∃ whole fraction, whole ≠ [] ∧
  (∀ ch ∈ whole, ch.isDigit) ∧ (∀ ch ∈ fraction, ch.isDigit) ∧
  text = String.ofList (whole ++ pointed fraction) ∧
  (ofChars? (whole ++ pointed fraction)).map (·.toNumber false) = some x

theorem writesDigits_repr (n : Nat) : WritesDigits (toNumber false ⟨n, 0⟩) n.repr := by
  refine ⟨Nat.toDigits 10 n, [], Nat.toDigits_ne_nil, Decimal.toDigits_all n, by simp, ?_, ?_⟩
  · rw [pointed, List.append_nil]
    rfl
  · rw [pointed, List.append_nil, Decimal.ofChars?_toDigits]
    rfl

theorem writesDigits_positional {d : FrameScript.Decimal} (h : Canonical m e) (nonzero : m ≠ 0)
    (covers : (Cell.of m e).Covers d.toRat) :
    WritesDigits (finite false m e h) d.positional := by
  obtain ⟨whole, fraction, d', filled, digits, digits', text, read, same⟩ := positional_reads d
  refine ⟨whole, fraction, filled, digits, digits', text, ?_⟩
  rw [read, Option.map_some, toNumber_of_covers h nonzero (same ▸ covers)]

theorem toString_signed (s : Bool) {n : Nat} (nonzero : n ≠ 0) :
    toString (if s then -(n : Int) else n) = signText s ++ n.repr := by
  obtain ⟨k, rfl⟩ := Nat.exists_eq_succ_of_ne_zero nonzero
  cases s <;> rfl

theorem display_zero (s : Bool) :
    (zero s).display = signText ((zero s).less (zero false)) ++ "0" := by
  cases s <;> decide +kernel

theorem display_eq (is_finite : x.isFinite = true) :
    ∃ text, x.display = signText (x.less (zero false)) ++ text ∧ WritesDigits x.abs text := by
  cases x with
  | nan s | infinity s => cases is_finite
  | finite s m e h =>
    by_cases is_zero : m = 0
    · subst is_zero
      obtain rfl : e = -1074 := h.normal.resolve_right (by omega)
      exact ⟨"0", display_zero s, writesDigits_repr 0⟩
    · have negative : (finite s m e h).less (zero false) = s := by
        rw [Bool.eq_iff_iff, less_zero_finite]
        simp [is_zero]
      rw [negative, abs, display]
      split
      · rename_i small
        have value := magnitude_of_isWhole small.1
        have whole : wholeMagnitude m e ≠ 0 := by
          intro nothing
          rw [nothing, Nat.cast_zero, magnitude_eq_zero] at value
          exact is_zero value
        have covers : (Cell.of m e).Covers (FrameScript.Decimal.toRat ⟨wholeMagnitude m e, 0⟩) := by
          rw [FrameScript.Decimal.toRat, zpow_zero, mul_one, ← value]
          exact Cell.covers_magnitude is_zero
        refine ⟨(wholeMagnitude m e).repr, toString_signed s whole, ?_⟩
        rw [← toNumber_of_covers h is_zero covers]
        exact writesDigits_repr _
      · rw [toText, if_neg is_zero]
        exact ⟨_, rfl, writesDigits_positional h is_zero (shortest_covers h is_zero .upper)⟩

end Number
end FrameScript
