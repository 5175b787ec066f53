import FrameScript.Proofs.Number.Exact
import FrameScript.Proofs.Number.Integral
import Mathlib.Tactic.FieldSimp

/-!
# The reals that round to a number

A number has a cell of reals: those that it is the nearest number of, with the ends if its mantissa
is even. Rounding takes each magnitude and each quotient of the cell to the number, so a decimal of
the cell is read as it. The ends of a cell are natural numbers in a unit of a quarter of the last
place; a value is compared with them there, a quotient through the further bit that tells whether
it was exact.
-/

namespace FrameScript

namespace Decimal

def toRat (d : Decimal) : ℚ := d.digits * 10 ^ d.scale

theorem zpow_eq_div (a : ℚ) (k : Int) : a ^ k = a ^ k.toNat / a ^ (-k).toNat := by
  obtain ⟨n, rfl | rfl⟩ := Int.eq_nat_or_neg k <;> simp

namespace Cell

variable {m : Nat} {e : Int} {v : ℚ}

/-- The unit in which the ends of a cell are counted. -/
def unit (cell : Cell) : ℚ := cell.num / cell.den

/-- The value lies in the cell. -/
def Covers (cell : Cell) (v : ℚ) : Prop :=
  if cell.closed then cell.low * cell.unit ≤ v ∧ v ≤ cell.high * cell.unit
  else cell.low * cell.unit < v ∧ v < cell.high * cell.unit

theorem unit_of (m : Nat) (e : Int) : (of m e).unit = 2 ^ (e - 2) := by
  rw [zpow_eq_div, Int.neg_sub]
  simp [unit, of]

theorem unit_pos (m : Nat) (e : Int) : 0 < (of m e).unit := by
  rw [unit_of]
  positivity

/-- A cell reaches half a place below its number, or a quarter of one below a power of two. -/
theorem low_cases (m : Nat) (e : Int) :
    (of m e).low = 4 * m - 1 ∧ m = 4503599627370496 ∧ -1074 < e ∨
      (of m e).low = 4 * m - 2 ∧ ¬ (m = 4503599627370496 ∧ -1074 < e) := by
  simp only [of]
  split
  · rename_i power
    exact .inl ⟨rfl, power⟩
  · rename_i other
    exact .inr ⟨rfl, other⟩

theorem Covers.between {cell : Cell} (covers : cell.Covers v) :
    cell.low * cell.unit ≤ v ∧ v ≤ cell.high * cell.unit := by
  unfold Covers at covers
  split at covers
  · exact covers
  · exact ⟨covers.1.le, covers.2.le⟩

theorem Covers.of_inside {cell : Cell} (low : cell.low * cell.unit < v)
    (high : v < cell.high * cell.unit) : cell.Covers v := by
  unfold Covers
  split
  · exact ⟨low.le, high.le⟩
  · exact ⟨low, high⟩

theorem Covers.lt (covers : (of m e).Covers v) (h : Canonical m e) : v < 2 ^ (e + 53) := by
  have bound : (of m e).high < 2 ^ 55 := by
    have bits := h.lt
    simp only [of]
    omega
  have bound : ((of m e).high : ℚ) < 2 ^ 55 := by exact_mod_cast bound
  have power : (2 : ℚ) ^ (e + 53) = 2 ^ 55 * 2 ^ (e - 2) := by
    rw [← zpow_natCast, ← zpow_add₀ two_ne_zero]
    congr 1
    omega
  rw [power, ← unit_of m e]
  exact covers.between.2.trans_lt (mul_lt_mul_of_pos_right bound (unit_pos m e))

theorem Covers.ge (covers : (of m e).Covers v) (nonzero : m ≠ 0) : 2 ^ (e - 1) ≤ v := by
  have bound : ((2 : Nat) : ℚ) ≤ (of m e).low := by
    have ends := low_cases m e
    exact_mod_cast (by omega : 2 ≤ (of m e).low)
  have power : (2 : ℚ) ^ (e - 1) = (2 : Nat) * 2 ^ (e - 2) := by
    rw [Nat.cast_ofNat, ← zpow_one_add₀ two_ne_zero]
    congr 1
    omega
  rw [power, ← unit_of m e]
  exact (mul_le_mul_of_nonneg_right bound (unit_pos m e).le).trans covers.between.1

theorem magnitude_eq (m : Nat) (e : Int) :
    Number.magnitude m e = (4 * m : Nat) * (of m e).unit := by
  have power : (2 : ℚ) ^ e = 4 * 2 ^ (e - 2) := by
    have four : (4 : ℚ) = 2 ^ (2 : Int) := by norm_num
    rw [four, ← zpow_add₀ two_ne_zero]
    congr 1
    omega
  rw [unit_of, Number.magnitude, power]
  push_cast
  ring

theorem value_eq (m : Nat) (e : Int) :
    ((of m e).value * (of m e).num : Nat) / ((of m e).den : ℚ) = Number.magnitude m e := by
  rw [Nat.cast_mul, mul_div_assoc, magnitude_eq]
  rfl

theorem low_lt_magnitude (nonzero : m ≠ 0) :
    (of m e).low * (of m e).unit < Number.magnitude m e ∧
      Number.magnitude m e < (of m e).high * (of m e).unit := by
  have ends := low_cases m e
  have low : (((of m e).low : Nat) : ℚ) < (4 * m : Nat) := by
    exact_mod_cast (by omega : (of m e).low < 4 * m)
  have high : ((4 * m : Nat) : ℚ) < (of m e).high := by
    exact_mod_cast (by simp [of] : 4 * m < (of m e).high)
  have positive := unit_pos m e
  rw [magnitude_eq]
  exact ⟨mul_lt_mul_of_pos_right low positive, mul_lt_mul_of_pos_right high positive⟩

theorem covers_magnitude (nonzero : m ≠ 0) : (of m e).Covers (Number.magnitude m e) :=
  .of_inside (low_lt_magnitude nonzero).1 (low_lt_magnitude nonzero).2

/-- The test for a point of a decimal grid. -/
theorem holds_iff (m : Nat) (e : Int) (k : Int) (c : Nat) :
    (of m e).holds k c = true ↔ (of m e).Covers ((⟨c, k⟩ : Decimal).toRat) := by
  generalize cell_eq : of m e = cell
  have den : (0 : ℚ) < cell.den := by
    subst cell_eq
    simp [of]
  have tens : (0 : ℚ) < 10 ^ (-k).toNat := by positivity
  have common : 0 < (cell.den : ℚ) * 10 ^ (-k).toNat := mul_pos den tens
  have point : (⟨c, k⟩ : Decimal).toRat =
      (c * Nat.pow 10 k.toNat * cell.den : Nat) / ((cell.den : ℚ) * 10 ^ (-k).toNat) := by
    have power : ((Nat.pow 10 k.toNat : Nat) : ℚ) = 10 ^ k.toNat := Nat.cast_pow 10 k.toNat
    rw [toRat, zpow_eq_div, eq_div_iff common.ne']
    push_cast [power]
    field_simp
  have place (a : Nat) : a * cell.unit =
      (a * (cell.num * Nat.pow 10 (-k).toNat) : Nat) / ((cell.den : ℚ) * 10 ^ (-k).toNat) := by
    have power : ((Nat.pow 10 (-k).toNat : Nat) : ℚ) = 10 ^ (-k).toNat := Nat.cast_pow 10 _
    rw [unit, eq_div_iff common.ne']
    push_cast [power]
    field_simp
  rw [Covers, place, place, point]
  simp only [div_le_div_iff_of_pos_right common, div_lt_div_iff_of_pos_right common, Nat.cast_le,
    Nat.cast_lt, holds]
  cases cell.closed <;> simp

end Cell
end Decimal

namespace Number

open FrameScript.Decimal (Cell)

variable {m n : Nat} {e : Int} {v : ℚ}

/-- A quotient at most half a unit from a natural number is rounded to it; of two equally near
ones to the even one. -/
theorem roundShift_between {t : Nat} (low : 4 * m * 2 ^ t ≤ n + 2 * 2 ^ t)
    (high : n ≤ (4 * m + 2) * 2 ^ t)
    (inside : m % 2 = 1 → 4 * m * 2 ^ t < n + 2 * 2 ^ t ∧ n < (4 * m + 2) * 2 ^ t) :
    roundShift n (t + 2) = m := by
  have unit : 2 ^ (t + 2) = 4 * 2 ^ t := by rw [Nat.pow_add]; ring
  rw [roundShift_eq, unit]
  have split := Nat.div_add_mod n (4 * 2 ^ t)
  have positive : 0 < 2 ^ t := Nat.two_pow_pos t
  have below := Nat.mod_lt n (by omega : 0 < 4 * 2 ^ t)
  generalize n / (4 * 2 ^ t) = q at *
  generalize n % (4 * 2 ^ t) = r at *
  generalize 2 ^ t = u at *
  have most : q ≤ m := by
    by_contra more
    have := Nat.mul_le_mul_left (4 * u) (by omega : m + 1 ≤ q)
    nlinarith
  have least : m ≤ q + 1 := by
    by_contra less
    have := Nat.mul_le_mul_left (4 * u) (by omega : q + 2 ≤ m)
    nlinarith
  rcases Nat.lt_or_eq_of_le most with less | rfl
  · obtain rfl : m = q + 1 := by omega
    have up : 4 * u ≤ 2 * r := by nlinarith
    rcases Nat.lt_or_eq_of_le up with far | tie
    · rw [if_pos (.inl far)]
    · have even : (q + 1) % 2 = 0 := by
        by_contra odd
        have := inside (by omega)
        nlinarith
      rw [if_pos (.inr ⟨tie.symm, by omega⟩)]
  · have down : 2 * r ≤ 4 * u := by nlinarith
    rw [if_neg]
    rintro (far | ⟨tie, odd⟩)
    · omega
    · have := inside odd
      nlinarith

/-- Below a power of two the last bit is half as great, and the rounding carries. -/
theorem roundedPlace_below_power {M s : Nat} (least : -1074 < e)
    (low : 18014398509481983 * 2 ^ s ≤ M) (high : M < 18014398509481984 * 2 ^ s) :
    roundedPlace M (e - 2 - s) = magnitudePlace 4503599627370496 e := by
  have positive : 0 < 2 ^ s := Nat.two_pow_pos s
  have size : Nat.log2 M = s + 53 := by
    apply log2_eq
    · rw [Nat.pow_add]
      omega
    · rw [Nat.add_assoc, Nat.pow_add]
      omega
  have bit : lastBit M (e - 2 - s) = s + 1 := by
    rw [lastBit, size]
    omega
  have carried : significand M (s + 1) = 9007199254740992 := by
    have rounded := roundShift_between (n := M * 2 ^ 1) (m := 9007199254740992) (t := s)
      (by omega) (by omega) (by simp)
    rw [← significand_scale M 1, significand, if_neg (by omega)]
    exact rounded
  rw [roundedPlace_pos (by omega), bit, carried]
  unfold magnitudePlace
  omega

theorem roundedPlace_of_between {M s : Nat} (h : Canonical m e) (nonzero : m ≠ 0)
    (low : (Cell.of m e).low * 2 ^ s ≤ M) (high : M ≤ (Cell.of m e).high * 2 ^ s)
    (inside : (Cell.of m e).closed = false →
      (Cell.of m e).low * 2 ^ s < M ∧ M < (Cell.of m e).high * 2 ^ s) :
    roundedPlace M (e - 2 - s) = magnitudePlace m e := by
  have bits := h.lt
  have least := h.exponent.1
  have normal := h.normal
  have ends := Cell.low_cases m e
  have odd : (Cell.of m e).closed = false ↔ m % 2 = 1 := by
    simp [Cell.of]
  have high_eq : (Cell.of m e).high = 4 * m + 2 := rfl
  rw [odd] at inside
  rw [high_eq] at high inside
  generalize (Cell.of m e).low = l at *
  have positive : 0 < 2 ^ s := Nat.two_pow_pos s
  have enough : 4 * m * 2 ^ s ≤ l * 2 ^ s + 2 * 2 ^ s := by
    rw [← Nat.add_mul]
    exact Nat.mul_le_mul_right _ (by omega)
  by_cases short : -1074 < e ∧ M < 18014398509481984 * 2 ^ s
  · have below : l < 18014398509481984 := Nat.lt_of_mul_lt_mul_right (low.trans_lt short.2)
    obtain rfl : m = 4503599627370496 := by omega
    obtain rfl : l = 18014398509481983 := by omega
    exact roundedPlace_below_power short.1 low short.2
  · have above : M < 2 ^ (s + 55) := by
      have room := Nat.mul_le_mul_right (2 ^ s) (by omega : 4 * m + 2 + 1 ≤ 36028797018963968)
      rw [Nat.add_mul _ 1] at room
      rw [Nat.pow_add]
      omega
    have some' : M ≠ 0 := by
      have := Nat.mul_le_mul_right (2 ^ s) (by omega : 4 ≤ 4 * m)
      omega
    have size : Nat.log2 M < s + 55 := (Nat.log2_lt some').mpr above
    have bit : lastBit M (e - 2 - s) = (s + 2 : Nat) := by
      by_cases first : e = -1074
      · unfold lastBit
        omega
      · have log : s + 54 ≤ Nat.log2 M := by
          rw [Nat.le_log2 some', Nat.pow_add]
          omega
        unfold lastBit
        omega
    have rounded := roundShift_between (n := M) (m := m) (t := s) (by omega) high
      fun is_odd => ⟨by have := (inside is_odd).1; omega, (inside is_odd).2⟩
    rw [roundedPlace_pos some', bit, significand, if_neg (by omega), Int.toNat_natCast, rounded]
    congr 1
    omega

/-- A quotient that is written finely enough is compared with the ends of a cell by natural
numbers. -/
theorem covers_iff (m : Nat) (e : Int) (M s : Nat) {d : Nat} (proper : d ≠ 0) :
    (Cell.of m e).Covers (magnitude M (e - 2 - s) / d) ↔
      (Cell.of m e).low * 2 ^ s * d ≤ M ∧ M ≤ (Cell.of m e).high * 2 ^ s * d ∧
        ((Cell.of m e).closed = false →
          (Cell.of m e).low * 2 ^ s * d < M ∧ M < (Cell.of m e).high * 2 ^ s * d) := by
  have divisor : (0 : ℚ) < d := Nat.cast_pos.mpr (Nat.pos_of_ne_zero proper)
  have positive : (0 : ℚ) < 2 ^ (e - 2 - s) / d := by positivity
  have scaled (a : Nat) :
      a * (Cell.of m e).unit = (a * 2 ^ s * d : Nat) * (2 ^ (e - 2 - s) / d) := by
    have split : (2 : ℚ) ^ (e - 2) = 2 ^ s * 2 ^ (e - 2 - s) := by
      rw [← zpow_natCast, ← zpow_add₀ two_ne_zero]
      congr 1
      omega
    rw [Cell.unit_of, split]
    push_cast
    field_simp
  rw [Cell.Covers, scaled, scaled, magnitude, mul_div_assoc]
  simp only [mul_le_mul_iff_left₀ positive, mul_lt_mul_iff_left₀ positive, Nat.cast_le, Nat.cast_lt]
  cases (Cell.of m e).closed
  · simp
    omega
  · simp

theorem covers_whole_iff (m : Nat) (e : Int) (M s : Nat) :
    (Cell.of m e).Covers (magnitude M (e - 2 - s)) ↔
      (Cell.of m e).low * 2 ^ s ≤ M ∧ M ≤ (Cell.of m e).high * 2 ^ s ∧
        ((Cell.of m e).closed = false →
          (Cell.of m e).low * 2 ^ s < M ∧ M < (Cell.of m e).high * 2 ^ s) := by
  simpa using covers_iff m e M s one_ne_zero

theorem magnitude_scale (M k : Nat) (E : Int) : magnitude (M * 2 ^ k) (E - k) = magnitude M E := by
  have split : (2 : ℚ) ^ E = 2 ^ k * 2 ^ (E - k) := by
    rw [← zpow_natCast, ← zpow_add₀ two_ne_zero]
    congr 1
    omega
  rw [magnitude, magnitude, split]
  push_cast
  ring

theorem eq_finite_of_place {x : Number} (h : Canonical m e) (same : x.place = magnitudePlace m e) :
    x = finite false m e h := by
  have bounds := magnitudePlace_bounds h
  obtain ⟨m', e', h', rfl⟩ : ∃ m' e' h', x = finite false m' e' h' := by
    refine exists_positive ?_
    have := place_rank x
    omega
  have low := h.lt
  have low' := h'.lt
  have normal := h.normal
  have normal' := h'.normal
  have least := h.exponent
  have least' := h'.exponent
  simp only [place, Bool.false_eq_true, if_false, magnitudePlace] at same
  obtain ⟨rfl, rfl⟩ : m' = m ∧ e' = e := by omega
  rfl

theorem roundDyadic_of_covers {M : Nat} {E : Int} (h : Canonical m e) (nonzero : m ≠ 0)
    (covers : (Cell.of m e).Covers (magnitude M E)) :
    roundDyadic false M E = finite false m e h := by
  obtain ⟨k, s, shift⟩ : ∃ k s : Nat, E - k = e - 2 - s :=
    ⟨(E - (e - 2)).toNat, ((e - 2) - E).toNat, by omega⟩
  rw [← magnitude_scale M k E, shift, covers_whole_iff] at covers
  obtain ⟨low, high, inside⟩ := covers
  have place := roundedPlace_of_between h nonzero low high inside
  rw [← shift, roundedPlace_scale] at place
  have bounds := magnitudePlace_bounds h
  apply eq_finite_of_place h
  rw [place_roundDyadic, place]
  omega

/-- A quotient with a further bit for its remainder is compared with natural numbers as the
exact quotient is. -/
theorem double_le_sticky (a n : Nat) {d : Nat} (proper : d ≠ 0) :
    (2 * a ≤ 2 * (n / d) + (if n % d = 0 then 0 else 1) ↔ a * d ≤ n) ∧
      (2 * (n / d) + (if n % d = 0 then 0 else 1) ≤ 2 * a ↔ n ≤ a * d) := by
  have positive := Nat.pos_of_ne_zero proper
  have floor : a ≤ n / d ↔ a * d ≤ n := Nat.le_div_iff_mul_le positive
  have split := Nat.div_add_mod n d
  have below : n / d < a ↔ n < a * d := Nat.div_lt_iff_lt_mul positive
  split
  · rename_i divides
    rw [divides, Nat.add_zero, Nat.mul_comm] at split
    have above : n / d ≤ a ↔ n ≤ a * d := by
      rw [← Nat.mul_le_mul_right_iff positive, split]
    omega
  · rename_i rest
    have apart : a * d ≠ n := by
      rintro rfl
      exact rest (Nat.mul_mod_left a d)
    omega

theorem widened {num : Nat} (den : Nat) (nonzero : num ≠ 0) :
    2 ^ 55 * den < num * 2 ^ (56 + Nat.log2 den - Nat.log2 num) := by
  generalize wide : 56 + Nat.log2 den - Nat.log2 num = widen
  calc 2 ^ 55 * den < 2 ^ 55 * 2 ^ (Nat.log2 den + 1) :=
        Nat.mul_lt_mul_of_pos_left Nat.lt_log2_self (by decide)
    _ = 2 ^ (56 + Nat.log2 den) := by
        rw [← Nat.pow_add]
        congr 1
        omega
    _ ≤ 2 ^ (Nat.log2 num + widen) := Nat.pow_le_pow_right (by decide) (by omega)
    _ ≤ num * 2 ^ widen := by
        rw [Nat.pow_add]
        exact Nat.mul_le_mul_right _ (Nat.log2_self_le nonzero)

theorem roundRatio_of_covers {num den : Nat} (proper : den ≠ 0) (nonzero : num ≠ 0)
    (h : Canonical m e) (some' : m ≠ 0) (covers : (Cell.of m e).Covers (num / den)) :
    roundRatio false num den 0 = finite false m e h := by
  have wide := widened den nonzero
  have small := covers.lt h
  unfold roundRatio
  dsimp only
  generalize 56 + Nat.log2 den - Nat.log2 num = widen at *
  have divisor : (0 : ℚ) < den := Nat.cast_pos.mpr (Nat.pos_of_ne_zero proper)
  -- So the further bit stands for less than the unit of the cell's ends.
  have fine : -(widen : Int) < e - 2 := by
    have power : (2 : ℚ) ^ (55 - (widen : Int)) < 2 ^ (e + 53) := by
      refine lt_trans ?_ small
      rw [zpow_sub₀ two_ne_zero, zpow_natCast, div_lt_div_iff₀ (by positivity) divisor]
      exact_mod_cast wide
    have := (zpow_lt_zpow_iff_right₀ one_lt_two).mp power
    omega
  obtain ⟨t, shift⟩ : ∃ t : Nat, -(widen : Int) = e - 2 - t := ⟨(e - 2 + widen).toNat, by omega⟩
  have value : (num / den : ℚ) = magnitude (num * 2 ^ widen) (e - 2 - t) / den := by
    rw [← shift, magnitude, zpow_neg, zpow_natCast]
    push_cast
    field_simp
  apply roundDyadic_of_covers h some'
  rw [value, covers_iff m e _ t proper] at covers
  have unit : 0 - (widen : Int) - 1 = e - 2 - (t + 1 : Nat) := by omega
  have twice (a : Nat) : a * 2 ^ (t + 1) = 2 * (a * 2 ^ t) := by ring
  have low := double_le_sticky ((Cell.of m e).low * 2 ^ t) (num * 2 ^ widen) proper
  have high := double_le_sticky ((Cell.of m e).high * 2 ^ t) (num * 2 ^ widen) proper
  rw [unit, covers_whole_iff, twice, twice, Nat.shiftLeft_eq]
  simp only [← not_le, low.1, low.2, high.1, high.2]
  simpa only [← not_le] using covers

theorem toRat_lt (d : Decimal) : d.toRat < 10 ^ (d.scale + Decimal.length d.digits) := by
  have digits : d.digits < 10 ^ Decimal.length d.digits := by
    by_contra large
    exact Nat.lt_irrefl _ (Decimal.lt_length Nat.length_toDigits_pos (Nat.le_of_not_lt large))
  rw [Decimal.toRat, add_comm, zpow_add₀ (by norm_num), zpow_natCast]
  exact mul_lt_mul_of_pos_right (by exact_mod_cast digits) (by positivity)

theorem pow_le_toRat {d : Decimal} (nonzero : d.digits ≠ 0) :
    10 ^ (d.scale + Decimal.length d.digits - 1) ≤ d.toRat := by
  obtain ⟨k, length⟩ : ∃ k, Decimal.length d.digits = k + 1 :=
    Nat.exists_eq_add_one.mpr Nat.length_toDigits_pos
  have digits : 10 ^ k ≤ d.digits := by
    by_contra small
    rcases Nat.eq_zero_or_pos k with rfl | positive
    · omega
    · have := Decimal.length_le positive (Nat.lt_of_not_le small)
      omega
  have power : d.scale + (k + 1 : Nat) - 1 = k + d.scale := by omega
  rw [length, power, Decimal.toRat, zpow_add₀ (by norm_num), zpow_natCast]
  exact mul_le_mul_of_nonneg_right (by exact_mod_cast digits) (by positivity)

/-- No decimal of a cell is settled by its order of magnitude. -/
theorem order_of_covers {d : Decimal} (h : Canonical m e) (nonzero : m ≠ 0) (digits : d.digits ≠ 0)
    (covers : (Cell.of m e).Covers d.toRat) :
    -330 ≤ d.scale + Decimal.length d.digits ∧ d.scale + Decimal.length d.digits ≤ 310 := by
  have range := h.exponent
  constructor
  · by_contra below
    have low : (10 : ℚ) ^ (-331 : Int) < 2 ^ (-1075 : Int) := by
      rw [zpow_neg, zpow_neg, inv_lt_inv₀ (by positivity) (by positivity)]
      exact_mod_cast (by decide +kernel : 2 ^ 1075 < 10 ^ 331)
    have least : (2 : ℚ) ^ (-1075 : Int) ≤ 2 ^ (e - 1) :=
      zpow_le_zpow_right₀ one_le_two (by omega)
    have order : (10 : ℚ) ^ (d.scale + Decimal.length d.digits) ≤ 10 ^ (-331 : Int) :=
      zpow_le_zpow_right₀ (by norm_num) (by omega)
    have below : d.toRat < 2 ^ (e - 1) := (toRat_lt d).trans_le (order.trans (low.le.trans least))
    exact absurd (covers.ge nonzero) (not_le.mpr below)
  · by_contra above
    have high : (2 : ℚ) ^ (1024 : Int) < 10 ^ (310 : Int) := by
      exact_mod_cast (by decide +kernel : 2 ^ 1024 < 10 ^ 310)
    have most : (2 : ℚ) ^ (e + 53) ≤ 2 ^ (1024 : Int) :=
      zpow_le_zpow_right₀ one_le_two (by omega)
    have order : (10 : ℚ) ^ (310 : Int) ≤ 10 ^ (d.scale + Decimal.length d.digits - 1) :=
      zpow_le_zpow_right₀ (by norm_num) (by omega)
    have above : 2 ^ (e + 53) ≤ d.toRat :=
      most.trans (high.le.trans (order.trans (pow_le_toRat digits)))
    exact absurd (covers.lt h) (not_lt.mpr above)

theorem digits_of_covers {d : Decimal} (nonzero : m ≠ 0) (covers : (Cell.of m e).Covers d.toRat) :
    d.digits ≠ 0 := by
  intro is_zero
  have positive : (0 : ℚ) < 2 ^ (e - 1) := by positivity
  have low := covers.ge nonzero
  rw [Decimal.toRat, is_zero, Nat.cast_zero, zero_mul] at low
  linarith

/-- A decimal in the cell of a number is read as the number. -/
theorem toNumber_of_covers {d : Decimal} (h : Canonical m e) (nonzero : m ≠ 0)
    (covers : (Cell.of m e).Covers d.toRat) : d.toNumber false = finite false m e h := by
  have digits := digits_of_covers nonzero covers
  obtain ⟨low, high⟩ := order_of_covers h nonzero digits covers
  rw [Decimal.toNumber, if_neg digits, if_neg (by omega), if_neg (by omega)]
  split
  · rename_i whole
    obtain ⟨k, scale⟩ := Int.eq_ofNat_of_zero_le whole
    apply roundDyadic_of_covers h nonzero
    rw [scale, Int.toNat_natCast]
    rw [Decimal.toRat, scale] at covers
    simpa [magnitude] using covers
  · rename_i fraction
    obtain ⟨k, scale⟩ : ∃ k : Nat, d.scale = -(k : Int) := ⟨(-d.scale).toNat, by omega⟩
    have tens : Nat.pow 10 k ≠ 0 := (Nat.pow_pos (by decide)).ne'
    have power : (-(-(k : Int))).toNat = k := by omega
    have cast : ((Nat.pow 10 k : Nat) : ℚ) = 10 ^ k := Nat.cast_pow 10 k
    rw [scale, power]
    apply roundRatio_of_covers tens digits h nonzero
    rwa [Decimal.toRat, scale, zpow_neg, zpow_natCast, ← div_eq_mul_inv, ← cast] at covers

end Number
end FrameScript
