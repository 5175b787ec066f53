import FrameScript.Native.Library
import FrameScript.Proofs.Number.Nearest
import Mathlib.Data.Rat.Floor

/-!
# Rounding half up

`Math.round` adds one half and takes the floor. The floor is exact, so what matters is whether
rounding the sum moves it to another integer. Numbers of more than 53 bits before the point stay;
among the integers of just 53 bits the sum is a tie, which goes to the even one; nearer to zero the
sum keeps all its bits, and away from zero it loses at most one, which never makes it an integer.
What is left is the one number just below one half.
-/

namespace FrameScript
namespace Number

open FrameScript.Decimal (Cell)

variable {m : Nat} {e : Int} {p q : ℚ} {x y : Number}

theorem toRat?_neg (x : Number) : x.neg.toRat? = x.toRat?.map (- ·) := by
  cases x with
  | nan s | infinity s => rfl
  | finite s m e h => cases s <;> simp [neg, toRat?]

theorem wholeMagnitude_neg (m k : Nat) : wholeMagnitude m (-(k : Int)) = m / 2 ^ k := by
  unfold wholeMagnitude
  split
  · obtain rfl : k = 0 := by omega
    simp
  · rw [Int.neg_neg, Int.toNat_natCast, Nat.shiftRight_eq_div_pow]

theorem magnitude_whole_bounds (m : Nat) (e : Int) :
    (wholeMagnitude m e : ℚ) ≤ magnitude m e ∧ magnitude m e < wholeMagnitude m e + 1 := by
  obtain ⟨k, rfl | rfl⟩ := Int.eq_nat_or_neg e
  · have whole : magnitudeIsWhole m k = true := by simp [magnitudeIsWhole]
    rw [magnitude_of_isWhole whole]
    exact ⟨le_refl _, lt_add_one _⟩
  · have power : (0 : ℚ) < 2 ^ k := by positivity
    have value : magnitude m (-(k : Int)) = m / 2 ^ k := by
      rw [magnitude, zpow_neg, zpow_natCast, ← div_eq_mul_inv]
    have below : m / 2 ^ k * 2 ^ k ≤ m := Nat.div_mul_le_self m (2 ^ k)
    have above : m < (m / 2 ^ k + 1) * 2 ^ k :=
      Nat.lt_mul_of_div_lt (Nat.lt_succ_self _) (Nat.two_pow_pos k)
    rw [wholeMagnitude_neg, value, le_div_iff₀ power, div_lt_iff₀ power]
    exact ⟨by exact_mod_cast below, by exact_mod_cast above⟩

theorem wholeMagnitude_le (h : Canonical m e) (fraction : magnitudeIsWhole m e = false) :
    wholeMagnitude m e + 1 ≤ 2 ^ 53 := by
  have negative : ¬ 0 ≤ e := by
    intro natural
    simp [magnitudeIsWhole, natural] at fraction
  have less : m / 2 ^ (-e).toNat ≤ m := Nat.div_le_self ..
  have bits := h.lt
  rw [wholeMagnitude, if_neg negative, Nat.shiftRight_eq_div_pow]
  omega

/-- The value of the floor is the floor of the value. -/
theorem floor_toRat (value : x.toRat? = some q) : x.floor.toRat? = some (⌊q⌋ : ℚ) := by
  cases x with
  | nan s | infinity s => cases value
  | finite s m e h =>
    obtain ⟨low, high⟩ := magnitude_whole_bounds m e
    have signed : (if s then -magnitude m e else magnitude m e) = q := Option.some.inj value
    cases whole : magnitudeIsWhole m e with
    | true =>
      have whole_value := magnitude_of_isWhole whole
      have same : (finite s m e h).floor = finite s m e h := by rw [floor, if_pos whole]
      have integer : q = ((if s then -wholeMagnitude m e else wholeMagnitude m e : Int) : ℚ) := by
        rw [← signed, whole_value]
        cases s <;> simp
      rw [same, value, integer, Int.floor_intCast]
    | false =>
      have apart : magnitude m e ≠ wholeMagnitude m e := by
        intro same
        rw [isWhole_of_magnitude same] at whole
        cases whole
      have inside : (wholeMagnitude m e : ℚ) < magnitude m e := lt_of_le_of_ne low apart.symm
      have small := wholeMagnitude_le h whole
      rw [floor, if_neg (by simp [whole])]
      dsimp only
      cases s with
      | false =>
        have floor_eq : ⌊q⌋ = wholeMagnitude m e := by
          rw [Int.floor_eq_iff, ← signed]
          exact ⟨by simpa using low, by simpa using high⟩
        rw [floor_eq]
        exact ofNat_is (by omega : wholeMagnitude m e ≤ 2 ^ 53)
      | true =>
        have floor_eq : ⌊q⌋ = -(wholeMagnitude m e + 1 : Int) := by
          rw [Int.floor_eq_iff, ← signed]
          push_cast
          simp only [if_true]
          constructor <;> linarith
        have floor_value : (roundDyadic false (wholeMagnitude m e + 1) 0).toRat? = _ :=
          ofNat_is small
        rw [if_pos rfl, roundDyadic_true, toRat?_neg, floor_value, floor_eq]
        simp

theorem scaled_value (s : Bool) (m : Nat) {e base : Int} (le : base ≤ e) :
    (scaled s m e base : ℚ) * 2 ^ base = if s then -magnitude m e else magnitude m e := by
  obtain ⟨k, rfl⟩ : ∃ k : Nat, e = base + k := ⟨(e - base).toNat, by omega⟩
  have shift : base + (k : Int) - base = k := by omega
  have value := magnitude_scale m k (base + k)
  have back : base + (k : Int) - k = base := by omega
  rw [back, magnitude] at value
  cases s with
  | false =>
    simpa [scaled, shift, Nat.shiftLeft_eq] using value
  | true =>
    rw [← value]
    simp [scaled, shift, Nat.shiftLeft_eq]

theorem add_eq_round (left : x.toRat? = some p) (right : y.toRat? = some q) :
    ∃ (sum base : Int) (s : Bool), (sum : ℚ) * 2 ^ base = p + q ∧
      x.add y = if sum = 0 then zero s else roundDyadic (sum < 0) sum.natAbs base := by
  cases x with
  | nan s | infinity s => cases left
  | finite s m₁ e₁ h₁ =>
    cases y with
    | nan t | infinity t => cases right
    | finite t m₂ e₂ h₂ =>
      refine ⟨_, _, _, ?_, rfl⟩
      rw [Int.cast_add, add_mul, scaled_value s m₁ (by omega), scaled_value t m₂ (by omega),
        Option.some.inj left, Option.some.inj right]

/-- A sum that is not zero is the number whose cell it lies in. -/
theorem add_of_covers (left : x.toRat? = some p) (right : y.toRat? = some q) (h : Canonical m e)
    (m_ne_zero : m ≠ 0) (covers : (Cell.of m e).Covers |p + q|) :
    x.add y = finite (p + q < 0) m e h := by
  obtain ⟨sum, base, s, value, same⟩ := add_eq_round left right
  have positive : (0 : ℚ) < 2 ^ base := by positivity
  have filled : 0 < |p + q| := lt_of_lt_of_le (by positivity) (covers.ge m_ne_zero)
  have nonzero : sum ≠ 0 := by
    rintro rfl
    rw [← value] at filled
    simp at filled
  have magnitude_eq : |p + q| = magnitude sum.natAbs base := by
    rw [← value, abs_mul, abs_of_pos positive, magnitude, Nat.cast_natAbs, Int.cast_abs]
  have sign : decide (p + q < 0) = decide (sum < 0) := by
    rw [← value]
    simp [mul_neg_iff, positive, positive.not_gt]
  rw [magnitude_eq] at covers
  have rounded := roundDyadic_of_covers h m_ne_zero covers
  rw [same, if_neg nonzero, sign]
  by_cases negative : sum < 0
  · rw [decide_eq_true negative, roundDyadic_true, rounded]
    rfl
  · rw [decide_eq_false negative, rounded]

theorem exists_canonical {M : Nat} {E : Int} (m_ne_zero : M ≠ 0) (bits : M < 2 ^ 53)
    (least : -1074 ≤ E) (most : E ≤ 971) :
    ∃ m e, ∃ _ : Canonical m e, m ≠ 0 ∧ magnitude m e = magnitude M E := by
  have first := (Nat.log2_lt m_ne_zero).mpr bits
  obtain ⟨k, shift⟩ : ∃ k : Nat, (k : Int) = Min.min (52 - Nat.log2 M : Int) (E + 1074) :=
    ⟨(Min.min (52 - Nat.log2 M : Int) (E + 1074)).toNat, by omega⟩
  have size : Nat.log2 (M * 2 ^ k) = Nat.log2 M + k := log2_scale m_ne_zero k
  have some' : M * 2 ^ k ≠ 0 := Nat.mul_ne_zero m_ne_zero (Nat.two_pow_pos k).ne'
  refine ⟨M * 2 ^ k, E - k, ⟨(Nat.log2_lt some').mp (by omega), ?_⟩, some', magnitude_scale M k E⟩
  by_cases low : E - k = -1074
  · exact .inl low
  · exact .inr ⟨(Nat.le_log2 some').mp (by omega), by omega, by omega⟩

theorem add_exact {M : Nat} {E : Int} (left : x.toRat? = some p) (right : y.toRat? = some q)
    (bits : M < 2 ^ 53) (least : -1074 ≤ E) (most : E ≤ 971) (value : |p + q| = magnitude M E) :
    (x.add y).toRat? = some (p + q) := by
  by_cases is_zero : M = 0
  · rw [magnitude_eq_zero.mpr is_zero, abs_eq_zero] at value
    obtain ⟨sum, base, s, scaled, same⟩ := add_eq_round left right
    have nothing : sum = 0 := by
      rw [value, mul_eq_zero] at scaled
      exact_mod_cast scaled.resolve_right (by positivity)
    rw [same, if_pos nothing, value]
    cases s <;> simp [zero, toRat?, magnitude]
  · obtain ⟨m, e, h, m_ne_zero, same⟩ := exists_canonical is_zero bits least most
    rw [← same] at value
    have covers := Cell.covers_magnitude (e := e) m_ne_zero
    rw [← value] at covers
    rw [add_of_covers left right h m_ne_zero covers, toRat?, ← value]
    by_cases negative : p + q < 0
    · simp [negative, abs_of_neg]
    · simp [negative, abs_of_nonneg (not_lt.mp negative)]

theorem half_toRat : half.toRat? = some (1 / 2) := by
  have parts : ∃ h, half = finite false 4503599627370496 (-53) h :=
    ⟨by decide, by decide +kernel⟩
  obtain ⟨h, same⟩ := parts
  rw [same, toRat?]
  norm_num [magnitude]

theorem add_half_of_covers {s : Bool} (h : Canonical m e) {m' : Nat} {e' : Int}
    (h' : Canonical m' e') (m_ne_zero : m' ≠ 0) (large : 1 / 2 < magnitude m e)
    (covers : (Cell.of m' e').Covers (if s then magnitude m e - 1 / 2 else magnitude m e + 1 / 2)) :
    (finite s m e h).add half = finite s m' e' h' := by
  have sum : (if s then -magnitude m e else magnitude m e) + 1 / 2 =
      if s then -(magnitude m e - 1 / 2) else magnitude m e + 1 / 2 := by
    cases s <;> simp; ring
  have positive := magnitude_nonneg m e
  have size : |(if s then -magnitude m e else magnitude m e) + 1 / 2| =
      if s then magnitude m e - 1 / 2 else magnitude m e + 1 / 2 := by
    rw [sum]
    cases s
    · exact abs_of_nonneg (by simp; linarith)
    · simp only [if_true, abs_neg]
      exact abs_of_pos (by linarith)
  have sign : decide ((if s then -magnitude m e else magnitude m e) + 1 / 2 < 0) = s := by
    rw [sum]
    cases s
    · simp only [Bool.false_eq_true, if_false, decide_eq_false_iff_not]
      linarith
    · simp only [if_true, decide_eq_true_eq]
      linarith
  rw [add_of_covers rfl half_toRat h' m_ne_zero (size ▸ covers)]
  simp only [sign]

theorem covers_of_even {v : ℚ} (even : m % 2 = 0) (low : (Cell.of m e).low * (Cell.of m e).unit ≤ v)
    (high : v ≤ (Cell.of m e).high * (Cell.of m e).unit) : (Cell.of m e).Covers v := by
  have closed : (Cell.of m e).closed = true := by simp [Cell.of, even]
  rw [Cell.Covers, if_pos closed]
  exact ⟨low, high⟩

theorem add_half_of_multiple {s : Bool} (h : Canonical m e) (large : 1 ≤ e) :
    (finite s m e h).add half = finite s m e h := by
  have m_ne_zero : m ≠ 0 := by
    have := h.normal
    omega
  have unit : 1 / 2 ≤ (Cell.of m e).unit := by
    have power : (2 : ℚ) ^ (-1 : Int) ≤ 2 ^ (e - 2) := zpow_le_zpow_right₀ one_le_two (by omega)
    rw [Cell.unit_of]
    simpa using power
  have least : (1 : ℚ) ≤ m := by exact_mod_cast Nat.pos_of_ne_zero m_ne_zero
  have value := Cell.magnitude_eq m e
  have high : (Cell.of m e).high = 4 * m + 2 := rfl
  refine add_half_of_covers h h m_ne_zero (by rw [value]; push_cast; nlinarith) ?_
  rw [value]
  rcases Cell.low_cases m e with ⟨low, rfl, -⟩ | ⟨low, -⟩
  · refine covers_of_even rfl ?_ ?_
    · rw [low]
      cases s <;> norm_num <;> linarith
    · rw [high]
      cases s <;> norm_num <;> linarith
  · have low : ((Cell.of m e).low : ℚ) = 4 * m - 2 := by
      rw [low]
      push_cast [Nat.cast_sub (by omega : 2 ≤ 4 * m)]
      ring
    refine .of_inside ?_ ?_
    · rw [low]
      cases s <;> push_cast <;> simp <;> nlinarith
    · rw [high]
      cases s <;> push_cast <;> simp <;> nlinarith

theorem canonical_of_bits (low : 4503599627370496 ≤ m) (high : m < 9007199254740992)
    (least : -1074 < e) (most : e ≤ 971) : Canonical m e :=
  ⟨high, .inr ⟨low, least, most⟩⟩

theorem magnitude_units (m : Nat) : magnitude m 0 = m := by simp [magnitude]

/-- A tie between integers of 53 bits belongs to the even one. -/
theorem covers_tie_above (even : m % 2 = 0) (m_ne_zero : m ≠ 0) :
    (Cell.of m 0).Covers (m + 1 / 2) := by
  have high : (Cell.of m 0).high = 4 * m + 2 := rfl
  have below := (Cell.low_lt_magnitude (e := 0) m_ne_zero).1
  rw [magnitude_units] at below
  refine covers_of_even even (by linarith) ?_
  rw [high, Cell.unit_of]
  push_cast
  norm_num
  linarith

theorem covers_tie_below (even : m % 2 = 0) (m_ne_zero : m ≠ 0) (power : m ≠ 4503599627370496) :
    (Cell.of m 0).Covers (m - 1 / 2) := by
  have low : (Cell.of m 0).low = 4 * m - 2 := by
    have ends := Cell.low_cases m 0
    omega
  have above := (Cell.low_lt_magnitude (e := 0) m_ne_zero).2
  rw [magnitude_units] at above
  refine covers_of_even even ?_ (by linarith)
  rw [low, Cell.unit_of]
  push_cast [Nat.cast_sub (by omega : 2 ≤ 4 * m)]
  norm_num
  linarith

section

variable {s : Bool} (h : Canonical m 0)

include h

theorem units_large : 4503599627370496 ≤ m := by
  have := h.normal
  omega

theorem half_lt_units : 1 / 2 < magnitude m 0 := by
  have least : (4503599627370496 : ℚ) ≤ m := by exact_mod_cast units_large h
  rw [magnitude_units]
  linarith

theorem add_half_of_even (even : m % 2 = 0) (apart : s = true → m ≠ 4503599627370496) :
    (finite s m 0 h).add half = finite s m 0 h := by
  have large := units_large h
  refine add_half_of_covers h h (by omega) (half_lt_units h) ?_
  rw [magnitude_units]
  cases s with
  | false => exact covers_tie_above even (by omega)
  | true => exact covers_tie_below even (by omega) (apart rfl)

theorem add_half_of_odd (odd : m % 2 = 1) :
    ((finite s m 0 h).add half).toRat? = some ((if s then -(m : ℚ) else m) + 1) := by
  have large := units_large h
  have bits := h.lt
  cases s with
  | true =>
    obtain ⟨n, rfl⟩ : ∃ n, m = n + 1 := ⟨m - 1, by omega⟩
    have h' : Canonical n 0 := canonical_of_bits (by omega) (by omega) (by decide) (by decide)
    have tie : (n : ℚ) + 1 / 2 = magnitude (n + 1) 0 - 1 / 2 := by
      rw [magnitude_units]
      push_cast
      ring
    have covers := covers_tie_above (m := n) (by omega) (by omega)
    rw [tie] at covers
    rw [add_half_of_covers (s := true) h h' (by omega) (half_lt_units h) covers, toRat?,
      magnitude_units]
    simp
  | false =>
    by_cases carry : m = 9007199254740991
    · subst carry
      -- The next one is a power of two, with one bit less behind it.
      have sum : (finite false 9007199254740991 0 (by decide)).add half =
          finite false 4503599627370496 1 (by decide) := by decide +kernel
      rw [sum, toRat?]
      norm_num [magnitude]
    · have h' : Canonical (m + 1) 0 :=
        canonical_of_bits (by omega) (by omega) (by decide) (by decide)
      have tie : ((m + 1 : Nat) : ℚ) - 1 / 2 = magnitude m 0 + 1 / 2 := by
        rw [magnitude_units]
        push_cast
        ring
      have covers := covers_tie_below (m := m + 1) (by omega) (by omega) (by omega)
      rw [tie] at covers
      rw [add_half_of_covers (s := false) h h' (by omega) (half_lt_units h) covers, toRat?,
        magnitude_units]
      simp

end

section

variable {t : Nat}

theorem magnitude_add_half (m t : Nat) :
    magnitude (m + 2 ^ t) (-(t + 1 : Nat)) = magnitude m (-(t + 1 : Nat)) + 1 / 2 := by
  rw [magnitude, magnitude, zpow_neg, zpow_natCast]
  push_cast
  field_simp
  ring

theorem half_le_magnitude : 1 / 2 ≤ magnitude m (-(t + 1 : Nat)) ↔ 2 ^ t ≤ m := by
  have positive : (0 : ℚ) < 2 ^ (t + 1) := by positivity
  rw [magnitude, zpow_neg, zpow_natCast, ← div_eq_mul_inv, div_le_div_iff₀ two_pos positive,
    pow_succ, one_mul, mul_le_mul_iff_left₀ two_pos]
  exact_mod_cast Iff.rfl

/-- A sum that is not rounded, since it is nearer to zero. -/
theorem add_half_toward_zero (h : Canonical m (-(t + 1 : Nat))) (large : 2 ^ t ≤ m) :
    ((finite true m _ h).add half).toRat? = some (-magnitude m (-(t + 1 : Nat)) + 1 / 2) := by
  obtain ⟨n, rfl⟩ := Nat.exists_eq_add_of_le' large
  have bits : n < 2 ^ 53 := (Nat.le_add_right _ _).trans_lt h.1
  have range := h.exponent
  have value := magnitude_add_half n t
  refine add_exact (M := n) (E := -(t + 1 : Nat)) rfl half_toRat bits range.1 (by omega) ?_
  rw [value, neg_add, neg_add_cancel_right, abs_neg]
  exact abs_of_nonneg (magnitude_nonneg ..)

theorem floor_magnitude (m : Nat) (e : Int) : ⌊magnitude m e⌋ = wholeMagnitude m e := by
  rw [Int.floor_eq_iff]
  exact magnitude_whole_bounds m e

theorem exists_even_half {M : Nat} (odd : M % 2 = 1) :
    ∃ n, n % 2 = 0 ∧ (2 * n + 1 = M ∨ 2 * n = M + 1) := by
  by_cases even : M / 2 % 2 = 0
  · exact ⟨M / 2, even, .inl (by omega)⟩
  · exact ⟨M / 2 + 1, by omega, .inr (by omega)⟩

theorem magnitude_double (M : Nat) (E : Int) : magnitude (2 * M) E = magnitude M (E + 1) := by
  have scaled := magnitude_scale M 1 (E + 1)
  rwa [Nat.pow_one, Nat.mul_comm, Nat.cast_one, Int.add_sub_cancel] at scaled

/-- An odd number of one bit too many is a tie, and it goes to the even half. -/
theorem covers_half {n M : Nat} (even : n % 2 = 0) (near : 2 * n + 1 = M ∨ 2 * n = M + 1)
    (carry : 2 ^ 53 ≤ M) (E : Int) : (Cell.of n (E + 1)).Covers (magnitude M E) := by
  have quarter : E = E + 1 - 2 - (0 : Nat) + 1 := by omega
  have ends := Cell.low_cases n (E + 1)
  have high : (Cell.of n (E + 1)).high = 4 * n + 2 := rfl
  have closed : (Cell.of n (E + 1)).closed = true := by simp [Cell.of, even]
  have value : magnitude M E = magnitude (2 * M) (E + 1 - 2 - (0 : Nat)) := by
    rw [magnitude_double, ← quarter]
  rw [value, covers_whole_iff, high, closed]
  refine ⟨by omega, by omega, by simp⟩

/-- A sum with one bit too many is no integer, and rounding it makes none above it. -/
theorem whole_of_carry {n M : Nat} (bits : m < 2 ^ 53) (short : t ≤ 52) (sum : M = m + 2 ^ t)
    (carry : 2 ^ 53 ≤ M) (near : 2 * n + 1 = M ∨ 2 * n = M + 1) :
    n / 2 ^ t = M / 2 ^ (t + 1) := by
  have split : M / 2 ^ (t + 1) = M / 2 / 2 ^ t := by
    rw [Nat.div_div_eq_div_mul, Nat.pow_succ, Nat.mul_comm]
  rcases near with below | above
  · rw [split]
    congr 1
    omega
  · obtain ⟨k, rfl⟩ : ∃ k, n = k + 1 := ⟨n - 1, by omega⟩
    have apart : ¬ 2 ^ t ∣ k + 1 := by
      rintro ⟨c, multiple⟩
      have power : 2 ^ t * 2 ^ (52 - t) = 2 ^ 52 := by
        rw [← Nat.pow_add]
        congr 1
        omega
      have positive : 0 < 2 ^ t := Nat.two_pow_pos t
      have more : 2 ^ (52 - t) < c := by
        rw [← Nat.mul_lt_mul_left positive, power]
        omega
      have next := Nat.mul_le_mul_left (2 ^ t) (Nat.succ_le_of_lt more)
      rw [Nat.mul_succ, power] at next
      omega
    have previous : M / 2 = k := by omega
    rw [Nat.succ_div_of_not_dvd apart, split, previous]

/-- The integral part of a sum with one half, away from zero, is not changed by rounding. -/
theorem add_half_away (h : Canonical m (-(t + 1 : Nat))) (large : 2 ^ t ≤ m) :
    ∃ z, ((finite false m _ h).add half).toRat? = some z ∧
      ⌊z⌋ = ⌊magnitude m (-(t + 1 : Nat)) + 1 / 2⌋ := by
  have bits := h.lt
  have range := h.exponent
  have positive : 0 < 2 ^ t := Nat.two_pow_pos t
  have short : t ≤ 52 := by
    by_contra long
    have := Nat.pow_le_pow_right (by decide : 0 < 2) (by omega : 53 ≤ t)
    omega
  have size : |magnitude m (-(t + 1 : Nat)) + 1 / 2| = magnitude (m + 2 ^ t) (-(t + 1 : Nat)) := by
    rw [magnitude_add_half]
    exact abs_of_nonneg (by have := magnitude_nonneg m (-(t + 1 : Nat)); linarith)
  by_cases fits : m + 2 ^ t < 2 ^ 53
  · exact ⟨_, add_exact rfl half_toRat fits range.1 (by omega) size, rfl⟩
  · by_cases even : (m + 2 ^ t) % 2 = 0
    · obtain ⟨n, doubled⟩ := Nat.dvd_of_mod_eq_zero even
      rw [doubled, magnitude_double] at size
      refine ⟨_, add_exact rfl half_toRat ?_ (by omega) (by omega) size, rfl⟩
      have := Nat.pow_le_pow_right (by decide : 0 < 2) short
      omega
    · obtain ⟨n, n_even, near⟩ := exists_even_half (by omega : (m + 2 ^ t) % 2 = 1)
      have power := Nat.pow_le_pow_right (by decide : 0 < 2) short
      have h' : Canonical n (-(t + 1 : Nat) + 1) :=
        canonical_of_bits (by omega) (by omega) (by omega) (by omega)
      have covers := covers_half n_even near (by omega) (-(t + 1 : Nat))
      rw [← size] at covers
      have nonneg : ¬ magnitude m (-(t + 1 : Nat)) + 1 / 2 < 0 := by
        have := magnitude_nonneg m (-(t + 1 : Nat))
        linarith
      refine ⟨magnitude n (-(t + 1 : Nat) + 1), ?_, ?_⟩
      · rw [add_of_covers rfl half_toRat h' (by omega) covers]
        simp only [toRat?, decide_eq_true_eq, if_neg nonneg]
      · have last : -((t + 1 : Nat) : Int) + 1 = -(t : Int) := by omega
        rw [← magnitude_add_half, floor_magnitude, floor_magnitude, last, wholeMagnitude_neg,
          wholeMagnitude_neg, whole_of_carry bits short rfl (by omega) near]

end

theorem place_roundDyadic_le {M : Nat} {E : Int} (h : Canonical m e)
    (le : magnitude M E ≤ magnitude m e) :
    (roundDyadic false M E).place ≤ magnitudePlace m e := by
  obtain ⟨j, k, same⟩ : ∃ j k : Nat, E - j = e - k :=
    ⟨(E - e).toNat, (e - E).toNat, by omega⟩
  have positive : (0 : ℚ) < 2 ^ (e - k) := by positivity
  rw [← magnitude_scale M j E, ← magnitude_scale m k e, same, magnitude, magnitude,
    mul_le_mul_iff_left₀ positive] at le
  have between := roundedPlace_mono (by exact_mod_cast le : M * 2 ^ j ≤ m * 2 ^ k) (e - k)
  rw [roundedPlace_scale, ← same, roundedPlace_scale, roundedPlace_canonical h] at between
  rw [place_roundDyadic]
  omega

/-- Below one half there is one number that is too near to it; the others are far enough. -/
theorem below_half (h : Canonical m e) (less : magnitude m e < 1 / 2) :
    m = 9007199254740991 ∧ e = -54 ∨ magnitude m e + 1 / 2 ≤ magnitude 9007199254740991 (-53) := by
  have bits : (m : ℚ) ≤ 9007199254740991 := by
    have := h.lt
    exact_mod_cast (by omega : m ≤ 9007199254740991)
  rcases Int.lt_trichotomy e (-54) with small | rfl | large
  · right
    have power : (2 : ℚ) ^ e ≤ 2 ^ (-55 : Int) := zpow_le_zpow_right₀ one_le_two (by omega)
    have value : magnitude m e ≤ 9007199254740991 * 2 ^ (-55 : Int) :=
      mul_le_mul bits power (by positivity) (by norm_num)
    rw [magnitude] at value ⊢
    norm_num [magnitude] at value ⊢
    linarith
  · by_cases last : m = 9007199254740991
    · exact .inl ⟨last, rfl⟩
    · right
      have others : (m : ℚ) ≤ 9007199254740990 := by
        have := h.lt
        exact_mod_cast (by omega : m ≤ 9007199254740990)
      norm_num [magnitude]
      linarith
  · have normal : (4503599627370496 : ℚ) ≤ m := by
      have := h.normal
      exact_mod_cast (by omega : 4503599627370496 ≤ m)
    have power : (2 : ℚ) ^ (-53 : Int) ≤ 2 ^ e := zpow_le_zpow_right₀ one_le_two (by omega)
    have value : 4503599627370496 * (2 : ℚ) ^ (-53 : Int) ≤ magnitude m e :=
      mul_le_mul normal power (by positivity) (by positivity)
    norm_num at value
    linarith

theorem add_half_inside (value : x.toRat? = some q) (positive : 0 < q + 1 / 2)
    (most : q + 1 / 2 ≤ magnitude 9007199254740991 (-53)) :
    ∃ z, (x.add half).toRat? = some z ∧ ⌊z⌋ = 0 := by
  obtain ⟨sum, base, s, scaled, same⟩ := add_eq_round value half_toRat
  have power : (0 : ℚ) < 2 ^ base := by positivity
  have sum_pos : 0 < sum := by
    rw [← scaled] at positive
    exact_mod_cast (mul_pos_iff_of_pos_right power).mp positive
  obtain ⟨n, rfl⟩ := Int.eq_ofNat_of_zero_le sum_pos.le
  have canonical : Canonical 9007199254740991 (-53) := by decide
  have le : magnitude n base ≤ magnitude 9007199254740991 (-53) := by
    rw [magnitude]
    exact_mod_cast scaled.le.trans most
  have places := place_roundDyadic_le canonical le
  have nonneg := roundedPlace_nonneg n base
  have last : magnitudePlace 9007199254740991 (-53) < infinityPlace := by decide
  have first : 0 ≤ infinityPlace := by decide
  obtain ⟨m, e, h, rounded⟩ : ∃ m e h, roundDyadic false n base = finite false m e h := by
    refine exists_positive ?_
    have rank := place_rank (roundDyadic false n base)
    have place := place_roundDyadic n base
    omega
  refine ⟨magnitude m e, ?_, ?_⟩
  · rw [same, if_neg (by omega), decide_eq_false (by omega), Int.natAbs_natCast, rounded]
    rfl
  · rw [rounded] at places
    have normal := h.normal
    have bits := h.lt
    have small : e ≤ -53 := by
      simp only [place, Bool.false_eq_true, if_false, magnitudePlace] at places
      omega
    obtain ⟨k, rfl⟩ : ∃ k : Nat, e = -(k : Int) := ⟨(-e).toNat, by omega⟩
    have power := Nat.pow_le_pow_right (by decide : 0 < 2) (by omega : 53 ≤ k)
    rw [floor_magnitude, wholeMagnitude_neg, Nat.div_eq_of_lt (by omega)]
    rfl

/-- The numbers that are not rounded to the nearest integer. -/
def Misrounded (q : ℚ) : Prop :=
  q = 1 / 2 - 1 / 2 ^ 54 ∨ ∃ i : ℤ, q = i ∧ Odd i ∧ 2 ^ 52 < |i| ∧ |i| < 2 ^ 53

theorem fraction_lt (h : Canonical m e) (fraction : e < 0) : magnitude m e < 2 ^ 52 := by
  have bits : (m : ℚ) < 2 ^ 53 := by exact_mod_cast h.1
  have power : (2 : ℚ) ^ e ≤ 2 ^ (-1 : Int) := zpow_le_zpow_right₀ one_le_two (by omega)
  have value : magnitude m e < 2 ^ 53 * 2 ^ (-1 : Int) :=
    mul_lt_mul bits power (by positivity) (by positivity)
  norm_num at value ⊢
  exact value

theorem misrounded_integer (i : ℤ) : Misrounded i ↔ Odd i ∧ 2 ^ 52 < |i| ∧ |i| < 2 ^ 53 := by
  have apart : (i : ℚ) ≠ 1 / 2 - 1 / 2 ^ 54 := by
    intro same
    have whole : ⌊(i : ℚ)⌋ = 0 := by
      rw [same]
      norm_num
    rw [Int.floor_intCast] at whole
    subst whole
    norm_num at same
  constructor
  · rintro (same | ⟨j, same, odd⟩)
    · exact absurd same apart
    · exact Int.cast_injective same ▸ odd
  · exact fun odd => .inr ⟨i, rfl, odd⟩

theorem not_misrounded_fraction (size : |q| < 2 ^ 52) (apart : q ≠ 1 / 2 - 1 / 2 ^ 54) :
    ¬ Misrounded q := by
  rintro (same | ⟨i, rfl, -, large, -⟩)
  · exact apart same
  · have large' : ((2 ^ 52 : ℤ) : ℚ) < |(i : ℚ)| := by exact_mod_cast large
    push_cast at large'
    linarith

theorem floor_add_half (i : ℤ) : ⌊(i : ℚ) + 1 / 2⌋ = i := by
  rw [Int.floor_intCast_add]
  norm_num

/-- The floor of the sum with one half is one too great just for the numbers that are rounded
wrong. -/
def SumsHalf (x : Number) (q : ℚ) : Prop := ∃ z, (x.add half).toRat? = some z ∧
  (¬ Misrounded q → ⌊z⌋ = ⌊q + 1 / 2⌋) ∧ (Misrounded q → ⌊z⌋ = ⌊q + 1 / 2⌋ + 1)

theorem SumsHalf.right {z : ℚ} (sound : ¬ Misrounded q) (sum : (x.add half).toRat? = some z)
    (floor : ⌊z⌋ = ⌊q + 1 / 2⌋) : SumsHalf x q :=
  ⟨z, sum, fun _ => floor, fun wrong => absurd wrong sound⟩

theorem SumsHalf.wrong {z : ℚ} (wrong : Misrounded q) (sum : (x.add half).toRat? = some z)
    (floor : ⌊z⌋ = ⌊q + 1 / 2⌋ + 1) : SumsHalf x q :=
  ⟨z, sum, fun sound => absurd wrong sound, fun _ => floor⟩

def signed (s : Bool) (n : Nat) : ℤ := if s then -n else n

theorem signed_cast (s : Bool) (n : Nat) : (if s then -(n : ℚ) else n) = (signed s n : ℚ) := by
  cases s <;> simp [signed]

theorem misrounded_signed (s : Bool) (n : Nat) :
    Misrounded (signed s n) ↔ n % 2 = 1 ∧ 4503599627370496 < n ∧ n < 9007199254740992 := by
  rw [misrounded_integer]
  cases s
  · simp [signed, Nat.odd_iff]
  · simp [signed, Nat.odd_iff]

theorem sumsHalf_integer {s : Bool} (h : Canonical m e) (natural : 0 ≤ e) :
    SumsHalf (finite s m e h) (if s then -magnitude m e else magnitude m e) := by
  have normal := h.normal
  have bits := h.lt
  rcases Int.lt_or_eq_of_le natural with large | rfl
  · obtain ⟨k, rfl⟩ : ∃ k : Nat, e = k := ⟨e.toNat, by omega⟩
    have size : 2 ^ 53 ≤ m * 2 ^ k :=
      Nat.mul_le_mul (by omega : 2 ^ 52 ≤ m)
        (Nat.pow_le_pow_right (by decide : 0 < 2) (by omega : 1 ≤ k))
    have same : ((finite s m k h).add half).toRat? = _ :=
      congrArg toRat? (add_half_of_multiple h (by omega))
    rw [toRat?, magnitude_ofNat, signed_cast] at same
    rw [magnitude_ofNat, signed_cast]
    refine .right ?_ same (by rw [floor_add_half, Int.floor_intCast])
    rw [misrounded_signed]
    omega
  · rw [magnitude_units, signed_cast]
    by_cases odd : m % 2 = 1
    · have sum := add_half_of_odd (s := s) h odd
      rw [signed_cast] at sum
      refine .wrong ((misrounded_signed s m).mpr (by omega)) sum ?_
      rw [floor_add_half, Int.floor_add_one, Int.floor_intCast]
    · have sound : ¬ Misrounded (signed s m) := by
        rw [misrounded_signed]
        omega
      by_cases power : s = true ∧ m = 4503599627370496
      · obtain ⟨rfl, rfl⟩ := power
        -- One half less than a power of two can be held.
        refine .right sound (add_exact (M := 9007199254740991) (E := -1) (p := -4503599627370496)
          ?_ half_toRat (by decide) (by decide) (by decide) ?_) ?_
        · norm_num [toRat?, magnitude]
        · norm_num [magnitude, abs_of_neg]
        · rfl
      · have same : ((finite s m 0 h).add half).toRat? = _ :=
          congrArg toRat? (add_half_of_even h (by omega) fun negative => (power ⟨negative, ·⟩))
        rw [toRat?, magnitude_units, signed_cast] at same
        exact .right sound same (by rw [floor_add_half, Int.floor_intCast])

theorem sumsHalf_inside (value : x.toRat? = some q) (size : |q| < 2 ^ 52) (positive : 0 < q + 1 / 2)
    (most : q + 1 / 2 ≤ magnitude 9007199254740991 (-53)) : SumsHalf x q := by
  obtain ⟨z, sum, floor⟩ := add_half_inside value positive most
  have bound : magnitude 9007199254740991 (-53) < 1 - 1 / 2 ^ 54 := by norm_num [magnitude]
  have one : 1 - 1 / 2 ^ 54 < (1 : ℚ) := by norm_num
  refine .right (not_misrounded_fraction size fun same => ?_) sum ?_
  · linarith
  · rw [floor, eq_comm, Int.floor_eq_zero_iff]
    exact ⟨positive.le, by linarith⟩

theorem sumsHalf_fraction {s : Bool} (h : Canonical m e) (fraction : e < 0) :
    SumsHalf (finite s m e h) (if s then -magnitude m e else magnitude m e) := by
  have small := fraction_lt h fraction
  have nonneg := magnitude_nonneg m e
  have size : |(if s then -magnitude m e else magnitude m e)| < 2 ^ 52 := by
    cases s
    · simpa [abs_of_nonneg nonneg] using small
    · simpa [abs_of_nonneg nonneg] using small
  obtain ⟨t, rfl⟩ : ∃ t : Nat, e = -(t + 1 : Nat) := ⟨(-e - 1).toNat, by omega⟩
  by_cases large : 2 ^ t ≤ m
  · have least := half_le_magnitude.mpr large
    have bound : (0 : ℚ) < 1 / 2 - 1 / 2 ^ 54 ∧ 1 / 2 - 1 / 2 ^ 54 < (1 : ℚ) / 2 := by norm_num
    cases s with
    | true =>
      refine .right (not_misrounded_fraction size ?_) (add_half_toward_zero h large) rfl
      rw [if_pos rfl]
      linarith
    | false =>
      obtain ⟨z, sum, floor⟩ := add_half_away h large
      refine .right (not_misrounded_fraction size ?_) sum floor
      rw [if_neg Bool.false_ne_true]
      linarith
  · have less : magnitude m (-(t + 1 : Nat)) < 1 / 2 := by
      rw [← not_le, half_le_magnitude]
      exact large
    cases s with
    | true =>
      refine sumsHalf_inside rfl size ?_ ?_
      · rw [if_pos rfl]
        linarith
      · have last : 1 / 2 ≤ magnitude 9007199254740991 (-53) := by norm_num [magnitude]
        rw [if_pos rfl]
        linarith
    | false =>
      rcases below_half h less with ⟨rfl, point⟩ | most
      · obtain rfl : t = 53 := by omega
        have sum : (finite false 9007199254740991 (-54) (by decide)).add half =
            finite false 4503599627370496 (-52) (by decide) := by decide +kernel
        have wrong : magnitude 9007199254740991 (-54) = 1 / 2 - 1 / 2 ^ 54 := by
          norm_num [magnitude]
        refine .wrong (.inl wrong) (congrArg toRat? sum) ?_
        norm_num [magnitude]
      · exact sumsHalf_inside rfl size (by rw [if_neg Bool.false_ne_true]; linarith) most

theorem sumsHalf (value : x.toRat? = some q) : SumsHalf x q := by
  cases x with
  | nan s | infinity s => cases value
  | finite s m e h =>
    cases value
    rcases lt_or_ge e 0 with fraction | natural
    · exact sumsHalf_fraction h fraction
    · exact sumsHalf_integer h natural

theorem standard_round : Natives.standard.get? "Math.round" =
    some (Native.numeric "Math.round" roundHalfUp) := by
  simp [Natives.standard, Table.ofList, Table.get?_insert]

/-- For every finite number the native `Math.round` answers an integer, and that is the nearest
one, the upper one of two equally near. Only just below one half, and for odd integers of 53 bits,
the sum with one half is rounded up to an integer, and the answer is one too great. -/
theorem round_half_up (value : x.toRat? = some q) :
    ∃ round, Natives.standard.get? "Math.round" = some round ∧
      ∀ context world rest, ∃ (y : Number) (r : ℤ),
        round context world (.num x :: rest) = ⟨.value (.num y), context, world⟩ ∧
        y.toRat? = some (r : ℚ) ∧
        (¬ Misrounded q → (r : ℚ) - 1 / 2 ≤ q ∧ q < r + 1 / 2) ∧
        (Misrounded q → (r : ℚ) - 1 - 1 / 2 ≤ q ∧ q < r - 1 / 2) := by
  refine ⟨_, standard_round, fun context world rest => ?_⟩
  obtain ⟨z, sum, sound, wrong⟩ := sumsHalf value
  obtain ⟨low, high⟩ : (⌊q + 1 / 2⌋ : ℚ) ≤ q + 1 / 2 ∧ q + 1 / 2 < ⌊q + 1 / 2⌋ + 1 :=
    ⟨Int.floor_le _, Int.lt_floor_add_one _⟩
  refine ⟨x.roundHalfUp, ⌊z⌋, rfl, floor_toRat sum, fun nearest => ?_, fun misrounded => ?_⟩
  · rw [sound nearest]
    constructor <;> linarith
  · rw [wrong misrounded]
    push_cast
    constructor <;> linarith

/-- A negative tie goes up. -/
theorem round_half_up_negative_tie : (roundDyadic true 5 (-1)).toRat? = some (-5 / 2) ∧
    ∃ round, Natives.standard.get? "Math.round" = some round ∧
      ∀ context world, ∃ y : Number,
        round context world [.num (roundDyadic true 5 (-1))] =
          ⟨.value (.num y), context, world⟩ ∧ y.toRat? = some (-2) := by
  have value : (roundDyadic true 5 (-1)).toRat? = some (-5 / 2) := by
    have parts : roundDyadic true 5 (-1) = finite true 5629499534213120 (-51) (by decide) := by
      decide +kernel
    rw [parts]
    norm_num [toRat?, magnitude]
  have sound : ¬ Misrounded (-5 / 2) := not_misrounded_fraction (by norm_num) (by norm_num)
  obtain ⟨round, found, answers⟩ := round_half_up value
  refine ⟨value, round, found, fun context world => ?_⟩
  obtain ⟨y, r, answer, integer, nearest, -⟩ := answers context world []
  obtain ⟨low, high⟩ := nearest sound
  have least : -3 < r := by exact_mod_cast (by linarith : (-3 : ℚ) < r)
  have most : r < -1 := by exact_mod_cast (by linarith : (r : ℚ) < -1)
  obtain rfl : r = -2 := by omega
  exact ⟨y, answer, by exact_mod_cast integer⟩

/-- The greatest number below one half is rounded to one, and an odd integer to the next one. -/
theorem round_half_up_misses :
    (finite false 9007199254740991 (-54) (by decide)).toRat? = some (1 / 2 - 1 / 2 ^ 54) ∧
    (finite false 9007199254740991 (-54) (by decide)).roundHalfUp = 1 ∧
    ¬ ((1 : ℚ) - 1 / 2 ≤ 1 / 2 - 1 / 2 ^ 54) ∧
    (4503599627370497 : Number).roundHalfUp = 4503599627370498 := by
  refine ⟨?_, by decide +kernel, by norm_num, by decide +kernel⟩
  norm_num [toRat?, magnitude]

end Number
end FrameScript
