import FrameScript.Number.Arithmetic
import FrameScript.Proofs.Number.Order
import Mathlib.Tactic.Ring

/-!
# Rounding keeps order

A rounded magnitude has the place of its unrounded one, counted in units of its last
bit, so rounding is monotone, does not depend on how a magnitude is written, and
leaves canonical magnitudes alone.
-/

namespace FrameScript
namespace Number

theorem roundShift_eq (m s : Nat) : roundShift m s =
    if 2 ^ s < 2 * (m % 2 ^ s) ∨ 2 * (m % 2 ^ s) = 2 ^ s ∧ m / 2 ^ s % 2 = 1 then m / 2 ^ s + 1
    else m / 2 ^ s := by
  have rest : m - m / 2 ^ s * 2 ^ s = m % 2 ^ s := by
    have split := Nat.div_add_mod m (2 ^ s)
    rw [Nat.mul_comm] at split
    omega
  simp only [roundShift, Nat.shiftRight_eq_div_pow, Nat.shiftLeft_eq, rest]
  rfl

theorem roundShift_mono {m n : Nat} (le : m ≤ n) (s : Nat) : roundShift m s ≤ roundShift n s := by
  rw [roundShift_eq, roundShift_eq]
  have quotients : m / 2 ^ s ≤ n / 2 ^ s := Nat.div_le_div_right le
  have split_m := Nat.div_add_mod m (2 ^ s)
  have split_n := Nat.div_add_mod n (2 ^ s)
  rcases Nat.lt_or_eq_of_le quotients with less | same
  · split <;> split <;> omega
  · rw [same] at split_m ⊢
    split <;> split <;> omega

theorem roundShift_scale (m s k : Nat) : roundShift (m * 2 ^ k) (s + k) = roundShift m s := by
  have positive : 0 < 2 ^ k := Nat.two_pow_pos k
  have quotient : m * 2 ^ k / 2 ^ (s + k) = m / 2 ^ s := by
    rw [Nat.pow_add, Nat.mul_div_mul_right _ _ positive]
  have rest : m * 2 ^ k % 2 ^ (s + k) = m % 2 ^ s * 2 ^ k := by
    rw [Nat.pow_add, Nat.mul_mod_mul_right]
  have more : 2 ^ s * 2 ^ k < 2 * (m % 2 ^ s * 2 ^ k) ↔ 2 ^ s < 2 * (m % 2 ^ s) := by
    rw [← Nat.mul_assoc, Nat.mul_lt_mul_right positive]
  have half : 2 * (m % 2 ^ s * 2 ^ k) = 2 ^ s * 2 ^ k ↔ 2 * (m % 2 ^ s) = 2 ^ s := by
    rw [← Nat.mul_assoc, Nat.mul_left_inj positive.ne']
  rw [roundShift_eq, roundShift_eq, quotient, rest, Nat.pow_add]
  simp only [more, half]

theorem roundShift_zero (m : Nat) : roundShift m 0 = m := by
  simp [roundShift_eq, Nat.mod_one]

/-- How far the last bit of a rounded magnitude is from the one that it was written with. -/
def lastBit (m : Nat) (e : Int) : Int :=
  Max.max ((Nat.log2 m : Int) - 52) (-1074 - e)

/-- A magnitude in units of its last bit. -/
def significand (m : Nat) (drop : Int) : Nat :=
  if drop ≤ 0 then m * 2 ^ (-drop).toNat else roundShift m drop.toNat

/-- The place of a rounded magnitude, if there were no greatest one. -/
def roundedPlace (m : Nat) (e : Int) : Int :=
  if m = 0 then 0 else magnitudePlace (significand m (lastBit m e)) (e + lastBit m e)

theorem significand_mono {m n : Nat} (le : m ≤ n) (drop : Int) :
    significand m drop ≤ significand n drop := by
  unfold significand
  split
  · exact Nat.mul_le_mul_right _ le
  · exact roundShift_mono le _

theorem significand_scale (m k : Nat) (drop : Int) :
    significand (m * 2 ^ k) (drop + k) = significand m drop := by
  unfold significand
  by_cases whole : drop ≤ 0
  · rw [if_pos whole]
    by_cases whole' : drop + k ≤ 0
    · rw [if_pos whole', Nat.mul_assoc, ← Nat.pow_add]
      congr 2
      omega
    · obtain ⟨j, rfl⟩ : ∃ j : Nat, k = (-drop).toNat + j := ⟨(drop + k).toNat, by omega⟩
      have shift : (drop + ((-drop).toNat + j : Nat)).toNat = 0 + j := by omega
      rw [if_neg whole', shift, Nat.pow_add, ← Nat.mul_assoc, roundShift_scale, roundShift_zero]
  · have whole' : ¬ drop + k ≤ 0 := by omega
    have shift : (drop + k).toNat = drop.toNat + k := by omega
    rw [if_neg whole, if_neg whole', shift, roundShift_scale]

section

variable {m n : Nat} {e : Int}

theorem lastBit_ge (m : Nat) (e : Int) :
    (Nat.log2 m : Int) - 52 ≤ lastBit m e ∧ -1074 - e ≤ lastBit m e := by
  unfold lastBit
  omega

theorem lastBit_cases (m : Nat) (e : Int) :
    lastBit m e = Nat.log2 m - 52 ∨ lastBit m e = -1074 - e := by
  unfold lastBit
  omega

theorem log2_mono (le : m ≤ n) : Nat.log2 m ≤ Nat.log2 n := by
  by_cases is_zero : m = 0
  · simp [is_zero]
  · exact (Nat.le_log2 (by omega)).mpr ((Nat.log2_self_le is_zero).trans le)

theorem lastBit_mono (le : m ≤ n) (e : Int) : lastBit m e ≤ lastBit n e := by
  have logarithms := log2_mono le
  unfold lastBit
  omega

theorem log2_eq {k : Nat} (low : 2 ^ k ≤ m) (high : m < 2 ^ (k + 1)) : Nat.log2 m = k := by
  have positive : m ≠ 0 := by
    have := Nat.two_pow_pos k
    omega
  exact Nat.le_antisymm (Nat.le_of_lt_succ ((Nat.log2_lt positive).mpr high))
    ((Nat.le_log2 positive).mpr low)

theorem log2_scale (nonzero : m ≠ 0) (k : Nat) : Nat.log2 (m * 2 ^ k) = Nat.log2 m + k := by
  apply log2_eq
  · rw [Nat.pow_add]
    exact Nat.mul_le_mul_right _ (Nat.log2_self_le nonzero)
  · rw [Nat.add_right_comm, Nat.pow_add]
    exact Nat.mul_lt_mul_of_pos_right Nat.lt_log2_self (Nat.two_pow_pos k)

theorem significand_lt (whole : lastBit m e ≤ 0) : significand m (lastBit m e) < 2 ^ 53 := by
  have bits := (lastBit_ge m e).1
  have size : m < 2 ^ (Nat.log2 m + 1) := Nat.lt_log2_self
  rw [significand, if_pos whole]
  calc m * 2 ^ (-lastBit m e).toNat
      < 2 ^ (Nat.log2 m + 1) * 2 ^ (-lastBit m e).toNat :=
        Nat.mul_lt_mul_of_pos_right size (Nat.two_pow_pos _)
    _ = 2 ^ (Nat.log2 m + 1 + (-lastBit m e).toNat) := (Nat.pow_add ..).symm
    _ ≤ 2 ^ 53 := Nat.pow_le_pow_right (by decide) (by omega)

/-- Rounding may carry into a 54th bit. -/
theorem significand_le (m : Nat) (e : Int) : significand m (lastBit m e) ≤ 2 ^ 53 := by
  by_cases whole : lastBit m e ≤ 0
  · exact (significand_lt whole).le
  · have bits := (lastBit_ge m e).1
    have size : m ≤ 2 ^ 53 * 2 ^ (lastBit m e).toNat := by
      rw [← Nat.pow_add]
      exact (Nat.lt_log2_self.trans_le (Nat.pow_le_pow_right (by decide) (by omega))).le
    have rounded := roundShift_mono size (lastBit m e).toNat
    have scaled := roundShift_scale (2 ^ 53) 0 (lastBit m e).toNat
    rw [Nat.zero_add, roundShift_zero] at scaled
    rw [significand, if_neg whole]
    omega

theorem significand_ge (nonzero : m ≠ 0) (normal : -1074 - e < lastBit m e) :
    2 ^ 52 ≤ significand m (lastBit m e) := by
  have bit : lastBit m e = Nat.log2 m - 52 := by
    have := lastBit_cases m e
    omega
  have size : 2 ^ Nat.log2 m ≤ m := Nat.log2_self_le nonzero
  unfold significand
  split
  · calc 2 ^ 52 = 2 ^ Nat.log2 m * 2 ^ (-lastBit m e).toNat := by
          rw [← Nat.pow_add]
          congr 1
          omega
      _ ≤ m * 2 ^ (-lastBit m e).toNat := Nat.mul_le_mul_right _ size
  · have size' : 2 ^ 52 * 2 ^ (lastBit m e).toNat ≤ m := by
      rw [← Nat.pow_add]
      exact (Nat.pow_le_pow_right (by decide) (by omega)).trans size
    have rounded := roundShift_mono size' (lastBit m e).toNat
    have scaled := roundShift_scale (2 ^ 52) 0 (lastBit m e).toNat
    rw [Nat.zero_add, roundShift_zero] at scaled
    omega

theorem roundedPlace_pos (nonzero : m ≠ 0) :
    roundedPlace m e = magnitudePlace (significand m (lastBit m e)) (e + lastBit m e) :=
  if_neg nonzero

theorem place_ofParts {q : Nat} (bits : q < 2 ^ 53) (least : -1074 ≤ e)
    (normal : e = -1074 ∨ 2 ^ 52 ≤ q) :
    (ofParts false q e).place = Min.min (magnitudePlace q e) infinityPlace := by
  by_cases range : e ≤ 971
  · have canonical : Canonical q e := by
      refine ⟨bits, ?_⟩
      rcases normal with rfl | normal
      · exact .inl rfl
      · by_cases low : e = -1074
        · exact .inl low
        · exact .inr ⟨normal, by omega, range⟩
    have bounds := magnitudePlace_bounds canonical
    rw [ofParts, dif_pos canonical]
    simp only [place, Bool.false_eq_true, if_false]
    omega
  · have outside : ¬ Canonical q e := by
      rintro ⟨-, low | ⟨-, -, high⟩⟩ <;> omega
    rw [ofParts, dif_neg outside]
    simp only [place, Bool.false_eq_true, if_false, magnitudePlace, infinityPlace]
    omega

theorem place_roundDyadic (m : Nat) (e : Int) :
    (roundDyadic false m e).place = Min.min (roundedPlace m e) infinityPlace := by
  by_cases is_zero : m = 0
  · subst is_zero
    rfl
  · have ge := (lastBit_ge m e).2
    have normal : e + lastBit m e = -1074 ∨ 2 ^ 52 ≤ significand m (lastBit m e) := by
      by_cases low : -1074 - e < lastBit m e
      · exact .inr (significand_ge is_zero low)
      · exact .inl (by omega)
    rw [roundedPlace_pos is_zero, roundDyadic, if_neg is_zero]
    change (if lastBit m e ≤ 0 then _ else _ : Number).place = _
    split
    · rename_i whole
      have small := significand_lt whole
      rw [significand, if_pos whole] at small normal ⊢
      rw [Nat.shiftLeft_eq]
      exact place_ofParts small (by omega) normal
    · rename_i whole
      have small := significand_le m e
      rw [significand, if_neg whole] at small normal ⊢
      dsimp only
      split
      · rename_i carry
        have carry' : roundShift m (lastBit m e).toNat = Nat.pow 2 53 := carry
        have carried : magnitudePlace (Nat.pow 2 53) (e + lastBit m e) =
            magnitudePlace (Nat.pow 2 52) (e + lastBit m e + 1) := by
          have bits : Nat.pow 2 53 = 9007199254740992 := rfl
          have bits' : Nat.pow 2 52 = 4503599627370496 := rfl
          simp only [magnitudePlace, bits, bits']
          omega
        rw [carry', carried]
        exact place_ofParts (by decide) (by omega) (.inr (Nat.le_refl _))
      · rename_i fits
        exact place_ofParts (Nat.lt_of_le_of_ne small fits) (by omega) normal

theorem roundedPlace_mono (le : m ≤ n) (e : Int) : roundedPlace m e ≤ roundedPlace n e := by
  have bits := lastBit_mono le e
  have least := (lastBit_ge m e).2
  by_cases is_zero : m = 0
  · unfold roundedPlace magnitudePlace
    rw [if_pos is_zero]
    split <;> omega
  · rw [roundedPlace_pos is_zero, roundedPlace_pos (by omega : n ≠ 0)]
    unfold magnitudePlace
    rcases Int.lt_or_eq_of_le bits with less | same
    · have small := significand_le m e
      have large := significand_ge (e := e) (by omega : n ≠ 0) (by omega)
      omega
    · rw [same]
      have between := significand_mono le (lastBit n e)
      omega

theorem roundedPlace_lt (less : m < n) (whole : lastBit m e ≤ 0) :
    roundedPlace m e < roundedPlace n e := by
  have bits := lastBit_mono less.le e
  have least := (lastBit_ge m e).2
  have strict (unrounded : lastBit n e ≤ 0) :
      significand m (lastBit n e) < significand n (lastBit n e) := by
    unfold significand
    rw [if_pos unrounded, if_pos unrounded]
    exact Nat.mul_lt_mul_of_pos_right less (Nat.two_pow_pos _)
  rw [roundedPlace_pos (by omega : n ≠ 0)]
  unfold roundedPlace magnitudePlace
  by_cases normal : -1074 - e < lastBit n e
  · have large := significand_ge (by omega : n ≠ 0) normal
    split
    · omega
    · rcases Int.lt_or_eq_of_le bits with earlier | same
      · have small := significand_lt whole
        omega
      · have between := strict (same ▸ whole)
        rw [same]
        omega
  · have between := strict (by omega)
    have same : lastBit m e = lastBit n e := by omega
    rw [same]
    split <;> omega

/-- A place does not depend on how a magnitude is written. -/
theorem roundedPlace_scale (m k : Nat) (e : Int) :
    roundedPlace (m * 2 ^ k) (e - k) = roundedPlace m e := by
  by_cases is_zero : m = 0
  · simp [is_zero, roundedPlace]
  · have nonzero : m * 2 ^ k ≠ 0 := Nat.mul_ne_zero is_zero (Nat.two_pow_pos k).ne'
    have bit : lastBit (m * 2 ^ k) (e - k) = lastBit m e + k := by
      unfold lastBit
      rw [log2_scale is_zero]
      omega
    rw [roundedPlace_pos nonzero, roundedPlace_pos is_zero, bit, significand_scale]
    congr 1
    omega

/-- The last bit of a canonical magnitude is in its place. -/
theorem lastBit_canonical (h : Canonical m e) (nonzero : m ≠ 0) : lastBit m e = 0 := by
  have high := (Nat.log2_lt nonzero).mpr h.1
  have least := h.exponent.1
  unfold lastBit
  rcases h.normal with low | normal
  · omega
  · have all : Nat.log2 m = 52 := log2_eq normal h.1
    omega

theorem roundedPlace_canonical (h : Canonical m e) : roundedPlace m e = magnitudePlace m e := by
  by_cases is_zero : m = 0
  · rw [roundedPlace, if_pos is_zero, (magnitudePlace_eq_zero h).mpr is_zero]
  · have stays := lastBit_canonical h is_zero
    rw [roundedPlace_pos is_zero, stays, Int.add_zero]
    simp [significand]

end

theorem ofParts_true (m : Nat) (e : Int) : ofParts true m e = (ofParts false m e).neg := by
  unfold ofParts
  split <;> rfl

theorem roundDyadic_true (m : Nat) (e : Int) :
    roundDyadic true m e = (roundDyadic false m e).neg := by
  unfold roundDyadic
  split
  · rfl
  · dsimp only
    split
    · exact ofParts_true ..
    · split <;> exact ofParts_true ..

@[simp] theorem ofParts_isNaN (s : Bool) (m : Nat) (e : Int) : (ofParts s m e).isNaN = false := by
  unfold ofParts
  split <;> rfl

@[simp] theorem roundDyadic_isNaN (s : Bool) (m : Nat) (e : Int) :
    (roundDyadic s m e).isNaN = false := by
  unfold roundDyadic
  split
  · rfl
  · dsimp only
    split
    · exact ofParts_isNaN ..
    · split <;> exact ofParts_isNaN ..

theorem add_isNaN {x y : Number} (number : x.isNaN = false) (finite : y.isFinite = true) :
    (x.add y).isNaN = false := by
  cases y with
  | nan t | infinity t => cases finite
  | finite t m₂ e₂ h₂ =>
    cases x with
    | nan s => cases number
    | infinity s => rfl
    | finite s m₁ e₁ h₁ =>
      unfold add
      dsimp only
      split
      · rfl
      · exact roundDyadic_isNaN ..

theorem level_ofParts_negative (m : Nat) (e : Int) : (ofParts true m e).level ≤ 0 := by
  unfold ofParts
  split
  · rename_i h
    have bounds := magnitudePlace_bounds h
    rw [level_finite]
    simp only [if_true]
    omega
  · decide

theorem level_roundDyadic_negative (m : Nat) (e : Int) : (roundDyadic true m e).level ≤ 0 := by
  unfold roundDyadic
  split
  · decide
  · dsimp only
    split
    · exact level_ofParts_negative ..
    · split <;> exact level_ofParts_negative ..

theorem roundedPlace_nonneg (m : Nat) (e : Int) : 0 ≤ roundedPlace m e := by
  have no_place : roundedPlace 0 e = 0 := if_pos rfl
  have le := roundedPlace_mono (Nat.zero_le m) e
  omega

theorem level_roundDyadic (m : Nat) (e : Int) :
    (roundDyadic false m e).level = Min.min (roundedPlace m e) infinityPlace := by
  have nonneg := roundedPlace_nonneg m e
  have positive : 0 < infinityPlace := by decide
  rw [level, place_roundDyadic]
  split <;> omega

theorem add_finite {m₁ : Nat} {e₁ : Int} (h₁ : Canonical m₁ e₁) (t : Bool) {m₂ : Nat} {e₂ : Int}
    (h₂ : Canonical m₂ e₂) :
    ∃ (k : Nat) (sum : Int), sum = (m₁ * 2 ^ k : Nat) + scaled t m₂ e₂ (e₁ - k) ∧
      (finite false m₁ e₁ h₁).add (finite t m₂ e₂ h₂) =
        if sum = 0 then zero false else roundDyadic (decide (sum < 0)) sum.natAbs (e₁ - k) := by
  obtain ⟨k, shift⟩ : ∃ k : Nat, Min.min e₁ e₂ = e₁ - k := ⟨(e₁ - Min.min e₁ e₂).toNat, by omega⟩
  have itself : scaled false m₁ e₁ (e₁ - k) = (m₁ * 2 ^ k : Nat) := by
    simp [scaled, Nat.shiftLeft_eq]
  refine ⟨k, _, rfl, ?_⟩
  unfold add
  dsimp only
  rw [shift, itself, Bool.false_and]

theorem level_add_le {m₁ : Nat} {e₁ : Int} (h₁ : Canonical m₁ e₁) {y : Number}
    (is_finite : y.isFinite = true) (low : y.level ≤ 0) :
    ((finite false m₁ e₁ h₁).add y).level ≤ (finite false m₁ e₁ h₁).level := by
  cases y with
  | nan t | infinity t => cases is_finite
  | finite t m₂ e₂ h₂ =>
    have bounds := magnitudePlace_bounds h₁
    have nothing (base : Int) : scaled t m₂ e₂ base ≤ 0 := by
      cases t with
      | true =>
        simp only [scaled, if_true]
        exact Int.neg_nonpos_of_nonneg (Int.natCast_nonneg _)
      | false =>
        rw [level_finite] at low
        have least := (magnitudePlace_bounds h₂).1
        have is_zero := (magnitudePlace_eq_zero h₂).mp (Int.le_antisymm low least)
        simp [scaled, is_zero]
    obtain ⟨k, sum, total, same⟩ := add_finite h₁ t h₂
    have less := nothing (e₁ - k)
    rw [same, level_finite]
    split
    · exact bounds.1
    · by_cases negative : sum < 0
      · rw [decide_eq_true negative]
        exact (level_roundDyadic_negative _ _).trans bounds.1
      · rw [decide_eq_false negative, level_roundDyadic]
        have fewer : sum.natAbs ≤ m₁ * 2 ^ k := by omega
        have between := roundedPlace_mono fewer (e₁ - k)
        rw [roundedPlace_scale, roundedPlace_canonical h₁] at between
        simp only [Bool.false_eq_true, if_false]
        omega

theorem place_le_add {m₁ : Nat} {e₁ : Int} (h₁ : Canonical m₁ e₁) {y : Number}
    (number : y.isNaN = false) (high : 0 ≤ y.level) :
    (finite false m₁ e₁ h₁).place ≤ ((finite false m₁ e₁ h₁).add y).place := by
  have bounds := magnitudePlace_bounds h₁
  cases y with
  | nan t => cases number
  | infinity t =>
    cases t with
    | true => exact absurd high (by decide)
    | false => exact Int.le_of_lt bounds.2
  | finite t m₂ e₂ h₂ =>
    have something (base : Int) : 0 ≤ scaled t m₂ e₂ base := by
      cases t with
      | false => exact Int.natCast_nonneg _
      | true =>
        rw [level_finite, if_pos rfl] at high
        have least := (magnitudePlace_bounds h₂).1
        have is_zero := (magnitudePlace_eq_zero h₂).mp (by omega)
        simp [scaled, is_zero]
    obtain ⟨k, sum, total, same⟩ := add_finite h₁ t h₂
    have more := something (e₁ - k)
    have place₁ : (finite false m₁ e₁ h₁).place = magnitudePlace m₁ e₁ := rfl
    rw [same, place₁]
    split
    · have product_zero : m₁ * 2 ^ k = 0 := by omega
      have left_zero : m₁ = 0 := by simpa using product_zero
      rw [(magnitudePlace_eq_zero h₁).mpr left_zero]
      decide
    · have negative : ¬ sum < 0 := by omega
      rw [decide_eq_false negative, place_roundDyadic]
      have further : m₁ * 2 ^ k ≤ sum.natAbs := by omega
      have between := roundedPlace_mono further (e₁ - k)
      rw [roundedPlace_scale, roundedPlace_canonical h₁] at between
      omega

theorem level_ofNat (n : Nat) : (ofNat n).level = Min.min (roundedPlace n 0) infinityPlace :=
  level_roundDyadic n 0

@[simp] theorem ofNat_isNaN (n : Nat) : (ofNat n).isNaN = false := roundDyadic_isNaN ..

theorem level_ofNat_mono {m n : Nat} (le : m ≤ n) : (ofNat m).level ≤ (ofNat n).level := by
  have between := roundedPlace_mono le 0
  rw [level_ofNat, level_ofNat]
  omega

theorem ofParts_cases (m : Nat) (e : Int) :
    (∃ m' e' h, ofParts false m e = finite false m' e' h) ∨
      ofParts false m e = infinity false := by
  unfold ofParts
  split
  · rename_i h
    exact .inl ⟨m, e, h, rfl⟩
  · exact .inr rfl

theorem ofNat_cases (n : Nat) :
    (∃ m e h, ofNat n = finite false m e h) ∨ ofNat n = infinity false := by
  unfold ofNat roundDyadic
  split
  · exact .inl ⟨0, -1074, canonical_zero, rfl⟩
  · dsimp only
    split
    · exact ofParts_cases ..
    · split <;> exact ofParts_cases ..

theorem place_ofNat_nonneg (n : Nat) : 0 ≤ (ofNat n).place := by
  rcases ofNat_cases n with ⟨m, e, h, same⟩ | same
  · rw [same]
    exact (magnitudePlace_bounds h).1
  · rw [same]
    decide

/-- What is at most a natural number does not come after it in the total order. -/
theorem place_le_ofNat {x : Number} {n : Nat} (h : x.atMost (ofNat n)) :
    x.place ≤ (ofNat n).place := by
  have le := ((atMost_iff _ _).mp h).2.2
  have nonneg := place_ofNat_nonneg n
  unfold level at le
  split at le <;> split at le <;> omega

theorem place_ofNat_le_add (n : Nat) {y : Number} (high : (ofNat 0).atMost y) :
    (ofNat n).place ≤ ((ofNat n).add y).place := by
  obtain ⟨-, number, le⟩ := (atMost_iff _ _).mp high
  have no_level : (ofNat 0).level = 0 := by decide
  rw [no_level] at le
  rcases ofNat_cases n with ⟨m, e, h, same⟩ | same
  · rw [same]
    exact place_le_add h number le
  · rw [same]
    cases y with
    | nan t => cases number
    | infinity t =>
      cases t with
      | true => exact absurd le (by decide)
      | false => exact Int.le_refl _
    | finite t m e h => exact Int.le_refl _

/-- A sum with what is not positive is at most the next natural number. -/
theorem add_atMost_next (n : Nat) {y : Number} (is_finite : y.isFinite = true) (low : y.level ≤ 0) :
    ((ofNat n).add y).atMost (ofNat (n + 1)) := by
  refine (atMost_iff _ _).mpr ⟨add_isNaN (ofNat_isNaN n) is_finite, ofNat_isNaN _, ?_⟩
  refine Int.le_trans ?_ (level_ofNat_mono (Nat.le_succ n))
  rcases ofNat_cases n with ⟨m, e, h, same⟩ | same
  · rw [same]
    exact level_add_le h is_finite low
  · rw [same]
    cases y with
    | nan t | infinity t => cases is_finite
    | finite t m e h => exact Int.le_refl _

theorem lastBit_natural {n : Nat} (small : n < 2 ^ 53) : -52 ≤ lastBit n 0 ∧ lastBit n 0 ≤ 0 := by
  have bits : Nat.log2 n ≤ 52 := by
    by_cases is_zero : n = 0
    · simp [is_zero]
    · exact Nat.le_of_lt_succ ((Nat.log2_lt is_zero).mpr small)
  unfold lastBit
  omega

theorem exists_ofNat {n : Nat} (small : n < 2 ^ 53) : ∃ m e h, ofNat n = finite false m e h ∧
    e ≤ 0 ∧ ∀ k : Nat, -e ≤ k → m * 2 ^ (e + k).toNat = n * 2 ^ k := by
  by_cases is_zero : n = 0
  · subst is_zero
    exact ⟨0, -1074, canonical_zero, rfl, by decide, fun k _ => by simp⟩
  · have range := lastBit_natural small
    have bits := significand_lt range.2
    have normal := significand_ge is_zero (by omega : -1074 - 0 < lastBit n 0)
    rw [significand, if_pos range.2] at bits normal
    have canonical : Canonical (n <<< (-lastBit n 0).toNat) (0 + lastBit n 0) := by
      rw [Nat.shiftLeft_eq]
      exact ⟨bits, .inr ⟨normal, by omega, by omega⟩⟩
    refine ⟨_, _, canonical, ?_, by omega, fun k enough => ?_⟩
    · rw [ofNat, roundDyadic, if_neg is_zero]
      change (if lastBit n 0 ≤ 0 then _ else _ : Number) = _
      rw [if_pos range.2]
      exact dif_pos canonical
    · rw [Nat.shiftLeft_eq, Nat.mul_assoc, ← Nat.pow_add]
      congr 2
      omega

theorem level_ofNat_add {m n : Nat} (positive : 0 < n) (small : m + n ≤ 2 ^ 53) :
    ((ofNat m).add (ofNat n)).level = (ofNat (m + n)).level := by
  rcases Nat.lt_or_ge n (2 ^ 53) with small_n | large
  · obtain ⟨m₁, e₁, h₁, same₁, low₁, exact₁⟩ := exists_ofNat (by omega : m < 2 ^ 53)
    obtain ⟨m₂, e₂, h₂, same₂, low₂, exact₂⟩ := exists_ofNat small_n
    obtain ⟨k, base⟩ : ∃ k : Nat, Min.min e₁ e₂ = 0 - k := ⟨(-Min.min e₁ e₂).toNat, by omega⟩
    have scaled₁ : scaled false m₁ e₁ (0 - k) = (m * 2 ^ k : Nat) := by
      have shift : e₁ - (0 - (k : Int)) = e₁ + k := by omega
      rw [← exact₁ k (by omega), scaled, shift, Nat.shiftLeft_eq]
      rfl
    have scaled₂ : scaled false m₂ e₂ (0 - k) = (n * 2 ^ k : Nat) := by
      have shift : e₂ - (0 - (k : Int)) = e₂ + k := by omega
      rw [← exact₂ k (by omega), scaled, shift, Nat.shiftLeft_eq]
      rfl
    have sum : ((m * 2 ^ k : Nat) : Int) + (n * 2 ^ k : Nat) = ((m + n) * 2 ^ k : Nat) := by
      rw [← Int.natCast_add, Nat.add_mul]
    have nonzero : ¬ (((m + n) * 2 ^ k : Nat) : Int) = 0 := by
      have := Nat.mul_pos (by omega : 0 < m + n) (Nat.two_pow_pos k)
      omega
    have not_negative : decide ((((m + n) * 2 ^ k : Nat) : Int) < 0) = false :=
      decide_eq_false (by omega)
    rw [same₁, same₂]
    unfold add
    dsimp only
    rw [base, scaled₁, scaled₂, sum, if_neg nonzero, not_negative, Int.natAbs_natCast,
      level_roundDyadic, roundedPlace_scale, level_ofNat]
  · obtain ⟨rfl, rfl⟩ : m = 0 ∧ n = 2 ^ 53 := by omega
    decide +kernel

/-- Sums of natural numbers are ordered as they are, while they are exact. -/
theorem ofNat_add_atMost {m n : Nat} (positive : 0 < n) (small : m + n ≤ 2 ^ 53)
    (is_finite : (ofNat n).isFinite = true) (k : Nat) :
    ((ofNat m).add (ofNat n)).atMost (ofNat k) ↔ m + n ≤ k := by
  rw [atMost_iff, level_ofNat_add positive small]
  have numbers := add_isNaN (ofNat_isNaN m) is_finite
  constructor
  · rintro ⟨-, -, le⟩
    by_contra less
    have range := lastBit_natural (by omega : k < 2 ^ 53)
    have places := roundedPlace_lt (Nat.lt_of_not_le less) range.2
    have low : roundedPlace k 0 < infinityPlace := by
      have bits := significand_lt range.2
      unfold roundedPlace magnitudePlace infinityPlace
      split <;> omega
    rw [level_ofNat, level_ofNat] at le
    omega
  · exact fun le => ⟨numbers, ofNat_isNaN k, level_ofNat_mono le⟩

end Number
end FrameScript
