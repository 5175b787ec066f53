import FrameScript.Proofs.Number.Rounding
import Mathlib.Algebra.Order.Field.Power
import Mathlib.Algebra.Order.Field.Rat
import Mathlib.Tactic.Linarith
import Mathlib.Tactic.NormNum
import Mathlib.Tactic.Positivity

/-!
# Numbers that are integers

The exact value of a finite number is a rational. Whether that is a natural number, and which one,
is told by the integral part of the magnitude; up to 53 bits every natural number is the value of
its number.
-/

namespace FrameScript
namespace Number

variable {m n : Nat} {e : Int} {x : Number}

def magnitude (m : Nat) (e : Int) : ℚ := m * 2 ^ e

/-- The exact value of a finite number. -/
def toRat? : Number → Option ℚ
  | .finite s m e _ => some (if s then -magnitude m e else magnitude m e)
  | _ => none

/-- The number has the value of a natural number. -/
def Is (x : Number) (n : Nat) : Prop := x.toRat? = some (n : ℚ)

theorem Is.unique {k : Nat} (first : x.Is n) (second : x.Is k) : n = k := by
  have same := first.symm.trans second
  exact_mod_cast Option.some.inj same

theorem magnitude_nonneg (m : Nat) (e : Int) : 0 ≤ magnitude m e := by
  unfold magnitude
  positivity

theorem magnitude_eq_zero : magnitude m e = 0 ↔ m = 0 := by
  have two : (2 : ℚ) ^ e ≠ 0 := zpow_ne_zero e (by norm_num)
  simp [magnitude, two]

theorem magnitude_ofNat (m k : Nat) : magnitude m (k : Int) = ((m * 2 ^ k : Nat) : ℚ) := by
  simp [magnitude]

/-- A fraction is whole if its denominator divides its numerator. -/
theorem magnitude_neg (m k : Nat) : magnitude m (-(k : Int)) = n ↔ m = n * 2 ^ k := by
  have two : (2 : ℚ) ^ k ≠ 0 := pow_ne_zero k (by norm_num)
  rw [magnitude, zpow_neg, zpow_natCast, ← div_eq_mul_inv, div_eq_iff two]
  exact_mod_cast Iff.rfl

theorem magnitude_of_isWhole (whole : magnitudeIsWhole m e = true) :
    magnitude m e = wholeMagnitude m e := by
  obtain ⟨k, rfl | rfl⟩ := Int.eq_nat_or_neg e
  · rw [magnitude_ofNat, wholeMagnitude, if_pos (Int.natCast_nonneg k), Int.toNat_natCast,
      Nat.shiftLeft_eq]
  · rw [magnitude_neg]
    by_cases is_zero : k = 0
    · subst is_zero
      simp [wholeMagnitude]
    · have negative : ¬ (0 : Int) ≤ -(k : Int) := by omega
      have divides : m % 2 ^ k = 0 := by simpa [magnitudeIsWhole, is_zero] using whole
      rw [wholeMagnitude, if_neg negative, Int.neg_neg, Int.toNat_natCast,
        Nat.shiftRight_eq_div_pow]
      exact (Nat.div_mul_cancel (Nat.dvd_of_mod_eq_zero divides)).symm

theorem isWhole_of_magnitude (value : magnitude m e = n) : magnitudeIsWhole m e = true := by
  obtain ⟨k, rfl | rfl⟩ := Int.eq_nat_or_neg e
  · simp [magnitudeIsWhole]
  · rw [magnitude_neg] at value
    subst value
    simp [magnitudeIsWhole]

theorem is_finite (s : Bool) (h : Canonical m e) :
    (finite s m e h).Is n ↔ (s = true → m = 0) ∧ magnitude m e = n := by
  have nonneg := magnitude_nonneg m e
  rw [Is, toRat?, Option.some_inj]
  cases s with
  | false => simp
  | true =>
    have zero_iff := magnitude_eq_zero (m := m) (e := e)
    simp only [if_true, true_imp_iff]
    constructor
    · intro value
      have at_least : (0 : ℚ) ≤ n := Nat.cast_nonneg n
      have is_zero : magnitude m e = 0 := by linarith
      exact ⟨zero_iff.mp is_zero, by linarith⟩
    · rintro ⟨is_zero, value⟩
      have gone := zero_iff.mpr is_zero
      linarith

/-- Only negative numbers are less than zero; the zeros are equal. -/
theorem less_zero_finite (s : Bool) (h : Canonical m e) :
    (finite s m e h).less (zero false) = true ↔ s = true ∧ m ≠ 0 := by
  have bounds := magnitudePlace_bounds h
  have zero_iff := magnitudePlace_eq_zero h
  have level_zero : (zero false).level = 0 := by decide
  rw [less, compare?_eq rfl rfl, level_zero, level_finite, beq_iff_eq, Option.some_inj,
    Int.compare_eq_lt]
  cases s
  · simp
    omega
  · simp
    omega

/-- Natural numbers up to 53 bits are exact. -/
theorem ofNat_is (small : n ≤ 2 ^ 53) : (ofNat n).Is n := by
  rcases Nat.lt_or_eq_of_le small with less | rfl
  · obtain ⟨m, e, h, same, low, value⟩ := exists_ofNat less
    obtain ⟨k, rfl⟩ : ∃ k : Nat, e = -(k : Int) := ⟨(-e).toNat, by omega⟩
    have scaled := value k (by omega)
    rw [same, is_finite]
    refine ⟨by simp, (magnitude_neg m k).mpr ?_⟩
    simpa using scaled
  · have parts : ∃ h, ofNat (2 ^ 53) = finite false (2 ^ 52) 1 h := ⟨by decide, by decide +kernel⟩
    obtain ⟨h, same⟩ := parts
    rw [same, is_finite]
    refine ⟨by simp, ?_⟩
    norm_num [magnitude]

theorem forall₂_is_range (small : n ≤ 2 ^ 53) :
    List.Forall₂ Is ((List.range n).map ofNat) (List.range n) := by
  rw [List.forall₂_map_left_iff, List.forall₂_same]
  intro i mem
  have below := List.mem_range.mp mem
  exact ofNat_is (by omega)

end Number
end FrameScript
