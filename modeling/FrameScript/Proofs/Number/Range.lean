import FrameScript.Proofs.Number.Rounding

/-!
# Numbers within the range

A number of at most so many bits before the point is far from the greatest one. Rounding adds at
most one bit, and dividing by a number that is not less than one adds none but that. So integers of
64 bits are in the range, and so are their quotients by powers of ten.
-/

namespace FrameScript
namespace Number

variable {m : Nat} {e k : Int} {x y : Number}

/-- The number is finite, and its first bit stands for at most `2 ^ k`. -/
def Within (k : Int) : Number → Prop
  | finite _ m e _ => m = 0 ∨ e + Nat.log2 m ≤ k
  | _ => False

theorem Within.isFinite (within : x.Within k) : x.isFinite = true := by
  cases x with
  | finite s m e h => rfl
  | _ => cases within

theorem ofParts_within (s : Bool) (bits : m < 2 ^ 53) (least : -1074 ≤ e) (most : e ≤ 971)
    (normal : e = -1074 ∨ 2 ^ 52 ≤ m) (top : e + 52 ≤ k) : (ofParts s m e).Within k := by
  have canonical : Canonical m e := by
    refine ⟨bits, ?_⟩
    by_cases low : e = -1074
    · exact .inl low
    · exact .inr ⟨normal.resolve_left low, by omega, most⟩
  rw [ofParts, dif_pos canonical]
  by_cases is_zero : m = 0
  · exact .inl is_zero
  · have first := (Nat.log2_lt is_zero).mpr bits
    exact .inr (by omega)

/-- Rounding adds at most one bit. -/
theorem roundDyadic_within (s : Bool) (first : m = 0 ∨ e + Nat.log2 m < k) (low : -1021 ≤ k)
    (high : k ≤ 1023) : (roundDyadic s m e).Within k := by
  by_cases is_zero : m = 0
  · subst is_zero
    exact .inl rfl
  · have bit := lastBit_ge m e
    have bit' := lastBit_cases m e
    have first := first.resolve_left is_zero
    have normal : e + lastBit m e = -1074 ∨ 2 ^ 52 ≤ significand m (lastBit m e) := by
      by_cases low : -1074 - e < lastBit m e
      · exact .inr (significand_ge is_zero low)
      · exact .inl (by omega)
    rw [roundDyadic, if_neg is_zero]
    change (if lastBit m e ≤ 0 then _ else _ : Number).Within k
    split
    · rename_i whole
      have small := significand_lt whole
      rw [significand, if_pos whole] at small normal
      rw [Nat.shiftLeft_eq]
      exact ofParts_within s small (by omega) (by omega) normal (by omega)
    · rename_i whole
      have small := significand_le m e
      rw [significand, if_neg whole] at small normal
      dsimp only
      split
      · exact ofParts_within s (by decide) (by omega) (by omega) (.inr (Nat.le_refl _)) (by omega)
      · rename_i fits
        exact ofParts_within s (Nat.lt_of_le_of_ne small fits) (by omega) (by omega) normal
          (by omega)

/-- A quotient has as many bits as its operands tell. -/
theorem roundRatio_within (s : Bool) {num den : Nat} (proper : den ≠ 0)
    (first : e + Nat.log2 num - Nat.log2 den < k) (low : -1021 ≤ k) (high : k ≤ 1023) :
    (roundRatio s num den e).Within k := by
  unfold roundRatio
  dsimp only
  generalize wide : 56 + Nat.log2 den - Nat.log2 num = widen
  generalize rest : (if (num <<< widen) % den = 0 then 0 else 1) = inexact
  have bit : inexact ≤ 1 := by
    subst rest
    split <;> omega
  have above : num < 2 ^ (Nat.log2 num + 1) := Nat.lt_log2_self
  have below : 2 ^ Nat.log2 den ≤ den := Nat.log2_self_le proper
  have quotient : num <<< widen / den < 2 ^ (Nat.log2 num + 1 + widen - Nat.log2 den) := by
    rw [Nat.shiftLeft_eq, Nat.div_lt_iff_lt_mul (Nat.pos_of_ne_zero proper)]
    calc num * 2 ^ widen
        < 2 ^ (Nat.log2 num + 1) * 2 ^ widen :=
          Nat.mul_lt_mul_of_pos_right above (Nat.two_pow_pos _)
      _ = 2 ^ (Nat.log2 num + 1 + widen - Nat.log2 den) * 2 ^ Nat.log2 den := by
          rw [← Nat.pow_add, ← Nat.pow_add]
          congr 1
          omega
      _ ≤ 2 ^ (Nat.log2 num + 1 + widen - Nat.log2 den) * den := Nat.mul_le_mul_left _ below
  refine roundDyadic_within s ?_ low high
  by_cases is_zero : 2 * (num <<< widen / den) + inexact = 0
  · exact .inl is_zero
  · have bits : 2 * (num <<< widen / den) + inexact <
        2 ^ (Nat.log2 num + 1 + widen - Nat.log2 den + 1) := by
      rw [Nat.pow_succ]
      omega
    have first' := (Nat.log2_lt is_zero).mpr bits
    exact .inr (by omega)

def atLeastOne : Number → Bool
  | finite _ m e _ => m ≠ 0 ∧ 0 ≤ e + Nat.log2 m
  | _ => false

theorem Within.div (within : x.Within k) (divisor : y.atLeastOne = true) (low : -1022 ≤ k)
    (high : k ≤ 1022) : (x.div y).Within (k + 1) := by
  cases x with
  | nan s | infinity s => cases within
  | finite s m₁ e₁ h₁ =>
    cases y with
    | nan t | infinity t => cases divisor
    | finite t m₂ e₂ h₂ =>
      obtain ⟨nonzero, large⟩ := of_decide_eq_true divisor
      rw [Number.div, if_neg nonzero]
      split
      · exact .inl rfl
      · rename_i proper
        have first := within.resolve_left proper
        exact roundRatio_within _ nonzero (by omega) (by omega) (by omega)

theorem neg_isFinite (x : Number) : x.neg.isFinite = x.isFinite := by
  cases x <;> rfl

theorem ofInt_isFinite {i : Int} (word : i.natAbs ≤ 2 ^ 64) : (ofInt i).isFinite = true := by
  have within : (ofInt i).Within 66 := by
    refine roundDyadic_within _ ?_ (by decide) (by decide)
    by_cases is_zero : i.natAbs = 0
    · exact .inl is_zero
    · have bits : Nat.log2 i.natAbs < 65 := (Nat.log2_lt is_zero).mpr (by omega)
      exact .inr (by omega)
  exact within.isFinite

end Number
end FrameScript
