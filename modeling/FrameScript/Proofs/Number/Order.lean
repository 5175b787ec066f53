import FrameScript.Number.Basic

/-!
# The orders of numbers

Numbers have places on the line of integers: the total order compares places, and
the order of arithmetic compares levels, which are places without the gap between
the two zeros.
-/

namespace FrameScript

theorem Canonical.lt {m : Nat} {e : Int} (h : Canonical m e) : m < 9007199254740992 := h.1

theorem Canonical.normal {m : Nat} {e : Int} (h : Canonical m e) :
    e = -1074 ∨ 4503599627370496 ≤ m := h.2.imp_right (·.1)

theorem Canonical.exponent {m : Nat} {e : Int} (h : Canonical m e) : -1074 ≤ e ∧ e ≤ 971 := by
  obtain ⟨-, rfl | ⟨-, low, high⟩⟩ := h
  · decide
  · omega

namespace Number

/-- Canonical magnitudes are counted from zero on; infinity comes after them all. -/
def magnitudePlace (m : Nat) (e : Int) : Int := (e + 1074) * 4503599627370496 + m

def infinityPlace : Int := 2047 * 4503599627370496

/-- The place of a number in the total order. -/
def place : Number → Int
  | nan s => if s then -infinityPlace - 2 else infinityPlace + 1
  | infinity s => if s then -infinityPlace - 1 else infinityPlace
  | finite s m e _ => if s then -magnitudePlace m e - 1 else magnitudePlace m e

/-- The level of a number in the order of arithmetic, if it is not NaN. -/
def level (x : Number) : Int := if x.place < 0 then x.place + 1 else x.place

theorem magnitudePlace_bounds {m : Nat} {e : Int} (h : Canonical m e) :
    0 ≤ magnitudePlace m e ∧ magnitudePlace m e < infinityPlace := by
  have low := h.lt
  obtain ⟨least, most⟩ := h.exponent
  simp only [magnitudePlace, infinityPlace]
  omega

theorem magnitudePlace_eq_zero {m : Nat} {e : Int} (h : Canonical m e) :
    magnitudePlace m e = 0 ↔ m = 0 := by
  obtain ⟨low, rfl | ⟨normal, least, most⟩⟩ := h
  · simp [magnitudePlace]
  · have some_bits : 4503599627370496 ≤ m := normal
    simp only [magnitudePlace]
    omega

theorem compareMagnitude_eq {m₁ m₂ : Nat} {e₁ e₂ : Int} (h₁ : Canonical m₁ e₁)
    (h₂ : Canonical m₂ e₂) :
    compareMagnitude m₁ e₁ m₂ e₂ = compare (magnitudePlace m₁ e₁) (magnitudePlace m₂ e₂) := by
  have low₁ := h₁.lt
  have low₂ := h₂.lt
  have normal₁ := h₁.normal
  have normal₂ := h₂.normal
  have least₁ := h₁.exponent
  have least₂ := h₂.exponent
  simp only [compareMagnitude, magnitudePlace]
  rcases Int.lt_trichotomy e₁ e₂ with less | rfl | greater
  · rw [Int.compare_eq_lt.mpr less, Int.compare_eq_lt.mpr (by omega)]
    rfl
  · rw [Int.compare_eq_eq.mpr rfl, Ordering.eq_then]
    rcases Nat.lt_trichotomy m₁ m₂ with less | rfl | greater
    · rw [Nat.compare_eq_lt.mpr less, Int.compare_eq_lt.mpr (by omega)]
    · rw [Nat.compare_eq_eq.mpr rfl, Int.compare_eq_eq.mpr rfl]
    · rw [Nat.compare_eq_gt.mpr greater, Int.compare_eq_gt.mpr (by omega)]
  · rw [Int.compare_eq_gt.mpr greater, Int.compare_eq_gt.mpr (by omega)]
    rfl

theorem place_rank (x : Number) :
    x.rank = 0 ∧ x.place = -infinityPlace - 2 ∨ x.rank = 1 ∧ x.place = -infinityPlace - 1 ∨
    x.rank = 2 ∧ -infinityPlace ≤ x.place ∧ x.place < 0 ∨
    x.rank = 3 ∧ 0 ≤ x.place ∧ x.place < infinityPlace ∨
    x.rank = 4 ∧ x.place = infinityPlace ∨ x.rank = 5 ∧ x.place = infinityPlace + 1 := by
  cases x with
  | nan s | infinity s => cases s <;> simp [rank, place]
  | finite s m e h =>
    have bounds := magnitudePlace_bounds h
    cases s
    · simpa [rank, place] using bounds
    · simp [rank, place]
      omega

theorem exists_negative {x : Number} (h : x.rank = 2) : ∃ m e c, x = finite true m e c := by
  cases x with
  | nan s | infinity s => cases s <;> cases h
  | finite s m e c => cases s <;> first | exact ⟨m, e, c, rfl⟩ | cases h

theorem exists_positive {x : Number} (h : x.rank = 3) : ∃ m e c, x = finite false m e c := by
  cases x with
  | nan s | infinity s => cases s <;> cases h
  | finite s m e c => cases s <;> first | exact ⟨m, e, c, rfl⟩ | cases h

theorem compare_congr {a b c d : Int} (less : a < b ↔ c < d) (greater : b < a ↔ d < c) :
    compare a b = compare c d := by
  rcases Int.lt_trichotomy a b with h | h | h
  · rw [Int.compare_eq_lt.mpr h, Int.compare_eq_lt.mpr (less.mp h)]
  · rw [Int.compare_eq_eq.mpr h, Int.compare_eq_eq.mpr (by omega)]
  · rw [Int.compare_eq_gt.mpr h, Int.compare_eq_gt.mpr (greater.mp h)]

theorem totalCompare_eq (x y : Number) : x.totalCompare y = compare x.place y.place := by
  have class_x := x.place_rank
  have class_y := y.place_rank
  have positive : 0 < infinityPlace := by decide
  unfold totalCompare
  rcases Nat.lt_trichotomy x.rank y.rank with less | same | greater
  · rw [Nat.compare_eq_lt.mpr less, Int.compare_eq_lt.mpr (by omega)]
    rfl
  · rw [Nat.compare_eq_eq.mpr same, Ordering.eq_then]
    split
    · rename_i h₁ m₂ e₂ h₂
      exact compareMagnitude_eq h₁ h₂
    · rename_i h₁ m₂ e₂ h₂
      rw [compareMagnitude_eq h₂ h₁]
      exact compare_congr (by simp [place]) (by simp [place])
    · rename_i not_positive not_negative
      -- Infinities and NaNs are alone in their classes.
      have special : x.rank ≠ 2 ∧ x.rank ≠ 3 := by
        refine ⟨fun second => ?_, fun third => ?_⟩
        · obtain ⟨m₁, e₁, h₁, rfl⟩ := exists_negative second
          obtain ⟨m₂, e₂, h₂, rfl⟩ := exists_negative (same.symm.trans second)
          exact not_negative _ _ _ _ _ _ rfl rfl
        · obtain ⟨m₁, e₁, h₁, rfl⟩ := exists_positive third
          obtain ⟨m₂, e₂, h₂, rfl⟩ := exists_positive (same.symm.trans third)
          exact not_positive _ _ _ _ _ _ rfl rfl
      exact (Int.compare_eq_eq.mpr (by omega)).symm
  · rw [Nat.compare_eq_gt.mpr greater, Int.compare_eq_gt.mpr (by omega)]
    rfl

theorem level_infinity (s : Bool) :
    (infinity s).level = if s then -infinityPlace else infinityPlace := by
  cases s <;> decide

theorem level_finite (s : Bool) {m : Nat} {e : Int} (h : Canonical m e) :
    (finite s m e h).level = if s then -magnitudePlace m e else magnitudePlace m e := by
  have bounds := magnitudePlace_bounds h
  cases s
  · simp [level, place]
    omega
  · simp [level, place]
    omega

theorem compare?_nan_right (x : Number) (s : Bool) : x.compare? (nan s) = none := by
  cases x <;> rfl

/-- Numbers other than NaN compare as their levels do. -/
theorem compare?_eq {x y : Number} (x_number : x.isNaN = false) (y_number : y.isNaN = false) :
    x.compare? y = some (compare x.level y.level) := by
  have positive : 0 < infinityPlace := by decide
  cases x with
  | nan s => cases x_number
  | infinity s =>
    cases y with
    | nan t => cases y_number
    | infinity t => cases s <;> cases t <;> decide
    | finite t m e h =>
      have bounds := magnitudePlace_bounds h
      rw [level_infinity, level_finite]
      cases s with
      | false => exact congrArg some (Int.compare_eq_gt.mpr (by cases t <;> simp <;> omega)).symm
      | true => exact congrArg some (Int.compare_eq_lt.mpr (by cases t <;> simp <;> omega)).symm
  | finite s m₁ e₁ h₁ =>
    have bounds₁ := magnitudePlace_bounds h₁
    cases y with
    | nan t => cases y_number
    | infinity t =>
      rw [level_infinity, level_finite]
      cases t with
      | false => exact congrArg some (Int.compare_eq_lt.mpr (by cases s <;> simp <;> omega)).symm
      | true => exact congrArg some (Int.compare_eq_gt.mpr (by cases s <;> simp <;> omega)).symm
    | finite t m₂ e₂ h₂ =>
      have bounds₂ := magnitudePlace_bounds h₂
      have zero₁ := magnitudePlace_eq_zero h₁
      have zero₂ := magnitudePlace_eq_zero h₂
      rw [level_finite, level_finite]
      unfold compare?
      refine congrArg some ?_
      split
      · exact (Int.compare_eq_eq.mpr (by cases s <;> cases t <;> simp <;> omega)).symm
      · cases s <;> cases t
        · exact compareMagnitude_eq h₁ h₂
        · exact (Int.compare_eq_gt.mpr (by simp; omega)).symm
        · exact (Int.compare_eq_lt.mpr (by simp; omega)).symm
        · rw [compareMagnitude_eq h₂ h₁]
          exact compare_congr (by simp) (by simp)

theorem atMost_iff (x y : Number) :
    x.atMost y ↔ x.isNaN = false ∧ y.isNaN = false ∧ x.level ≤ y.level := by
  cases x_number : x.isNaN with
  | true => cases x <;> simp_all [atMost, compare?, isNaN]
  | false =>
    cases y_number : y.isNaN with
    | true =>
      cases y with
      | nan s => simp [atMost, compare?_nan_right]
      | infinity s | finite s m e h => cases y_number
    | false => simp [atMost, compare?_eq x_number y_number, Int.isLE_compare]

theorem isNaN_eq_false_iff (x : Number) :
    x.isNaN = false ↔ -infinityPlace - 2 < x.place ∧ x.place < infinityPlace + 1 := by
  have positive : 0 < infinityPlace := by decide
  cases x with
  | nan s => cases s <;> simp [isNaN, place]
  | infinity s => cases s <;> simp [isNaN, place] <;> omega
  | finite s m e h =>
    have bounds := magnitudePlace_bounds h
    cases s <;> simp [isNaN, place] <;> omega

/-- What comes before a number in the total order is at most as great, negative NaN apart. -/
theorem atMost_of_place_le {x y z : Number} (before : x.place ≤ y.place) (sound : x ≠ nan true)
    (h : y.atMost z) : x.atMost z := by
  rw [atMost_iff] at h ⊢
  obtain ⟨y_number, z_number, le⟩ := h
  have y_range := (isNaN_eq_false_iff y).mp y_number
  have low : -infinityPlace - 2 < x.place := by
    cases x with
    | nan s =>
      cases s with
      | true => exact absurd rfl sound
      | false => decide
    | infinity s | finite s m e h => exact ((isNaN_eq_false_iff _).mp rfl).1
  refine ⟨(isNaN_eq_false_iff x).mpr ⟨low, by omega⟩, z_number, Int.le_trans ?_ le⟩
  unfold level
  split <;> split <;> omega

end Number
end FrameScript
