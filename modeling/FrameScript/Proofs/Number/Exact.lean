import FrameScript.Number.Decimal
import FrameScript.Proofs.Number.Rounding

/-!
# Numbers that a decimal hits

A finite number is a dyadic fraction, so some decimal has just its value. Such a decimal is not
rounded when it is read: every finite number is written by its digits, with an exponent if it is
no natural number.
-/

namespace FrameScript
namespace Number

variable {m : Nat} {e : Int}

/-- A canonical magnitude is read as it is, in whatever unit it is counted. -/
theorem roundDyadic_scale (h : Canonical m e) (nonzero : m ≠ 0) (k : Nat) :
    roundDyadic false (m * 2 ^ k) (e - k) = .finite false m e h := by
  have some' : m * 2 ^ k ≠ 0 := Nat.mul_ne_zero nonzero (Nat.two_pow_pos k).ne'
  have no_shift : lastBit m e = 0 := lastBit_canonical h nonzero
  have drop : lastBit (m * 2 ^ k) (e - k) = k := by
    have scaled := log2_scale nonzero k
    unfold lastBit at no_shift ⊢
    omega
  have unrounded : roundShift (m * 2 ^ k) k = m := by
    have scaled := roundShift_scale m 0 k
    rwa [Nat.zero_add, roundShift_zero] at scaled
  have parts : ofParts false m (e - k + k) = .finite false m e h := by
    rw [Int.sub_add_cancel]
    exact dif_pos h
  unfold lastBit at drop
  rw [roundDyadic, if_neg some']
  dsimp only
  rw [drop]
  split
  · rename_i is_zero
    obtain rfl : k = 0 := by omega
    simpa using parts
  · rw [Int.toNat_natCast, unrounded, if_neg h.1.ne]
    exact parts

theorem roundRatio_exact {n : Nat} (h : Canonical m (-n)) (nonzero : m ≠ 0) :
    roundRatio false (m * 5 ^ n) (10 ^ n) 0 = .finite false m (-n) h := by
  have split : 10 ^ n = 5 ^ n * 2 ^ n := by
    rw [← Nat.mul_pow]
  have fives : 0 < 5 ^ n := Nat.pow_pos (by decide)
  -- The quotient is widened by more bits than the divisor has factors of two.
  have wide : n ≤ 56 + Nat.log2 (10 ^ n) - Nat.log2 (m * 5 ^ n) := by
    have divisor : Nat.log2 (10 ^ n) = Nat.log2 (5 ^ n) + n := by
      rw [split, log2_scale fives.ne']
    have dividend : Nat.log2 (m * 5 ^ n) < 53 + (Nat.log2 (5 ^ n) + 1) := by
      rw [Nat.log2_lt (Nat.mul_ne_zero nonzero fives.ne'), Nat.pow_add]
      exact Nat.mul_lt_mul'' h.1 Nat.lt_log2_self
    omega
  obtain ⟨k, widen⟩ := Nat.exists_eq_add_of_le wide
  have multiple : (m * 5 ^ n) <<< (n + k) = m * 2 ^ k * 10 ^ n := by
    rw [Nat.shiftLeft_eq, Nat.pow_add, split]
    ring
  have tens : 0 < 10 ^ n := Nat.pow_pos (by decide)
  unfold roundRatio
  dsimp only
  rw [widen, multiple, Nat.mul_div_cancel _ tens, Nat.mul_mod_left, if_pos rfl]
  have scaled := roundDyadic_scale h nonzero (k + 1)
  rw [← scaled]
  congr 1
  · rw [Nat.pow_succ]
    ring
  · omega

namespace Decimal

open FrameScript.Decimal

theorem length_le {d k : Nat} (positive : 0 < k) (small : d < 10 ^ k) : length d ≤ k :=
  (Nat.length_toDigits_le_iff (by decide) positive).mpr small

theorem lt_length {d k : Nat} (positive : 0 < k) (large : 10 ^ k ≤ d) : k < length d := by
  by_contra short
  exact absurd ((Nat.length_toDigits_le_iff (by decide) positive).mp (Nat.not_lt.mp short))
    (Nat.not_lt.mpr large)

theorem toNumber_whole {k : Nat} (h : Canonical m k) (nonzero : m ≠ 0) :
    toNumber false ⟨m * 2 ^ k, 0⟩ = .finite false m k h := by
  have top : k ≤ 971 := by
    have := h.exponent.2
    omega
  have small : m * 2 ^ k < 10 ^ 309 :=
    calc m * 2 ^ k < 2 ^ 53 * 2 ^ k := Nat.mul_lt_mul_of_pos_right h.1 (Nat.two_pow_pos k)
      _ ≤ 2 ^ 53 * 2 ^ 971 := Nat.mul_le_mul_left _ (Nat.pow_le_pow_right (by decide) top)
      _ < 10 ^ 309 := by decide +kernel
  have order := length_le (by decide) small
  have whole := roundDyadic_scale h nonzero k
  rw [Int.sub_self] at whole
  unfold toNumber
  dsimp only
  rw [if_neg (Nat.mul_ne_zero nonzero (Nat.two_pow_pos k).ne'), if_neg (by omega),
    if_neg (by omega), if_pos (Int.le_refl 0)]
  rw [← whole]
  simp

theorem ten_pow_le_five_pow {a k : Nat} (bound : k ≤ 9 * a + 5) :
    10 ^ k ≤ 5 ^ (4 * a + 3 + k) := by
  have twos : 2 ^ (9 * a + 5) ≤ 5 ^ (4 * a + 3) := by
    rw [Nat.pow_add, Nat.pow_add, Nat.pow_mul, Nat.pow_mul]
    exact Nat.mul_le_mul (Nat.pow_le_pow_left (by decide) a) (by decide)
  calc 10 ^ k = 2 ^ k * 5 ^ k := by rw [← Nat.mul_pow]
    _ ≤ 5 ^ (4 * a + 3) * 5 ^ k :=
      Nat.mul_le_mul_right _ (Nat.le_trans (Nat.pow_le_pow_right (by decide) bound) twos)
    _ = 5 ^ (4 * a + 3 + k) := (Nat.pow_add ..).symm

/-- A fraction; what it is divided by divides a power of ten. -/
theorem toNumber_fraction {n : Nat} (h : Canonical m (-n)) (nonzero : m ≠ 0) (proper : 0 < n) :
    toNumber false ⟨m * 5 ^ n, -n⟩ = .finite false m (-n) h := by
  have bottom : n ≤ 1074 := by
    have := h.exponent.1
    omega
  have fives : 0 < 5 ^ n := Nat.pow_pos (by decide)
  have small : m * 5 ^ n < 10 ^ (16 + n) := by
    rw [Nat.pow_add]
    exact Nat.mul_lt_mul'' (h.1.trans (by decide)) (Nat.pow_lt_pow_left (by decide) proper.ne')
  have order := length_le (by omega) small
  have least : (-330 : Int) ≤ -n + length (m * 5 ^ n) := by
    by_cases far : n ≤ 331
    · have some_digit : 0 < length (m * 5 ^ n) := Nat.length_toDigits_pos
      omega
    · obtain ⟨k, rfl⟩ : ∃ k, n = 4 * 82 + 3 + k := ⟨n - 331, by omega⟩
      have large := ten_pow_le_five_pow (a := 82) (k := k) (by omega)
      have large : 10 ^ k ≤ m * 5 ^ (4 * 82 + 3 + k) :=
        Nat.le_trans large (Nat.le_mul_of_pos_left _ (Nat.pos_of_ne_zero nonzero))
      have longer := lt_length (by omega) large
      omega
  unfold toNumber
  dsimp only
  rw [if_neg (Nat.mul_ne_zero nonzero fives.ne'), if_neg (by omega), if_neg (by omega),
    if_neg (by omega)]
  have power : (-(-n : Int)).toNat = n := by omega
  rw [power]
  exact roundRatio_exact h nonzero

theorem digitsValue_toDigits (n : Nat) : digitsValue (Nat.toDigits 10 n) = n :=
  Nat.ofDigitChars_toDigits (by decide) (by decide)

theorem toDigits_all (n : Nat) : ∀ ch ∈ Nat.toDigits 10 n, ch.isDigit :=
  fun _ mem => Nat.isDigit_of_mem_toDigits (by decide) (by decide) mem

theorem takeWhile_digits {t k : List Char} (digits : ∀ ch ∈ t, ch.isDigit)
    (ends : ∀ ch ∈ k.head?, ch.isDigit = false) :
    (t ++ k).takeWhile Char.isDigit = t ∧ (t ++ k).dropWhile Char.isDigit = k := by
  rw [List.takeWhile_append_of_pos digits, List.dropWhile_append_of_pos digits]
  cases k with
  | nil => simp
  | cons ch rest => simp [ends ch rfl]

theorem ofChars?_toDigits (n : Nat) : ofChars? (Nat.toDigits 10 n) = some ⟨n, 0⟩ := by
  have parts := takeWhile_digits (toDigits_all n) (k := []) (by simp)
  rw [List.append_nil] at parts
  unfold ofChars?
  dsimp only
  rw [parts.1, parts.2]
  simp [digitsValue_toDigits, Nat.toDigits_ne_nil]

theorem ofChars?_exponent (n k : Nat) :
    ofChars? (Nat.toDigits 10 n ++ 'e' :: '-' :: Nat.toDigits 10 k) = some ⟨n, -k⟩ := by
  have parts := takeWhile_digits (toDigits_all n) (k := 'e' :: '-' :: Nat.toDigits 10 k) (by simp)
  have digits : (Nat.toDigits 10 k).all Char.isDigit :=
    List.all_eq_true.mpr (toDigits_all k)
  unfold ofChars?
  dsimp only
  rw [parts.1, parts.2]
  simp [readExponent?, readSign, digits, digitsValue_toDigits, Nat.toDigits_ne_nil]

end Decimal

theorem ofText?_signed (s : Bool) {ch : Char} {rest : List Char} (digit : ch.isDigit) :
    ofText? (signText s ++ String.ofList (ch :: rest)) =
      (Decimal.ofChars? (ch :: rest)).map (·.toNumber s) := by
  have sign : Decimal.readSign (signText s ++ String.ofList (ch :: rest)).toList =
      (s, ch :: rest) := by
    cases s with
    | true => simp [signText, Decimal.readSign]
    | false =>
      rw [signText, if_neg Bool.false_ne_true, String.empty_append, String.toList_ofList]
      unfold Decimal.readSign
      split
      · rename_i comes
        rw [(List.cons.inj comes).1] at digit
        cases digit
      · rename_i comes
        rw [(List.cons.inj comes).1] at digit
        cases digit
      · rfl
  have lower : ch.toLower = ch := by
    delta Char.toLower
    delta Char.isDigit at digit
    grind
  have other {w : String} {x : Char} (head : w.toList.head? = some x) (letter : x.isDigit = false) :
      String.ofList ((ch :: rest).map Char.toLower) ≠ w := by
    rintro rfl
    rw [String.toList_ofList, List.map_cons, lower] at head
    cases head
    rw [digit] at letter
    cases letter
  unfold ofText?
  rw [sign]
  dsimp only
  rw [if_neg (not_or.mpr ⟨other (x := 'i') rfl (by decide), other (x := 'i') rfl (by decide)⟩),
    if_neg (other (x := 'n') rfl (by decide))]

theorem ofText?_of_digit {ch : Char} {rest : List Char} (digit : ch.isDigit) :
    ofText? (String.ofList (ch :: rest)) =
      (Decimal.ofChars? (ch :: rest)).map (·.toNumber false) := by
  have signed : ofText? (signText false ++ String.ofList (ch :: rest)) = _ :=
    ofText?_signed false digit
  rwa [signText, if_neg Bool.false_ne_true, String.empty_append] at signed

theorem ofText?_toDigits (n : Nat) (k : List Char) :
    ofText? (String.ofList (Nat.toDigits 10 n ++ k)) =
      (Decimal.ofChars? (Nat.toDigits 10 n ++ k)).map (·.toNumber false) := by
  obtain ⟨ch, rest, comes⟩ := List.exists_cons_of_ne_nil (Nat.toDigits_ne_nil (n := n) (b := 10))
  have digit := Decimal.toDigits_all n ch (by rw [comes]; exact List.mem_cons_self)
  rw [comes, List.cons_append]
  exact ofText?_of_digit digit

/-- The digits of a number that is not negative, with an exponent if it is no natural number. -/
def digits : Number → List Char
  | .finite _ m (.ofNat k) _ => Nat.toDigits 10 (m * 2 ^ k)
  | .finite _ m (.negSucc k) _ =>
    Nat.toDigits 10 (m * 5 ^ (k + 1)) ++ 'e' :: '-' :: Nat.toDigits 10 (k + 1)
  | .infinity _ => "1e999".toList
  | .nan _ => []

theorem ofText?_digits {x : Number} (sign : x.isNegative = false) (number : x.isNaN = false) :
    ofText? (String.ofList x.digits) = some x := by
  cases x with
  | nan s => cases number
  | infinity s =>
    obtain rfl : s = false := sign
    decide +kernel
  | finite s m e h =>
    obtain rfl : s = false := sign
    cases e with
    | ofNat k =>
      have nonzero : m ≠ 0 := by
        rintro rfl
        rcases h.normal with low | normal
        · exact absurd low (by simp)
        · exact absurd normal (by decide)
      have read := ofText?_toDigits (m * 2 ^ k) []
      rw [List.append_nil, Decimal.ofChars?_toDigits] at read
      rw [digits, read]
      exact congrArg some (Decimal.toNumber_whole h nonzero)
    | negSucc k =>
      have read := ofText?_toDigits (m * 5 ^ (k + 1)) ('e' :: '-' :: Nat.toDigits 10 (k + 1))
      rw [Decimal.ofChars?_exponent] at read
      rw [digits, read]
      by_cases is_zero : m = 0
      · subst is_zero
        rcases h.normal with low | normal
        · have nothing (s : Int) : Decimal.toNumber false ⟨0, s⟩ = .zero false := by
            simp only [Decimal.toNumber, if_true]
          cases low
          rw [Nat.zero_mul, Option.map_some, nothing]
          rfl
        · exact absurd normal (by decide)
      · exact congrArg some (Decimal.toNumber_fraction h is_zero (Nat.succ_pos k))

end Number
end FrameScript
