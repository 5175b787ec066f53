import FrameScript.Json.Reader
import FrameScript.Proofs.Number.Range

/-!
# JSON values that are read

An inductive type of JSON has more values than texts write: integers of any size, numbers that are
none, and fields in any order. What the reader yields has none of these.
-/

namespace FrameScript
namespace Json

open Number (Within)

variable {k : Int} {x y : Number}

/-- The JSON values that there are: integers fit 64 bits, floats are finite, and the fields of an
object are in the order of their keys. -/
inductive WellFormed : Json → Prop
  | null : WellFormed .null
  | bool (b : Bool) : WellFormed (.bool b)
  | integer {n : Int} (word : fitsWord n = true) : WellFormed (.integer n)
  | float {x : Number} (finite : x.isFinite = true) : WellFormed (.float x)
  | string (s : String) : WellFormed (.string s)
  | array {items : List Json} (each : ∀ j ∈ items, WellFormed j) : WellFormed (.array items)
  | object {fields : List (String × Json)} (sorted : fields.Pairwise fun a b => a.1 < b.1)
      (each : ∀ f ∈ fields, WellFormed f.2) : WellFormed (.object fields)

theorem powerOfTen_atLeastOne : ∀ n ≤ powerLimit, (powerOfTen n).atLeastOne = true := by
  decide +kernel

theorem scale?_isFinite {fuel : Nat} {power : Int} (within : x.Within k) (low : -1022 ≤ k)
    (high : k + fuel ≤ 1023) (scaled : scale? fuel x power = some y) : y.isFinite = true := by
  induction fuel generalizing x k power with
  | zero =>
    cases scaled
    exact within.isFinite
  | succ fuel ih =>
    unfold scale? at scaled
    split at scaled
    · rename_i least
      split at scaled
      · exact (Option.filter_eq_some_iff.mp scaled).2
      · cases scaled
        exact (within.div (powerOfTen_atLeastOne _ least) low (by omega)).isFinite
    · split at scaled
      · cases scaled
        exact within.isFinite
      · split at scaled
        · cases scaled
        · have divisor := powerOfTen_atLeastOne powerLimit (Nat.le_refl powerLimit)
          exact ih (within.div divisor low (by omega)) (by omega) (by omega) scaled

theorem extendSignificand_lt {n : Nat} (word : n < 2 ^ 64) (cs : List Char) :
    (extendSignificand n cs).1 < 2 ^ 64 := by
  induction cs generalizing n with
  | nil => exact word
  | cons c rest ih =>
    unfold extendSignificand
    dsimp only
    split
    · rename_i fits
      exact ih fits
    · exact word

theorem significandOf_lt (whole fraction : List Char) :
    (significandOf whole fraction).digits < 2 ^ 64 :=
  extendSignificand_lt (extendSignificand_lt (by decide) whole) fraction

theorem floatOfDecimal?_isFinite {digits : Nat} {scale : Int} (word : digits < 2 ^ 64)
    (float : floatOfDecimal? ⟨digits, scale⟩ = some x) : x.isFinite = true := by
  have within : (Number.ofNat digits).Within 65 := by
    refine Number.roundDyadic_within _ ?_ (by decide) (by decide)
    by_cases is_zero : digits = 0
    · exact .inl is_zero
    · have bits := (Nat.log2_lt is_zero).mpr word
      exact .inr (by omega)
  exact scale?_isFinite within (by decide) (by decide) float

theorem floatOfParts_isFinite {negative : Bool} {whole fraction rest : List Char}
    {exponent : Option (Bool × List Char)}
    (float : floatOfParts negative whole fraction exponent rest = .ok x) : x.isFinite = true := by
  unfold floatOfParts at float
  dsimp only at float
  split at float
  · rename_i found
    have word := significandOf_lt whole fraction
    have finite := floatOfDecimal?_isFinite word found
    cases float
    split
    · rw [Number.neg_isFinite, finite]
    · exact finite
  · cases float

variable {α : Type} {j : Json} {cs rest : List Char}

/-- The value that is read is well-formed, if one is. -/
def YieldsFormed (result : Except Failure (Json × List Char)) : Prop :=
  ∀ read, result = .ok read → read.1.WellFormed

namespace YieldsFormed

theorem ok (formed : j.WellFormed) : YieldsFormed (.ok (j, rest)) := by
  intro read eq
  cases eq
  exact formed

theorem error (failure : Failure) : YieldsFormed (.error failure) := by
  intro read eq
  cases eq

theorem bind {x : Except Failure α} {f : α → Except Failure (Json × List Char)}
    (next : ∀ a, x = .ok a → YieldsFormed (f a)) : YieldsFormed (x >>= f) := by
  cases x with
  | error failure => exact error failure
  | ok a => exact next a rfl

theorem ite {p : Prop} [Decidable p] {x y : Except Failure (Json × List Char)}
    (yes : p → YieldsFormed x) (no : ¬ p → YieldsFormed y) :
    YieldsFormed (if p then x else y) := by
  split
  · exact yes ‹_›
  · exact no ‹_›

end YieldsFormed

open YieldsFormed (ok error bind ite)

theorem readNumeral_formed (cs : List Char) : YieldsFormed (readNumeral cs) := by
  unfold readNumeral
  refine bind fun whole _ => bind fun fraction _ => bind fun exponent _ => ?_
  refine ite (fun integer => ok (.integer ?_)) fun _ => bind fun x float => ok (.float ?_)
  · simp only [Bool.and_eq_true] at integer
    exact integer.1.2
  · exact floatOfParts_isFinite float

theorem readWord_formed {v : Json} (formed : v.WellFormed) (word cs : List Char) :
    YieldsFormed (readWord v word cs) := by
  induction word generalizing cs with
  | nil => exact ok formed
  | cons w ws ih =>
    cases cs with
    | nil => exact error _
    | cons c cs =>
      exact ite (fun _ => ih cs) fun _ => error _

/-- With so much fuel the readers yield well-formed values, if the parts before are well-formed. -/
structure ReadsFormed (fuel : Nat) : Prop where
  value (depth : Nat) (cs : List Char) : YieldsFormed (readValue fuel depth cs)
  items (depth : Nat) {before : List Json} (cs : List Char)
    (formed : ∀ i ∈ before, i.WellFormed) : YieldsFormed (readItems fuel depth before cs)
  fields (depth : Nat) {before : List (String × Json)} (cs : List Char)
    (sorted : before.Pairwise fun a b => a.1 < b.1) (formed : ∀ f ∈ before, f.2.WellFormed) :
    YieldsFormed (readFields fuel depth before cs)

namespace ReadsFormed

variable {fuel : Nat}

theorem value_succ (inner : ReadsFormed fuel) (depth : Nat) (cs : List Char) :
    YieldsFormed (readValue (fuel + 1) depth cs) := by
  unfold readValue
  split
  · exact error _
  · rename_i rest _
    cases readString (rest.length + 1) [] rest with
    | error failure => exact error failure
    | ok read => exact ok (.string read.1)
  · refine ite (fun _ => error _) fun _ => ?_
    split
    · exact ok (.array (by simp))
    · exact error _
    · exact inner.items _ _ (by simp)
  · refine ite (fun _ => error _) fun _ => ?_
    split
    · exact ok (.object .nil (by simp))
    · exact error _
    · exact inner.fields _ _ .nil (by simp)
    · exact error _
  · exact ite (fun _ => readNumeral_formed _) fun _ =>
      ite (fun _ => readWord_formed .null _ _) fun _ =>
      ite (fun _ => readWord_formed (.bool true) _ _) fun _ =>
      ite (fun _ => readWord_formed (.bool false) _ _) fun _ => error _

theorem items_succ (inner : ReadsFormed fuel) (depth : Nat) {before : List Json} (cs : List Char)
    (formed : ∀ i ∈ before, i.WellFormed) :
    YieldsFormed (readItems (fuel + 1) depth before cs) := by
  unfold readItems
  split
  · exact error _
  · rename_i item _ read
    have items : ∀ i ∈ item :: before, i.WellFormed :=
      List.forall_mem_cons.mpr ⟨inner.value depth cs _ read, formed⟩
    split
    · exact error _
    · exact inner.items depth _ items
    · exact ok (.array fun i mem => items i (List.mem_reverse.mp mem))

theorem fields_succ (inner : ReadsFormed fuel) (depth : Nat) {before : List (String × Json)}
    (cs : List Char) (sorted : before.Pairwise fun a b => a.1 < b.1)
    (formed : ∀ f ∈ before, f.2.WellFormed) :
    YieldsFormed (readFields (fuel + 1) depth before cs) := by
  unfold readFields
  split
  · exact error _
  · rename_i key _ _
    split
    · exact error _
    · rename_i rest _
      split
      · exact error _
      · rename_i value _ read
        have fields : ∀ f ∈ Table.insertEntry key value before, f.2.WellFormed := by
          intro f mem
          rcases Table.mem_insertEntry mem with rfl | mem
          · exact inner.value depth rest _ read
          · exact formed f mem
        have sorted := Table.sorted_insertEntry key value sorted
        dsimp only
        split
        · exact error _
        · exact inner.fields depth _ sorted fields
        · exact ok (.object sorted fields)

theorem all (fuel : Nat) : ReadsFormed fuel := by
  induction fuel with
  | zero => exact ⟨fun _ _ => error _, fun _ _ _ _ => error _, fun _ _ _ _ _ => error _⟩
  | succ fuel inner => exact ⟨inner.value_succ, inner.items_succ, inner.fields_succ⟩

end ReadsFormed

/-- What a text writes is well-formed. -/
theorem wellFormed_of_read {text : String} (written : read text = .ok j) : j.WellFormed := by
  unfold read at written
  dsimp only [Bind.bind, Except.bind] at written
  split at written
  · cases written
  · rename_i found
    have formed := (ReadsFormed.all _).value _ _ _ found
    split at written
    · cases written
      exact formed
    · cases written

end Json
end FrameScript
