import FrameScript.Proofs.Number.Integral
import FrameScript.Proofs.Value.Storage

/-!
# Positions of lists and texts

A number names a position if it has the value of a natural number. A list is read at the positions
below its length and written at these and at its length, where it grows by one; a text is read at
the positions of its characters, and these in order are the text. A position is cut to a machine
word, so lists and texts are taken to be shorter than the greatest word, as all in memory are.
-/

namespace FrameScript
namespace Value

open Number (Is wordMax)

variable {h next : Heap} {r : ListRef} {x : Number} {v : Value} {n i : Nat}

theorem position?_of_is (is : x.Is n) : position? x = some (Nat.min n wordMax) := by
  cases x with
  | nan s | infinity s => cases is
  | finite s m e canonical =>
    obtain ⟨unsigned, value⟩ := (Number.is_finite s canonical).mp is
    have whole := Number.isWhole_of_magnitude value
    have not_less : ¬ (Number.finite s m e canonical).less (.zero false) = true := by
      rw [Number.less_zero_finite]
      exact fun negative => negative.2 (unsigned negative.1)
    have part : Number.wholeMagnitude m e = n := by
      rw [Number.magnitude_of_isWhole whole] at value
      exact_mod_cast value
    rw [position?, Number.isInteger, whole, Bool.eq_false_iff.mpr not_less]
    cases s with
    | false => simp [Number.toWord, part, Nat.min_def]
    | true =>
      obtain rfl := unsigned rfl
      have no_magnitude : Number.magnitude 0 e = 0 := Number.magnitude_eq_zero.mpr rfl
      obtain rfl : n = 0 := by
        rw [no_magnitude] at value
        exact_mod_cast value.symm
      simp [Number.toWord]

theorem exists_is_of_position? (position : position? x = some i) : ∃ n, x.Is n := by
  cases x with
  | nan s | infinity s => cases position
  | finite s m e canonical =>
    simp only [position?, Number.isInteger, Bool.and_eq_true, Bool.not_eq_true',
      Option.ite_none_right_eq_some] at position
    obtain ⟨⟨whole, not_less⟩, -⟩ := position
    refine ⟨Number.wholeMagnitude m e, (Number.is_finite s canonical).mpr ⟨fun negative => ?_,
      Number.magnitude_of_isWhole whole⟩⟩
    by_contra nonzero
    rw [(Number.less_zero_finite s canonical).mpr ⟨negative, nonzero⟩] at not_less
    cases not_less

/-- A number is cut to the position that it names if that is a word. -/
theorem position?_eq_some (word : i < wordMax) : position? x = some i ↔ x.Is i := by
  constructor
  · intro position
    obtain ⟨n, is⟩ := exists_is_of_position? position
    rw [position?_of_is is, Option.some_inj] at position
    have same : n = i := by
      change min n wordMax = i at position
      omega
    exact same ▸ is
  · intro is
    rw [position?_of_is is, Option.some_inj]
    exact Nat.min_eq_left (Nat.le_of_lt word)

theorem position?_bind {α : Type} {f : Nat → Option α} {size : Nat}
    (found : ∀ i, (f i).isSome ↔ i < size) (fits : size < wordMax) {a : α} :
    (position? x).bind f = some a ↔ ∃ i < size, x.Is i ∧ f i = some a := by
  constructor
  · intro outcome
    obtain ⟨i, position, item⟩ := Option.bind_eq_some_iff.mp outcome
    have inside : i < size := (found i).mp (by simp [item])
    exact ⟨i, inside, (position?_eq_some (inside.trans fits)).mp position, item⟩
  · rintro ⟨i, inside, is, item⟩
    rw [(position?_eq_some (inside.trans fits)).mpr is]
    exact item

theorem getIndex_of_is (word : i < wordMax) (is : x.Is i) (item : (h.list r)[i]? = some v) :
    getIndex h (list r) (num x) = .ok v := by
  unfold getIndex
  simp only [(position?_eq_some word).mpr is, Option.bind_some, item]

theorem getIndex_list (fits : (h.list r).size < wordMax) :
    getIndex h (list r) (num x) = .ok v ↔
      ∃ i < (h.list r).size, x.Is i ∧ (h.list r)[i]? = some v := by
  rw [← position?_bind (f := fun i => (h.list r)[i]?) (by simp) fits]
  unfold getIndex
  dsimp only
  split
  · rename_i found
    rw [found]
    simp
  · rename_i missing
    rw [missing]
    simp

theorem getIndex_list_ok (fits : (h.list r).size < wordMax) :
    (∃ v, getIndex h (list r) (num x) = .ok v) ↔ ∃ i < (h.list r).size, x.Is i := by
  simp only [getIndex_list fits]
  constructor
  · rintro ⟨v, i, inside, is, -⟩
    exact ⟨i, inside, is⟩
  · rintro ⟨i, inside, is⟩
    exact ⟨(h.list r)[i], i, inside, is, by simp [inside]⟩

theorem getIndex_str {s : String} (fits : s.length < wordMax) :
    getIndex h (str s) (num x) = .ok v ↔
      ∃ i < s.length, x.Is i ∧ ∃ c, s.toList[i]? = some c ∧ v = str (String.singleton c) := by
  have found (i : Nat) : (s.toList[i]?).isSome ↔ i < s.length := by
    rw [← String.length_toList]
    simp
  have reads (c : Char) := position?_bind (x := x) found fits (a := c)
  unfold getIndex
  dsimp only
  split
  · rename_i c position
    obtain ⟨i, inside, is, char⟩ := (reads c).mp position
    constructor
    · rintro ⟨⟩
      exact ⟨i, inside, is, c, char, rfl⟩
    · rintro ⟨j, -, is', d, char', rfl⟩
      obtain rfl := is.unique is'
      rw [char] at char'
      cases char'
      rfl
  · rename_i missing
    constructor
    · rintro ⟨⟩
    · rintro ⟨i, inside, is, c, char, -⟩
      rw [(reads c).mpr ⟨i, inside, is, char⟩] at missing
      cases missing

theorem getIndex_str_ok {s : String} (fits : s.length < wordMax) :
    (∃ v, getIndex h (str s) (num x) = .ok v) ↔ ∃ i < s.length, x.Is i := by
  simp only [getIndex_str fits]
  constructor
  · rintro ⟨v, i, inside, is, -⟩
    exact ⟨i, inside, is⟩
  · rintro ⟨i, inside, is⟩
    have bound : i < s.toList.length := by rwa [String.length_toList]
    exact ⟨_, i, inside, is, s.toList[i], by simp [bound], rfl⟩

/-- The characters of a text from a position on, read one after the other. -/
theorem mapM_getIndex {s : String} (fits : s.length < wordMax) {cs : List Char} {k : Nat}
    {xs : List Number} (rest : s.toList.drop k = cs)
    (are : List.Forall₂ Is xs (List.range' k cs.length)) :
    xs.mapM (fun x => getIndex h (str s) (num x)) =
      .ok (cs.map fun c => str (String.singleton c)) := by
  induction cs generalizing k xs with
  | nil =>
    cases are
    rfl
  | cons c cs ih =>
    rw [List.length_cons, List.range'_succ] at are
    obtain ⟨x, ys, is, others, rfl⟩ := List.forall₂_cons_right_iff.mp are
    have char : s.toList[k]? = some c := by
      rw [← List.head?_drop, rest, List.head?_cons]
    have inside : k < s.length := by
      have below := (List.getElem?_eq_some_iff.mp char).1
      rwa [String.length_toList] at below
    have read : getIndex h (str s) (num x) = .ok (str (String.singleton c)) :=
      (getIndex_str fits).mpr ⟨k, inside, is, c, char, rfl⟩
    have behind : s.toList.drop (k + 1) = cs := by
      rw [← List.tail_drop, rest, List.tail_cons]
    rw [List.mapM_cons, read, ih behind others]
    rfl

/-- What writing a value at a position of a list has done. -/
structure Written (h : Heap) (r : ListRef) (x : Number) (v : Value) (next : Heap) : Prop where
  reads : getIndex next (list r) (num x) = .ok v
  others : ∀ i, ¬ x.Is i → (next.list r)[i]? = (h.list r)[i]?
  grows : x.Is (h.list r).size → (next.list r).size = (h.list r).size + 1
  keeps : ¬ x.Is (h.list r).size → (next.list r).size = (h.list r).size
  lists : ∀ other, other ≠ r → next.list other = h.list other
  objects : next.objects = h.objects
  chunks : next.chunks = h.chunks

theorem setIndex_list (fits : (h.list r).size < wordMax) :
    setIndex h (list r) (num x) v = .ok next ↔
      ∃ i ≤ (h.list r).size, x.Is i ∧ next = h.updateList r fun items =>
        if i < (h.list r).size then items.setIfInBounds i v else items.push v := by
  unfold setIndex
  dsimp only
  cases position : position? x with
  | none =>
    simp only [reduceCtorEq, false_iff]
    rintro ⟨i, within, is, -⟩
    rw [(position?_eq_some (by omega)).mpr is] at position
    cases position
  | some i =>
    dsimp only
    by_cases within : i ≤ (h.list r).size
    · have is : x.Is i := (position?_eq_some (by omega)).mp position
      have only : (∃ j ≤ (h.list r).size, x.Is j ∧ next = h.updateList r fun items =>
          if j < (h.list r).size then items.setIfInBounds j v else items.push v) ↔
          next = h.updateList r fun items =>
            if i < (h.list r).size then items.setIfInBounds i v else items.push v := by
        constructor
        · rintro ⟨j, -, is', rfl⟩
          rw [is.unique is']
        · intro same
          exact ⟨i, within, is, same⟩
      rw [only]
      by_cases inside : i < (h.list r).size
      · simp [inside, eq_comm]
      · have last : i = (h.list r).size := by omega
        simp [last, eq_comm]
    · rw [if_neg (by omega), if_neg (by omega)]
      simp only [reduceCtorEq, false_iff]
      rintro ⟨j, within', is, -⟩
      rw [(position?_eq_some (by omega)).mpr is] at position
      cases position
      exact within within'

theorem setIndex_list_ok (fits : (h.list r).size < wordMax) :
    (∃ next, setIndex h (list r) (num x) v = .ok next) ↔ ∃ i ≤ (h.list r).size, x.Is i := by
  simp only [setIndex_list fits]
  constructor
  · rintro ⟨next, i, within, is, -⟩
    exact ⟨i, within, is⟩
  · rintro ⟨i, within, is⟩
    exact ⟨_, i, within, is, rfl⟩

theorem setIndex_written (stored : (list r).Stored h) (fits : (h.list r).size < wordMax)
    (done : setIndex h (list r) (num x) v = .ok next) : Written h r x v next := by
  obtain ⟨i, within, is, rfl⟩ := (setIndex_list fits).mp done
  have changed := Heap.list_updateList (f := fun items =>
    if i < (h.list r).size then items.setIfInBounds i v else items.push v) stored
  have last : x.Is (h.list r).size ↔ i = (h.list r).size :=
    ⟨is.unique, fun same => same ▸ is⟩
  constructor
  · refine getIndex_of_is (by omega) is ?_
    rw [changed]
    split
    · rename_i inside
      simp [inside]
    · obtain rfl : i = (h.list r).size := by omega
      simp
  · intro j apart
    have positions : i ≠ j := fun same => apart (same ▸ is)
    rw [changed]
    split
    · simp [positions]
    · obtain rfl : i = (h.list r).size := by omega
      rw [Array.getElem?_push, if_neg positions.symm]
  · intro appends
    rw [changed, if_neg (by rw [last.mp appends]; omega), Array.size_push]
  · intro inside
    rw [changed, if_pos (by rw [last] at inside; omega), Array.size_setIfInBounds]
  · exact fun other apart => Heap.list_updateList_ne apart
  · rfl
  · rfl

/-- Writing to a list succeeds just at its positions and at its length, and what is written is
read there; reading succeeds just at the positions. A text is read at the positions of its
characters, and these joined are the text. However the length is asked for, it is the number of
positions. -/
theorem positions_read_and_written (h : Heap) :
    (∀ r, (list r).Stored h → (h.list r).size < wordMax → ∀ x,
      (∀ v, (∃ next, setIndex h (list r) (num x) v = .ok next) ↔
        ∃ i ≤ (h.list r).size, x.Is i) ∧
      (∀ v next, setIndex h (list r) (num x) v = .ok next → Written h r x v next) ∧
      (∀ v info, setIndex h (list r) (num x) v = .error info → ∀ (m : Machine) (env : Env),
        env.heap = h → (m.heapOrThrow env (setIndex h (list r) (num x) v)).env.heap = h) ∧
      ((∃ v, getIndex h (list r) (num x) = .ok v) ↔ ∃ i < (h.list r).size, x.Is i)) ∧
    (∀ s : String, s.length < wordMax →
      (∀ x, (∃ v, getIndex h (str s) (num x) = .ok v) ↔ ∃ i < s.length, x.Is i) ∧
      ∀ xs, List.Forall₂ Is xs (List.range s.length) → ∃ cs : List String,
        xs.mapM (fun x => getIndex h (str s) (num x)) = .ok (cs.map str) ∧ String.join cs = s) ∧
    ∀ (context : NativeContext) (world : World), world.heap = h →
      (∀ r, (Native.len context world [list r]).result = .value (num (.ofNat (h.list r).size)) ∧
        getMember h (list r) "length" = .ok (num (.ofNat (h.list r).size))) ∧
      ∀ s : String, (Native.len context world [str s]).result = .value (num (.ofNat s.length)) ∧
        getMember h (str s) "length" = .ok (num (.ofNat s.length)) := by
  refine ⟨?_, ?_, ?_⟩
  · intro r stored fits x
    refine ⟨fun v => setIndex_list_ok fits, fun v next => setIndex_written stored fits, ?_,
      getIndex_list_ok fits⟩
    intro v info refused m env same
    rw [refused, Machine.heapOrThrow, Machine.throwInfo_env]
    exact same
  · intro s fits
    refine ⟨fun x => getIndex_str_ok fits, ?_⟩
    intro xs are
    rw [List.range_eq_range', ← String.length_toList] at are
    refine ⟨s.toList.map String.singleton, ?_, ?_⟩
    · rw [mapM_getIndex fits rfl are, List.map_map]
      rfl
    · rw [← String.toList_inj, String.toList_join]
      simp [List.flatMap_map]
  · rintro context ⟨heap, clock, log⟩ rfl
    constructor
    · intro r
      exact ⟨rfl, rfl⟩
    · intro s
      exact ⟨rfl, rfl⟩

/-- A list of two items grows at position 2 and refuses position 3; a text of two characters. -/
theorem positions_read_and_written_two :
    let h : Heap := ⟨#[#[bool true, bool false]], #[], #[]⟩
    let world : World := ⟨h, .zero, #[]⟩
    ((list ⟨0⟩).Stored h ∧ (h.list ⟨0⟩).size < wordMax ∧
      (∃ next, setIndex h (list ⟨0⟩) (num (.ofNat 2)) null = .ok next ∧
        Written h ⟨0⟩ (.ofNat 2) null next) ∧
      ∃ info, setIndex h (list ⟨0⟩) (num (.ofNat 3)) null = .error info ∧
        ((Machine.new 1).heapOrThrow ⟨.empty, .empty, ⟨.zero, true⟩, world⟩
          (setIndex h (list ⟨0⟩) (num (.ofNat 3)) null)).env.heap = h) ∧
    ("añ".length < wordMax ∧
      List.Forall₂ Is ((List.range 2).map Number.ofNat) (List.range "añ".length) ∧
      ∃ cs : List String, ((List.range 2).map Number.ofNat).mapM
        (fun x => getIndex h (str "añ") (num x)) = .ok (cs.map str) ∧ String.join cs = "añ") ∧
    ((Native.len ⟨.zero, true⟩ world [list ⟨0⟩]).result = .value (num (.ofNat 2)) ∧
      getMember h (list ⟨0⟩) "length" = .ok (num (.ofNat 2))) ∧
    (Native.len ⟨.zero, true⟩ world [str "añ"]).result = .value (num (.ofNat 2)) ∧
      getMember h (str "añ") "length" = .ok (num (.ofNat 2)) := by
  intro h world
  obtain ⟨lists, texts, lengths⟩ := positions_read_and_written h
  have stored : (list ⟨0⟩).Stored h := Nat.zero_lt_one
  have fits : (h.list ⟨0⟩).size < wordMax := by decide
  obtain ⟨next, done⟩ := ((lists ⟨0⟩ stored fits (.ofNat 2)).1 null).mpr
    ⟨2, by decide, Number.ofNat_is (by decide)⟩
  have refused : ∃ info, setIndex h (list ⟨0⟩) (num (.ofNat 3)) null = .error info := by
    cases written : setIndex h (list ⟨0⟩) (num (.ofNat 3)) null with
    | error info => exact ⟨info, rfl⟩
    | ok next =>
      obtain ⟨i, within, is⟩ := ((lists ⟨0⟩ stored fits (.ofNat 3)).1 null).mp ⟨next, written⟩
      obtain rfl := is.unique (Number.ofNat_is (by decide))
      exact absurd within (by decide)
  obtain ⟨info, refused⟩ := refused
  have short : "añ".length < wordMax := by decide
  have numbers : List.Forall₂ Is ((List.range 2).map Number.ofNat) (List.range "añ".length) :=
    Number.forall₂_is_range (by decide)
  exact ⟨⟨stored, fits, ⟨next, done, (lists ⟨0⟩ stored fits (.ofNat 2)).2.1 null next done⟩, info,
    refused, (lists ⟨0⟩ stored fits (.ofNat 3)).2.2.1 null info refused _ _ rfl⟩,
    ⟨short, numbers, (texts "añ" short).2 _ numbers⟩, (lengths _ world rfl).1 ⟨0⟩,
    (lengths _ world rfl).2 "añ"⟩

end Value
end FrameScript
