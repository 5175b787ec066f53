import FrameScript.Proofs.Code.Flow
import FrameScript.Proofs.Semantics.Evaluate

/-!
# Locals and slots

A frame mirrors the locals of an evaluation: the slots of the scope hold their
values in the same order, with the hidden slots of for-of loops between them.
What such a slot holds does not change while the scope is there.
-/

namespace FrameScript

open Script (Unbracketed)

section

variable {α : Type} (a : α) (l : List α) {n k : Nat}

theorem rtake_of_length_le (all : l.length ≤ n) : l.rtake n = l := by
  rw [List.rtake, Nat.sub_eq_zero_of_le all, List.drop_zero]

theorem rtake_cons (rest : n ≤ l.length) : (a :: l).rtake n = l.rtake n := by
  rw [List.rtake, List.rtake, List.length_cons, Nat.succ_sub rest, List.drop_succ_cons]

theorem length_rtake : (l.rtake n).length = min n l.length := by
  rw [List.rtake, List.length_drop]
  omega

theorem rtake_rtake (fewer : n ≤ k) : (l.rtake k).rtake n = l.rtake n := by
  rw [List.rtake, length_rtake, List.rtake, List.rtake, List.drop_drop]
  congr 1
  omega

theorem rtake_suffix {l' : List α} (h : l' <:+ l) : l.rtake l'.length = l' := by
  obtain ⟨added, rfl⟩ := h
  simp [List.rtake]

end

/-- For each slot of a scope what it holds if it is hidden. -/
abbrev Marks := List (Option Value)

def Marks.shown (marks : Marks) : Nat := marks.countP Option.isNone

@[simp] theorem Marks.shown_none (marks : Marks) : Marks.shown (none :: marks) = marks.shown + 1 :=
  List.countP_cons_of_pos rfl

@[simp] theorem Marks.shown_some (v : Value) (marks : Marks) :
    Marks.shown (some v :: marks) = marks.shown :=
  List.countP_cons_of_neg nofun

theorem Marks.shown_rtake_le (marks : Marks) (n : Nat) :
    Marks.shown (marks.rtake n) ≤ marks.shown :=
  (List.drop_sublist _ marks).countP_le

/-- The slots of a scope hold these values: hidden ones what they are marked with, and the
others the locals. -/
inductive Mirrors : Marks → List Slot → Locals → List Value → Prop
  | nil : Mirrors [] [] [] []
  | shown {marks : Marks} {scope : List Slot} {locals : Locals} {vs : List Value}
    (name : String) (kind : SlotKind) (v : Value) (earlier : Mirrors marks scope locals vs) :
    Mirrors (none :: marks) (⟨name, kind⟩ :: scope) ((name, v) :: locals) (v :: vs)
  | hidden {marks : Marks} {scope : List Slot} {locals : Locals} {vs : List Value}
    {name : String} (bracketed : ¬ Unbracketed name) (kind : SlotKind) (v : Value)
    (earlier : Mirrors marks scope locals vs) :
    Mirrors (some v :: marks) (⟨name, kind⟩ :: scope) locals (v :: vs)

namespace Mirrors

variable {marks : Marks} {scope : List Slot} {locals : Locals} {vs : List Value}

theorem length_values (h : Mirrors marks scope locals vs) : vs.length = scope.length := by
  induction h with
  | nil => rfl
  | shown _ _ _ _ ih | hidden _ _ _ _ ih => simp [ih]

theorem length_marks (h : Mirrors marks scope locals vs) : marks.length = scope.length := by
  induction h with
  | nil => rfl
  | shown _ _ _ _ ih | hidden _ _ _ _ ih => simp [ih]

theorem rtake_marks (h : Mirrors marks scope locals vs) (added : Marks) :
    List.rtake (added ++ marks) scope.length = marks := by
  rw [← h.length_marks]
  exact rtake_suffix _ (List.suffix_append added marks)

theorem length_locals (h : Mirrors marks scope locals vs) : locals.length = marks.shown := by
  induction h with
  | nil => rfl
  | shown _ _ _ _ ih | hidden _ _ _ _ ih => simp [ih]

theorem get?_none (h : Mirrors marks scope locals vs) {name : String}
    (free : slotIn? name scope = none) : locals.get? name = none := by
  induction h with
  | nil => rfl
  | @shown marks scope locals vs other kind v earlier ih =>
    rw [slotIn?] at free
    split at free
    · cases free
    · rename_i differs
      rw [Locals.get?, Table.lookup, if_neg differs]
      exact ih free
  | hidden bracketed kind v earlier ih =>
    rw [slotIn?] at free
    split at free
    · cases free
    · exact ih free

theorem get?_some (h : Mirrors marks scope locals vs) {name : String} (word : Unbracketed name)
    {slot : Nat} (found : slotIn? name scope = some slot) :
    ∃ v, locals.get? name = some v ∧ vs.reverse[slot]? = some v := by
  induction h with
  | nil => cases found
  | @shown marks scope locals vs other kind v earlier ih =>
    rw [slotIn?] at found
    rw [List.reverse_cons]
    split at found
    · rename_i same
      cases found
      refine ⟨v, ?_, ?_⟩
      · rw [Locals.get?, Table.lookup, if_pos same]
      · simp [← earlier.length_values]
    · rename_i differs
      obtain ⟨w, latest, held⟩ := ih found
      refine ⟨w, ?_, ?_⟩
      · rw [Locals.get?, Table.lookup, if_neg differs]
        exact latest
      · rw [List.getElem?_append_left (by simpa using (List.getElem?_eq_some_iff.mp held).1)]
        exact held
  | @hidden marks scope locals vs other bracketed kind v earlier ih =>
    rw [slotIn?, if_neg fun same : other = name => bracketed (same ▸ word)] at found
    obtain ⟨w, latest, held⟩ := ih found
    refine ⟨w, latest, ?_⟩
    rw [List.reverse_cons,
      List.getElem?_append_left (by simpa using (List.getElem?_eq_some_iff.mp held).1)]
    exact held

/-- Writing the slot of a name is writing the latest local of that name. -/
theorem set (h : Mirrors marks scope locals vs) {name : String} (word : Unbracketed name)
    {slot : Nat} (found : slotIn? name scope = some slot) (w : Value) :
    Mirrors marks scope (locals.set name w) (vs.reverse.set slot w).reverse := by
  induction h with
  | nil => cases found
  | @shown marks scope locals vs other kind v earlier ih =>
    rw [slotIn?] at found
    rw [List.reverse_cons, Locals.set]
    split at found
    · rename_i same
      cases found
      rw [if_pos same, List.set_append_right _ _ (by simp [earlier.length_values])]
      simpa [earlier.length_values] using .shown other kind w earlier
    · rename_i differs
      have low : slot < vs.reverse.length := by
        simpa [earlier.length_values] using slotIn?_lt found
      rw [if_neg differs, List.set_append_left _ _ low]
      simpa using .shown other kind v (ih found)
  | @hidden marks scope locals vs other bracketed kind v earlier ih =>
    rw [slotIn?, if_neg fun same : other = name => bracketed (same ▸ word)] at found
    have low : slot < vs.reverse.length := by
      simpa [earlier.length_values] using slotIn?_lt found
    rw [List.reverse_cons, List.set_append_left _ _ low]
    simpa using .hidden bracketed kind v (ih found)

theorem outer (h : Mirrors marks scope locals vs) {n : Nat} (low : n ≤ scope.length) :
    Mirrors (marks.rtake n) (scope.rtake n) (locals.rtake (Marks.shown (marks.rtake n)))
      (vs.rtake n) := by
  induction h with
  | nil => simpa using .nil
  | @shown marks scope locals vs name kind v earlier ih =>
    have values := earlier.length_values
    have marked := earlier.length_marks
    by_cases rest : n ≤ scope.length
    · have fewer : Marks.shown (marks.rtake n) ≤ locals.length := by
        rw [earlier.length_locals]
        exact marks.shown_rtake_le n
      rw [rtake_cons _ _ (by omega), rtake_cons _ _ rest, rtake_cons _ _ fewer,
        rtake_cons _ _ (by omega)]
      exact ih rest
    · simp only [List.length_cons] at low
      have all := earlier.length_locals
      rw [rtake_of_length_le _ (by simp; omega), rtake_of_length_le _ (by simp; omega),
        rtake_of_length_le _ (by simp [all]), rtake_of_length_le _ (by simp; omega)]
      exact .shown name kind v earlier
  | @hidden marks scope locals vs name bracketed kind v earlier ih =>
    have values := earlier.length_values
    have marked := earlier.length_marks
    by_cases rest : n ≤ scope.length
    · rw [rtake_cons _ _ (by omega), rtake_cons _ _ rest, rtake_cons _ _ (by omega)]
      exact ih rest
    · simp only [List.length_cons] at low
      have all := earlier.length_locals
      rw [rtake_of_length_le _ (by simp; omega), rtake_of_length_le _ (by simp; omega),
        rtake_of_length_le _ (by simp [all]), rtake_of_length_le _ (by simp; omega)]
      exact .hidden bracketed kind v earlier

theorem itemsName_bracketed : ¬ Unbracketed Site.itemsName := by
  unfold Unbracketed
  decide

variable {c : Site} {items position : Value}

/-- The two slots of a for-of loop are hidden. -/
theorem inRounds (h : Mirrors marks c.scope locals vs) (items position : Value) :
    Mirrors (some position :: some items :: marks) c.inRounds.scope locals
      (position :: items :: vs) :=
  .hidden positionName_bracketed _ _ (.hidden itemsName_bracketed _ _ h)

theorem of_inRounds
    (h : Mirrors (some position :: some items :: marks) c.inRounds.scope locals vs) :
    ∃ rest, vs = position :: items :: rest ∧ Mirrors marks c.scope locals rest := by
  cases h with
  | hidden _ _ _ earlier =>
    cases earlier with
    | hidden _ _ _ earlier => exact ⟨_, rfl, earlier⟩

end Mirrors

/-- Of the locals, those that were there before mirror the slots of an outer scope. -/
def MirrorsOuter (marks : Marks) (scope : List Slot) (locals : Locals) (vs : List Value) : Prop :=
  Mirrors (marks.rtake scope.length) scope
    (locals.rtake (Marks.shown (marks.rtake scope.length))) vs

section

variable {marks marks' : Marks} {scope scope' : List Slot} {locals : Locals} {vs : List Value}

theorem Mirrors.toOuter (h : Mirrors marks scope' locals vs) (within : scope <:+ scope') :
    MirrorsOuter marks scope locals (vs.rtake scope.length) := by
  have kept := h.outer within.length_le
  rwa [rtake_suffix _ within] at kept

theorem MirrorsOuter.outer (h : MirrorsOuter marks scope' locals vs) (within : scope <:+ scope') :
    MirrorsOuter marks scope locals (vs.rtake scope.length) := by
  have kept := Mirrors.toOuter h within
  have fewer :
      Marks.shown (marks.rtake scope.length) ≤ Marks.shown (marks.rtake scope'.length) := by
    rw [← rtake_rtake marks within.length_le]
    exact Marks.shown_rtake_le _ _
  rwa [MirrorsOuter, rtake_rtake _ within.length_le, rtake_rtake _ fewer] at kept

theorem MirrorsOuter.remark (h : MirrorsOuter marks scope locals vs)
    (within : scope.length ≤ scope'.length) (same : marks.rtake scope'.length = marks') :
    MirrorsOuter marks' scope locals vs := by
  rwa [MirrorsOuter, ← same, rtake_rtake _ within]

theorem MirrorsOuter.truncate (h : MirrorsOuter marks scope locals vs) :
    MirrorsOuter marks scope (locals.rtake marks.shown) vs := by
  rwa [MirrorsOuter, rtake_rtake _ (marks.shown_rtake_le _)]

theorem MirrorsOuter.mirrors (h : MirrorsOuter marks scope locals vs)
    (all : marks.length = scope.length) :
    Mirrors marks scope (locals.rtake marks.shown) vs := by
  have marked : marks.rtake scope.length = marks := rtake_of_length_le marks (Nat.le_of_eq all)
  rwa [MirrorsOuter, marked] at h

end

end FrameScript
