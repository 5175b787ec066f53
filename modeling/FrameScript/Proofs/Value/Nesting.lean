import FrameScript.Value.Text
import Mathlib.Data.Fintype.Card

/-!
# Depth of texts

The bound on the nesting of a text is no restriction: a value that has a text within some depth
has it within the number of lists and objects of the heap. A value whose text needs a greater
depth than another one is nested around a value for every smaller depth, and these are all
different.
-/

namespace FrameScript
namespace Value

variable {h : Heap} {v w : Value} {depth : Nat}

theorem isSome_mapM {α β : Type} {f : α → Option β} {l : List α} :
    (l.mapM f).isSome ↔ ∀ x ∈ l, (f x).isSome := by
  induction l with
  | nil => simp
  | cons x rest ih =>
    rw [List.mapM_cons, List.forall_mem_cons, ← ih]
    cases f x with
    | none => simp
    | some y =>
      cases rest.mapM f with
      | none => simp
      | some ys => simp

theorem mapM_eq_some_mono {α β : Type} {f g : α → Option β} {l : List α}
    (more : ∀ x ∈ l, ∀ y, f x = some y → g x = some y) {ys : List β}
    (all : l.mapM f = some ys) : l.mapM g = some ys := by
  induction l generalizing ys with
  | nil => exact all
  | cons x rest ih =>
    obtain ⟨more_first, more_rest⟩ := List.forall_mem_cons.mp more
    simp only [List.mapM_cons, Option.bind_eq_bind, Option.bind_eq_some_iff] at all ⊢
    obtain ⟨y, first, zs, others, same⟩ := all
    exact ⟨y, more_first y first, zs, ih more_rest others, same⟩

def parts (h : Heap) : Value → List Value
  | list r => (h.list r).toList
  | object r => (h.object r).entries.map (·.2)
  | _ => []

theorem isSome_textWithin_succ :
    (textWithin h (depth + 1) v).isSome ↔ ∀ p ∈ v.parts h, (textWithin h depth p).isSome := by
  cases v with
  | list r =>
    rw [textWithin, joined, Option.isSome_map, isSome_mapM]
    rfl
  | object r =>
    rw [textWithin, joined, Option.isSome_map, isSome_mapM, parts, List.forall_mem_map]
    simp only [Option.isSome_map]
  | _ => simp [textWithin, parts]

theorem textWithin_succ {text : String} (eq : textWithin h depth v = some text) :
    textWithin h (depth + 1) v = some text := by
  induction depth generalizing v text with
  | zero =>
    cases v with
    | list r => cases eq
    | object r => cases eq
    | _ => exact eq
  | succ depth ih =>
    cases v with
    | list r =>
      rw [textWithin, joined, Option.map_eq_some_iff] at eq ⊢
      obtain ⟨texts, all, same⟩ := eq
      exact ⟨texts, mapM_eq_some_mono (fun v _ t found => ih found) all, same⟩
    | object r =>
      rw [textWithin, joined, Option.map_eq_some_iff] at eq ⊢
      obtain ⟨texts, all, same⟩ := eq
      refine ⟨texts, mapM_eq_some_mono (fun field _ t found => ?_) all, same⟩
      obtain ⟨inner, text, joins⟩ := Option.map_eq_some_iff.mp found
      exact Option.map_eq_some_iff.mpr ⟨inner, ih text, joins⟩
    | _ => exact eq

theorem textWithin_le {deeper : Nat} (more : depth ≤ deeper) {text : String}
    (eq : textWithin h depth v = some text) : textWithin h deeper v = some text := by
  induction more with
  | refl => exact eq
  | step _ ih => exact textWithin_succ ih

/-- The text needs just one more than this depth. -/
structure Ranked (h : Heap) (rank : Nat) (v : Value) : Prop where
  within : (textWithin h (rank + 1) v).isSome
  beyond : textWithin h rank v = none

theorem Ranked.unique {rank other : Nat} (r : v.Ranked h rank) (s : v.Ranked h other) :
    rank = other := by
  have le {a b : Nat} (r : v.Ranked h a) (s : v.Ranked h b) : a ≤ b := by
    refine Nat.le_of_not_lt fun less => ?_
    obtain ⟨text, eq⟩ := Option.isSome_iff_exists.mp s.within
    have deeper := textWithin_le (Nat.succ_le_of_lt less) eq
    rw [r.beyond] at deeper
    cases deeper
  exact Nat.le_antisymm (le r s) (le s r)

theorem exists_ranked {text : String} (eq : textWithin h depth v = some text) :
    (∃ rank < depth, v.Ranked h rank) ∨ textWithin h 0 v = some text := by
  induction depth with
  | zero => exact .inr eq
  | succ depth ih =>
    cases before : textWithin h depth v with
    | none => exact .inl ⟨depth, Nat.lt_succ_self _, by rw [eq]; rfl, before⟩
    | some other =>
      have same : other = text := by
        have deeper := textWithin_succ before
        rw [eq] at deeper
        exact (Option.some.inj deeper).symm
      subst same
      rcases ih before with ⟨rank, less, ranked⟩ | shallow
      · exact .inl ⟨rank, Nat.lt_succ_of_lt less, ranked⟩
      · exact .inr shallow

/-- A nested value has a part of the rank below. -/
theorem Ranked.part {rank : Nat} (r : v.Ranked h (rank + 1)) :
    ∃ p ∈ v.parts h, p.Ranked h rank := by
  have all := isSome_textWithin_succ.mp r.within
  have some_none : ¬ ∀ p ∈ v.parts h, (textWithin h rank p).isSome := by
    rw [← isSome_textWithin_succ, r.beyond]
    simp
  simp only [not_forall] at some_none
  obtain ⟨p, mem, gone⟩ := some_none
  exact ⟨p, mem, all p mem, by simpa using gone⟩

theorem Ranked.below {rank : Nat} (r : v.Ranked h rank) {lower : Nat} (le : lower ≤ rank) :
    ∃ w : Value, w.Ranked h lower := by
  induction rank generalizing v with
  | zero =>
    obtain rfl := Nat.le_zero.mp le
    exact ⟨v, r⟩
  | succ rank ih =>
    rcases Nat.lt_or_eq_of_le le with less | rfl
    · obtain ⟨p, -, ranked⟩ := r.part
      exact ih ranked (Nat.le_of_lt_succ less)
    · exact ⟨v, r⟩

/-- The place of a list or object among all those of the heap. -/
def place (h : Heap) : Value → Nat
  | list r => r.slot
  | object r => h.lists.size + r.slot
  | _ => 0

/-- The value is a list or an object of the heap. -/
def Stored (h : Heap) : Value → Prop
  | list r => r.slot < h.lists.size
  | object r => r.slot < h.objects.size
  | _ => False

theorem stored_of_part (mem : w ∈ v.parts h) : v.Stored h := by
  cases v with
  | list x =>
    by_contra outside
    have gone : h.lists.size ≤ x.slot := Nat.le_of_not_lt outside
    simp [parts, Heap.list, Array.getElem?_eq_none gone] at mem
  | object x =>
    by_contra outside
    have gone : h.objects.size ≤ x.slot := Nat.le_of_not_lt outside
    simp [parts, Heap.object, Array.getElem?_eq_none gone, Table.empty] at mem
  | _ => cases mem

theorem Stored.place_lt (stored : v.Stored h) : v.place h < h.lists.size + h.objects.size := by
  cases v with
  | list x => exact Nat.lt_add_right _ stored
  | object x => exact Nat.add_lt_add_left stored _
  | _ => cases stored

theorem Stored.eq_of_place (stored : v.Stored h) (other : w.Stored h)
    (same : v.place h = w.place h) : v = w := by
  cases v <;> cases w <;> simp only [Stored, place] at * <;> grind [cases ListRef, cases ObjectRef]

theorem Ranked.stored {rank : Nat} (r : v.Ranked h (rank + 1)) : v.Stored h := by
  obtain ⟨p, mem, -⟩ := r.part
  exact stored_of_part mem

/-- There are no more ranks than lists and objects, but for the least one. -/
theorem Ranked.le {rank : Nat} (r : v.Ranked h rank) : rank ≤ h.lists.size + h.objects.size := by
  have each (k : Fin rank) : ∃ w : Value, w.Ranked h (k + 1) := r.below k.isLt
  choose around ranked using each
  let position (k : Fin rank) : Fin (h.lists.size + h.objects.size) :=
    ⟨(around k).place h, (ranked k).stored.place_lt⟩
  have apart : Function.Injective position := by
    intro k l same
    have equal := (ranked k).stored.eq_of_place (ranked l).stored (Fin.mk.inj same)
    have ranks := (ranked k).unique (equal ▸ ranked l)
    exact Fin.ext (Nat.succ.inj ranks)
  simpa using Fintype.card_le_of_injective position apart

/-- A text that is there at all is found within the bound. -/
theorem text?_of_textWithin {text : String} (eq : textWithin h depth v = some text) :
    text? h v = some text := by
  rcases exists_ranked eq with ⟨rank, less, ranked⟩ | shallow
  · obtain ⟨other, eq'⟩ := Option.isSome_iff_exists.mp ranked.within
    have same : other = text := by
      have deeper := textWithin_le (Nat.succ_le_of_lt less) eq'
      rw [eq] at deeper
      exact (Option.some.inj deeper).symm
    subst same
    exact textWithin_le (Nat.succ_le_succ ranked.le) eq'
  · exact textWithin_le (Nat.zero_le _) shallow

end Value
end FrameScript
