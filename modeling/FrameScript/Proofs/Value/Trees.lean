import FrameScript.Proofs.Value.Storage
import Mathlib.Data.List.Forall2

/-!
# Trees of values

Going through a value, part by part, one meets the lists and objects that it leads to. A value is
a tree if none of them is met twice. Values in two heaps have the same contents if they are the
same scalar, or lists or objects whose parts have the same contents; references are not compared.
-/

namespace FrameScript

namespace Value

/-- The value is no list and no object. -/
def IsScalar : Value → Prop
  | list _ | object _ => False
  | _ => True

theorem IsScalar.not_stored {h : Heap} {v : Value} (scalar : v.IsScalar) : ¬ v.Stored h := by
  cases v with
  | list r | object r => cases scalar
  | _ => exact id

/-- Going through the values meets these lists and objects, each as often as there is a way to
it. -/
inductive Meets (h : Heap) : List Value → List Value → Prop
  | nil : Meets h [] []
  | scalar {v : Value} {vs cells : List Value} (scalar : v.IsScalar) (rest : Meets h vs cells) :
      Meets h (v :: vs) cells
  | container {v : Value} {vs inner cells : List Value} (stored : v.Stored h)
      (parts : Meets h (v.parts h) inner) (rest : Meets h vs cells) :
      Meets h (v :: vs) (v :: (inner ++ cells))

variable {h next : Heap} {vs ws cells others : List Value} {v w : Value}

namespace Meets

theorem stored (meets : Meets h vs cells) : ∀ c ∈ cells, c.Stored h := by
  induction meets with
  | nil => simp
  | scalar _ _ ih => exact ih
  | container stored _ _ ih_parts ih_rest =>
    intro c mem
    rcases List.mem_cons.mp mem with rfl | mem
    · exact stored
    · exact (List.mem_append.mp mem).elim (ih_parts c) (ih_rest c)

theorem mono (meets : Meets h vs cells) (grown : h.Extends next) : Meets next vs cells := by
  induction meets with
  | nil => exact .nil
  | scalar scalar _ ih => exact .scalar scalar ih
  | container stored _ _ ih_parts ih_rest =>
    rw [← grown.parts stored] at ih_parts
    exact .container (grown.stored stored) ih_parts ih_rest

theorem append (meets : Meets h vs cells) (more : Meets h ws others) :
    Meets h (vs ++ ws) (cells ++ others) := by
  induction meets with
  | nil => exact more
  | scalar scalar _ ih => exact .scalar scalar ih
  | container stored parts _ _ ih =>
    rw [List.cons_append, List.cons_append, List.append_assoc]
    exact .container stored parts ih

end Meets

/-- In the greater heap the values are trees, apart from each other, of lists and objects that
the heap before did not have. -/
def FreshTrees (h next : Heap) (vs : List Value) : Prop :=
  ∃ cells, Meets next vs cells ∧ cells.Nodup ∧ ∀ c ∈ cells, ¬ c.Stored h

namespace FreshTrees

variable {middle : Heap}

theorem nil (h : Heap) : FreshTrees h h [] := ⟨[], .nil, .nil, by simp⟩

theorem scalar (scalar : v.IsScalar) : FreshTrees h h [v] :=
  ⟨[], .scalar scalar .nil, .nil, by simp⟩

/-- What is built later is apart from what is there. -/
theorem append (first : FreshTrees h middle vs) (grown : h.Extends middle)
    (second : FreshTrees middle next ws) (grown' : middle.Extends next) :
    FreshTrees h next (vs ++ ws) := by
  obtain ⟨cells, meets, nodup, fresh⟩ := first
  obtain ⟨others, meets', nodup', fresh'⟩ := second
  refine ⟨cells ++ others, (meets.mono grown').append meets', ?_, ?_⟩
  · refine List.nodup_append'.mpr ⟨nodup, nodup', fun c mem mem' => ?_⟩
    exact fresh' c mem' (meets.stored c mem)
  · intro c mem
    rcases List.mem_append.mp mem with mem | mem
    · exact fresh c mem
    · exact fun stored => fresh' c mem (grown.stored stored)

theorem container (inner : FreshTrees h middle vs) (grown : h.Extends middle)
    (grown' : middle.Extends next) (stored : v.Stored next) (new : ¬ v.Stored middle)
    (parts : v.parts next = vs) : FreshTrees h next [v] := by
  obtain ⟨cells, meets, nodup, fresh⟩ := inner
  refine ⟨v :: (cells ++ []), .container stored (parts ▸ meets.mono grown') .nil, ?_, ?_⟩
  · rw [List.append_nil]
    exact List.nodup_cons.mpr ⟨fun mem => new (meets.stored v mem), nodup⟩
  · intro c mem
    rw [List.append_nil] at mem
    rcases List.mem_cons.mp mem with rfl | mem
    · exact fun stored => new (grown.stored stored)
    · exact fresh c mem

end FreshTrees

/-- Values with the same contents, the first in one heap and the second in another one. -/
inductive Same (h k : Heap) : Value → Value → Prop
  | scalar {v : Value} (scalar : v.IsScalar) : Same h k v v
  | list {r s : ListRef} (size : (h.list r).size = (k.list s).size)
      (items : ∀ (i : Nat) (v w : Value), (h.list r)[i]? = some v → (k.list s)[i]? = some w →
        Same h k v w) : Same h k (.list r) (.list s)
  | object {r s : ObjectRef} (keys : (h.object r).keys = (k.object s).keys)
      (fields : ∀ key v w, (h.object r).get? key = some v → (k.object s).get? key = some w →
        Same h k v w) : Same h k (.object r) (.object s)

variable {k : Heap}

theorem Same.of_lists {r s : ListRef}
    (items : List.Forall₂ (Same h k) ((Value.list r).parts h) ((Value.list s).parts k)) :
    Same h k (.list r) (.list s) := by
  refine .list (by simpa [parts] using items.length_eq) fun i v w found found' => ?_
  obtain ⟨_, each⟩ := List.forall₂_iff_get.mp items
  obtain ⟨inside, rfl⟩ := Array.getElem?_eq_some_iff.mp found
  obtain ⟨inside', rfl⟩ := Array.getElem?_eq_some_iff.mp found'
  simpa [parts] using each i (by simpa [parts] using inside) (by simpa [parts] using inside')

theorem Same.of_objects {r s : ObjectRef} (keys : (h.object r).keys = (k.object s).keys)
    (fields : List.Forall₂ (Same h k) ((Value.object r).parts h) ((Value.object s).parts k)) :
    Same h k (.object r) (.object s) := by
  have each {l l' : List (String × Value)} (keys : l.map (·.1) = l'.map (·.1))
      (fields : List.Forall₂ (Same h k) (l.map (·.2)) (l'.map (·.2))) (key : String) (v w : Value)
      (found : Table.lookup key l = some v) (found' : Table.lookup key l' = some w) :
      Same h k v w := by
    induction l generalizing l' with
    | nil => cases found
    | cons e rest ih =>
      cases l' with
      | nil => cases found'
      | cons e' rest' =>
        simp only [List.map_cons, List.cons.injEq, List.forall₂_cons] at keys fields
        rw [Table.lookup] at found found'
        rw [← keys.1] at found'
        split at found
        · rename_i here
          rw [if_pos here] at found'
          cases found
          cases found'
          exact fields.1
        · rename_i elsewhere
          rw [if_neg elsewhere] at found'
          exact ih keys.2 fields.2 found found'
  exact .object keys (each keys fields)

end Value
end FrameScript
