import FrameScript.Proofs.Machine.Growth
import FrameScript.Proofs.Value.Nesting

/-!
# Reading after writing

What is read from a heap after a write is what was written, and what was there before in every
other list and object. A heap that is only added to keeps what it has.
-/

namespace FrameScript
namespace Heap

section

variable {h : Heap} {r other : ListRef} {f : Array Value → Array Value}

theorem list_updateList (stored : r.slot < h.lists.size) :
    (h.updateList r f).list r = f (h.list r) := by
  simp [list, updateList, stored, Array.getElem_modify]

theorem list_updateList_ne (apart : other ≠ r) : (h.updateList r f).list other = h.list other := by
  have slots : r.slot ≠ other.slot := fun same => apart (by cases r; cases other; simp_all)
  simp [list, updateList, Array.getElem?_modify, slots]

end

section

variable {h : Heap} {r other : ObjectRef}

theorem object_setField (stored : r.slot < h.objects.size) (key : String) (v : Value) :
    (h.setField r key v).object r = (h.object r).insert key v := by
  simp [object, setField, stored, Array.getElem_modify]

theorem object_setField_ne (apart : other ≠ r) (key : String) (v : Value) :
    (h.setField r key v).object other = h.object other := by
  have slots : r.slot ≠ other.slot := fun same => apart (by cases r; cases other; simp_all)
  simp [object, setField, Array.getElem?_modify, slots]

end

theorem list_newList (h : Heap) (items : Array Value) :
    (h.newList items).1.list ⟨h.lists.size⟩ = items := by
  simp [list, newList]

theorem object_newObject (h : Heap) (fields : Table Value) :
    (h.newObject fields).1.object ⟨h.objects.size⟩ = fields := by
  simp [object, newObject]

variable {h next : Heap} {v : Value}

theorem newList_extends (h : Heap) (items : Array Value) : h.Extends (h.newList items).1 :=
  (Changes.list items : h.Changes True _).extends trivial

theorem newObject_extends (h : Heap) (fields : Table Value) : h.Extends (h.newObject fields).1 :=
  (Changes.object fields : h.Changes True _).extends trivial

theorem Extends.stored (grown : h.Extends next) (stored : v.Stored h) : v.Stored next := by
  obtain ⟨⟨lists, more_lists⟩, ⟨objects, more_objects⟩, -⟩ := grown
  cases v with
  | list r =>
    have old : r.slot < h.lists.size := stored
    have size : next.lists.size = h.lists.size + lists.size := by simp [more_lists]
    exact (by omega : r.slot < next.lists.size)
  | object r =>
    have old : r.slot < h.objects.size := stored
    have size : next.objects.size = h.objects.size + objects.size := by simp [more_objects]
    exact (by omega : r.slot < next.objects.size)
  | _ => cases stored

theorem Extends.list (grown : h.Extends next) {r : ListRef} (stored : r.slot < h.lists.size) :
    next.list r = h.list r := by
  obtain ⟨lists, more⟩ := grown.lists
  rw [Heap.list, Heap.list, more, Array.getElem?_append_left stored]

theorem Extends.object (grown : h.Extends next) {r : ObjectRef}
    (stored : r.slot < h.objects.size) : next.object r = h.object r := by
  obtain ⟨objects, more⟩ := grown.objects
  rw [Heap.object, Heap.object, more, Array.getElem?_append_left stored]

theorem Extends.parts (grown : h.Extends next) (stored : v.Stored h) :
    v.parts next = v.parts h := by
  cases v with
  | list r => rw [Value.parts, Value.parts, grown.list stored]
  | object r => rw [Value.parts, Value.parts, grown.object stored]
  | _ => rfl

end Heap
end FrameScript
