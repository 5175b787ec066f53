import FrameScript.Code.Instr
import FrameScript.Table

/-!
# The heap

Lists, objects and functions live in the heap. It only grows; a reference
stands for the same list, object or function for good. A function that is bound
twice is two functions.
-/

namespace FrameScript

structure Heap where
  lists : Array (Array Value)
  objects : Array (Table Value)
  chunks : Array Chunk

namespace Heap

def empty : Heap := ⟨#[], #[], #[]⟩

instance : Inhabited Heap := ⟨empty⟩

def list (h : Heap) (r : ListRef) : Array Value := h.lists[r.slot]?.getD #[]

def object (h : Heap) (r : ObjectRef) : Table Value := h.objects[r.slot]?.getD .empty

def chunk (h : Heap) (r : FunctionRef) : Chunk := h.chunks[r.slot]?.getD default

def newList (h : Heap) (items : Array Value) : Heap × Value :=
  ({ h with lists := h.lists.push items }, .list ⟨h.lists.size⟩)

def newObject (h : Heap) (fields : Table Value) : Heap × Value :=
  ({ h with objects := h.objects.push fields }, .object ⟨h.objects.size⟩)

def newFunction (h : Heap) (chunk : Chunk) : Heap × Value :=
  ({ h with chunks := h.chunks.push chunk }, .function ⟨h.chunks.size⟩)

def updateList (h : Heap) (r : ListRef) (f : Array Value → Array Value) : Heap :=
  { h with lists := h.lists.modify r.slot f }

def setField (h : Heap) (r : ObjectRef) (key : String) (value : Value) : Heap :=
  { h with objects := h.objects.modify r.slot fun fields => fields.insert key value }

/-- No acyclic value is nested deeper than this. -/
def depthBound (h : Heap) : Nat := h.lists.size + h.objects.size + 1

end Heap
end FrameScript
