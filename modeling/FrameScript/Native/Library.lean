import FrameScript.Native.Core
import FrameScript.Native.Suspend

/-!
# The standard library

The natives that every host has, and how natives are bound to globals. Plugins
register after the library and may replace its natives.
-/

namespace FrameScript
namespace Natives

/-- Core functions and the members of `Math`. -/
def standard : Natives := Table.ofList
  [("print", Native.print), ("type", Native.typeOf), ("str", Native.str),
    ("len", Native.len), ("push", Native.push), ("keys", Native.keys),
    ("clock", Native.clock),
    ("Math.floor", Native.numeric "Math.floor" Number.floor),
    ("Math.ceil", Native.numeric "Math.ceil" Number.ceil),
    ("Math.abs", Native.numeric "Math.abs" Number.abs),
    ("Math.round", Native.numeric "Math.round" Number.roundHalfUp),
    ("Math.min", Native.combining "Math.min" Number.min),
    ("Math.max", Native.combining "Math.max" Number.max),
    ("Math.sqrt", Native.numeric "Math.sqrt" Number.sqrt)]

/-- The name under which a script suspends itself. -/
def suspendName : String := "suspend"

/-- The standard library with `suspend`. -/
def withSuspend : Natives := standard.insert suspendName Native.suspend

/-- The part before the first point of a name and the part after it. -/
def splitName? (name : String) : Option (String × String) :=
  let cs := name.toList
  match cs.dropWhile (· ≠ '.') with
  | _ :: member => some (String.ofList (cs.takeWhile (· ≠ '.')), String.ofList member)
  | [] => none

/-- Globals and heap while natives are bound. -/
structure Bindings where
  heap : Heap
  globals : Table Value

/-- Bind one native: a plain name becomes a global, and the member of a table is put into
the global object of that name, which is made where there is none. -/
def bindOne (b : Bindings) (name : String) : Bindings :=
  match splitName? name with
  | none => { b with globals := b.globals.insert name (.native name) }
  | some (table, member) =>
    match b.globals.get? table with
    | some (.object r) => { b with heap := b.heap.setField r member (.native name) }
    | _ =>
      let (heap, v) := b.heap.newObject (Table.empty.insert member (.native name))
      ⟨heap, b.globals.insert table v⟩

def bind (natives : Natives) (b : Bindings) : Bindings := natives.keys.foldl bindOne b

end Natives
end FrameScript
