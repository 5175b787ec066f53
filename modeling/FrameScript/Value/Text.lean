import FrameScript.Value.Heap

/-!
# Values as text and as JSON

A list or object that holds itself has no finite text; writing it out does not
end, and the answer is `none`. Every other value is nested less deep than the
heap is large.
-/

namespace FrameScript
namespace Value

/-- The parts of a list of texts, if every one has an end. -/
def joined (opening closing : String) (parts : Option (List String)) : Option String :=
  parts.map fun texts => opening ++ ", ".intercalate texts ++ closing

/-- The text of a value that is nested less deep than `depth`. -/
def textWithin (h : Heap) : (depth : Nat) → Value → Option String
  | _, null => some "null"
  | _, bool b => some (if b then "true" else "false")
  | _, num x => some x.display
  | _, str s => some s
  | _, function r => some ("<function " ++ (h.chunk r).name ++ ">")
  | _, native name => some ("<native " ++ name ++ ">")
  | _, error info => some info.text
  | 0, list _ => none
  | 0, object _ => none
  | depth + 1, list r =>
    joined "[" "]" ((h.list r).toList.mapM fun v => textWithin h depth v)
  | depth + 1, object r =>
    joined "\x7b" "\x7d" ((h.object r).entries.mapM fun e =>
      (textWithin h depth e.2).map fun t => e.1 ++ ": " ++ t)

/-- The text of a value as scripts see it, if it has an end. -/
def text? (h : Heap) (v : Value) : Option String := textWithin h h.depthBound v

/-- The JSON of a value that is nested less deep than `depth`. -/
def toJsonWithin (h : Heap) : (depth : Nat) → Value → Option Json
  | _, null => some .null
  | _, bool b => some (.bool b)
  | _, num x => some (if x.isFinite then .float x else .null)
  | _, str s => some (.string s)
  | _, function r => some (.string ("<function " ++ (h.chunk r).name ++ ">"))
  | _, native name => some (.string ("<native " ++ name ++ ">"))
  | _, error info =>
    some (.object [("code", .string info.code), ("message", .string info.message)])
  | 0, list _ => none
  | 0, object _ => none
  | depth + 1, list r =>
    ((h.list r).toList.mapM fun v => toJsonWithin h depth v).map .array
  | depth + 1, object r =>
    ((h.object r).entries.mapM fun e =>
      (toJsonWithin h depth e.2).map fun j => (e.1, j)).map .object

/-- The JSON of a value, if it has an end. Functions become their text, and numbers
without a JSON form become null. -/
def toJson? (h : Heap) (v : Value) : Option Json := toJsonWithin h h.depthBound v

mutual

/-- The value of a JSON text, in fresh lists and objects. -/
def ofJson (h : Heap) : Json → Heap × Value
  | .null => (h, null)
  | .bool b => (h, bool b)
  | .integer n => (h, num (Number.ofInt n))
  | .float x => (h, num x)
  | .string s => (h, str s)
  | .array items =>
    let (h, values) := ofJsonItems h items
    h.newList values.toArray
  | .object fields =>
    let (h, entries) := ofJsonFields h fields
    h.newObject (Table.ofList entries)

def ofJsonItems (h : Heap) : List Json → Heap × List Value
  | [] => (h, [])
  | item :: rest =>
    let (h, v) := ofJson h item
    let (h, values) := ofJsonItems h rest
    (h, v :: values)

def ofJsonFields (h : Heap) : List (String × Json) → Heap × List (String × Value)
  | [] => (h, [])
  | (key, item) :: rest =>
    let (h, v) := ofJson h item
    let (h, entries) := ofJsonFields h rest
    (h, (key, v) :: entries)

end

/-- The error that a thrown value stands for. -/
def thrownInfo? (h : Heap) : Value → Option ErrorInfo
  | error info => some info
  | v => (text? h v).map fun message => ⟨ErrorCode.userError, message⟩

end Value
end FrameScript
