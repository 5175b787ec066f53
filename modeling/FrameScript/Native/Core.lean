import FrameScript.Native.Basic

/-!
# Core natives

Printing, inspection and collections. Mathematical functions of one number use their first
argument and ignore others; least and greatest take one number or more.
-/

namespace FrameScript
namespace Native

/-- The error for a wrong number of arguments, if there is one. -/
def countError? (args : List Value) (count : Nat) (name : String) : Option NativeResult :=
  if args.length = count then none
  else some (fail ErrorCode.wrongArgumentCount
    ("'" ++ name ++ "' expects " ++ toString count ++ " argument(s), got " ++
      toString args.length))

/-- Log the arguments with blanks between them. -/
def print : Native := fun context world args =>
  match args.mapM (Value.text? world.heap) with
  | some texts =>
    ⟨.value .null, context, world.record .info LogTarget.script (" ".intercalate texts)⟩
  | none => ⟨.endless, context, world⟩

def typeOf : Native := pure fun _ args =>
  match countError? args 1 "type", args with
  | none, v :: _ => .value (.str v.typeName)
  | some e, _ => e
  | none, [] => .value .null

def str : Native := onHeap fun _ h args =>
  match countError? args 1 "str", args with
  | none, v :: _ =>
    match v.text? h with
    | some text => (h, .value (.str text))
    | none => (h, .endless)
  | some e, _ => (h, e)
  | none, [] => (h, .value .null)

def length (h : Heap) : Value → NativeResult
  | .list r => .value (.num (Number.ofNat (h.list r).size))
  | .object r => .value (.num (Number.ofNat (h.object r).size))
  | .str s => .value (.num (Number.ofNat s.length))
  | v => fail ErrorCode.wrongArgumentType
      ("'len' expects a list, object or string, got " ++ v.typeName)

def len : Native := onHeap fun _ h args =>
  match countError? args 1 "len", args with
  | none, v :: _ => (h, length h v)
  | some e, _ => (h, e)
  | none, [] => (h, .value .null)

/-- Append to a list in place; the answer is the new length. -/
def push : Native := onHeap fun _ h args =>
  match countError? args 2 "push", args with
  | none, .list r :: v :: _ =>
    let size := (h.list r).size
    (h.updateList r fun items => items.push v, .value (.num (Number.ofNat (size + 1))))
  | none, v :: _ =>
    (h, fail ErrorCode.wrongArgumentType ("'push' expects a list, got " ++ v.typeName))
  | some e, _ => (h, e)
  | none, [] => (h, .value .null)

def keys : Native := onHeap fun _ h args =>
  match countError? args 1 "keys", args with
  | none, .object r :: _ =>
    let (h, v) := h.newList ((h.object r).keys.map Value.str).toArray
    (h, .value v)
  | none, v :: _ =>
    (h, fail ErrorCode.wrongArgumentType ("'keys' expects an object, got " ++ v.typeName))
  | some e, _ => (h, e)
  | none, [] => (h, .value .null)

/-- The readings of the three clocks as an object. -/
def clock : Native := onHeap fun context h _ =>
  let r := context.readings
  let (h, v) := h.newObject <| Table.ofList
    [("frame", .num (Number.ofNat r.frame)), ("simulation", .num r.simulation),
      ("real", .num r.real)]
  (h, .value v)

/-- The native of a function of one number. -/
def numeric (name : String) (f : Number → Number) : Native := pure fun _ args =>
  match numberArg args 0 name with
  | .ok x => .value (.num (f x))
  | .error e => .throw e

/-- Combine the arguments from an index on with what the earlier ones gave. -/
def combineFrom (name : String) (f : Number → Number → Number) (args : List Value) :
    (index : Nat) → (left : Nat) → Number → NativeResult
  | _, 0, acc => .value (.num acc)
  | index, left + 1, acc =>
    match numberArg args index name with
    | .ok x => combineFrom name f args (index + 1) left (f acc x)
    | .error e => .throw e

/-- The native that combines all arguments from left to right. -/
def combining (name : String) (f : Number → Number → Number) : Native := pure fun _ args =>
  if args.isEmpty then
    fail ErrorCode.wrongArgumentCount ("'" ++ name ++ "' expects at least 1 argument")
  else match numberArg args 0 name with
    | .ok x => combineFrom name f args 1 (args.length - 1) x
    | .error e => .throw e

end Native
end FrameScript
