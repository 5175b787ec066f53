import FrameScript.Machine.Run

/-!
# Operand stacks as lists

An operand stack is the array of its values, the latest last. Proofs look at it
as a list with the latest value first, in which a frame's values stand in front
of its callee and of all that is below.
-/

namespace FrameScript

/-- The operand stack of these values, the latest first. -/
def pile (vs : List Value) : Array Value := vs.reverse.toArray

theorem pile_toList (stack : Array Value) : pile stack.toList.reverse = stack := by simp [pile]

@[simp] theorem pile_nil : pile [] = #[] := rfl

@[simp] theorem pile_push (vs : List Value) (v : Value) : (pile vs).push v = pile (v :: vs) := by
  simp [pile]

@[simp] theorem pile_back? (vs : List Value) : (pile vs).back? = vs.head? := by
  simp [pile]

@[simp] theorem pile_pop (vs : List Value) : (pile vs).pop = pile vs.tail := by
  cases vs <;> simp [pile]

@[simp] theorem pile_size (vs : List Value) : (pile vs).size = vs.length := by simp [pile]

@[simp] theorem pile_isEmpty (vs : List Value) : (pile vs).isEmpty = vs.isEmpty := by
  cases vs <;> simp [pile]

theorem pile_take (vs : List Value) (n : Nat) :
    (pile vs).take n = pile (vs.drop (vs.length - n)) := by
  simp [pile, List.take_reverse]

theorem pile_take_below (upper below : List Value) :
    (pile (upper ++ below)).take below.length = pile below := by
  rw [pile_take, List.length_append, Nat.add_sub_cancel, List.drop_left]

theorem pile_getElem? (vs : List Value) (i : Nat) : (pile vs)[i]? = vs.reverse[i]? := by
  simp [pile]

theorem pile_local (vs below : List Value) (callee : Value) (slot : Nat) :
    (pile (vs ++ callee :: below))[below.length + 1 + slot]? = vs.reverse[slot]? := by
  rw [pile_getElem?, List.reverse_append, List.reverse_cons,
    List.getElem?_append_right (by simp)]
  simp

theorem pile_callee (vs below : List Value) (callee : Value) :
    (pile (vs ++ callee :: below))[below.length]? = some callee := by
  rw [pile_getElem?, List.reverse_append, List.reverse_cons]
  simp

theorem pile_setLocal (vs below : List Value) (callee : Value) (slot : Nat) (v : Value) :
    (pile (vs ++ callee :: below)).setIfInBounds (below.length + 1 + slot) v =
      pile ((vs.reverse.set slot v).reverse ++ callee :: below) := by
  have past : ¬ below.length + 1 + slot < below.length := by omega
  have shift : below.length + 1 + slot - below.length = slot + 1 := by omega
  simp [pile, List.set_append, past, shift]

theorem takeTop_pile {m : Machine} {top rest : List Value} (stack : m.stack = pile (top ++ rest)) :
    m.takeTop top.length = (top.reverse.toArray, { m with stack := pile rest }) := by
  have start : m.stack.size - top.length = rest.length := by simp [stack]
  rw [Machine.takeTop, start, stack, pile_take_below]
  simp [pile, List.take_of_length_le]

/-- Missing arguments are null and further ones are dropped. -/
def fillArgs (args : List Value) (arity : Nat) : List Value :=
  (args ++ List.replicate arity Value.null).take arity

@[simp] theorem length_fillArgs (args : List Value) (arity : Nat) :
    (fillArgs args arity).length = arity := by
  simp [fillArgs]

/-- Entering a function leaves exactly its parameters above the callee. -/
theorem resize_pile (args below : List Value) (callee : Value) (arity : Nat) :
    Machine.resize (pile (args.reverse ++ callee :: below)) (below.length + 1 + arity) =
      pile ((fillArgs args arity).reverse ++ callee :: below) := by
  unfold Machine.resize fillArgs
  rw [pile_size]
  split
  · rename_i enough
    have fewer : arity ≤ args.length := by
      simp at enough
      omega
    have excess : (args.reverse ++ callee :: below).length - (below.length + 1 + arity) =
        args.length - arity := by
      simp
      omega
    have drops : args.length - arity ≤ args.reverse.length := by simp
    rw [pile_take, excess, List.drop_append_of_le_length drops, List.drop_reverse,
      List.take_append_of_le_length fewer, Nat.sub_sub_self fewer]
  · rename_i more
    have fewer : args.length < arity := by
      simp at more
      omega
    have missing : below.length + 1 + arity - (args.reverse ++ callee :: below).length =
        arity - args.length := by
      simp
      omega
    rw [missing, List.take_append, List.take_of_length_le (Nat.le_of_lt fewer),
      List.take_replicate, Nat.min_eq_left (Nat.sub_le _ _)]
    simp [pile]

end FrameScript
