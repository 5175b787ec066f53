import FrameScript.Script.Ast
import FrameScript.Value.Basic

/-!
# Bytecode

A chunk is the code of one function: a flat list of instructions and the source
line of each. Locals live on the operand stack from the frame's base on.
-/

namespace FrameScript

inductive Instr where
  | push (value : Value)
  | pop
  | popN (count : Nat)
  | getLocal (slot : Nat)
  | setLocal (slot : Nat)
  | getGlobal (name : String)
  | setGlobal (name : String)
  | makeList (count : Nat)
  | makeObject (keys : List String)
  | getMember (name : String)
  | setMember (name : String)
  | getIndex
  | setIndex
  | unary (op : UnaryOp)
  | binary (op : BinaryOp)
  | jump (target : Nat)
  /-- Drops the condition and jumps if it is falsy. -/
  | jumpIfFalse (target : Nat)
  /-- Keeps a falsy operand and jumps, else drops it. -/
  | jumpIfFalseKeep (target : Nat)
  /-- Keeps a truthy operand and jumps, else drops it. -/
  | jumpIfTrueKeep (target : Nat)
  | call (argc : Nat)
  | ret
  /-- One round of an iteration: pushes the next item, or jumps to the exit. -/
  | iterNext (list : Nat) (index : Nat) (exit : Nat)
  | pushHandler (target : Nat)
  | popHandler
  | throw
  deriving DecidableEq, Inhabited

namespace Instr

/-- The instruction with its jump target replaced; without one it stays. -/
def withTarget (target : Nat) : Instr → Instr
  | jump _ => jump target
  | jumpIfFalse _ => jumpIfFalse target
  | jumpIfFalseKeep _ => jumpIfFalseKeep target
  | jumpIfTrueKeep _ => jumpIfTrueKeep target
  | pushHandler _ => pushHandler target
  | iterNext list index _ => iterNext list index target
  | i => i

/-- Where an instruction can continue other than at the next one. -/
def target? : Instr → Option Nat
  | jump t | jumpIfFalse t | jumpIfFalseKeep t | jumpIfTrueKeep t | pushHandler t
  | iterNext _ _ t => some t
  | _ => none

end Instr

structure Chunk where
  name : String
  /-- The script that the function comes from. -/
  source : String
  arity : Nat
  code : Array Instr
  lines : Array Nat
  deriving DecidableEq, Inhabited

/-- The line of an instruction; an unknown line is `0`. -/
def Chunk.lineAt (c : Chunk) (pc : Nat) : Nat := c.lines[pc]?.getD 0

/-- The name of a file's top-level code. -/
def mainChunkName : String := "<main>"

end FrameScript
