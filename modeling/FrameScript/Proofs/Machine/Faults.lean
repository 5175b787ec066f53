import FrameScript.Proofs.Machine.Calls
import FrameScript.Proofs.Native.Library

/-!
# What a fault leaves on the stack

Some instructions take their operands off the stack before they can tell that they cannot go on,
and a native has taken its arguments before it raises an error. After a fault these values are
gone, and all that was below them is there. The stack is as it was before the step exactly if
the instruction had taken nothing.
-/

namespace FrameScript

/-- How many values an instruction takes off the stack before it can fault. -/
def Instr.operands : Instr → Nat
  | setLocal _ | setGlobal _ | getMember _ | unary _ | jumpIfFalse _ | ret | throw => 1
  | setMember _ | getIndex | binary _ => 2
  | setIndex => 3
  | _ => 0

/-- Should the step have faulted, this is the stack that it left. -/
def Stepped.FaultLeaves (stack : Array Value) (s : Stepped) : Prop :=
  ∀ f, s.verdict = .fault f → s.machine.stack = stack

namespace Machine

open Stepped (FaultLeaves)

def instr? (m : Machine) : Option Instr :=
  match m.frames with
  | [] => none
  | frame :: _ => frame.chunk.code[frame.pc]?

/-- The native that a call with so many arguments reaches. -/
def calledNative? (m : Machine) (env : Env) (argc : Nat) : Option Native :=
  if m.stack.size < argc + 1 then none
  else
    match m.stack[m.stack.size - (argc + 1)]? with
    | some (.native name) => env.natives.get? name
    | _ => none

/-- How many values are gone after a fault of an instruction. -/
def taken (m : Machine) (env : Env) : Instr → Nat
  | .call argc => if (m.calledNative? env argc).isSome then argc + 1 else 0
  | i => i.operands

def takenNext (m : Machine) (env : Env) : Nat :=
  match m.instr? with
  | some i => m.taken env i
  | none => 0

def stackWithout (m : Machine) (count : Nat) : Array Value := m.stack.take (m.stack.size - count)

variable {m : Machine} {env : Env}

@[simp] theorem stackWithout_zero : m.stackWithout 0 = m.stack := by simp [stackWithout]

theorem stackWithout_eq_stack_iff {count : Nat} :
    m.stackWithout count = m.stack ↔ m.stack = #[] ∨ count = 0 := by
  constructor
  · intro same
    by_cases empty : m.stack = #[]
    · exact .inl empty
    · have filled : 0 < m.stack.size := Array.size_pos_iff.mpr empty
      have size := congrArg Array.size same
      simp [stackWithout] at size
      omega
  · rintro (empty | rfl)
    · simp [stackWithout, empty]
    · exact stackWithout_zero

theorem stackWithout_succ (count : Nat) :
    m.stackWithout (count + 1) = m.dropTop.stackWithout count := by
  apply Array.toList_inj.mp
  simp [stackWithout, dropTop, List.dropLast_eq_take, List.take_take]
  omega

theorem leaves_of_ne {s : Stepped} {stack : Array Value} (goes : ∀ f, s.verdict ≠ .fault f) :
    s.FaultLeaves stack := fun f faults => absurd faults (goes f)

theorem continues_leaves {stack : Array Value} :
    Stepped.FaultLeaves stack ⟨m, env, .continue⟩ := leaves_of_ne (by simp)

theorem throwValue_leaves (v : Value) : (m.throwValue env v).FaultLeaves m.stack := by
  unfold throwValue
  split
  · dsimp only
    split
    · exact fun _ _ => rfl
    · exact leaves_of_ne (by simp)
  · exact leaves_of_ne (by simp)

theorem pushResult_leaves (v : Value) (stack : Array Value) :
    (m.pushResult env v).FaultLeaves stack := by
  apply leaves_of_ne
  intro f
  unfold pushResult
  dsimp only
  split <;> nofun

theorem pushOrThrow_leaves (result : Except ErrorInfo Value) :
    (m.pushOrThrow env result).FaultLeaves m.stack := by
  cases result with
  | ok v => exact continues_leaves
  | error e => exact throwValue_leaves _

theorem heapOrThrow_leaves (result : Except ErrorInfo Heap) :
    (m.heapOrThrow env result).FaultLeaves m.stack := by
  cases result with
  | ok h => exact continues_leaves
  | error e => exact throwValue_leaves _

theorem leave_leaves (base : Nat) (underflow : Fault) (v : Value) :
    (m.leave env base underflow v).FaultLeaves m.stack := by
  unfold leave
  dsimp only
  split
  · exact fun _ _ => rfl
  · exact pushResult_leaves _ _

theorem iterate_leaves (base list index exit : Nat) (badLocal : Nat → Fault) :
    (m.iterate env base list index exit badLocal).FaultLeaves m.stack := by
  unfold iterate
  dsimp only
  split
  · exact fun _ _ => rfl
  · exact fun _ _ => rfl
  · split <;> exact leaves_of_ne (by simp)
  · exact throwValue_leaves _
  · exact fun _ _ => rfl

theorem enter_leaves (slot : Nat) (chunk : Chunk) :
    (m.enter env slot chunk).FaultLeaves m.stack := by
  unfold enter
  split
  · exact throwValue_leaves _
  · split <;> exact leaves_of_ne (by simp)

theorem answer_leaves (reply : NativeReply) : (m.answer env reply).FaultLeaves m.stack := by
  unfold answer
  split
  · exact pushResult_leaves _ _
  · exact throwValue_leaves _
  · split
    · exact leaves_of_ne (by simp)
    · exact throwValue_leaves _
  · exact leaves_of_ne (by simp)

/-- Only a native has taken its arguments when it raises an error. -/
theorem callValue_leaves (argc : Nat) :
    (m.callValue env argc).FaultLeaves (m.stackWithout (m.taken env (.call argc))) := by
  rw [callValue]
  dsimp only
  split
  · rename_i few
    simp only [taken, calledNative?, if_pos few]
    exact fun _ _ => by simp
  · rename_i enough
    split
    · exact leaves_of_ne (by simp)
    · rename_i r found
      simp only [taken, calledNative?, if_neg enough, found]
      simpa using enter_leaves _ _
    · rename_i name found
      simp only [taken, calledNative?, if_neg enough, found]
      cases native : env.natives.get? name with
      | none =>
        rw [callNative, native, Option.isSome_none, if_neg Bool.false_ne_true, stackWithout_zero]
        exact throwValue_leaves _
      | some native' =>
        rw [callNative_some native]
        exact answer_leaves _
    · rename_i v function native found
      have none_called : m.calledNative? env argc = none := by
        rw [calledNative?, if_neg enough, found]
        cases v with
        | native name => exact absurd rfl (native name)
        | _ => rfl
      rw [taken, none_called, Option.isSome_none, if_neg Bool.false_ne_true, stackWithout_zero]
      exact throwValue_leaves _

theorem leaves_zero {s : Stepped} (leaves : s.FaultLeaves m.stack) :
    s.FaultLeaves (m.stackWithout 0) := stackWithout_zero ▸ leaves

theorem operand_leaves {count : Nat} {underflow : Fault} {next : Value → Stepped}
    (goes : ∀ v, (next v).FaultLeaves (m.dropTop.stackWithout count)) :
    Stepped.FaultLeaves (m.stackWithout (count + 1))
      (match m.stack.back? with
      | none => ⟨m, env, .fault underflow⟩
      | some v => next v) := by
  split
  · rename_i empty
    have none_left : m.stack = #[] := by simpa using empty
    exact fun _ _ => (stackWithout_eq_stack_iff.mpr (.inl none_left)).symm
  · rw [stackWithout_succ]
    exact goes _

theorem execute_leaves (function : String) (pc base : Nat) (i : Instr) :
    (m.execute env function pc base i).FaultLeaves (m.stackWithout (m.taken env i)) := by
  cases i with
  | call argc => exact callValue_leaves argc
  | push v | jump target | pushHandler target | popHandler => exact continues_leaves
  | iterNext list index exit => exact leaves_zero (iterate_leaves _ _ _ _ _)
  | pop | popN n | makeList n | makeObject keys =>
    apply leaves_zero
    unfold execute
    dsimp only
    split
    · exact fun _ _ => rfl
    · exact leaves_of_ne (by simp)
  | jumpIfFalseKeep target | jumpIfTrueKeep target =>
    apply leaves_zero
    unfold execute
    dsimp only
    split
    · exact fun _ _ => rfl
    · exact leaves_of_ne (by simp)
  | getLocal slot =>
    apply leaves_zero
    unfold execute
    dsimp only
    split
    · exact leaves_of_ne (by simp)
    · exact fun _ _ => rfl
  | getGlobal name =>
    apply leaves_zero
    unfold execute
    dsimp only
    split
    · exact leaves_of_ne (by simp)
    · exact throwValue_leaves _
  | setLocal slot =>
    refine operand_leaves fun v => leaves_zero ?_
    dsimp only
    split
    · exact leaves_of_ne (by simp)
    · exact fun _ _ => rfl
  | setGlobal name | jumpIfFalse target =>
    exact operand_leaves fun v => leaves_of_ne (by simp)
  | getMember name | unary op =>
    exact operand_leaves fun v => leaves_zero (pushOrThrow_leaves _)
  | ret => exact operand_leaves fun v => leaves_zero (leave_leaves _ _ _)
  | throw => exact operand_leaves fun v => leaves_zero (throwValue_leaves _)
  | setMember name =>
    exact operand_leaves fun value => operand_leaves fun v => leaves_zero (heapOrThrow_leaves _)
  | getIndex =>
    exact operand_leaves fun index => operand_leaves fun v => leaves_zero (pushOrThrow_leaves _)
  | setIndex =>
    exact operand_leaves fun value => operand_leaves fun index => operand_leaves fun v =>
      leaves_zero (heapOrThrow_leaves _)
  | binary op =>
    refine operand_leaves fun right => operand_leaves fun left => leaves_zero ?_
    split
    · exact pushOrThrow_leaves _
    · exact leaves_of_ne (by simp)

theorem step_leaves (m : Machine) (env : Env) :
    (m.step env).FaultLeaves (m.stackWithout (m.takenNext env)) := by
  rw [step]
  split
  · exact leaves_of_ne (by simp)
  · split
    · rename_i frames
      have next : m.instr? = none := by rw [instr?, frames]
      rw [takenNext, next]
      exact leaves_zero fun _ _ => rfl
    · rename_i frame callers frames
      have next : m.instr? = frame.chunk.code[frame.pc]? := by rw [instr?, frames]
      split
      · rename_i fetch
        rw [takenNext, next, fetch]
        exact leaves_zero fun _ _ => rfl
      · rename_i i fetch
        rw [takenNext, next, fetch]
        exact execute_leaves _ _ _ i

/-- A fault leaves the stack without the values that its instruction has taken. So the stack is
as it was before the step exactly if there were none. -/
theorem stack_after_fault {f : Fault} (faults : (m.step env).verdict = .fault f) :
    (m.step env).machine.stack = m.stackWithout (m.takenNext env) ∧
      ((m.step env).machine.stack = m.stack ↔ m.stack = #[] ∨ m.takenNext env = 0) := by
  have left := step_leaves m env f faults
  exact ⟨left, by rw [left, stackWithout_eq_stack_iff]⟩

/-- A function that assigns a value to a local that it does not have. -/
def strayChunk : Chunk := ⟨"stray", "raw", 0, #[.push (.bool true), .setLocal 5], #[1, 1]⟩

def strayEnv : Env := .ofFunctions [strayChunk]

def strayCall : Machine :=
  (((new defaultMaxCallDepth).startCall strayEnv (.function ⟨0⟩) []).machine.step strayEnv).machine

/-- The assignment takes the value before it looks for the local. -/
theorem stack_after_fault_stray :
    (strayCall.step strayEnv).verdict = .fault (.badLocal "stray" 5) ∧
      strayCall.stack = #[.function ⟨0⟩, .bool true] ∧
      (strayCall.step strayEnv).machine.stack = strayCall.stackWithout 1 := by
  have faults : (strayCall.step strayEnv).verdict = .fault (.badLocal "stray" 5) := by
    decide +kernel
  have taken : strayCall.takenNext strayEnv = 1 := by decide +kernel
  refine ⟨faults, by decide +kernel, ?_⟩
  rw [← taken]
  exact (stack_after_fault faults).1

/-- So a fault does not always leave the stack as it was. -/
theorem fault_loses_operand : ¬ ∀ (m : Machine) (env : Env) (f : Fault),
    (m.step env).verdict = .fault f → (m.step env).machine.stack = m.stack := by
  intro kept
  have same := kept strayCall strayEnv (.badLocal "stray" 5) (by decide +kernel)
  revert same
  decide +kernel

end Machine
end FrameScript
