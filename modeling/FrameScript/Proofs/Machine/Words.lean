import FrameScript.Proofs.Machine.Faults
import Mathlib.Algebra.Group.Nat.Defs

/-!
# Operands of corrupt code

The machine adds words to find what an instruction names: a slot to the base of its frame, one to
a number of arguments, an arity to the place of a callee. A sum of `2 ^ 64` or more ends the
program. As long as no sum is that large, an operand that does not fit the machine is answered by
a fault, and only such operands are; no index is out of range.
-/

namespace FrameScript

/-- How many values an instruction finds on the stack, apart from those in slots. -/
def Instr.demand : Instr → Nat
  | .pop | .jumpIfFalseKeep _ | .jumpIfTrueKeep _ => 1
  | .popN n | .makeList n => n
  | .makeObject keys => keys.length
  | i => i.operands

/-- The step is answered by a fault that is none of handlers. -/
def Stepped.Refused (s : Stepped) : Prop := ∃ f, f ≠ .badHandler ∧ s.verdict = .fault f

/-- Whether operands fit and sums are words decides how the step is answered, but for what is
endless. -/
structure Stepped.Answers (fits words endless : Prop) (s : Stepped) : Prop where
  refused : s.Refused ↔ ¬ fits ∧ words
  lost : s.verdict = .lost ↔ ¬ words ∨ endless

/-- The step ends, and only a handler can be at fault. -/
structure Stepped.Sure (s : Stepped) : Prop where
  ends : s.verdict ≠ .lost
  fault : ∀ f, s.verdict = .fault f → f = .badHandler

theorem Stepped.Sure.answers {s : Stepped} (h : s.Sure) {fits words endless : Prop} (fit : fits)
    (small : words) (quiet : ¬ endless) : s.Answers fits words endless := by
  constructor
  · constructor
    · rintro ⟨f, other, faults⟩
      exact absurd (h.fault f faults) other
    · intro few
      exact absurd fit few.1
  · constructor
    · intro lost
      exact absurd lost h.ends
    · rintro (large | endless)
      · exact absurd small large
      · exact absurd endless quiet

theorem Stepped.Answers.congr {s : Stepped} {fits fits' words words' endless endless' : Prop}
    (h : s.Answers fits words endless) (same : fits' ↔ fits) (same' : words' ↔ words)
    (same'' : endless' ↔ endless) : s.Answers fits' words' endless' := by
  rw [same, same', same'']
  exact h

namespace Machine

open Stepped (Sure Refused Answers)

def base (m : Machine) : Nat :=
  match m.frames with
  | [] => 0
  | frame :: _ => frame.base

/-- The sum that leads to the end of a function's arguments, if a call enters one. -/
def enteredSums (m : Machine) (env : Env) (argc : Nat) : List Nat :=
  match m.stack[m.stack.size - (argc + 1)]? with
  | some (.function r) =>
    if m.maxCallDepth ≤ m.frames.length then []
    else [m.stack.size - (argc + 1) + 1 + (env.heap.chunk r).arity]
  | _ => []

/-- The sums that an instruction comes to in a frame with this base. -/
def sums (m : Machine) (env : Env) (base : Nat) : Instr → List Nat
  | .getLocal slot => [base + slot]
  | .setLocal slot => if m.stack.size = 0 then [] else [base + slot]
  | .iterNext list index _ =>
    (base + list) :: if base + list < m.stack.size then [base + index] else []
  | .call argc => (argc + 1) :: if argc < m.stack.size then m.enteredSums env argc else []
  | _ => []

/-- The operands of an instruction fit: the machine has the slots and values that they name. -/
def Fits (m : Machine) (base : Nat) : Instr → Prop
  | .getLocal slot => base + slot < m.stack.size
  | .setLocal slot => base + slot + 1 < m.stack.size
  | .iterNext list index _ =>
    base + list < m.stack.size ∧ ∃ x, m.stack[base + index]? = some (.num x)
  | .call argc => argc < m.stack.size
  | .ret => 0 < m.stack.size ∧ 0 < base
  | i => i.demand ≤ m.stack.size

/-- The instruction needs a text without end. -/
def Endless (m : Machine) (env : Env) : Instr → Prop
  | .binary op => ∃ right, m.stack.back? = some right ∧ ∃ left, m.stack.pop.back? = some left ∧
      Value.binary? env.heap op left right = none
  | .call argc => ∃ native, m.calledNative? env argc = some native ∧
      (native env.context env.world (m.stack.toList.drop (m.stack.size - argc))).result = .endless
  | _ => False

/-- The sums that the next step comes to. -/
def nextSums (m : Machine) (env : Env) : List Nat :=
  match m.instr? with
  | some i => m.sums env m.base i
  | none => []

def NextFits (m : Machine) : Prop := ∃ i, m.instr? = some i ∧ m.Fits m.base i

def NextEndless (m : Machine) (env : Env) : Prop := ∃ i, m.instr? = some i ∧ m.Endless env i

variable {m : Machine} {env : Env} {base : Nat} {fits words endless : Prop}

theorem fault_answers {f : Fault} (other : f ≠ .badHandler) (few : ¬ fits) (small : words)
    (quiet : ¬ endless) : Answers fits words endless ⟨m, env, .fault f⟩ := by
  constructor
  · exact iff_of_true ⟨f, other, rfl⟩ ⟨few, small⟩
  · apply iff_of_false
    · simp
    · simp [small, quiet]

/-- What is not there is refused if the sum that leads to it is a word. -/
theorem missing_answers {f : Fault} (other : f ≠ .badHandler) {sum : Nat} (few : ¬ fits)
    (small : words ↔ sum < 2 ^ 64) (quiet : ¬ endless) :
    Answers fits words endless ⟨m, env, .missing sum f⟩ := by
  by_cases word : sum < 2 ^ 64
  · have faults : Verdict.missing sum f = .fault f := if_pos word
    rw [faults]
    exact fault_answers other few (small.mpr word) quiet
  · have loses : Verdict.missing sum f = .lost := if_neg word
    rw [loses]
    constructor
    · apply iff_of_false
      · rintro ⟨f, -, faults⟩
        cases faults
      · intro answered
        exact word (small.mp answered.2)
    · apply iff_of_true rfl
      left
      intro answered
      exact word (small.mp answered)

theorem lost_answers (fit : fits) (lost : ¬ words ∨ endless) :
    Answers fits words endless ⟨m, env, .lost⟩ := by
  constructor
  · apply iff_of_false
    · rintro ⟨f, -, faults⟩
      cases faults
    · intro few
      exact few.1 fit
  · exact iff_of_true rfl lost

theorem continue_sure : Sure ⟨m, env, .continue⟩ := ⟨by simp, by simp⟩

theorem throwValue_sure (v : Value) : (m.throwValue env v).Sure := by
  unfold throwValue
  split
  · dsimp only
    split
    · exact ⟨by simp, by simp⟩
    · exact ⟨by simp, by simp⟩
  · exact ⟨by simp, by simp⟩

theorem pushResult_sure (v : Value) : (m.pushResult env v).Sure := by
  unfold pushResult
  dsimp only
  split <;> exact ⟨by simp, by simp⟩

theorem pushOrThrow_sure (result : Except ErrorInfo Value) : (m.pushOrThrow env result).Sure := by
  cases result with
  | ok v => exact continue_sure
  | error e => exact throwValue_sure _

theorem heapOrThrow_sure (result : Except ErrorInfo Heap) : (m.heapOrThrow env result).Sure := by
  cases result with
  | ok h => exact continue_sure
  | error e => exact throwValue_sure _

theorem answer_answers (reply : NativeReply) (fit : fits) (small : words) :
    (m.answer env reply).Answers fits words (reply.result = .endless) := by
  unfold answer
  split
  · rename_i same
    exact (pushResult_sure _).answers fit small (by simp [same])
  · rename_i same
    exact (throwValue_sure _).answers fit small (by simp [same])
  · rename_i same
    split
    · exact Sure.answers ⟨by simp, by simp⟩ fit small (by simp [same])
    · exact (throwValue_sure _).answers fit small (by simp [same])
  · rename_i same
    exact lost_answers fit (.inr same)

theorem leave_answers {underflow : Fault} (other : underflow ≠ .badHandler) (v : Value) :
    (m.leave env base underflow v).Answers (0 < base) True False := by
  unfold leave
  dsimp only
  split
  · rename_i outermost
    exact fault_answers other (by omega) trivial not_false
  · rename_i inner
    exact (pushResult_sure _).answers (Nat.pos_of_ne_zero inner) trivial not_false

theorem operand_answers {underflow : Fault} (other : underflow ≠ .badHandler)
    {next : Value → Stepped} {endless : Value → Prop}
    (goes : ∀ v, m.stack.back? = some v → (next v).Answers fits words (endless v)) :
    Answers (0 < m.stack.size ∧ fits) (0 < m.stack.size → words)
      (∃ v, m.stack.back? = some v ∧ endless v)
      (match m.stack.back? with
      | none => ⟨m, env, .fault underflow⟩
      | some v => next v) := by
  split
  · rename_i empty
    have none_left : m.stack.size = 0 := by simpa using empty
    exact fault_answers other (by omega) (by omega) (by simp [empty])
  · rename_i v top
    have filled : 0 < m.stack.size := by
      apply Nat.pos_of_ne_zero
      intro zero
      rw [Array.back?_eq_getElem?, zero] at top
      simp [zero] at top
    refine (goes v top).congr (and_iff_right filled) (forall_prop_of_true filled) ?_
    simp [top]

theorem optional_answers (result : Option (Except ErrorInfo Value)) :
    Answers True True (result = none)
      (match result with
      | some value => m.pushOrThrow env value
      | none => ⟨m, env, .lost⟩) := by
  cases result with
  | some value => exact (pushOrThrow_sure value).answers trivial trivial (by simp)
  | none => exact lost_answers trivial (.inr rfl)

section

variable (small : m.stack.size < 2 ^ 62)

include small

theorem words_iterNext {list index exit : Nat} (low : base + list < m.stack.size) :
    (∀ n ∈ m.sums env base (.iterNext list index exit), n < 2 ^ 64) ↔ base + index < 2 ^ 64 := by
  rw [sums, if_pos low, List.forall_mem_cons, List.forall_mem_singleton]
  omega

theorem words_call {argc : Nat} (enough : argc < m.stack.size) :
    (∀ n ∈ m.sums env base (.call argc), n < 2 ^ 64) ↔
      ∀ n ∈ m.enteredSums env argc, n < 2 ^ 64 := by
  rw [sums, if_pos enough, List.forall_mem_cons]
  apply and_iff_right
  omega

theorem iterate_answers (list index exit : Nat) (function : String) :
    (m.iterate env base list index exit (.badLocal function)).Answers
      (m.Fits base (.iterNext list index exit))
      (∀ n ∈ m.sums env base (.iterNext list index exit), n < 2 ^ 64) False := by
  have sure {s : Stepped} {x : Number} (h : s.Sure) (low : base + list < m.stack.size)
      (found : m.stack[base + index]? = some (.num x)) :
      s.Answers (m.Fits base (.iterNext list index exit))
        (∀ n ∈ m.sums env base (.iterNext list index exit), n < 2 ^ 64) False := by
    have low' := (Array.getElem?_eq_some_iff.mp found).1
    apply h.answers ⟨low, x, found⟩ _ not_false
    rw [words_iterNext small low]
    omega
  unfold iterate
  dsimp only
  split
  · rename_i missing
    have high := Nat.not_lt_of_le (Array.getElem?_eq_none_iff.mp missing)
    apply missing_answers (by simp) (fun fit => high fit.1) _ not_false
    simp [sums, high]
  · rename_i v at_list missing
    have low := (Array.getElem?_eq_some_iff.mp at_list).1
    apply missing_answers (by simp) _ (words_iterNext small low) not_false
    rintro ⟨-, x, found⟩
    rw [missing] at found
    cases found
  · rename_i r x at_list at_index
    have low := (Array.getElem?_eq_some_iff.mp at_list).1
    split <;> exact sure continue_sure low at_index
  · rename_i v x other at_list at_index
    exact sure (throwValue_sure _) (Array.getElem?_eq_some_iff.mp at_list).1 at_index
  · rename_i v w apart number at_list at_index
    have low := (Array.getElem?_eq_some_iff.mp at_list).1
    have low' := (Array.getElem?_eq_some_iff.mp at_index).1
    apply fault_answers (by simp) _ _ not_false
    · rintro ⟨-, x, found⟩
      rw [at_index] at found
      exact number x (Option.some.inj found)
    · rw [words_iterNext small low]
      omega

/-- A function is entered unless the end of its arguments is no word. -/
theorem enter_answers {argc : Nat} (enough : argc < m.stack.size) {r : FunctionRef}
    (callee : m.stack[m.stack.size - (argc + 1)]? = some (.function r)) :
    (m.enter env (m.stack.size - (argc + 1)) (env.heap.chunk r)).Answers (argc < m.stack.size)
      (∀ n ∈ m.sums env base (.call argc), n < 2 ^ 64) False := by
  have bound : Nat.pow 2 63 = 2 ^ 63 := rfl
  have bound' : Nat.pow 2 64 = 2 ^ 64 := rfl
  simp only [words_call small enough, enteredSums, callee]
  unfold enter
  split
  · exact (throwValue_sure _).answers enough (by simp) not_false
  · split
    · rename_i beyond
      apply lost_answers enough
      left
      simp only [List.mem_singleton, forall_eq]
      omega
    · rename_i within
      apply continue_sure.answers enough _ not_false
      simp only [List.mem_singleton, forall_eq]
      omega

theorem callNative_answers {argc : Nat} (enough : argc < m.stack.size) {name : String}
    (callee : m.stack[m.stack.size - (argc + 1)]? = some (.native name)) :
    (m.callNative env (m.stack.size - (argc + 1)) name).Answers (argc < m.stack.size)
      (∀ n ∈ m.sums env base (.call argc), n < 2 ^ 64) (m.Endless env (.call argc)) := by
  have few : ¬ m.stack.size < argc + 1 := by omega
  have words : ∀ n ∈ m.sums env base (.call argc), n < 2 ^ 64 := by
    rw [words_call small enough, enteredSums, callee]
    simp
  cases native : env.natives.get? name with
  | none =>
    have uncalled : m.calledNative? env argc = none := by
      rw [calledNative?, if_neg few, callee]
      exact native
    rw [callNative, native]
    exact (throwValue_sure _).answers enough words (by simp [Endless, uncalled])
  | some native' =>
    have called : m.calledNative? env argc = some native' := by
      rw [calledNative?, if_neg few, callee]
      exact native
    have above : m.stack.size - (argc + 1) + 1 = m.stack.size - argc := by omega
    rw [callNative_some native, above]
    apply (answer_answers _ enough words).congr Iff.rfl Iff.rfl
    simp [Endless, called]

theorem callValue_answers (argc : Nat) :
    (m.callValue env argc).Answers (m.Fits base (.call argc))
      (∀ n ∈ m.sums env base (.call argc), n < 2 ^ 64) (m.Endless env (.call argc)) := by
  have uncalled (other : ∀ name, m.stack[m.stack.size - (argc + 1)]? ≠ some (.native name)) :
      ¬ m.Endless env (.call argc) := by
    rintro ⟨native, called, -⟩
    rw [calledNative?] at called
    split at called
    · cases called
    · split at called
      · rename_i name callee
        exact other name callee
      · cases called
  unfold callValue
  dsimp only
  split
  · rename_i few
    have high : ¬ argc < m.stack.size := by omega
    apply missing_answers _ high
    · simp [sums, high]
    · rintro ⟨native, called, -⟩
      rw [calledNative?, if_pos few] at called
      cases called
    · unfold callUnderflow
      split <;> simp
  · rename_i present
    have enough : argc < m.stack.size := by omega
    split
    · rename_i missing
      have high := Array.getElem?_eq_none_iff.mp missing
      omega
    · rename_i r callee
      apply (enter_answers small enough callee).congr Iff.rfl Iff.rfl
      exact iff_of_false (uncalled (by simp [callee])) not_false
    · rename_i name callee
      exact callNative_answers small enough callee
    · rename_i v function native callee
      refine (throwValue_sure _).answers enough ?_ (uncalled ?_)
      · have none_entered : m.enteredSums env argc = [] := by
          unfold enteredSums
          split
          · rename_i r found
            rw [callee] at found
            exact absurd (Option.some.inj found) (function r)
          · rfl
        rw [words_call small enough, none_entered]
        simp
      · intro name found
        rw [callee] at found
        exact native name (Option.some.inj found)

theorem execute_answers (function : String) (pc : Nat) (i : Instr) :
    (m.execute env function pc base i).Answers (m.Fits base i)
      (∀ n ∈ m.sums env base i, n < 2 ^ 64) (m.Endless env i) := by
  have shorter : m.dropTop.stack.size = m.stack.size - 1 := Array.size_pop
  have shortest : m.dropTop.dropTop.stack.size = m.stack.size - 1 - 1 := by simp [dropTop]
  have none_added : ∀ n ∈ ([] : List Nat), n < 2 ^ 64 := by simp
  cases i with
  | call argc => exact callValue_answers small argc
  | iterNext list index exit => exact iterate_answers small list index exit function
  | push v | jump target | pushHandler target | popHandler =>
    exact continue_sure.answers (Nat.zero_le _) none_added not_false
  | getGlobal name =>
    unfold execute
    dsimp only
    split
    · exact continue_sure.answers (Nat.zero_le _) none_added not_false
    · exact (throwValue_sure _).answers (Nat.zero_le _) none_added not_false
  | pop =>
    unfold execute
    dsimp only
    split
    · rename_i empty
      have none_left : m.stack.size = 0 := by simpa using empty
      exact fault_answers (by simp) (by simp [Fits, Instr.demand, none_left]) none_added not_false
    · rename_i filled
      have some_left : m.stack.size ≠ 0 := by simpa using filled
      exact continue_sure.answers (Nat.pos_of_ne_zero some_left) none_added not_false
  | popN n | makeList n | makeObject keys =>
    unfold execute
    dsimp only
    split
    · rename_i few
      exact fault_answers (by simp) (Nat.not_le_of_lt few) none_added not_false
    · rename_i enough
      exact continue_sure.answers (Nat.le_of_not_lt enough) none_added not_false
  | getLocal slot =>
    unfold execute
    dsimp only
    split
    · rename_i v found
      have low := (Array.getElem?_eq_some_iff.mp found).1
      apply continue_sure.answers low _ not_false
      simp only [sums, List.mem_singleton, forall_eq]
      omega
    · rename_i missing
      have high := Array.getElem?_eq_none_iff.mp missing
      exact missing_answers (by simp) (Nat.not_lt_of_le high) (by simp [sums]) not_false
  | setLocal slot =>
    have stored (v : Value) : Answers (base + slot < m.dropTop.stack.size) (base + slot < 2 ^ 64)
        False (if base + slot < m.dropTop.stack.size then
          ⟨{ m.dropTop with stack := m.dropTop.stack.setIfInBounds (base + slot) v }, env,
            .continue⟩
        else ⟨m.dropTop, env, .missing (base + slot) (.badLocal function slot)⟩) := by
      split
      · rename_i low
        exact continue_sure.answers low (by omega) not_false
      · rename_i high
        exact missing_answers (by simp) high Iff.rfl not_false
    apply (operand_answers (by simp) fun v _ => stored v).congr
    · rw [Fits, shorter]
      omega
    · rw [sums]
      split
      · rename_i empty
        simp [empty]
      · rename_i filled
        simp [Nat.pos_of_ne_zero filled]
    · simp [Endless]
  | setGlobal name | jumpIfFalse target =>
    exact (operand_answers (by simp) fun v _ =>
      continue_sure.answers trivial trivial not_false).congr
        (by simp [Fits, Instr.demand, Instr.operands]; omega) (by simp [sums]) (by simp [Endless])
  | jumpIfFalseKeep target | jumpIfTrueKeep target =>
    exact (operand_answers (by simp) fun v _ =>
      continue_sure.answers trivial trivial not_false).congr
        (by simp [Fits, Instr.demand]; omega) (by simp [sums]) (by simp [Endless])
  | getMember name | unary op =>
    exact (operand_answers (by simp) fun v _ =>
      (pushOrThrow_sure _).answers trivial trivial not_false).congr
        (by simp [Fits, Instr.demand, Instr.operands]; omega) (by simp [sums]) (by simp [Endless])
  | throw =>
    exact (operand_answers (by simp) fun v _ =>
      (throwValue_sure _).answers trivial trivial not_false).congr
        (by simp [Fits, Instr.demand, Instr.operands]; omega) (by simp [sums]) (by simp [Endless])
  | ret =>
    exact (operand_answers (by simp) fun v _ => leave_answers (by simp) v).congr Iff.rfl
      (by simp [sums]) (by simp [Endless])
  | setMember name =>
    refine (operand_answers (by simp) fun value _ => operand_answers (by simp) fun v _ =>
      (heapOrThrow_sure _).answers trivial trivial not_false).congr ?_ (by simp [sums])
        (by simp [Endless])
    simp only [Fits, Instr.demand, Instr.operands, shorter, and_true]
    omega
  | getIndex =>
    refine (operand_answers (by simp) fun index _ => operand_answers (by simp) fun v _ =>
      (pushOrThrow_sure _).answers trivial trivial not_false).congr ?_ (by simp [sums])
        (by simp [Endless])
    simp only [Fits, Instr.demand, Instr.operands, shorter, and_true]
    omega
  | setIndex =>
    refine (operand_answers (by simp) fun value _ => operand_answers (by simp) fun index _ =>
      operand_answers (by simp) fun v _ =>
        (heapOrThrow_sure _).answers trivial trivial not_false).congr ?_ (by simp [sums])
          (by simp [Endless])
    simp only [Fits, Instr.demand, Instr.operands, shorter, shortest, and_true]
    omega
  | binary op =>
    refine (operand_answers (by simp) fun right _ => operand_answers (by simp) fun left _ =>
      optional_answers (Value.binary? env.heap op left right)).congr ?_ (by simp [sums]) Iff.rfl
    simp only [Fits, Instr.demand, Instr.operands, shorter, and_true]
    omega

theorem step_answers (running : m.control = .running) (env : Env) :
    (m.step env).Answers m.NextFits (∀ n ∈ m.nextSums env, n < 2 ^ 64) (m.NextEndless env) := by
  have runs : (!m.isRunning) = false := by simp [isRunning, running]
  have stops (none_left : m.instr? = none) {f : Fault} (other : f ≠ .badHandler) :
      Answers m.NextFits (∀ n ∈ m.nextSums env, n < 2 ^ 64) (m.NextEndless env)
        ⟨m, env, .fault f⟩ := by
    apply fault_answers other
    · rintro ⟨i, next, -⟩
      rw [none_left] at next
      cases next
    · simp [nextSums, none_left]
    · rintro ⟨i, next, -⟩
      rw [none_left] at next
      cases next
  rw [step, runs, if_neg Bool.false_ne_true]
  split
  · rename_i frames
    exact stops (by rw [instr?, frames]) (by simp)
  · rename_i frame callers frames
    have next : m.instr? = frame.chunk.code[frame.pc]? := by rw [instr?, frames]
    have own : m.base = frame.base := by rw [Machine.base, frames]
    split
    · rename_i fetch
      exact stops (next.trans fetch) (by simp)
    · rename_i i fetch
      rw [← next] at fetch
      -- Where the frame goes on has no part in the answer, only how many frames there are.
      have answers : Answers _ _ _ (Machine.execute _ env _ _ frame.base i) :=
        execute_answers (m := { m with frames := { frame with pc := frame.pc + 1 } :: callers })
          small frame.chunk.name frame.pc i
      apply answers.congr
      · simp only [NextFits, fetch, Option.some.injEq, exists_eq_left', own]
        rfl
      · have same : m.nextSums env = Machine.sums
            { m with frames := { frame with pc := frame.pc + 1 } :: callers } env frame.base i := by
          rw [nextSums, fetch]
          dsimp only
          rw [own]
          cases i with
          | call argc => simp [sums, enteredSums, frames]
          | _ => rfl
        rw [same]
      · simp only [NextEndless, fetch, Option.some.injEq, exists_eq_left']
        rfl

/-- A step is refused exactly if there is no next instruction or its operands do not fit, and all
sums are words. It ends the program exactly if a sum is none, or a text has no end. -/
theorem operands_answered (running : m.control = .running) (env : Env) :
    ((m.step env).Refused ↔ ¬ m.NextFits ∧ ∀ n ∈ m.nextSums env, n < 2 ^ 64) ∧
    ((m.step env).verdict = .lost ↔
      (∃ n ∈ m.nextSums env, 2 ^ 64 ≤ n) ∨ m.NextEndless env) := by
  have answers := step_answers small running env
  refine ⟨answers.refused, ?_⟩
  rw [answers.lost]
  simp only [Classical.not_forall, Nat.not_lt, exists_prop]

end

/-- A function that reads the local `2 ^ 64 - 1`. -/
def wildChunk : Chunk := ⟨"wild", "raw", 0, #[.getLocal (2 ^ 64 - 1), .ret], #[1, 1]⟩

def wildEnv : Env := .ofFunctions [wildChunk]

def wildCall : Machine := ((new defaultMaxCallDepth).startCall wildEnv (.function ⟨0⟩) []).machine

theorem operands_answered_wild : wildCall.stack.size < 2 ^ 62 ∧ wildCall.control = .running ∧
    wildCall.nextSums wildEnv = [2 ^ 64] ∧ ¬ (wildCall.step wildEnv).Refused ∧
    (wildCall.step wildEnv).verdict = .lost := by
  have small : wildCall.stack.size < 2 ^ 62 := by decide +kernel
  have running : wildCall.control = .running := by decide +kernel
  have sums : wildCall.nextSums wildEnv = [2 ^ 64] := by decide +kernel
  obtain ⟨refused, lost⟩ := operands_answered small running wildEnv
  rw [sums] at refused lost
  refine ⟨small, running, sums, ?_, lost.mpr (by simp)⟩
  rw [refused]
  simp

/-- An operand that does not fit is not always answered by a fault. -/
theorem wild_operand_unanswered : wildCall.instr? = some (.getLocal (2 ^ 64 - 1)) ∧
    wildCall.stack.size < 2 ^ 62 ∧ wildCall.control = .running ∧ ¬ wildCall.NextFits ∧
    wildCall.nextSums wildEnv = [2 ^ 64] ∧ ¬ (wildCall.step wildEnv).Refused := by
  have next : wildCall.instr? = some (.getLocal (2 ^ 64 - 1)) := by decide +kernel
  have high : ¬ wildCall.base + (2 ^ 64 - 1) < wildCall.stack.size := by decide +kernel
  have loses : (wildCall.step wildEnv).verdict = .lost := by decide +kernel
  refine ⟨next, by decide +kernel, by decide +kernel, ?_, by decide +kernel, ?_⟩
  · rintro ⟨i, found, fit⟩
    cases Option.some.inj (next.symm.trans found)
    exact high fit
  · rintro ⟨f, -, faults⟩
    rw [loses] at faults
    cases faults

end Machine
end FrameScript
