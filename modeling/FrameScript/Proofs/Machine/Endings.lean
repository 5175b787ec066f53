import FrameScript.Proofs.Machine.Surroundings
import FrameScript.Proofs.Machine.Transparency

/-!
# How machines stop

A machine is suspended only where its surroundings allow for that, and when it stops with an error
it leaves the traceback of that. What is outside of a continuation therefore never ends suspended.
-/

namespace FrameScript

/-- A machine that is suspended may be so, and one that has stopped with an error has left its
traceback. -/
structure Machine.Excused (m : Machine) (env : Env) : Prop where
  suspended : ∀ request, m.control = .suspended request → env.context.suspendable = true
  thrown : ∀ v, m.control = .thrown v → m.traceback.isSome = true

namespace Machine

variable {m : Machine} {env : Env}

theorem Excused.of_running (running : m.control = .running) : m.Excused env where
  suspended request same := by rw [running] at same; cases same
  thrown v same := by rw [running] at same; cases same

theorem throwValue_excused (running : m.control = .running) (env : Env) (v : Value) :
    (m.throwValue env v).machine.Excused (m.throwValue env v).env := by
  unfold throwValue
  split
  · dsimp only
    split
    · exact .of_running running
    · exact .of_running (by simpa using running)
  · constructor
    · intro request same
      cases same
    · intro w _
      rfl

theorem pushResult_excused (running : m.control = .running) (env : Env) (v : Value) :
    (m.pushResult env v).machine.Excused (m.pushResult env v).env := by
  unfold pushResult deliver
  dsimp only
  split
  · constructor
    · intro request same
      cases same
    · intro w same
      cases same
  · exact .of_running running

theorem pushOrThrow_excused (running : m.control = .running) (env : Env)
    (result : Except ErrorInfo Value) :
    (m.pushOrThrow env result).machine.Excused (m.pushOrThrow env result).env := by
  cases result with
  | ok v => exact .of_running running
  | error e => exact throwValue_excused running _ _

theorem heapOrThrow_excused (running : m.control = .running) (env : Env)
    (result : Except ErrorInfo Heap) :
    (m.heapOrThrow env result).machine.Excused (m.heapOrThrow env result).env := by
  cases result with
  | ok h => exact .of_running running
  | error e => exact throwValue_excused running _ _

theorem leave_excused (running : m.control = .running) (env : Env) (base : Nat)
    (underflow : Fault) (v : Value) :
    (m.leave env base underflow v).machine.Excused (m.leave env base underflow v).env := by
  unfold leave
  dsimp only
  split
  · exact .of_running running
  · apply pushResult_excused
    exact running

theorem iterate_excused (running : m.control = .running) (env : Env)
    (base list index exit : Nat) (badLocal : Nat → Fault) :
    (m.iterate env base list index exit badLocal).machine.Excused
      (m.iterate env base list index exit badLocal).env := by
  unfold iterate
  dsimp only
  split
  · exact .of_running running
  · exact .of_running running
  · split
    · exact .of_running running
    · exact .of_running (by simpa using running)
  · exact throwValue_excused running _ _
  · exact .of_running running

theorem enter_excused (running : m.control = .running) (env : Env) (slot : Nat) (chunk : Chunk) :
    (m.enter env slot chunk).machine.Excused (m.enter env slot chunk).env := by
  unfold enter
  split
  · exact throwValue_excused running _ _
  · split <;> exact .of_running running

/-- A native's wish to suspend its caller is granted only where that is possible. -/
theorem answer_excused (running : m.control = .running) (env : Env) (reply : NativeReply) :
    (m.answer env reply).machine.Excused (m.answer env reply).env := by
  unfold answer
  split
  · exact pushResult_excused running _ _
  · exact throwValue_excused running _ _
  · split
    · rename_i granted
      constructor
      · intro request _
        exact granted
      · intro v same
        cases same
    · exact throwValue_excused running _ _
  · exact .of_running running

theorem callValue_excused (running : m.control = .running) (env : Env) (argc : Nat) :
    (m.callValue env argc).machine.Excused (m.callValue env argc).env := by
  unfold callValue
  dsimp only
  split
  · exact .of_running running
  · split
    · exact .of_running running
    · exact enter_excused running _ _ _
    · rename_i name _
      cases found : env.natives.get? name with
      | none =>
        rw [callNative, found]
        exact throwValue_excused running _ _
      | some native =>
        rw [callNative_some found]
        apply answer_excused
        exact running
    · exact throwValue_excused running _ _

theorem execute_excused (running : m.control = .running) (env : Env) (function : String)
    (pc base : Nat) (i : Instr) :
    (m.execute env function pc base i).machine.Excused (m.execute env function pc base i).env := by
  have dropped : m.dropTop.control = .running := running
  cases i with
  | call argc => exact callValue_excused running env argc
  | iterNext list index exit => exact iterate_excused running _ _ _ _ _ _
  | ret =>
    unfold execute
    dsimp only
    split
    · exact .of_running running
    · exact leave_excused dropped _ _ _ _
  | _ =>
    unfold execute raiseError throwInfo
    dsimp only
    repeat' split
    all_goals
      first
      | exact .of_running running
      | exact .of_running (by simpa using running)
      | exact throwValue_excused (by exact running) _ _
      | exact pushOrThrow_excused (by exact running) _ _
      | exact heapOrThrow_excused (by exact running) _ _

theorem step_excused (excused : m.Excused env) :
    (m.step env).machine.Excused (m.step env).env := by
  by_cases running : m.control = .running
  · have runs : ¬ (!m.isRunning) = true := by simp [isRunning, running]
    rw [step, if_neg runs]
    split
    · exact excused
    · split
      · exact excused
      · apply execute_excused
        exact running
  · have stopped : (!m.isRunning) = true := by
      unfold isRunning
      split
      · contradiction
      · rfl
    rw [step, if_pos stopped]
    exact excused

theorem run_excused {fuel : Nat} {halt : Halt} (excused : m.Excused env)
    (run : m.run fuel env = some halt) : halt.machine.Excused halt.env := by
  induction fuel generalizing m env with
  | zero => cases run
  | succ fuel ih =>
    have next := step_excused excused
    rw [Machine.run] at run
    generalize m.step env = s at run next
    obtain ⟨m', env', verdict⟩ := s
    cases verdict with
    | «continue» => exact ih next run
    | lost => cases run
    | done | fault f =>
      cases run
      exact next

theorem runFrom_excused {fuel : Nat} {s : Stepped} {halt : Halt} (excused : s.machine.Excused s.env)
    (run : runFrom fuel s = some halt) : halt.machine.Excused halt.env := by
  unfold runFrom at run
  split at run
  · cases run
    exact excused
  · cases run
  · exact run_excused excused run

theorem resume?_excused {next : Machine} {v : Value} (resumes : m.resume? v = some next)
    (env : Env) : next.Excused env := by
  unfold resume? deliver at resumes
  split at resumes
  · cases resumes
    split
    · constructor
      · intro request same
        cases same
      · intro w same
        cases same
    · exact .of_running rfl
  · cases resumes

end Machine
end FrameScript
