import FrameScript.Proofs.Machine.Safety
import FrameScript.Proofs.Semantics.Evaluate

/-!
# Situations of a run

A situation is what a step has led to, with the natives that have been called so
far. A run goes from situation to situation as long as its steps continue, and
every situation that a sound one comes to is sound.
-/

namespace FrameScript

/-- The call of a native that calling this value is, if it is registered. -/
def Env.nativeCalls (env : Env) (callee : Value) (args : List Value) : List NativeCall :=
  match callee with
  | .native name => if (env.natives.get? name).isSome then [⟨name, args⟩] else []
  | _ => []

namespace Machine

def nativeCallsBelow (m : Machine) (env : Env) (argc : Nat) : List NativeCall :=
  let latest := m.stack.toList.reverse
  match latest.drop argc with
  | callee :: _ => env.nativeCalls callee (latest.take argc).reverse
  | [] => []

/-- The call of a native that the next step is. -/
def nativeCalls (m : Machine) (env : Env) : List NativeCall :=
  if !m.isRunning then []
  else
    match m.frames with
    | [] => []
    | frame :: _ =>
      match frame.chunk.code[frame.pc]? with
      | some (.call argc) => m.nativeCallsBelow env argc
      | _ => []

/-- The natives that a run calls, in their order. -/
def callsMade : (fuel : Nat) → Machine → Env → List NativeCall
  | 0, _, _ => []
  | fuel + 1, m, env => m.nativeCalls env ++
    match m.step env with
    | ⟨m, env, .continue⟩ => callsMade fuel m env
    | _ => []

def callsMadeFrom (fuel : Nat) (s : Stepped) : List NativeCall :=
  match s.verdict with
  | .continue => s.machine.callsMade fuel s.env
  | _ => []

end Machine

/-- What a step has led to, and the natives called so far. -/
structure Situation extends Stepped where
  calls : List NativeCall

namespace Situation

def next (s : Situation) : Situation :=
  ⟨s.machine.step s.env, s.calls ++ s.machine.nativeCalls s.env⟩

@[simp] theorem next_calls (s : Situation) :
    s.next.calls = s.calls ++ s.machine.nativeCalls s.env := rfl

/-- A run comes from a situation to another. -/
inductive Comes : Situation → Situation → Prop
  | refl (s : Situation) : Comes s s
  | step {s t : Situation} (goes : s.verdict = .continue) (rest : Comes s.next t) : Comes s t

theorem Comes.trans {s t u : Situation} (h : Comes s t) (k : Comes t u) : Comes s u := by
  induction h with
  | refl => exact k
  | step goes _ ih => exact .step goes (ih k)

theorem Comes.one {s : Situation} (goes : s.verdict = .continue) : Comes s s.next :=
  .step goes (.refl _)

/-- At least this many steps follow. -/
def Long : Nat → Situation → Prop
  | 0, _ => True
  | n + 1, s => s.verdict = .continue ∧ s.next.Long n

theorem Long.le {n k : Nat} {s : Situation} (h : s.Long n) (fewer : k ≤ n) : s.Long k := by
  induction k generalizing n s with
  | zero => trivial
  | succ k ih =>
    cases n with
    | zero => omega
    | succ n => exact ⟨h.1, ih h.2 (by omega)⟩

theorem Comes.long {n : Nat} {s t : Situation} (h : Comes s t) (long : t.Long n) : s.Long n := by
  induction h with
  | refl => exact long
  | step goes _ ih =>
    refine Long.le (n := n + 1) ⟨goes, ih long⟩ (Nat.le_succ n)

/-- A run that cannot go on has come to one situation. -/
theorem Comes.unique {s t u : Situation} (h : Comes s t) (k : Comes s u)
    (last : t.verdict ≠ .continue) (last' : u.verdict ≠ .continue) : t = u := by
  induction h with
  | refl s =>
    cases k with
    | refl => rfl
    | step goes _ => exact absurd goes last
  | step goes _ ih =>
    cases k with
    | refl => exact absurd goes last'
    | step _ rest => exact ih rest last

/-- The step that led here was a good one. -/
def Good (limit : Nat) (s : Situation) : Prop := s.toStepped.Good someLayout Chunk.Sourced limit

variable {limit : Nat} {s t : Situation}

theorem Good.next (h : s.Good limit) (goes : s.verdict = .continue) : s.next.Good limit := by
  have lasts : s.verdict ≠ .lost := by simp [goes]
  exact Machine.Sound.step someLayout_verified (h.env lasts) (h.grown lasts)

theorem Comes.good (h : Comes s t) (good : s.Good limit) : t.Good limit := by
  induction h with
  | refl => exact good
  | step goes _ ih => exact ih (good.next goes)

theorem run_succ (s : Situation) (fuel : Nat) :
    s.machine.run (fuel + 1) s.env =
      match s.next.verdict with
      | .continue => s.next.machine.run fuel s.next.env
      | .done => some ⟨s.next.machine, s.next.env, none⟩
      | .fault f => some ⟨s.next.machine, s.next.env, some f⟩
      | .lost => none := by
  rw [Machine.run, Situation.next]
  generalize s.machine.step s.env = r
  obtain ⟨m, env, verdict⟩ := r
  cases verdict <;> rfl

theorem callsMade_succ (s : Situation) (fuel : Nat) :
    s.machine.callsMade (fuel + 1) s.env = s.machine.nativeCalls s.env ++
      match s.next.verdict with
      | .continue => s.next.machine.callsMade fuel s.next.env
      | _ => [] := by
  rw [Machine.callsMade, Situation.next]
  generalize s.machine.step s.env = r
  obtain ⟨m, env, verdict⟩ := r
  cases verdict <;> rfl

theorem run_iff (goes : s.verdict = .continue) (halt : Halt) (calls : List NativeCall) :
    (∃ fuel, s.machine.run fuel s.env = some halt ∧
      s.calls ++ s.machine.callsMade fuel s.env = calls) ↔
    ∃ t, Comes s t ∧ t.calls = calls ∧ halt.machine = t.machine ∧ halt.env = t.env ∧
      (t.verdict = .done ∧ halt.fault = none ∨
        ∃ f, t.verdict = .fault f ∧ halt.fault = some f) := by
  constructor
  · rintro ⟨fuel, runs, made⟩
    induction fuel generalizing s with
    | zero => cases runs
    | succ fuel ih =>
      rw [run_succ] at runs
      rw [callsMade_succ, ← List.append_assoc] at made
      cases verdict : s.next.verdict with
      | «continue» =>
        rw [verdict] at runs made
        obtain ⟨t, comes, rest⟩ := ih verdict runs made
        exact ⟨t, .step goes comes, rest⟩
      | done =>
        rw [verdict] at runs made
        cases runs
        exact ⟨s.next, .one goes, by simpa using made, rfl, rfl, .inl ⟨verdict, rfl⟩⟩
      | fault f =>
        rw [verdict] at runs made
        cases runs
        exact ⟨s.next, .one goes, by simpa using made, rfl, rfl, .inr ⟨f, verdict, rfl⟩⟩
      | lost =>
        rw [verdict] at runs
        cases runs
  · rintro ⟨t, comes, called, machine, env, ends⟩
    induction comes with
    | refl s => rcases ends with ⟨done, -⟩ | ⟨f, fault, -⟩ <;> simp_all
    | @step s t _ rest ih =>
      cases rest with
      | refl =>
        refine ⟨1, ?_, ?_⟩
        · rw [run_succ]
          obtain ⟨m, e, f⟩ := halt
          rcases ends with ⟨done, fine⟩ | ⟨f, fault, fine⟩
          · simp_all
          · simp_all
        · rw [callsMade_succ, ← List.append_assoc]
          rcases ends with ⟨done, -⟩ | ⟨f, fault, -⟩
          · simpa [done] using called
          · simpa [fault] using called
      | step goes' _ =>
        obtain ⟨fuel, runs, made⟩ := ih goes' called machine env ends
        refine ⟨fuel + 1, ?_, ?_⟩
        · rw [run_succ, goes']
          exact runs
        · rw [callsMade_succ, ← List.append_assoc, goes']
          exact made

/-- A run from here ends with an outcome, in an environment and after these calls. -/
def Ends (s : Situation) (control : Control) (env : Env) (calls : List NativeCall) : Prop :=
  ∃ fuel halt, Machine.runFrom fuel s.toStepped = some halt ∧ halt.fault = none ∧
    halt.machine.control = control ∧ halt.env = env ∧
    s.calls ++ Machine.callsMadeFrom fuel s.toStepped = calls

/-- No run from here ends. -/
def Diverges (s : Situation) : Prop := ∀ fuel, Machine.runFrom fuel s.toStepped = none

theorem Good.stopped (h : s.Good limit) (done : s.verdict = .done) :
    s.machine.isRunning = false := by
  have stopped := Stepped.Good.stopped h done
  unfold Machine.isRunning
  split
  · rename_i running
    exact absurd running stopped
  · rfl

theorem run_stopped {m : Machine} {env : Env} {fuel : Nat} {halt : Halt}
    (stopped : m.isRunning = false) (h : m.run fuel env = some halt) : halt = ⟨m, env, none⟩ := by
  cases fuel with
  | zero => cases h
  | succ fuel =>
    simp only [Machine.run, Machine.step, stopped, Bool.not_false, if_pos] at h
    cases h
    rfl

/-- A run ends where the situations that it comes to are done. -/
theorem Good.ends_iff (good : s.Good limit) (control : Control) (env : Env)
    (calls : List NativeCall) :
    s.Ends control env calls ↔ ∃ t, Comes s t ∧ t.verdict = .done ∧
      t.machine.control = control ∧ t.env = env ∧ t.calls = calls := by
  cases verdict : s.verdict with
  | «continue» =>
    have runs := run_iff verdict
    constructor
    · rintro ⟨fuel, halt, halts, fine, outcome, there, made⟩
      simp only [Machine.runFrom, Machine.callsMadeFrom, verdict] at halts made
      obtain ⟨t, comes, called, machine, same, ends⟩ := (runs halt calls).mp ⟨fuel, halts, made⟩
      rcases ends with ⟨done, -⟩ | ⟨f, -, faulty⟩
      · exact ⟨t, comes, done, machine ▸ outcome, same ▸ there, called⟩
      · rw [fine] at faulty
        cases faulty
    · rintro ⟨t, comes, done, outcome, there, called⟩
      obtain ⟨fuel, halts, made⟩ := (runs ⟨t.machine, t.env, none⟩ calls).mpr
        ⟨t, comes, called, rfl, rfl, .inl ⟨done, rfl⟩⟩
      refine ⟨fuel, ⟨t.machine, t.env, none⟩, ?_, rfl, outcome, there, ?_⟩
      · simpa only [Machine.runFrom, verdict] using halts
      · simpa only [Machine.callsMadeFrom, verdict] using made
  | done =>
    have stopped := good.stopped verdict
    constructor
    · rintro ⟨fuel, halt, halts, -, outcome, there, made⟩
      simp only [Machine.runFrom, Machine.callsMadeFrom, verdict] at halts made
      cases run_stopped stopped halts
      exact ⟨s, .refl s, verdict, outcome, there, by simpa using made⟩
    · rintro ⟨t, comes, done, outcome, there, called⟩
      obtain rfl := (Comes.refl s).unique comes (by simp [verdict]) (by simp [done])
      refine ⟨1, ⟨s.machine, s.env, none⟩, ?_, rfl, outcome, there, ?_⟩
      · simp [Machine.runFrom, verdict, Machine.run, Machine.step, stopped]
      · simpa [Machine.callsMadeFrom, verdict] using called
  | fault f => exact absurd verdict (Stepped.Good.faultless good f)
  | lost =>
    constructor
    · rintro ⟨fuel, halt, halts, -⟩
      simp [Machine.runFrom, verdict] at halts
    · rintro ⟨t, comes, done, -⟩
      obtain rfl := (Comes.refl s).unique comes (by simp [verdict]) (by simp [done])
      rw [verdict] at done
      cases done

theorem Long.runFrom {fuel : Nat} (h : s.Long (fuel + 1)) :
    Machine.runFrom fuel s.toStepped = none := by
  have goes := h.1
  simp only [Machine.runFrom, goes]
  induction fuel generalizing s with
  | zero => rfl
  | succ fuel ih =>
    have goes' := h.2.1
    rw [run_succ, goes']
    exact ih h.2 goes'

/-- A run that comes to a step without an end does not end. -/
theorem Comes.diverges (h : Comes s t) (lost : t.verdict = .lost) : s.Diverges := by
  intro fuel
  induction h generalizing fuel with
  | refl s => simp [Machine.runFrom, lost]
  | @step s t goes rest ih =>
    simp only [Machine.runFrom, goes]
    cases fuel with
    | zero => rfl
    | succ fuel =>
      have later := ih lost fuel
      rw [run_succ]
      cases rest with
      | refl => simp [lost]
      | step goes' _ =>
        simp only [Machine.runFrom, goes'] at later
        rw [goes']
        exact later

end Situation

end FrameScript
