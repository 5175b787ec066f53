import FrameScript.Proofs.Machine.Surroundings
import FrameScript.Proofs.Machine.Transparency

/-!
# Growth of the heap

A step changes at most one list or object of the heap or adds one. Steps without writes only
add to it, and they leave the globals alone; a run of such steps extends the heap.
-/

namespace FrameScript

/-- What one step makes of a heap. Tame steps do not write to what is there. -/
inductive Heap.Changes (tame : Prop) (h : Heap) : Heap → Prop
  | same : Changes tame h h
  | list (items : Array Value) : Changes tame h (h.newList items).1
  | object (fields : Table Value) : Changes tame h (h.newObject fields).1
  | update (wild : ¬ tame) (r : ListRef) (f : Array Value → Array Value) :
      Changes tame h (h.updateList r f)
  | field (wild : ¬ tame) (r : ObjectRef) (key : String) (v : Value) :
      Changes tame h (h.setField r key v)

/-- The heap has what the other one had, perhaps with other contents, and perhaps more. -/
structure Heap.Grows (h next : Heap) : Prop where
  lists : h.lists.size ≤ next.lists.size
  objects : h.objects.size ≤ next.objects.size

/-- The heap has what the other one had, and perhaps more lists and objects. -/
structure Heap.Extends (h next : Heap) : Prop where
  lists : ∃ more, next.lists = h.lists ++ more
  objects : ∃ more, next.objects = h.objects ++ more
  chunks : next.chunks = h.chunks

namespace Heap

variable {tame other : Prop} {h middle next : Heap}

theorem Grows.refl (h : Heap) : h.Grows h := ⟨Nat.le_refl _, Nat.le_refl _⟩

theorem Grows.trans (first : h.Grows middle) (second : middle.Grows next) : h.Grows next :=
  ⟨Nat.le_trans first.lists second.lists, Nat.le_trans first.objects second.objects⟩

theorem Extends.refl (h : Heap) : h.Extends h := ⟨⟨#[], by simp⟩, ⟨#[], by simp⟩, rfl⟩

theorem Extends.trans (first : h.Extends middle) (second : middle.Extends next) :
    h.Extends next := by
  obtain ⟨⟨lists, more_lists⟩, ⟨objects, more_objects⟩, chunks⟩ := first
  obtain ⟨⟨lists', more_lists'⟩, ⟨objects', more_objects'⟩, chunks'⟩ := second
  refine ⟨⟨lists ++ lists', ?_⟩, ⟨objects ++ objects', ?_⟩, chunks'.trans chunks⟩
  · rw [more_lists', more_lists, Array.append_assoc]
  · rw [more_objects', more_objects, Array.append_assoc]

theorem Changes.mono (fewer : other → tame) (changes : h.Changes tame next) :
    h.Changes other next := by
  cases changes with
  | same => exact .same
  | list items => exact .list items
  | object fields => exact .object fields
  | update wild r f => exact .update (wild ∘ fewer) r f
  | field wild r key v => exact .field (wild ∘ fewer) r key v

theorem Changes.grows (changes : h.Changes tame next) : h.Grows next := by
  cases changes <;> constructor <;> simp [newList, newObject, updateList, setField]

theorem newList_grows (h : Heap) (items : Array Value) : h.Grows (h.newList items).1 :=
  ⟨by simp [newList], Nat.le_refl _⟩

theorem newObject_grows (h : Heap) (fields : Table Value) : h.Grows (h.newObject fields).1 :=
  ⟨Nat.le_refl _, by simp [newObject]⟩

theorem Changes.extends (changes : h.Changes tame next) (still : tame) : h.Extends next := by
  cases changes with
  | same => exact .refl h
  | list items => exact ⟨⟨#[items], rfl⟩, ⟨#[], by simp [newList]⟩, rfl⟩
  | object fields => exact ⟨⟨#[], by simp [newObject]⟩, ⟨#[fields], rfl⟩, rfl⟩
  | update wild | field wild => exact absurd still wild

end Heap

/-- All that a native changes is the heap, by one write or addition. -/
structure Native.Changes (tame : Prop) (native : Native) : Prop where
  context : ∀ context world args, (native context world args).context = context
  clock : ∀ context world args, (native context world args).world.clock = world.clock
  heap : ∀ context world args,
    Heap.Changes tame world.heap (native context world args).world.heap

/-- Only `push` writes to what is there. -/
def Natives.Change (natives : Natives) : Prop :=
  ∀ name native, natives.get? name = some native → native.Changes (name ≠ "push")

namespace Native

variable {tame : Prop}

theorem pure_changes (f : NativeContext → List Value → NativeResult) : (pure f).Changes tame :=
  ⟨fun _ _ _ => rfl, fun _ _ _ => rfl, fun _ _ _ => .same⟩

theorem onHeap_changes {f : NativeContext → Heap → List Value → Heap × NativeResult}
    (heap : ∀ context h args, Heap.Changes tame h (f context h args).1) :
    (onHeap f).Changes tame :=
  ⟨fun _ _ _ => rfl, fun _ _ _ => rfl, fun context world args => heap context world.heap args⟩

theorem print_changes : print.Changes tame := by
  constructor <;> intro context world args <;> unfold print <;> split
  all_goals first | rfl | exact .same

theorem str_changes : str.Changes tame := by
  apply onHeap_changes
  intro context h args
  repeat' split
  all_goals exact .same

theorem len_changes : len.Changes tame := by
  apply onHeap_changes
  intro context h args
  split <;> exact .same

theorem push_changes (wild : ¬ tame) : push.Changes tame := by
  apply onHeap_changes
  intro context h args
  split
  · exact .update wild _ _
  all_goals exact .same

theorem keys_changes : keys.Changes tame := by
  apply onHeap_changes
  intro context h args
  split
  · exact .list _
  all_goals exact .same

theorem clock_changes : clock.Changes tame :=
  onHeap_changes fun _ _ _ => .object _

end Native

theorem Natives.withSuspend_change : Natives.withSuspend.Change := by
  intro name native found
  rcases Table.mem_insert (Table.mem_of_get? found) with same | mem
  · cases same
    exact Native.pure_changes _
  · have listed := Table.mem_ofList mem
    simp only [List.mem_cons, List.not_mem_nil, or_false, Prod.mk.injEq] at listed
    rcases listed with ⟨-, rfl⟩ | ⟨-, rfl⟩ | ⟨-, rfl⟩ | ⟨-, rfl⟩ | ⟨rfl, rfl⟩ | ⟨-, rfl⟩ |
      ⟨-, rfl⟩ | ⟨-, rfl⟩ | ⟨-, rfl⟩ | ⟨-, rfl⟩ | ⟨-, rfl⟩ | ⟨-, rfl⟩ | ⟨-, rfl⟩ | ⟨-, rfl⟩
    · exact Native.print_changes
    · exact Native.pure_changes _
    · exact Native.str_changes
    · exact Native.len_changes
    · exact Native.push_changes fun apart => apart rfl
    · exact Native.keys_changes
    · exact Native.clock_changes
    all_goals exact Native.pure_changes _

/-- The value that a call with so many arguments finds below them. -/
def Machine.callee? (m : Machine) (argc : Nat) : Option Value :=
  m.stack[m.stack.size - (argc + 1)]?

/-- Neither globals nor lists and objects that are there are written by an instruction. -/
def Instr.isTame (m : Machine) : Instr → Bool
  | setGlobal _ | setMember _ | setIndex => false
  | call argc => m.callee? argc ≠ some (.native "push")
  | _ => true

/-- The next step writes to nothing that is there. -/
def Machine.isTame (m : Machine) : Bool :=
  !m.isRunning || match m.frames with
    | [] => true
    | frame :: _ => (frame.chunk.code[frame.pc]?).all (Instr.isTame m)

structure Env.Changes (tame : Prop) (env next : Env) : Prop where
  globals : tame → next.globals = env.globals
  natives : next.natives = env.natives
  context : next.context = env.context
  clock : next.world.clock = env.world.clock
  heap : env.heap.Changes tame next.heap

theorem Env.Changes.of_eq {tame : Prop} {env next : Env} (same : next = env) :
    env.Changes tame next := by
  subst same
  exact ⟨fun _ => rfl, rfl, rfl, rfl, .same⟩

theorem Env.Changes.withHeap {tame : Prop} {env : Env} {h : Heap}
    (changes : env.heap.Changes tame h) : env.Changes tame (env.withHeap h) :=
  ⟨fun _ => rfl, rfl, rfl, rfl, changes⟩

theorem Value.setMember_changes {h next : Heap} {v value : Value} {name : String}
    (written : setMember h v name value = .ok next) : h.Changes False next := by
  cases v with
  | object r =>
    cases written
    exact .field id _ _ _
  | _ => cases written

theorem Value.setIndex_changes {h next : Heap} {v index value : Value}
    (written : setIndex h v index value = .ok next) : h.Changes False next := by
  unfold setIndex at written
  dsimp only at written
  split at written
  · split at written
    · split at written
      · cases written
        exact .update id _ _
      · split at written
        · cases written
          exact .update id _ _
        · cases written
    · cases written
  · exact setMember_changes written
  · cases written

namespace Machine

variable {tame : Prop} {env : Env} {m : Machine}

theorem heapOrThrow_changes (wild : ¬ tame) {result : Except ErrorInfo Heap}
    (changes : ∀ h, result = .ok h → env.heap.Changes False h) :
    env.Changes tame (m.heapOrThrow env result).env := by
  cases result with
  | ok h => exact .withHeap ((changes h rfl).mono fun still => wild still)
  | error e => exact .of_eq (throwInfo_env _ _ _)

theorem callNative_changes (natives : env.natives.Change) {name : String}
    (still : tame → name ≠ "push") (slot : Nat) :
    env.Changes tame (m.callNative env slot name).env := by
  cases found : env.natives.get? name with
  | none =>
    rw [callNative, found]
    exact .of_eq (throwInfo_env _ _ _)
  | some native =>
    rw [callNative_some found, answer_env]
    obtain ⟨context, clock, heap⟩ := natives name native found
    exact ⟨fun _ => rfl, rfl, context _ _ _, clock _ _ _, (heap _ _ _).mono still⟩

theorem callValue_changes (natives : env.natives.Change) {argc : Nat}
    (still : tame → m.callee? argc ≠ some (.native "push")) :
    env.Changes tame (m.callValue env argc).env := by
  unfold callee? at still
  unfold callValue
  dsimp only
  split
  · exact .of_eq rfl
  · split
    · exact .of_eq rfl
    · exact .of_eq (enter_env _ _ _ _)
    · rename_i name callee
      refine callNative_changes natives (fun tamed => ?_) _
      rintro rfl
      exact still tamed callee
    · exact .of_eq (throwInfo_env _ _ _)

theorem execute_changes (natives : env.natives.Change) (function : String) (pc base : Nat)
    {i : Instr} (still : tame → i.isTame m = true) :
    env.Changes tame (m.execute env function pc base i).env := by
  have alone {s : Stepped} (same : s.env = env) : env.Changes tame s.env := .of_eq same
  cases i with
  | call argc => exact callValue_changes natives fun tamed => of_decide_eq_true (still tamed)
  | setGlobal name =>
    unfold execute
    dsimp only
    split
    · exact .of_eq rfl
    · exact ⟨fun tamed => absurd (still tamed) Bool.false_ne_true, rfl, rfl, rfl, .same⟩
  | makeList n =>
    unfold execute
    dsimp only
    split
    · exact .of_eq rfl
    · exact .withHeap (.list _)
  | makeObject keys =>
    unfold execute
    dsimp only
    split
    · exact .of_eq rfl
    · exact .withHeap (.object _)
  | setMember name =>
    unfold execute
    dsimp only
    split
    · exact .of_eq rfl
    · split
      · exact .of_eq rfl
      · exact heapOrThrow_changes (fun tamed => Bool.false_ne_true (still tamed))
          fun h written => Value.setMember_changes written
  | setIndex =>
    unfold execute
    dsimp only
    split
    · exact .of_eq rfl
    · split
      · exact .of_eq rfl
      · split
        · exact .of_eq rfl
        · exact heapOrThrow_changes (fun tamed => Bool.false_ne_true (still tamed))
            fun h written => Value.setIndex_changes written
  | _ =>
    apply alone
    unfold execute raiseError
    dsimp only
    repeat' split
    all_goals simp

/-- A step without writes only adds to the heap; every other one writes to one thing at most. -/
theorem step_changes (natives : env.natives.Change) (still : tame → m.isTame = true) :
    env.Changes tame (m.step env).env := by
  unfold step
  split
  · exact .of_eq rfl
  · rename_i running
    split
    · exact .of_eq rfl
    · rename_i frame callers frames
      split
      · exact .of_eq rfl
      · rename_i i at_pc
        refine execute_changes natives _ _ _ fun tamed => ?_
        have own := still tamed
        rw [isTame, frames, Bool.or_eq_true, or_iff_right running] at own
        simp only [at_pc, Option.all_some] at own
        cases i <;> exact own

end Machine

structure Env.Extends (env next : Env) : Prop where
  globals : next.globals = env.globals
  natives : next.natives = env.natives
  context : next.context = env.context
  clock : next.world.clock = env.world.clock
  heap : env.heap.Extends next.heap

structure Env.Grows (env next : Env) : Prop where
  natives : next.natives = env.natives
  context : next.context = env.context
  clock : next.world.clock = env.world.clock
  heap : env.heap.Grows next.heap

namespace Env

variable {env middle next : Env}

theorem Changes.grows {tame : Prop} (changes : env.Changes tame next) : env.Grows next :=
  ⟨changes.natives, changes.context, changes.clock, changes.heap.grows⟩

theorem Changes.extends {tame : Prop} (changes : env.Changes tame next) (still : tame) :
    env.Extends next :=
  ⟨changes.globals still, changes.natives, changes.context, changes.clock,
    changes.heap.extends still⟩

theorem Grows.trans (first : env.Grows middle) (second : middle.Grows next) : env.Grows next :=
  ⟨second.natives.trans first.natives, second.context.trans first.context,
    second.clock.trans first.clock, first.heap.trans second.heap⟩

theorem Extends.trans (first : env.Extends middle) (second : middle.Extends next) :
    env.Extends next :=
  ⟨second.globals.trans first.globals, second.natives.trans first.natives,
    second.context.trans first.context, second.clock.trans first.clock,
    first.heap.trans second.heap⟩

end Env

namespace Machine

variable {env : Env} {m : Machine} {fuel : Nat} {halt : Halt}

theorem step_grows (m : Machine) (natives : env.natives.Change) :
    env.Grows (m.step env).env := by
  have changes : env.Changes False (m.step env).env := step_changes natives False.elim
  exact changes.grows

theorem run_grows (natives : env.natives.Change) (run : m.run fuel env = some halt) :
    env.Grows halt.env := by
  induction fuel generalizing m env with
  | zero => cases run
  | succ fuel ih =>
    have first := step_grows m natives
    rw [Machine.run] at run
    generalize m.step env = s at run first
    obtain ⟨m', env', verdict⟩ := s
    cases verdict with
    | «continue» =>
      have natives' : env'.natives.Change := first.natives ▸ natives
      exact first.trans (ih natives' run)
    | lost => cases run
    | done | fault f =>
      cases run
      exact first

/-- A run whose steps are all tame extends the heap and leaves the globals alone. -/
theorem run_extends {s : Stepped} (natives : s.env.natives.Change) (goes : s.verdict = .continue)
    (tame : ∀ p ∈ s.states fuel, p.1.isTame = true) (run : s.machine.run fuel s.env = some halt) :
    s.env.Extends halt.env := by
  induction fuel generalizing s with
  | zero => cases run
  | succ fuel ih =>
    rw [Stepped.states, goes] at tame
    obtain ⟨tame_first, tame_rest⟩ := List.forall_mem_cons.mp tame
    have first : s.env.Extends (s.machine.step s.env).env :=
      (step_changes natives fun _ => tame_first).extends trivial
    rw [Machine.run] at run
    generalize s.machine.step s.env = next at run first tame_rest
    obtain ⟨m', env', verdict⟩ := next
    cases verdict with
    | «continue» =>
      have natives' : env'.natives.Change := first.natives ▸ natives
      exact first.trans (ih (s := ⟨m', env', .continue⟩) natives' rfl tame_rest run)
    | lost => cases run
    | done | fault f =>
      cases run
      exact first

end Machine
end FrameScript
