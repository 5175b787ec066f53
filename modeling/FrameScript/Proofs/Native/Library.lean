import FrameScript.Native.Library
import FrameScript.Proofs.Value.Known

/-!
# The library behaves

No native of the standard library makes a function, and none puts an unknown one
into the heap.
-/

namespace FrameScript
namespace Native

variable {ok : Chunk → Prop}

theorem pure_behaves {f : NativeContext → List Value → NativeResult}
    (known : ∀ (h : Heap) context args v, (∀ a ∈ args, a.Known h) →
      f context args = .value v → v.Known h) : (pure f).Behaves ok :=
  fun context world args sound inside =>
    ⟨sound, Nat.le_refl _, fun v eq => known world.heap context args v inside eq⟩

theorem onHeap_behaves {f : NativeContext → Heap → List Value → Heap × NativeResult}
    (keeps : ∀ context (h : Heap) args, h.Sound ok → (∀ a ∈ args, a.Known h) →
      (f context h args).1.Sound ok ∧ (f context h args).1.chunks = h.chunks ∧
        ∀ v, (f context h args).2 = .value v → v.Known h) : (onHeap f).Behaves ok := by
  intro context world args sound inside
  obtain ⟨sound', same, known⟩ := keeps context world.heap args sound inside
  refine ⟨sound', Nat.le_of_eq (congrArg Array.size same.symm), fun v eq => ?_⟩
  exact (Value.Known.of_chunks same).mpr (known v eq)

theorem reading_behaves {f : NativeContext → Heap → List Value → Heap × NativeResult}
    (reads : ∀ context h args, (f context h args).1 = h)
    (known : ∀ context (h : Heap) args v, (f context h args).2 = .value v → v.Known h) :
    (onHeap f).Behaves ok := by
  refine onHeap_behaves fun context h args sound _ => ?_
  rw [reads]
  exact ⟨sound, rfl, known context h args⟩

theorem print_behaves : print.Behaves ok := by
  intro context world args sound _
  unfold print
  split
  · refine ⟨sound, Nat.le_refl _, fun v eq => ?_⟩
    cases eq
    trivial
  · refine ⟨sound, Nat.le_refl _, fun v eq => ?_⟩
    cases eq

theorem countError?_ne_value {args : List Value} {count : Nat} {name : String} {v : Value} :
    countError? args count name ≠ some (.value v) := by
  unfold countError?
  split <;> simp [fail]

theorem typeOf_behaves : typeOf.Behaves ok := by
  refine pure_behaves fun h context args v _ eq => ?_
  split at eq
  · cases eq
    trivial
  · subst eq
    rename_i found
    exact absurd found countError?_ne_value
  · cases eq
    trivial

theorem str_behaves : str.Behaves ok := by
  refine reading_behaves (fun context h args => ?_) (fun context h args v eq => ?_)
  · repeat' split
    all_goals rfl
  · split at eq
    · split at eq <;> cases eq
      trivial
    · rename_i found
      change _ = NativeResult.value v at eq
      subst eq
      exact absurd found countError?_ne_value
    · cases eq
      trivial

theorem length_known {h : Heap} {v w : Value} (eq : length h v = .value w) : w.Known h := by
  unfold length at eq
  split at eq <;> cases eq <;> trivial

theorem len_behaves : len.Behaves ok := by
  refine reading_behaves (fun context h args => ?_) (fun context h args v eq => ?_)
  · split <;> rfl
  · split at eq
    · exact length_known eq
    · rename_i found
      change _ = NativeResult.value v at eq
      subst eq
      exact absurd found countError?_ne_value
    · cases eq
      trivial

theorem push_behaves : push.Behaves ok := by
  refine onHeap_behaves fun context h args sound known => ?_
  split
  · rename_i r v rest _
    refine ⟨sound.updateList r ?_, rfl, fun w eq => ?_⟩
    · intro items old w mem
      rcases Array.mem_push.mp mem with mem | rfl
      · exact old w mem
      · exact known w (List.mem_cons_of_mem _ List.mem_cons_self)
    · cases eq
      trivial
  · refine ⟨sound, rfl, fun w eq => ?_⟩
    cases eq
  · rename_i found
    refine ⟨sound, rfl, fun w eq => ?_⟩
    change _ = NativeResult.value w at eq
    subst eq
    exact absurd found countError?_ne_value
  · refine ⟨sound, rfl, fun w eq => ?_⟩
    cases eq
    trivial

theorem keys_behaves : keys.Behaves ok := by
  refine onHeap_behaves fun context h args sound _ => ?_
  split
  · rename_i r rest _
    refine ⟨sound.newList ?_, rfl, fun w eq => ?_⟩
    · intro v mem
      obtain ⟨key, -, rfl⟩ := List.mem_map.mp (List.mem_toArray.mp mem)
      trivial
    · cases eq
      trivial
  · refine ⟨sound, rfl, fun w eq => ?_⟩
    cases eq
  · rename_i found
    refine ⟨sound, rfl, fun w eq => ?_⟩
    change _ = NativeResult.value w at eq
    subst eq
    exact absurd found countError?_ne_value
  · refine ⟨sound, rfl, fun w eq => ?_⟩
    cases eq
    trivial

theorem clock_behaves : clock.Behaves ok := by
  refine onHeap_behaves fun context h args sound _ => ⟨sound.newObject ?_, rfl, fun w eq => ?_⟩
  · intro e mem
    have listed := Table.mem_ofList mem
    simp only [List.mem_cons, List.not_mem_nil, or_false] at listed
    rcases listed with rfl | rfl | rfl <;> trivial
  · cases eq
    trivial

theorem numeric_behaves (name : String) (f : Number → Number) : (numeric name f).Behaves ok := by
  refine pure_behaves fun h context args v _ eq => ?_
  split at eq <;> cases eq
  trivial

theorem combineFrom_known {h : Heap} {name : String} {f : Number → Number → Number}
    {args : List Value} {index left : Nat} {acc : Number} {v : Value}
    (eq : combineFrom name f args index left acc = .value v) : v.Known h := by
  induction left generalizing index acc with
  | zero =>
    cases eq
    trivial
  | succ left ih =>
    rw [combineFrom] at eq
    split at eq
    · exact ih eq
    · cases eq

theorem combining_behaves (name : String) (f : Number → Number → Number) :
    (combining name f).Behaves ok := by
  refine pure_behaves fun h context args v _ eq => ?_
  split at eq
  · cases eq
  · split at eq
    · exact combineFrom_known eq
    · cases eq

theorem suspend_behaves : suspend.Behaves ok := by
  refine pure_behaves fun h context args v _ eq => ?_
  split at eq <;> cases eq

end Native

/-- Every native of the library behaves. -/
theorem Natives.withSuspend_behave {ok : Chunk → Prop} :
    ∀ e ∈ Natives.withSuspend.entries, e.2.Behaves ok := by
  intro e mem
  rcases Table.mem_insert mem with rfl | mem
  · exact Native.suspend_behaves
  · have listed := Table.mem_ofList mem
    simp only [List.mem_cons, List.not_mem_nil, or_false] at listed
    rcases listed with rfl | rfl | rfl | rfl | rfl | rfl | rfl | rfl | rfl | rfl | rfl | rfl |
      rfl | rfl
    · exact Native.print_behaves
    · exact Native.typeOf_behaves
    · exact Native.str_behaves
    · exact Native.len_behaves
    · exact Native.push_behaves
    · exact Native.keys_behaves
    · exact Native.clock_behaves
    all_goals first | exact Native.numeric_behaves _ _ | exact Native.combining_behaves _ _

/-- The heap is sound and the globals are known. -/
structure Natives.Bindings.Sound (ok : Chunk → Prop) (b : Natives.Bindings) : Prop where
  heap : b.heap.Sound ok
  globals : ∀ e ∈ b.globals.entries, e.2.Known b.heap

namespace Natives.Bindings.Sound

variable {ok : Chunk → Prop} {b : Natives.Bindings}

theorem bindOne (h : b.Sound ok) (name : String) : (Natives.bindOne b name).Sound ok := by
  unfold Natives.bindOne
  split
  · refine ⟨h.heap, fun e mem => ?_⟩
    rcases Table.mem_insert mem with rfl | mem
    · trivial
    · exact h.globals e mem
  · split
    · exact ⟨h.heap.setField _ _ trivial, h.globals⟩
    · refine ⟨h.heap.newObject fun e mem => ?_, fun e mem => ?_⟩
      · rcases Table.mem_insert mem with rfl | mem
        · trivial
        · cases mem
      · rcases Table.mem_insert mem with rfl | mem
        · trivial
        · exact h.globals e mem

theorem bind (h : b.Sound ok) (natives : Natives) : (natives.bind b).Sound ok := by
  unfold Natives.bind
  generalize natives.keys = names
  induction names generalizing b with
  | nil => exact h
  | cons name rest ih => exact ih (h.bindOne name)

end Natives.Bindings.Sound

theorem Natives.bindOne_chunks (b : Natives.Bindings) (name : String) :
    (Natives.bindOne b name).heap.chunks = b.heap.chunks := by
  unfold Natives.bindOne
  split
  · rfl
  · split <;> rfl

theorem Natives.bind_chunks (natives : Natives) (b : Natives.Bindings) :
    (natives.bind b).heap.chunks = b.heap.chunks := by
  unfold Natives.bind
  generalize natives.keys = names
  induction names generalizing b with
  | nil => rfl
  | cons name rest ih => rw [List.foldl_cons, ih, Natives.bindOne_chunks]

def Natives.Bindings.env (b : Natives.Bindings) (natives : Natives) : Env :=
  ⟨b.globals, natives, ⟨.zero, true⟩, ⟨b.heap, .zero, #[]⟩⟩

theorem Natives.Bindings.Sound.env {ok : Chunk → Prop} {b : Natives.Bindings} (h : b.Sound ok)
    {natives : Natives} (behave : ∀ e ∈ natives.entries, e.2.Behaves ok) :
    (b.env natives).Sound ok := ⟨h.heap, h.globals, behave⟩

/-- The library and these functions, which no global names. -/
def Env.ofFunctions (functions : List Chunk) : Env :=
  (Natives.withSuspend.bind ⟨⟨#[], #[], functions.toArray⟩, .empty⟩).env .withSuspend

theorem Env.ofFunctions_sound {ok : Chunk → Prop} {functions : List Chunk}
    (sourced : ∀ c ∈ functions, ok c) : (Env.ofFunctions functions).Sound ok := by
  have start : Natives.Bindings.Sound ok ⟨⟨#[], #[], functions.toArray⟩, .empty⟩ :=
    ⟨⟨by simpa using sourced, by simp, by simp⟩, by simp [Table.empty]⟩
  exact (start.bind Natives.withSuspend).env Natives.withSuspend_behave

theorem Env.ofFunctions_chunks (functions : List Chunk) :
    (Env.ofFunctions functions).heap.chunks = functions.toArray :=
  Natives.bind_chunks Natives.withSuspend ⟨⟨#[], #[], functions.toArray⟩, .empty⟩

end FrameScript
