import FrameScript.Machine.Basic
import FrameScript.Value.Operators

/-!
# Known functions

A function value is known to a heap that holds its chunk. Operators, properties
and writes make no unknown functions from known values, and a heap in which
everything is known stays so.
-/

namespace FrameScript

namespace Table

variable {α : Type} {t : Table α}

theorem mem_of_lookup {key : String} {value : α} {l : List (String × α)}
    (h : lookup key l = some value) : (key, value) ∈ l := by
  induction l with
  | nil => cases h
  | cons e rest ih =>
    obtain ⟨k, v⟩ := e
    rw [lookup] at h
    split at h
    · rename_i same
      cases h
      subst same
      exact List.mem_cons_self
    · exact List.mem_cons_of_mem _ (ih h)

theorem mem_of_get? {key : String} {value : α} (h : t.get? key = some value) :
    (key, value) ∈ t.entries := mem_of_lookup h

theorem mem_insert {key : String} {value : α} {e : String × α}
    (h : e ∈ (t.insert key value).entries) : e = (key, value) ∨ e ∈ t.entries :=
  mem_insertEntry h

theorem mem_foldl_insert {l : List (String × α)} (t : Table α) {e : String × α}
    (h : e ∈ (l.foldl (fun t e => t.insert e.1 e.2) t).entries) : e ∈ l ∨ e ∈ t.entries := by
  induction l generalizing t with
  | nil => exact .inr h
  | cons first rest ih =>
    rcases ih (t.insert first.1 first.2) h with mem | mem
    · exact .inl (List.mem_cons_of_mem _ mem)
    · rcases mem_insert mem with rfl | mem
      · exact .inl List.mem_cons_self
      · exact .inr mem

theorem mem_ofList {l : List (String × α)} {e : String × α} (h : e ∈ (ofList l).entries) :
    e ∈ l := by
  rcases mem_foldl_insert empty h with mem | mem
  · exact mem
  · cases mem

end Table

/-- The heap holds the chunk of the value, if that is a function. -/
def Value.Known (h : Heap) : Value → Prop
  | .function r => r.slot < h.chunks.size
  | _ => True

/-- The chunks satisfy `ok`, and lists and objects hold known values. -/
structure Heap.Sound (ok : Chunk → Prop) (h : Heap) : Prop where
  chunks : ∀ c ∈ h.chunks, ok c
  lists : ∀ items ∈ h.lists, ∀ v ∈ items, v.Known h
  objects : ∀ fields ∈ h.objects, ∀ e ∈ fields.entries, e.2.Known h

theorem Value.Known.mono {h h' : Heap} (grown : h.chunks.size ≤ h'.chunks.size) {v : Value}
    (k : v.Known h) : v.Known h' := by
  cases v <;> try trivial
  case function r => exact Nat.lt_of_lt_of_le k grown

theorem Value.Known.of_chunks {h h' : Heap} (same : h'.chunks = h.chunks) {v : Value} :
    v.Known h' ↔ v.Known h := by
  cases v <;> simp [Value.Known, same]

namespace Heap.Sound

variable {ok : Chunk → Prop} {h : Heap}

theorem chunk (s : h.Sound ok) {r : FunctionRef} (known : (Value.function r).Known h) :
    ok (h.chunk r) := by
  have bound : r.slot < h.chunks.size := known
  rw [Heap.chunk, Array.getElem?_eq_getElem bound]
  exact s.chunks _ (Array.getElem_mem bound)

theorem list (s : h.Sound ok) (r : ListRef) : ∀ v ∈ h.list r, v.Known h := by
  intro v mem
  rw [Heap.list] at mem
  cases found : h.lists[r.slot]? with
  | none => simp [found] at mem
  | some items =>
    rw [found] at mem
    exact s.lists items (Array.mem_of_getElem? found) v mem

theorem object (s : h.Sound ok) (r : ObjectRef) : ∀ e ∈ (h.object r).entries, e.2.Known h := by
  intro e mem
  rw [Heap.object] at mem
  cases found : h.objects[r.slot]? with
  | none =>
    rw [found] at mem
    cases mem
  | some fields =>
    rw [found] at mem
    exact s.objects fields (Array.mem_of_getElem? found) e mem

theorem newList (s : h.Sound ok) {items : Array Value} (known : ∀ v ∈ items, v.Known h) :
    (h.newList items).1.Sound ok where
  chunks := s.chunks
  lists := by
    intro other mem v inside
    rcases Array.mem_push.mp mem with mem | rfl
    · exact s.lists other mem v inside
    · exact known v inside
  objects := s.objects

theorem newObject (s : h.Sound ok) {fields : Table Value}
    (known : ∀ e ∈ fields.entries, e.2.Known h) : (h.newObject fields).1.Sound ok where
  chunks := s.chunks
  lists := s.lists
  objects := by
    intro other mem e inside
    rcases Array.mem_push.mp mem with mem | rfl
    · exact s.objects other mem e inside
    · exact known e inside

theorem updateList (s : h.Sound ok) (r : ListRef) {f : Array Value → Array Value}
    (known : ∀ items : Array Value, (∀ v ∈ items, v.Known h) → ∀ v ∈ f items, v.Known h) :
    (h.updateList r f).Sound ok where
  chunks := s.chunks
  lists := by
    intro items mem v inside
    change v.Known h
    obtain ⟨i, bound, rfl⟩ := Array.mem_iff_getElem.mp mem
    have bound' : i < h.lists.size := by simpa [Heap.updateList] using bound
    have old := s.lists _ (Array.getElem_mem bound')
    simp only [Heap.updateList, Array.getElem_modify] at inside
    split at inside
    · exact known _ old v inside
    · exact old v inside
  objects := s.objects

theorem setField (s : h.Sound ok) (r : ObjectRef) (key : String) {value : Value}
    (known : value.Known h) : (h.setField r key value).Sound ok where
  chunks := s.chunks
  lists := s.lists
  objects := by
    intro fields mem e inside
    change e.2.Known h
    obtain ⟨i, bound, rfl⟩ := Array.mem_iff_getElem.mp mem
    have bound' : i < h.objects.size := by simpa [Heap.setField] using bound
    have old := s.objects _ (Array.getElem_mem bound')
    simp only [Heap.setField, Array.getElem_modify] at inside
    split at inside
    · rcases Table.mem_insert inside with rfl | inside
      · exact known
      · exact old e inside
    · exact old e inside

end Heap.Sound

namespace Value

variable {ok : Chunk → Prop} {h : Heap}

theorem unary_known {op : UnaryOp} {v w : Value} (eq : unary op v = .ok w) : w.Known h := by
  unfold unary at eq
  split at eq <;> cases eq <;> trivial

theorem arithmetic_known {verb : String} {f : Number → Number → Number} {left right w : Value}
    (eq : arithmetic verb f left right = .ok w) : w.Known h := by
  unfold arithmetic at eq
  split at eq <;> cases eq
  trivial

theorem compareWith_known {test : Ordering → Bool} {left right w : Value}
    (eq : compareWith test left right = .ok w) : w.Known h := by
  unfold compareWith at eq
  split at eq <;> cases eq <;> trivial

theorem add?_known {left right w : Value} (eq : add? h left right = some (.ok w)) :
    w.Known h := by
  unfold add? at eq
  split at eq
  · cases eq
    trivial
  · split at eq
    · split at eq <;> cases eq
      trivial
    · cases eq

theorem binary?_known {op : BinaryOp} {left right w : Value}
    (eq : binary? h op left right = some (.ok w)) : w.Known h := by
  cases op
  case add => exact add?_known eq
  case sub | mul | div | mod => exact arithmetic_known (Option.some.inj eq)
  case eq | ne =>
    cases eq
    trivial
  case lt | lte | gt | gte => exact compareWith_known (Option.some.inj eq)

theorem getMember_known (s : h.Sound ok) {v w : Value} {name : String}
    (eq : getMember h v name = .ok w) : w.Known h := by
  unfold getMember at eq
  dsimp only at eq
  split at eq
  · rename_i r
    split at eq
    · rename_i value found
      cases eq
      exact s.object r _ (Table.mem_of_get? found)
    · cases eq
  · split at eq
    · cases eq
      trivial
    · split at eq <;> cases eq
      trivial
  · split at eq <;> cases eq
    trivial
  · split at eq <;> cases eq
    trivial
  · cases eq

theorem getIndex_known (s : h.Sound ok) {v index w : Value} (eq : getIndex h v index = .ok w) :
    w.Known h := by
  unfold getIndex at eq
  split at eq
  · rename_i r x
    dsimp only at eq
    split at eq
    · rename_i value found
      cases eq
      obtain ⟨i, -, item⟩ := Option.bind_eq_some_iff.mp found
      exact s.list r _ (Array.mem_of_getElem? item)
    · cases eq
  · split at eq <;> cases eq
    trivial
  · exact getMember_known s eq
  · cases eq

/-- A write keeps the chunks, and what is known. -/
theorem setMember_sound (s : h.Sound ok) {v value : Value} {name : String} {h' : Heap}
    (known : value.Known h) (eq : setMember h v name value = .ok h') :
    h'.Sound ok ∧ h'.chunks = h.chunks := by
  unfold setMember at eq
  split at eq
  · cases eq
    exact ⟨s.setField _ _ known, rfl⟩
  · cases eq

theorem setIndex_sound (s : h.Sound ok) {v index value : Value} {h' : Heap}
    (known : value.Known h) (eq : setIndex h v index value = .ok h') :
    h'.Sound ok ∧ h'.chunks = h.chunks := by
  unfold setIndex at eq
  split at eq
  · rename_i r x
    dsimp only at eq
    split at eq
    · split at eq
      · cases eq
        refine ⟨s.updateList r ?_, rfl⟩
        intro items old w mem
        rcases Array.mem_or_eq_of_mem_setIfInBounds mem with mem | rfl
        · exact old w mem
        · exact known
      · split at eq
        · cases eq
          refine ⟨s.updateList r ?_, rfl⟩
          intro items old w mem
          rcases Array.mem_push.mp mem with mem | rfl
          · exact old w mem
          · exact known
        · cases eq
    · cases eq
  · exact setMember_sound s known eq
  · cases eq

end Value

/-- A native keeps the heap sound, and what it answers is known. -/
def Native.Behaves (ok : Chunk → Prop) (native : Native) : Prop :=
  ∀ context world args, world.heap.Sound ok → (∀ v ∈ args, v.Known world.heap) →
    (native context world args).world.heap.Sound ok ∧
    world.heap.chunks.size ≤ (native context world args).world.heap.chunks.size ∧
    ∀ v, (native context world args).result = .value v →
      v.Known (native context world args).world.heap

/-- The heap is sound, globals are known and natives behave. -/
structure Env.Sound (ok : Chunk → Prop) (env : Env) : Prop where
  heap : env.heap.Sound ok
  globals : ∀ e ∈ env.globals.entries, e.2.Known env.heap
  natives : ∀ e ∈ env.natives.entries, e.2.Behaves ok

theorem Env.Sound.withHeap {ok : Chunk → Prop} {env : Env} (s : env.Sound ok) {h : Heap}
    (sound : h.Sound ok) (grown : env.heap.chunks.size ≤ h.chunks.size) :
    (env.withHeap h).Sound ok where
  heap := sound
  globals := fun e mem => (s.globals e mem).mono grown
  natives := s.natives

end FrameScript
