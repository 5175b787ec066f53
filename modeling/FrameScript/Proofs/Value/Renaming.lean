import FrameScript.Proofs.Value.Nesting
import FrameScript.Value.Operators
import Mathlib.Order.Monotone.Basic

/-!
# Renamed references

A heap can stand in a larger one that has further lists and objects in between. A renaming says
where its lists and objects are there. What is read from the larger heap, and what operators make
of it, is what the smaller one has, renamed.
-/

namespace FrameScript

/-- The items of an array stand in another one, at places that a function tells. -/
def Array.StandsIn {α β : Type} (place : Nat → Nat) (f : α → β) (xs : Array α) (ys : Array β) :
    Prop :=
  ∀ i, ys[place i]? = xs[i]?.map f

namespace Array.StandsIn

variable {α β : Type} {place : Nat → Nat} {f : α → β} {xs : Array α} {ys : Array β}

theorem low_iff (h : StandsIn place f xs ys) (i : Nat) : place i < ys.size ↔ i < xs.size := by
  rw [← not_le, ← not_le, ← Array.getElem?_eq_none_iff, ← Array.getElem?_eq_none_iff, h i,
    Option.map_eq_none_iff]

/-- The next place of the one is the next place of the other, unless that is for something else. -/
theorem next (h : StandsIn place f xs ys) (mono : StrictMono place)
    (free : ∃ i, place i = ys.size) : place xs.size = ys.size := by
  obtain ⟨i, eq⟩ := free
  have high : xs.size ≤ i := by
    by_contra low
    have := (h.low_iff i).mpr (by omega)
    omega
  rcases Nat.lt_or_eq_of_le high with less | rfl
  · have below : place xs.size < ys.size := eq ▸ mono less
    exact absurd ((h.low_iff _).mp below) (Nat.lt_irrefl _)
  · exact eq

theorem push (h : StandsIn place f xs ys) (mono : StrictMono place)
    (free : place xs.size = ys.size) (x : α) : StandsIn place f (xs.push x) (ys.push (f x)) := by
  intro i
  rw [Array.getElem?_push, Array.getElem?_push, ← free]
  by_cases same : i = xs.size
  · subst same
    simp
  · have apart : place i ≠ place xs.size := fun eq => same (mono.injective eq)
    rw [if_neg apart, if_neg same, h i]

theorem modify (h : StandsIn place f xs ys) (mono : StrictMono place) (i : Nat) {k : α → α}
    {k' : β → β} (agree : ∀ x, k' (f x) = f (k x)) :
    StandsIn place f (xs.modify i k) (ys.modify (place i) k') := by
  intro j
  rw [Array.getElem?_modify, Array.getElem?_modify]
  by_cases same : i = j
  · subst same
    rw [if_pos rfl, if_pos rfl, h i]
    cases xs[i]? <;> simp [agree]
  · have apart : place i ≠ place j := fun eq => same (mono.injective eq)
    rw [if_neg apart, if_neg same, h j]

/-- Further items of the larger array, at places that nothing is renamed to. -/
theorem append (h : StandsIn place f xs ys) {zs : Array β}
    (apart : ∀ i, ¬ (ys.size ≤ place i ∧ place i < ys.size + zs.size)) :
    StandsIn place f xs (ys ++ zs) := by
  intro i
  rw [← h i]
  by_cases low : place i < ys.size
  · exact Array.getElem?_append_left low
  · have beyond := apart i
    have all : (ys ++ zs).size ≤ place i := by
      rw [Array.size_append]
      omega
    rw [Array.getElem?_eq_none all, Array.getElem?_eq_none (by omega)]

end Array.StandsIn

namespace Table

variable {α β : Type}

theorem map_insertEntry (f : α → β) (key : String) (value : α) (l : List (String × α)) :
    (insertEntry key value l).map (fun e => (e.1, f e.2)) =
      insertEntry key (f value) (l.map fun e => (e.1, f e.2)) := by
  induction l with
  | nil => rfl
  | cons head rest ih =>
    obtain ⟨k, v⟩ := head
    rw [insertEntry, List.map_cons, insertEntry]
    split
    · rfl
    · split
      · rfl
      · rw [List.map_cons, ih]

theorem ext_entries {s t : Table α} (same : s.entries = t.entries) : s = t := by
  cases s
  cases t
  cases same
  rfl

@[simp] theorem map_insert (f : α → β) (t : Table α) (key : String) (value : α) :
    (t.insert key value).map f = (t.map f).insert key (f value) :=
  ext_entries (map_insertEntry f key value t.entries)

@[simp] theorem map_empty (f : α → β) : (empty : Table α).map f = empty := rfl

@[simp] theorem map_ofList (f : α → β) (l : List (String × α)) :
    (ofList l).map f = ofList (l.map fun e => (e.1, f e.2)) := by
  have folded (t : Table α) : (l.foldl (fun t e => t.insert e.1 e.2) t).map f =
      (l.map fun e => (e.1, f e.2)).foldl (fun t e => t.insert e.1 e.2) (t.map f) := by
    induction l generalizing t with
    | nil => rfl
    | cons e rest ih =>
      rw [List.foldl_cons, ih, map_insert]
      rfl
  exact folded empty

@[simp] theorem keys_map (f : α → β) (t : Table α) : (t.map f).keys = t.keys := by
  simp [keys, map, Function.comp_def]

@[simp] theorem size_map (f : α → β) (t : Table α) : (t.map f).size = t.size := by
  simp [size, map]

end Table

/-- Where the lists and objects of a heap are in a larger one, in the same order. -/
structure Renaming where
  lists : Nat → Nat
  objects : Nat → Nat
  lists_mono : StrictMono lists
  objects_mono : StrictMono objects

namespace Value

def rename (e : Renaming) : Value → Value
  | list r => list ⟨e.lists r.slot⟩
  | object r => object ⟨e.objects r.slot⟩
  | v => v

variable (e : Renaming)

@[simp] theorem rename_list (r : ListRef) : (list r).rename e = list ⟨e.lists r.slot⟩ := rfl

@[simp] theorem rename_object (r : ObjectRef) :
    (object r).rename e = object ⟨e.objects r.slot⟩ := rfl

@[simp] theorem rename_null : null.rename e = null := rfl

@[simp] theorem rename_bool (b : Bool) : (bool b).rename e = bool b := rfl

@[simp] theorem rename_num (x : Number) : (num x).rename e = num x := rfl

@[simp] theorem rename_str (t : String) : (str t).rename e = str t := rfl

@[simp] theorem rename_function (r : FunctionRef) : (function r).rename e = function r := rfl

@[simp] theorem rename_native (name : String) : (native name).rename e = native name := rfl

@[simp] theorem rename_error (info : ErrorInfo) : (error info).rename e = error info := rfl

theorem rename_injective : Function.Injective (rename e) := by
  intro v w same
  cases v with
  | list r =>
    cases w with
    | list s =>
      have slots : r.slot = s.slot := e.lists_mono.injective (by simpa [rename] using same)
      cases r
      cases s
      cases slots
      rfl
    | _ => cases same
  | object r =>
    cases w with
    | object s =>
      have slots : r.slot = s.slot := e.objects_mono.injective (by simpa [rename] using same)
      cases r
      cases s
      cases slots
      rfl
    | _ => cases same
  | _ => cases w <;> first | exact same | cases same

@[simp] theorem isTruthy_rename (v : Value) : (v.rename e).isTruthy = v.isTruthy := by
  cases v <;> rfl

@[simp] theorem typeName_rename (v : Value) : (v.rename e).typeName = v.typeName := by
  cases v <;> rfl

@[simp] theorem isText_rename (v : Value) : (v.rename e).isText = v.isText := by
  cases v <;> rfl

/-- Two values are the same exactly if the renamed ones are. -/
@[simp] theorem equals_rename (v w : Value) :
    (v.rename e).equals (w.rename e) = v.equals w := by
  have same : decide (v.rename e = w.rename e) = decide (v = w) :=
    decide_eq_decide.mpr (rename_injective e).eq_iff
  cases v <;> cases w <;> first | exact same | rfl

end Value

def Instr.rename (e : Renaming) : Instr → Instr
  | push v => push (v.rename e)
  | i => i

def Chunk.rename (e : Renaming) (c : Chunk) : Chunk :=
  { c with code := c.code.map (Instr.rename e) }

theorem Chunk.rename_default (e : Renaming) : (default : Chunk).rename e = default := by
  have same : (default : Chunk).code.map (Instr.rename e) = #[] := Array.map_empty
  rw [Chunk.rename, same]
  rfl

/-- A heap stands in a larger one. -/
structure Heap.StandsIn (e : Renaming) (h larger : Heap) : Prop where
  lists : Array.StandsIn e.lists (·.map (Value.rename e)) h.lists larger.lists
  objects : Array.StandsIn e.objects (·.map (Value.rename e)) h.objects larger.objects
  chunks : larger.chunks = h.chunks.map (Chunk.rename e)

/-- The new lists and objects of a heap are places of the renaming. -/
structure Renaming.Covers (e : Renaming) (before after : Heap) : Prop where
  lists : ∀ place, before.lists.size ≤ place → place < after.lists.size → ∃ i, e.lists i = place
  objects : ∀ place, before.objects.size ≤ place → place < after.objects.size →
    ∃ i, e.objects i = place

namespace Heap.StandsIn

variable {e : Renaming} {h larger : Heap}

theorem list (s : h.StandsIn e larger) (r : ListRef) :
    larger.list ⟨e.lists r.slot⟩ = (h.list r).map (Value.rename e) := by
  rw [Heap.list, Heap.list, s.lists r.slot]
  cases h.lists[r.slot]? <;> simp

theorem object (s : h.StandsIn e larger) (r : ObjectRef) :
    larger.object ⟨e.objects r.slot⟩ = (h.object r).map (Value.rename e) := by
  rw [Heap.object, Heap.object, s.objects r.slot]
  cases h.objects[r.slot]? <;> simp

theorem chunk (s : h.StandsIn e larger) (r : FunctionRef) :
    larger.chunk r = (h.chunk r).rename e := by
  rw [Heap.chunk, Heap.chunk, s.chunks, Array.getElem?_map]
  cases h.chunks[r.slot]? <;> simp [Chunk.rename_default]

theorem newList (s : h.StandsIn e larger) (items : Array Value)
    (covers : e.Covers larger (larger.newList (items.map (Value.rename e))).1) :
    (h.newList items).1.StandsIn e (larger.newList (items.map (Value.rename e))).1 ∧
      (larger.newList (items.map (Value.rename e))).2 = (h.newList items).2.rename e := by
  have free : e.lists h.lists.size = larger.lists.size := by
    apply s.lists.next e.lists_mono
    apply covers.lists _ (Nat.le_refl _)
    simp [Heap.newList]
  constructor
  · exact ⟨s.lists.push e.lists_mono free items, s.objects, s.chunks⟩
  · simp [Heap.newList, Value.rename, free]

theorem newObject (s : h.StandsIn e larger) (fields : Table Value)
    (covers : e.Covers larger (larger.newObject (fields.map (Value.rename e))).1) :
    (h.newObject fields).1.StandsIn e (larger.newObject (fields.map (Value.rename e))).1 ∧
      (larger.newObject (fields.map (Value.rename e))).2 = (h.newObject fields).2.rename e := by
  have free : e.objects h.objects.size = larger.objects.size := by
    apply s.objects.next e.objects_mono
    apply covers.objects _ (Nat.le_refl _)
    simp [Heap.newObject]
  constructor
  · exact ⟨s.lists, s.objects.push e.objects_mono free fields, s.chunks⟩
  · simp [Heap.newObject, Value.rename, free]

theorem updateList (s : h.StandsIn e larger) (r : ListRef) {f f' : Array Value → Array Value}
    (agree : ∀ items, f' (items.map (Value.rename e)) = (f items).map (Value.rename e)) :
    (h.updateList r f).StandsIn e (larger.updateList ⟨e.lists r.slot⟩ f') :=
  ⟨s.lists.modify e.lists_mono r.slot agree, s.objects, s.chunks⟩

theorem setField (s : h.StandsIn e larger) (r : ObjectRef) (key : String) (v : Value) :
    (h.setField r key v).StandsIn e
      (larger.setField ⟨e.objects r.slot⟩ key (v.rename e)) :=
  ⟨s.lists, s.objects.modify e.objects_mono r.slot fun fields => by simp, s.chunks⟩

end Heap.StandsIn

namespace Value

variable {e : Renaming} {h larger : Heap} (s : h.StandsIn e larger)

include s

theorem textWithin_rename (depth : Nat) (v : Value) :
    textWithin larger depth (v.rename e) = textWithin h depth v := by
  induction depth generalizing v with
  | zero =>
    cases v with
    | function r => simp only [rename, textWithin, s.chunk, Chunk.rename]
    | _ => rfl
  | succ depth ih =>
    cases v with
    | list r =>
      rw [rename_list]
      simp only [textWithin, s.list, Array.toList_map, List.mapM_map, Function.comp_def, ih]
    | object r =>
      rw [rename_object]
      simp only [textWithin, s.object, Table.map, List.mapM_map, Function.comp_def, ih]
    | function r => simp only [rename, textWithin, s.chunk, Chunk.rename]
    | _ => rfl

/-- A text that the larger heap has is also found within the bound of the smaller one. -/
theorem text?_rename {v : Value} {text : String} (eq : text? larger (v.rename e) = some text) :
    text? h v = some text := by
  rw [text?, textWithin_rename s] at eq
  exact text?_of_textWithin eq

theorem thrownInfo?_rename {v : Value} {info : ErrorInfo}
    (eq : thrownInfo? larger (v.rename e) = some info) : thrownInfo? h v = some info := by
  cases v with
  | error own => exact eq
  | _ =>
    simp only [rename, thrownInfo?, Option.map_eq_some_iff] at eq ⊢
    obtain ⟨text, found, same⟩ := eq
    exact ⟨text, text?_rename s found, same⟩

omit s in
theorem unary_rename (op : UnaryOp) (v : Value) :
    unary op (v.rename e) = (unary op v).map (rename e) := by
  cases op <;> cases v <;> rfl

omit s in
theorem arithmetic_rename (verb : String) (f : Number → Number → Number) (v w : Value) :
    arithmetic verb f (v.rename e) (w.rename e) = (arithmetic verb f v w).map (rename e) := by
  cases v <;> cases w <;> rfl

omit s in
theorem compareWith_rename (test : Ordering → Bool) (v w : Value) :
    compareWith test (v.rename e) (w.rename e) = (compareWith test v w).map (rename e) := by
  cases v <;> cases w <;> rfl

omit s in
theorem add?_other {v w : Value} (other : ∀ x y, v = num x → w ≠ num y) :
    add? h v w =
      if v.isText || w.isText then
        match text? h v, text? h w with
        | some a, some b => some (.ok (str (a ++ b)))
        | _, _ => none
      else some (.error (arithmeticError "add" v w)) := by
  unfold add?
  split
  · rename_i x y
    exact absurd rfl (other x y rfl)
  · rfl

omit s in
theorem rename_eq_num {v : Value} {x : Number} : v.rename e = num x ↔ v = num x := by
  cases v <;> simp [rename]

theorem add?_rename {v w : Value} {result : Except ErrorInfo Value}
    (eq : add? larger (v.rename e) (w.rename e) = some result) :
    ∃ own, add? h v w = some own ∧ result = own.map (rename e) := by
  by_cases numbers : ∃ x y, v = num x ∧ w = num y
  · obtain ⟨x, y, rfl, rfl⟩ := numbers
    cases eq
    exact ⟨_, rfl, rfl⟩
  · have other (x y : Number) (left : v = num x) : w ≠ num y :=
      fun right => numbers ⟨x, y, left, right⟩
    have other' (x y : Number) (left : v.rename e = num x) : w.rename e ≠ num y :=
      fun right => other x y (rename_eq_num.mp left) (rename_eq_num.mp right)
    rw [add?_other other', isText_rename, isText_rename] at eq
    rw [add?_other other]
    split at eq
    · rename_i text
      rw [if_pos text]
      split at eq
      · rename_i a b left right
        cases eq
        rw [text?_rename s left, text?_rename s right]
        exact ⟨_, rfl, rfl⟩
      · cases eq
    · rename_i text
      cases eq
      rw [if_neg text]
      refine ⟨_, rfl, ?_⟩
      simp [arithmeticError, Except.map]

theorem binary?_rename {op : BinaryOp} {v w : Value} {result : Except ErrorInfo Value}
    (eq : binary? larger op (v.rename e) (w.rename e) = some result) :
    ∃ own, binary? h op v w = some own ∧ result = own.map (rename e) := by
  cases op with
  | add => exact add?_rename s eq
  | sub | mul | div | mod =>
    cases eq
    exact ⟨_, rfl, arithmetic_rename _ _ _ _⟩
  | lt | lte | gt | gte =>
    cases eq
    exact ⟨_, rfl, compareWith_rename _ _ _⟩
  | eq | ne =>
    cases eq
    refine ⟨_, rfl, ?_⟩
    rw [equals_rename]
    rfl

theorem getMember_rename (v : Value) (name : String) :
    getMember larger (v.rename e) name = (getMember h v name).map (rename e) := by
  cases v with
  | object r =>
    rw [rename_object, getMember, getMember]
    simp only [s.object, Table.get?_map]
    cases (h.object r).get? name <;> rfl
  | error info =>
    rw [rename_error]
    unfold getMember
    dsimp only
    split
    · rfl
    · split <;> rfl
  | list r =>
    rw [rename_list]
    unfold getMember
    dsimp only
    rw [s.list, Array.size_map]
    split <;> rfl
  | str t =>
    rw [rename_str]
    unfold getMember
    dsimp only
    split <;> rfl
  | _ => rfl

theorem getIndex_rename (v index : Value) :
    getIndex larger (v.rename e) (index.rename e) = (getIndex h v index).map (rename e) := by
  have other {v w : Value} (others : getIndex h v w = .error (indexTypeError v w))
      (others' : getIndex larger (v.rename e) (w.rename e) =
        .error (indexTypeError (v.rename e) (w.rename e))) :
      getIndex larger (v.rename e) (w.rename e) = (getIndex h v w).map (rename e) := by
    rw [others, others']
    simp [indexTypeError, Except.map]
  cases v with
  | list r =>
    cases index with
    | num x =>
      rw [rename_list, rename_num]
      unfold getIndex
      dsimp only
      rw [s.list, Array.size_map]
      cases position? x with
      | none => rfl
      | some i =>
        simp only [Option.bind_some, Array.getElem?_map]
        cases (h.list r)[i]? <;> rfl
    | _ => exact other rfl rfl
  | str t =>
    cases index with
    | num x =>
      rw [rename_str, rename_num]
      unfold getIndex
      dsimp only
      split <;> rfl
    | _ => exact other rfl rfl
  | object r =>
    cases index with
    | str key => exact getMember_rename s (object r) key
    | _ => exact other rfl rfl
  | _ => cases index <;> exact other rfl rfl

end Value

/-- Two heaps after a write, or the same error. -/
inductive Heap.Writes (e : Renaming) : Except ErrorInfo Heap → Except ErrorInfo Heap → Prop
  | ok {h larger : Heap} (stands : h.StandsIn e larger) : Writes e (.ok h) (.ok larger)
  | error (info : ErrorInfo) : Writes e (.error info) (.error info)

namespace Value

variable {e : Renaming} {h larger : Heap} (s : h.StandsIn e larger)

include s

theorem setMember_rename (v : Value) (name : String) (value : Value) :
    Heap.Writes e (setMember h v name value)
      (setMember larger (v.rename e) name (value.rename e)) := by
  cases v with
  | object r => exact .ok (s.setField r name value)
  | _ => exact .error _

theorem setIndex_rename (v index value : Value) :
    Heap.Writes e (setIndex h v index value)
      (setIndex larger (v.rename e) (index.rename e) (value.rename e)) := by
  have other {v w : Value} (others : setIndex h v w value = .error (indexTypeError v w))
      (others' : setIndex larger (v.rename e) (w.rename e) (value.rename e) =
        .error (indexTypeError (v.rename e) (w.rename e))) :
      Heap.Writes e (setIndex h v w value)
        (setIndex larger (v.rename e) (w.rename e) (value.rename e)) := by
    rw [others, others', indexTypeError, indexTypeError, typeName_rename, typeName_rename]
    exact .error _
  cases v with
  | list r =>
    cases index with
    | num x =>
      rw [rename_list, rename_num]
      unfold setIndex
      dsimp only
      rw [s.list, Array.size_map]
      cases position? x with
      | none => exact .error _
      | some i =>
        dsimp only
        split
        · exact .ok (s.updateList r fun items => by rw [Array.map_setIfInBounds])
        · split
          · exact .ok (s.updateList r fun items => by rw [Array.map_push])
          · exact .error _
    | _ => exact other rfl rfl
  | object r =>
    cases index with
    | str key => exact setMember_rename s (object r) key value
    | _ => exact other rfl rfl
  | _ => cases index <;> exact other rfl rfl

end Value
end FrameScript
