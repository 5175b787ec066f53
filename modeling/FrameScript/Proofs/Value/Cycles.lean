import FrameScript.Proofs.Machine.Safety
import FrameScript.Proofs.Value.Nesting
import Mathlib.Algebra.Order.BigOperators.Group.List
import Mathlib.Algebra.Order.Group.Nat
import Mathlib.Data.Fintype.Pigeonhole

/-!
# Values without a text

Lists and objects are references, so that a value can be among its own parts. A value has a text
and a JSON form just if it does not lead to a value that contains itself. Writes to lists and
objects are what makes such values: in a heap without any, a write makes one just if what is
written leads to the list or object that is written to.
-/

namespace FrameScript

open Relation (ReflTransGen TransGen)

namespace Value

def Contains (h : Heap) (v part : Value) : Prop := part ∈ v.parts h

/-- The value leads to one that contains itself. -/
def Cyclic (h : Heap) (v : Value) : Prop :=
  ∃ w, ReflTransGen (Contains h) v w ∧ TransGen (Contains h) w w

variable {h : Heap} {v w : Value} {depth : Nat}

theorem isSome_toJsonWithin (h : Heap) (depth : Nat) (v : Value) :
    (toJsonWithin h depth v).isSome ↔ (textWithin h depth v).isSome := by
  induction depth generalizing v with
  | zero => cases v <;> simp [toJsonWithin, textWithin]
  | succ depth ih =>
    rw [isSome_textWithin_succ]
    cases v with
    | list r =>
      simp only [toJsonWithin, Option.isSome_map, isSome_mapM, ih]
      rfl
    | object r =>
      simp only [toJsonWithin, Option.isSome_map, isSome_mapM, parts, List.forall_mem_map, ih]
    | _ => simp [toJsonWithin, parts]

theorem textWithin_zero (contains : Contains h v w) : textWithin h 0 v = none := by
  cases v with
  | list r | object r => rfl
  | _ => cases contains

theorem isSome_textWithin_mono {deeper : Nat} (more : depth ≤ deeper)
    (ends : (textWithin h depth v).isSome) : (textWithin h deeper v).isSome := by
  obtain ⟨text, eq⟩ := Option.isSome_iff_exists.mp ends
  simp [textWithin_le more eq]

theorem isSome_textWithin_of_leads (ends : (textWithin h depth v).isSome)
    (leads : ReflTransGen (Contains h) v w) : (textWithin h depth w).isSome := by
  induction leads with
  | refl => exact ends
  | @tail u w _ contains ih =>
    cases depth with
    | zero => simp [textWithin_zero contains] at ih
    | succ depth =>
      exact isSome_textWithin_mono (Nat.le_succ depth) (isSome_textWithin_succ.mp ih w contains)

/-- A value that contains itself has no text of any depth. -/
theorem textWithin_of_contained (depth : Nat) (self : TransGen (Contains h) v v) :
    textWithin h depth v = none := by
  obtain ⟨part, contains, back⟩ := TransGen.head'_iff.mp self
  induction depth with
  | zero => exact textWithin_zero contains
  | succ depth ih =>
    by_contra ends
    have inner := isSome_textWithin_succ.mp (Option.isSome_iff_ne_none.mpr ends) part contains
    have again := isSome_textWithin_of_leads inner back
    rw [ih] at again
    cases again

/-- The text has no depth. -/
def Endless (h : Heap) (v : Value) : Prop := ∀ depth, textWithin h depth v = none

theorem Endless.part (endless : v.Endless h) : ∃ part, Contains h v part ∧ part.Endless h := by
  by_contra none_endless
  have each : ∀ part, ∃ depth, Contains h v part → (textWithin h depth part).isSome := by
    intro part
    by_cases contains : Contains h v part
    · by_contra never
      refine none_endless ⟨part, contains, fun depth => ?_⟩
      by_contra ends
      exact never ⟨depth, fun _ => Option.isSome_iff_ne_none.mpr ends⟩
    · exact ⟨0, fun mem => absurd mem contains⟩
  choose depths ends using each
  have within : (textWithin h (((v.parts h).map depths).sum + 1) v).isSome := by
    refine isSome_textWithin_succ.mpr fun part contains => ?_
    refine isSome_textWithin_mono ?_ (ends part contains)
    exact List.le_sum_of_mem (List.mem_map_of_mem contains)
  rw [endless] at within
  cases within

theorem finite_stored (h : Heap) : Finite { v : Value // v.Stored h } :=
  .of_injective (fun v => (⟨v.1.place h, v.2.place_lt⟩ : Fin (h.lists.size + h.objects.size)))
    fun v w same => Subtype.ext (v.2.eq_of_place w.2 (Fin.mk.inj same))

/-- A value without a text leads from one such value to the next, and at last back. -/
theorem Endless.cyclic (endless : v.Endless h) : v.Cyclic h := by
  have goes_on : ∀ w : { w : Value // w.Endless h },
      ∃ part : { w : Value // w.Endless h }, Contains h w.1 part.1 := by
    rintro ⟨w, endless⟩
    obtain ⟨part, contains, endless'⟩ := endless.part
    exact ⟨⟨part, endless'⟩, contains⟩
  choose next contains using goes_on
  let walk (n : Nat) : Value := (next^[n] ⟨v, endless⟩).1
  have step (n : Nat) : Contains h (walk n) (walk (n + 1)) := by
    simp only [walk, Function.iterate_succ_apply']
    exact contains _
  have leads (n m : Nat) : ReflTransGen (Contains h) (walk n) (walk (n + m)) := by
    induction m with
    | zero => exact .refl
    | succ m ih => exact ih.tail (step (n + m))
  have finite := finite_stored h
  obtain ⟨i, j, apart, same⟩ := Finite.exists_ne_map_eq_of_infinite fun n =>
    (⟨walk n, stored_of_part (step n)⟩ : { v : Value // v.Stored h })
  have back : walk i = walk j := Subtype.mk.inj same
  -- The walk has come to the same place twice.
  have returns {i j : Nat} (less : i < j) (back : walk i = walk j) : v.Cyclic h := by
    obtain ⟨m, rfl⟩ := Nat.exists_eq_add_of_lt less
    refine ⟨walk i, ?_, ?_⟩
    · simpa [walk] using leads 0 i
    · have around := TransGen.tail' (leads i m) (step (i + m))
      rwa [← back] at around
  rcases Nat.lt_or_gt_of_ne apart with less | less
  · exact returns less back
  · exact returns less back.symm

theorem Cyclic.endless (cyclic : v.Cyclic h) : v.Endless h := by
  intro depth
  obtain ⟨w, leads, self⟩ := cyclic
  by_contra ends
  have inner := isSome_textWithin_of_leads (Option.isSome_iff_ne_none.mpr ends) leads
  rw [textWithin_of_contained depth self] at inner
  cases inner

/-- Within the bound there is a text if there is one at all. -/
theorem isSome_text? : (text? h v).isSome ↔ ¬ v.Cyclic h := by
  constructor
  · intro ends cyclic
    rw [text?, cyclic.endless] at ends
    cases ends
  · intro acyclic
    by_contra missing
    refine acyclic (Endless.cyclic fun depth => ?_)
    by_contra ends
    obtain ⟨text, eq⟩ := Option.ne_none_iff_exists'.mp ends
    exact missing (by rw [text?_of_textWithin eq]; rfl)

/-- Values have a text and a JSON form of some depth, which are found within the bound, and stand
for an error when they are thrown, just if they lead to no value that contains itself. The same is
needed for joining them with a text. -/
theorem written_iff_acyclic (h : Heap) (v : Value) :
    ((text? h v).isSome ↔ ¬ v.Cyclic h) ∧
    ((∃ depth, (textWithin h depth v).isSome) ↔ ¬ v.Cyclic h) ∧
    ((toJson? h v).isSome ↔ ¬ v.Cyclic h) ∧
    ((∃ depth, (toJsonWithin h depth v).isSome) ↔ ¬ v.Cyclic h) ∧
    ((thrownInfo? h v).isSome ↔ ¬ v.Cyclic h) ∧
    ∀ s, ((binary? h .add (.str s) v).isSome ↔ ¬ v.Cyclic h) ∧
      ((binary? h .add v (.str s)).isSome ↔ ¬ v.Cyclic h) := by
  have within : (∃ depth, (textWithin h depth v).isSome) ↔ ¬ v.Cyclic h := by
    refine ⟨fun ⟨depth, ends⟩ cyclic => ?_, fun acyclic => ⟨_, isSome_text?.mpr acyclic⟩⟩
    rw [cyclic.endless] at ends
    cases ends
  have str_text (s : String) : text? h (.str s) = some s := rfl
  refine ⟨isSome_text?, within, ?_, ?_, ?_, fun s => ⟨?_, ?_⟩⟩
  · rw [toJson?, isSome_toJsonWithin]
    exact isSome_text?
  · simpa only [isSome_toJsonWithin] using within
  · rw [← isSome_text?]
    cases v <;> simp [thrownInfo?, text?, textWithin]
  · rw [← isSome_text?]
    cases added : text? h v <;> simp [binary?, add?, isText, str_text, added]
  · rw [← isSome_text?]
    cases added : text? h v <;> cases v <;> simp_all [binary?, add?, isText]

end Value

/-- No value contains itself. -/
def Heap.Acyclic (h : Heap) : Prop := ∀ v : Value, ¬ v.Cyclic h

/-- One value is put into a list or an object, and nothing else is new. -/
structure Heap.Stores (container item : Value) (h next : Heap) : Prop where
  put : item ∈ container.parts next
  old : ∀ v ∈ container.parts next, v = item ∨ v ∈ container.parts h
  others : ∀ v : Value, v ≠ container → v.parts next = v.parts h

namespace Heap.Stores

open Value (Contains)

variable {h next : Heap} {container item v w : Value}

/-- A part after the write is the item that has been written, or was a part before. -/
theorem contains (s : h.Stores container item next) (contains : Contains next v w) :
    v = container ∧ w = item ∨ Contains h v w := by
  by_cases same : v = container
  · subst same
    rcases s.old w contains with new | old
    · exact .inl ⟨rfl, new⟩
    · exact .inr old
  · rw [Contains, s.others v same] at contains
    exact .inr contains

/-- What a value leads to after the write it has led to before, or it leads there by the item. -/
theorem leads (s : h.Stores container item next) (leads : ReflTransGen (Contains next) v w) :
    ReflTransGen (Contains h) v w ∨
      ReflTransGen (Contains h) v container ∧ ReflTransGen (Contains h) item w := by
  induction leads with
  | refl => exact .inl .refl
  | @tail u w _ contains ih =>
    rcases s.contains contains with ⟨rfl, rfl⟩ | old
    · rcases ih with before | ⟨before, -⟩
      · exact .inr ⟨before, .refl⟩
      · exact .inr ⟨before, .refl⟩
    · rcases ih with before | ⟨before, by_item⟩
      · exact .inl (before.tail old)
      · exact .inr ⟨before, by_item.tail old⟩

theorem leads_to (s : h.Stores container item next)
    (leads : ReflTransGen (Contains h) v container) :
    ReflTransGen (Contains next) v container := by
  induction leads using ReflTransGen.head_induction_on with
  | refl => exact .refl
  | @head u w contains _ ih =>
    by_cases same : u = container
    · rw [same]
    · rw [Contains, ← s.others u same] at contains
      exact .head contains ih

/-- A write makes a value that contains itself just if the item leads to where it is put. -/
theorem acyclic_iff (s : h.Stores container item next) (acyclic : h.Acyclic) :
    next.Acyclic ↔ ¬ ReflTransGen (Contains h) item container := by
  constructor
  · intro still leads
    exact still container ⟨container, .refl, .head' s.put (s.leads_to leads)⟩
  · rintro apart v ⟨w, -, self⟩
    obtain ⟨u, leads, last⟩ := TransGen.tail'_iff.mp self
    rcases s.contains last with ⟨rfl, rfl⟩ | old
    · rcases s.leads leads with before | ⟨before, -⟩
      · exact apart before
      · exact apart before
    · rcases s.leads leads with before | ⟨before, by_item⟩
      · exact acyclic w ⟨w, .refl, .tail' before old⟩
      · exact apart ((by_item.tail old).trans before)

end Heap.Stores

namespace Value

variable {h next : Heap} {v value : Value}

theorem updateList_stores {r : ListRef} (stored : r.slot < h.lists.size)
    {f : Array Value → Array Value} (put : value ∈ f (h.list r))
    (old : ∀ v ∈ f (h.list r), v = value ∨ v ∈ h.list r) :
    h.Stores (.list r) value (h.updateList r f) := by
  have changed : (h.updateList r f).list r = f (h.list r) := by
    simp [Heap.list, Heap.updateList, stored, Array.getElem_modify]
  refine ⟨?_, ?_, ?_⟩
  · rw [parts, changed]
    exact put.val
  · intro v mem
    rw [parts, changed] at mem
    simpa [parts] using old v ⟨mem⟩
  · intro w other
    cases w with
    | list x =>
      have apart : r.slot ≠ x.slot := fun same => other (by cases r; cases x; simp_all)
      simp [parts, Heap.list, Heap.updateList, Array.getElem?_modify, apart]
    | _ => rfl

theorem setField_stores {r : ObjectRef} (stored : r.slot < h.objects.size) (key : String)
    (value : Value) : h.Stores (.object r) value (h.setField r key value) := by
  have changed : (h.setField r key value).object r = (h.object r).insert key value := by
    simp [Heap.object, Heap.setField, stored, Array.getElem_modify]
  refine ⟨?_, ?_, ?_⟩
  · rw [parts, changed]
    have found : ((h.object r).insert key value).get? key = some value := by
      rw [Table.get?_insert, if_pos rfl]
    exact List.mem_map_of_mem (f := Prod.snd) (Table.mem_of_get? found)
  · intro v mem
    rw [parts, changed] at mem
    obtain ⟨entry, entered, rfl⟩ := List.mem_map.mp mem
    rcases Table.mem_insert entered with rfl | before
    · exact .inl rfl
    · exact .inr (List.mem_map_of_mem (f := Prod.snd) before)
  · intro w other
    cases w with
    | object x =>
      have apart : r.slot ≠ x.slot := fun same => other (by cases r; cases x; simp_all)
      simp [parts, Heap.object, Heap.setField, Array.getElem?_modify, apart]
    | _ => rfl

theorem setMember_stores (stored : v.Stored h) {name : String}
    (done : v.setMember h name value = .ok next) : h.Stores v value next := by
  cases v with
  | object r =>
    cases done
    exact setField_stores stored name value
  | list r => cases done
  | _ => cases stored

theorem setIndex_stores (stored : v.Stored h) {index : Value}
    (done : v.setIndex h index value = .ok next) : h.Stores v value next := by
  cases v with
  | list r =>
    cases index with
    | num x =>
      simp only [setIndex] at done
      split at done
      · rename_i i position
        split at done
        · rename_i inside
          cases done
          refine updateList_stores stored ?_ fun v mem => ?_
          · exact Array.mem_of_getElem? (i := i) (by simp [inside])
          · obtain ⟨j, bound, rfl⟩ := Array.getElem_of_mem mem
            have within : j < (h.list r).size := by simpa using bound
            rw [Array.getElem_setIfInBounds within]
            split
            · exact .inl rfl
            · exact .inr (Array.getElem_mem within)
        · split at done
          · cases done
            refine updateList_stores stored (by simp) fun v mem => ?_
            rcases Array.mem_push.mp mem with before | new
            · exact .inr before
            · exact .inl new
          · cases done
      · cases done
    | _ => cases done
  | object r =>
    cases index with
    | str key => exact setMember_stores stored done
    | _ => cases done
  | _ => cases stored

theorem push_stores {r : ListRef} {world : World} (stored : (list r).Stored world.heap)
    (value : Value) (context : NativeContext) :
    world.heap.Stores (.list r) value (Native.push context world [.list r, value]).world.heap := by
  refine updateList_stores stored (by simp) fun v mem => ?_
  rcases Array.mem_push.mp mem with before | new
  · exact .inr before
  · exact .inl new

end Value

/-- A function that puts a list into itself. -/
def selfContainingText : String := "function f() { let a = [] push(a, a) return a }"

theorem selfContaining_call : ∃ halt, runCall "self.cds" selfContainingText [] 20 = some halt ∧
    Reachable defaultMaxCallDepth halt.machine halt.env ∧
    halt.machine.control = .returned (.list ⟨0⟩) ∧
    halt.env.heap.list ⟨0⟩ = #[.list ⟨0⟩] := by
  have returns : (runCall "self.cds" selfContainingText [] 20).map (fun halt =>
      (halt.fault, halt.machine.control, halt.env.heap.list ⟨0⟩)) =
      some (none, .returned (.list ⟨0⟩), #[.list ⟨0⟩]) := by
    decide +kernel
  obtain ⟨halt, runs, ends⟩ := Option.map_eq_some_iff.mp returns
  simp only [Prod.mk.injEq] at ends
  obtain ⟨faultless, control, items⟩ := ends
  have reachable := reachable_of_runCall (by decide +kernel) (by decide +kernel) (by simp) runs
    faultless
  exact ⟨halt, runs, reachable, control, items⟩

/-- Not everything that a compiled function returns can be written as text or as JSON. -/
theorem returned_without_text : ¬ ∀ (m : Machine) (env : Env),
    Reachable defaultMaxCallDepth m env → ∀ v, m.control = .returned v →
      (Value.text? env.heap v).isSome ∧ (Value.toJson? env.heap v).isSome := by
  intro written
  obtain ⟨halt, -, reachable, control, items⟩ := selfContaining_call
  have contains : Value.Contains halt.env.heap (.list ⟨0⟩) (.list ⟨0⟩) := by
    simp [Value.Contains, Value.parts, items]
  obtain ⟨ends, -⟩ := written _ _ reachable _ control
  exact Value.isSome_text?.mp ends ⟨_, .refl, .single contains⟩

end FrameScript
