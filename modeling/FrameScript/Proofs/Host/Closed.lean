import FrameScript.Proofs.Host.Turns
import Mathlib.Order.WellFounded

/-!
# Hosts without dangling references

All references of a host are to lists and objects of its heap. A renaming that leaves these at
their places changes nothing in the host, so that a host which starts a continuation is at first
the same as the one that does not.
-/

namespace FrameScript

/-- The heap has what the value refers to. -/
def Value.Within (h : Heap) : Value → Prop
  | .list r => r.slot < h.lists.size
  | .object r => r.slot < h.objects.size
  | _ => True

instance (h : Heap) : DecidablePred (Value.Within h)
  | .list r => inferInstanceAs (Decidable (r.slot < h.lists.size))
  | .object r => inferInstanceAs (Decidable (r.slot < h.objects.size))
  | .null | .bool _ | .num _ | .str _ | .function _ | .native _ | .error _ => .isTrue trivial

def Instr.values : Instr → List Value
  | push v => [v]
  | _ => []

def Chunk.values (c : Chunk) : List Value := c.code.toList.flatMap Instr.values

def Control.values : Control → List Value
  | returned v | thrown v => [v]
  | _ => []

def Pending.values : Pending → List Value
  | start args => args
  | resume v => [v]
  | nothing => []

def Machine.values (m : Machine) : List Value :=
  m.stack.toList ++ m.frames.flatMap (fun f => f.chunk.values) ++ m.control.values

def Continuation.values (c : Continuation) : List Value := c.machine.values ++ c.pending.values

def Heap.values (h : Heap) : List Value :=
  h.lists.toList.flatMap (·.toList) ++ h.objects.toList.flatMap (fun o => o.entries.map (·.2)) ++
    h.chunks.toList.flatMap Chunk.values

def Host.values (host : Host) : List Value :=
  host.globals.entries.map (·.2) ++ host.world.heap.values ++
    host.registry.entries.flatMap Continuation.values

/-- No reference dangles. -/
def Host.Closed (host : Host) : Prop := ∀ v ∈ host.values, v.Within host.world.heap

instance (host : Host) : Decidable host.Closed :=
  inferInstanceAs (Decidable (∀ v ∈ host.values, v.Within host.world.heap))

structure Renaming.Fixes (e : Renaming) (h : Heap) : Prop where
  lists : ∀ i < h.lists.size, e.lists i = i
  objects : ∀ i < h.objects.size, e.objects i = i

section

variable {e : Renaming} {h : Heap}

theorem Value.Within.rename {v : Value} (within : v.Within h) (fixes : e.Fixes h) :
    v.rename e = v := by
  cases v with
  | list r =>
    rw [Value.rename_list, fixes.lists r.slot within]
  | object r =>
    rw [Value.rename_object, fixes.objects r.slot within]
  | _ => rfl

theorem Array.map_fixed {f : Value → Value} {values : Array Value}
    (fixed : ∀ v ∈ values.toList, f v = v) : values.map f = values := by
  rw [Array.map_congr_left fun v mem => fixed v (Array.mem_toList_iff.mpr mem)]
  exact Array.map_id _

theorem List.map_fixed {f : Value → Value} {values : List Value}
    (fixed : ∀ v ∈ values, f v = v) : values.map f = values :=
  (List.map_congr_left fixed).trans (List.map_id _)

theorem Table.map_fixed {f : Value → Value} {t : Table Value}
    (fixed : ∀ v ∈ t.entries.map (·.2), f v = v) : t.map f = t := by
  apply Table.ext_entries
  refine (List.map_congr_left fun entry mem => ?_).trans (List.map_id _)
  rw [fixed entry.2 (List.mem_map_of_mem mem)]
  rfl

theorem Chunk.rename_fixed {c : Chunk} (fixed : ∀ v ∈ c.values, v.rename e = v) :
    c.rename e = c := by
  have same (i : Instr) (mem : i ∈ c.code) : i.rename e = i := by
    have own (v : Value) (inside : v ∈ i.values) : v.rename e = v :=
      fixed v (List.mem_flatMap.mpr ⟨i, Array.mem_toList_iff.mpr mem, inside⟩)
    cases i with
    | push v => rw [Instr.rename, own v List.mem_cons_self]
    | _ => rfl
  have code : c.code.map (Instr.rename e) = c.code := by
    rw [Array.map_congr_left same]
    exact Array.map_id _
  rw [rename, code]

theorem Machine.rename_fixed {m : Machine} (fixed : ∀ v ∈ m.values, v.rename e = v) :
    m.rename e = m := by
  obtain ⟨frames, stack, handlers, control, traceback, limit⟩ := m
  simp only [values, List.mem_append, or_imp, forall_and] at fixed
  obtain ⟨⟨in_stack, in_frames⟩, in_control⟩ := fixed
  have frames_same : frames.map (Frame.rename e) = frames := by
    refine (List.map_congr_left fun f mem => ?_).trans (List.map_id _)
    rw [Frame.rename, Chunk.rename_fixed fun v inside =>
      in_frames v (List.mem_flatMap.mpr ⟨f, mem, inside⟩)]
    rfl
  have control_same : control.rename e = control := by
    cases control with
    | returned v | thrown v => rw [Control.rename, in_control v List.mem_cons_self]
    | _ => rfl
  rw [rename, frames_same, Array.map_fixed in_stack, control_same]

theorem Continuation.rename_fixed {c : Continuation} {b : ContinuationId}
    (fixed : ∀ v ∈ c.values, v.rename e = v) (earlier : c.id.number < b.number) :
    c.rename e b = c := by
  obtain ⟨id, entry, state, machine, pending⟩ := c
  simp only [values, List.mem_append, or_imp, forall_and] at fixed
  have pending_same : pending.rename e = pending := by
    cases pending with
    | start args => exact congrArg Pending.start (List.map_fixed fixed.2)
    | resume v => rw [Pending.rename, fixed.2 v List.mem_cons_self]
    | nothing => rfl
  rw [rename, Machine.rename_fixed fixed.1, pending_same]
  exact congrArg (fun own => (⟨own, entry, state, machine, pending⟩ : Continuation))
    (ContinuationId.past_of_lt earlier)

theorem Heap.standsIn_self (fixes : e.Fixes h) (fixed : ∀ v ∈ h.values, v.rename e = v) :
    h.StandsIn e h := by
  simp only [values, List.mem_append, or_imp, forall_and] at fixed
  obtain ⟨⟨in_lists, in_objects⟩, in_chunks⟩ := fixed
  refine ⟨fun i => ?_, fun i => ?_, ?_⟩
  · by_cases low : i < h.lists.size
    · rw [fixes.lists i low, Array.getElem?_eq_getElem low, Option.map_some, Array.map_fixed]
      intro v mem
      exact in_lists v (List.mem_flatMap.mpr
        ⟨_, Array.mem_toList_iff.mpr (Array.getElem_mem low), mem⟩)
    · have high : i ≤ e.lists i := StrictMono.le_apply e.lists_mono
      rw [Array.getElem?_eq_none (by omega), Array.getElem?_eq_none (by omega)]
      rfl
  · by_cases low : i < h.objects.size
    · rw [fixes.objects i low, Array.getElem?_eq_getElem low, Option.map_some, Table.map_fixed]
      intro v mem
      exact in_objects v (List.mem_flatMap.mpr
        ⟨_, Array.mem_toList_iff.mpr (Array.getElem_mem low), mem⟩)
    · have high : i ≤ e.objects i := StrictMono.le_apply e.objects_mono
      rw [Array.getElem?_eq_none (by omega), Array.getElem?_eq_none (by omega)]
      rfl
  · have same (c : Chunk) (mem : c ∈ h.chunks) : c.rename e = c :=
      Chunk.rename_fixed fun v inside =>
        in_chunks v (List.mem_flatMap.mpr ⟨c, Array.mem_toList_iff.mpr mem, inside⟩)
    rw [Array.map_congr_left same]
    exact (Array.map_id _).symm

end

namespace Host

variable {e : Renaming} {host : Host}

/-- A host that has just started a continuation differs from the one that has not by that. -/
theorem without_started (closed : host.Closed) (fixes : e.Fixes host.world.heap)
    (orderly : host.Orderly []) (ordered : host.QueuesOrdered) (policy : host.policy = .allDue)
    (initialized : host.initialized = true) (library : host.natives = Natives.withSuspend)
    (entry : String) (args : List Value) :
    host.Without e host.registry.nextId (host.started entry args) := by
  have fixed (v : Value) (mem : v ∈ host.values) : v.rename e = v := (closed v mem).rename fixes
  simp only [values, List.mem_append, or_imp, forall_and] at fixed
  obtain ⟨⟨in_globals, in_heap⟩, in_registry⟩ := fixed
  have earlier (id : ContinuationId) (mem : id ∈ host.registry.ids) :
      id.number < host.registry.nextId.number := Nat.lt_succ_of_le (orderly.bound id mem)
  have apart (id : ContinuationId) (mem : id ∈ host.registry.ids) : id ≠ host.registry.nextId := by
    rintro rfl
    exact absurd (earlier _ mem) (Nat.lt_irrefl _)
  refine ⟨?_, ?_, ⟨?_, rfl, Nat.le_refl _⟩, fun mode => ⟨?_, ordered mode, ordered mode, ?_⟩, rfl,
    library, rfl, policy, policy, rfl, initialized, initialized⟩
  · exact (Table.map_fixed in_globals).symm
  · exact ⟨Heap.standsIn_self fixes in_heap, rfl⟩
  · have dropped : [Continuation.new host.registry.nextId entry args host.maxCallDepth].filter
        (fun c => c.id ≠ host.registry.nextId) = [] := by simp [Continuation.new]
    have kept : host.registry.entries.filter (fun c => c.id ≠ host.registry.nextId) =
        host.registry.entries := by
      apply List.filter_eq_self.mpr
      intro c mem
      exact decide_eq_true (apart c.id (List.mem_map_of_mem mem))
    have same : host.registry.entries.map (Continuation.rename e host.registry.nextId) =
        host.registry.entries := by
      refine (List.map_congr_left fun c mem => ?_).trans (List.map_id _)
      exact Continuation.rename_fixed
        (fun v inside => in_registry v (List.mem_flatMap.mpr ⟨c, mem, inside⟩))
        (earlier c.id (List.mem_map_of_mem mem))
    rw [started, Registry.start, List.filter_append, dropped, kept, same, List.append_nil]
  · have kept : ((host.started entry args).queues.get mode).entries.filter
        (fun x => x.id ≠ host.registry.nextId) = (host.queues.get mode).entries := by
      apply List.filter_eq_self.mpr
      intro x mem
      exact decide_eq_true (apart x.id (orderly.mem_registry mem))
    rw [kept]
    apply List.forall₂_same.mpr
    intro x mem
    exact ⟨rfl, (ContinuationId.past_of_lt (earlier x.id (orderly.mem_registry mem))).symm⟩
  · intro x mem own
    exact absurd own (apart x.id (orderly.mem_registry mem))

end Host
end FrameScript
