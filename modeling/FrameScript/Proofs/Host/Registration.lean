import FrameScript.Proofs.Host.Operations
import Mathlib.Data.List.Perm.Basic
import Mathlib.Data.List.Nodup

/-!
# Registered continuations are queued ones

Between the operations of a host every live continuation is parked: it sits
once in the queue of the clock that it waits on, and nothing else is queued. A
tick breaks this in its middle, where the entries that it has released are in
no queue. The invariant therefore speaks of the continuations in flight; a
resumption takes one of them out, whatever way it ends.
-/

namespace FrameScript

def SuspensionQueue.ids (q : SuspensionQueue) : List ContinuationId := q.entries.map (·.id)

/-- The ids in all three queues, as often as they occur. -/
def SuspensionQueues.ids (qs : SuspensionQueues) : List ContinuationId :=
  qs.frame.ids ++ qs.simulation.ids ++ qs.real.ids

theorem SuspensionQueue.insertEntry_perm (e : QueueEntry) (l : List QueueEntry) :
    (insertEntry e l).Perm (e :: l) := by
  induction l with
  | nil => exact .refl _
  | cons first rest ih =>
    unfold insertEntry
    split
    · exact .refl _
    · exact (ih.cons first).trans (.swap e first rest)

theorem SuspensionQueue.ids_push (q : SuspensionQueue) (wake : Number) (id : ContinuationId) :
    (q.push wake id).ids.Perm (id :: q.ids) :=
  (insertEntry_perm _ _).map _

theorem SuspensionQueue.mem_push {q : SuspensionQueue} {wake : Number} {id : ContinuationId}
    {e : QueueEntry} :
    e ∈ (q.push wake id).entries ↔ e = ⟨wake, q.filedCount, id⟩ ∨ e ∈ q.entries := by
  rw [← List.mem_cons]
  exact (insertEntry_perm _ _).mem_iff

theorem SuspensionQueue.takeDue_append (q : SuspensionQueue) (now : Number)
    (policy : DrainPolicy) :
    ∃ released, q.entries = released ++ (q.takeDue now policy).2.entries ∧
      released.map (·.id) = (q.takeDue now policy).1 :=
  ⟨_, (List.take_append_drop _ _).symm, rfl⟩

namespace SuspensionQueues

theorem get_set (qs : SuspensionQueues) (q : SuspensionQueue) (mode other : WakeMode) :
    (qs.set q mode).get other = if other = mode then q else qs.get other := by
  cases mode <;> cases other <;> rfl

theorem ids_set {qs : SuspensionQueues} {q : SuspensionQueue} {mode : WakeMode}
    {left : List ContinuationId} (h : (left ++ q.ids).Perm (qs.get mode).ids) :
    (left ++ (qs.set q mode).ids).Perm qs.ids := by
  rw [List.perm_iff_count] at h ⊢
  intro id
  have := h id
  cases mode <;> simp only [set, get, ids, List.count_append] at this ⊢ <;> omega

theorem ids_push (qs : SuspensionQueues) (mode : WakeMode) (wake : Number)
    (id : ContinuationId) : (qs.push mode wake id).ids.Perm (id :: qs.ids) := by
  have h := SuspensionQueue.ids_push (qs.get mode) wake id
  rw [List.perm_iff_count] at h ⊢
  intro other
  have := h other
  cases mode <;> simp only [push, set, get, ids, List.count_append, List.count_cons] at this ⊢ <;>
    omega

theorem mem_ids {qs : SuspensionQueues} {mode : WakeMode} {e : QueueEntry}
    (mem : e ∈ (qs.get mode).entries) : e.id ∈ qs.ids := by
  have own : e.id ∈ (qs.get mode).ids := List.mem_map_of_mem mem
  cases mode <;> simp_all [ids, get]

end SuspensionQueues

namespace Registry

theorem get?_eq_some {r : Registry} {id : ContinuationId} {c : Continuation}
    (h : r.get? id = some c) : c ∈ r.entries ∧ c.id = id :=
  ⟨List.mem_of_find?_eq_some h, by simpa using List.find?_some h⟩

theorem exists_get? {r : Registry} {id : ContinuationId} (h : id ∈ r.ids) :
    ∃ c, r.get? id = some c := by
  obtain ⟨c, hc, rfl⟩ := List.mem_map.1 h
  exact Option.isSome_iff_exists.1 (List.find?_isSome.2 ⟨c, hc, by simp⟩)

theorem mem_ids_of_get? {r : Registry} {id : ContinuationId} {c : Continuation}
    (found : r.get? id = some c) : id ∈ r.ids := by
  obtain ⟨mem, rfl⟩ := get?_eq_some found
  exact List.mem_map_of_mem mem

theorem get?_of_mem {r : Registry} (nodup : r.ids.Nodup) {c : Continuation}
    (mem : c ∈ r.entries) : r.get? c.id = some c := by
  obtain ⟨d, found⟩ := exists_get? (List.mem_map_of_mem mem)
  obtain ⟨d_mem, own⟩ := get?_eq_some found
  have same : d = c := List.inj_on_of_nodup_map nodup d_mem mem own
  exact same ▸ found

@[simp] theorem ids_update (r : Registry) (c : Continuation) : (r.update c).ids = r.ids := by
  simp only [update, ids, List.map_map]
  refine List.map_congr_left fun d _ => ?_
  by_cases h : d.id = c.id <;> simp [h]

theorem mem_update {r : Registry} {c d : Continuation} (h : d ∈ (r.update c).entries) :
    d = c ∨ d ∈ r.entries ∧ d.id ≠ c.id := by
  obtain ⟨e, he, rfl⟩ := List.mem_map.1 h
  by_cases same : e.id = c.id
  · exact .inl (if_pos same)
  · rw [if_neg same]
    exact .inr ⟨he, same⟩

theorem ids_release (r : Registry) (id : ContinuationId) :
    (r.release id).ids = r.ids.filter (· ≠ id) := by
  simp [release, ids, List.filter_map, Function.comp_def]

theorem ids_perm_release {r : Registry} {id : ContinuationId} (nodup : r.ids.Nodup)
    (h : id ∈ r.ids) : r.ids.Perm (id :: (r.release id).ids) := by
  have erased : (r.release id).ids = r.ids.erase id := by
    rw [ids_release, nodup.erase_eq_filter]
    exact List.filter_congr fun other _ => by simp [bne, beq_eq_decide]
  rw [erased]
  exact List.perm_cons_erase h

end Registry

/-- A continuation that waits in the queue of its clock, with a machine that asked for that. -/
def Continuation.Parked (qs : SuspensionQueues) (c : Continuation) : Prop :=
  ∃ (mode : WakeMode) (wake : Number) (request : WakeRequest),
    c.state = .suspended mode wake ∧
    (∃ e ∈ (qs.get mode).entries, e.id = c.id ∧ e.wake = wake) ∧
    c.machine.control = .suspended request ∧ request.mode = mode

/-- The registered continuations are those in the queues and those in flight, and the
former are parked. -/
structure Filed (r : Registry) (qs : SuspensionQueues) (flight : List ContinuationId) : Prop where
  perm : (flight ++ qs.ids).Perm r.ids
  nodup : r.ids.Nodup
  bound : ∀ id ∈ r.ids, id.number ≤ r.lastNumber
  parked : ∀ c ∈ r.entries, c.id ∉ flight → c.Parked qs

theorem Continuation.Parked.isSuspended {qs : SuspensionQueues} {c : Continuation}
    (h : c.Parked qs) : c.machine.isSuspended = true := by
  obtain ⟨-, -, request, -, -, control, -⟩ := h
  simp [Machine.isSuspended, control]

theorem Continuation.Parked.mono {qs rest : SuspensionQueues} {c : Continuation}
    (h : c.Parked qs)
    (keep : ∀ mode, ∀ e ∈ (qs.get mode).entries, e.id = c.id → e ∈ (rest.get mode).entries) :
    c.Parked rest := by
  obtain ⟨mode, wake, request, state, ⟨e, he, id, rfl⟩, control, same⟩ := h
  exact ⟨mode, _, request, state, ⟨e, keep mode e he id, id, rfl⟩, control, same⟩

namespace Filed

variable {r : Registry} {qs : SuspensionQueues} {flight : List ContinuationId}

theorem empty : Filed .empty .new [] where
  perm := .refl _
  nodup := .nil
  bound := by simp [Registry.empty, Registry.ids]
  parked := by simp [Registry.empty]

theorem fresh (h : Filed r qs flight) : r.nextId ∉ r.ids := fun mem => by
  have small := h.bound _ mem
  simp only [Registry.nextId] at small
  omega

theorem start (h : Filed r qs []) (entry : String) (args : List Value) (maxCallDepth : Nat) :
    Filed (r.start entry args maxCallDepth) qs [r.nextId] := by
  have ids : (r.start entry args maxCallDepth).ids = r.ids ++ [r.nextId] := by
    simp [Registry.start, Registry.ids, Continuation.new]
  refine ⟨?_, ?_, ?_, ?_⟩
  · rw [ids]
    exact (h.perm.cons r.nextId).trans (List.perm_append_singleton _ _).symm
  · rw [ids]
    refine List.nodup_append.2 ⟨h.nodup, by simp, ?_⟩
    intro id hid other hother
    rw [List.mem_singleton.1 hother]
    exact fun same => h.fresh (same ▸ hid)
  · rw [ids]
    intro id hid
    rcases List.mem_append.1 hid with hid | hid
    · exact Nat.le_succ_of_le (h.bound id hid)
    · rw [List.mem_singleton.1 hid]
      exact Nat.le_refl _
  · intro c hc notFlight
    rcases List.mem_append.1 hc with hc | hc
    · exact h.parked c hc (by simp)
    · rw [List.mem_singleton.1 hc] at notFlight
      simp [Continuation.new] at notFlight

theorem setPending (h : Filed r qs flight) {c : Continuation} (hc : c.id ∈ flight) :
    Filed (r.update c) qs flight where
  perm := by simpa using h.perm
  nodup := by simpa using h.nodup
  bound := by
    rw [Registry.ids_update]
    exact h.bound
  parked d hd notFlight := by
    rcases Registry.mem_update hd with rfl | ⟨hd, -⟩
    · exact absurd hc notFlight
    · exact h.parked d hd notFlight

theorem park {c : Continuation} {mode : WakeMode} {wake : Number} {request : WakeRequest}
    (h : Filed r qs (c.id :: flight)) (state : c.state = .suspended mode wake)
    (control : c.machine.control = .suspended request) (same : request.mode = mode) :
    Filed (r.update c) (qs.push mode wake c.id) flight where
  perm := by
    rw [Registry.ids_update]
    refine (List.Perm.append_left _ (SuspensionQueues.ids_push _ _ _ _)).trans ?_
    exact List.perm_middle.trans h.perm
  nodup := by simpa using h.nodup
  bound := by
    rw [Registry.ids_update]
    exact h.bound
  parked d hd notFlight := by
    have pushed : ∀ other, ∀ e ∈ (qs.get other).entries,
        e ∈ ((qs.push mode wake c.id).get other).entries := by
      intro other e he
      rw [SuspensionQueues.push, SuspensionQueues.get_set]
      split
      case isTrue eq => exact SuspensionQueue.mem_push.2 (.inr (eq ▸ he))
      case isFalse => exact he
    rcases Registry.mem_update hd with rfl | ⟨hd, ne⟩
    · refine ⟨mode, wake, request, state, ⟨⟨wake, (qs.get mode).filedCount, d.id⟩, ?_, rfl, rfl⟩,
        control, same⟩
      rw [SuspensionQueues.push, SuspensionQueues.get_set, if_pos rfl]
      exact SuspensionQueue.mem_push.2 (.inl rfl)
    · exact (h.parked d hd (by simp [ne, notFlight])).mono fun other e he _ => pushed other e he

theorem release {id : ContinuationId} (h : Filed r qs (id :: flight)) :
    Filed (r.release id) qs flight where
  perm := by
    have hid : id ∈ r.ids := h.perm.subset (by simp)
    exact (h.perm.trans (Registry.ids_perm_release h.nodup hid)).cons_inv
  nodup := by
    rw [Registry.ids_release]
    exact h.nodup.filter _
  bound other hother := by
    rw [Registry.ids_release] at hother
    exact h.bound other (List.mem_of_mem_filter hother)
  parked c hc notFlight := by
    obtain ⟨hc, ne⟩ := List.mem_filter.1 hc
    exact h.parked c hc (by simpa [notFlight] using ne)

theorem takeDue (h : Filed r qs flight) (mode : WakeMode) (now : Number) (policy : DrainPolicy) :
    Filed r (qs.set ((qs.get mode).takeDue now policy).2 mode)
      (flight ++ ((qs.get mode).takeDue now policy).1) := by
  obtain ⟨released, entries, ids⟩ := (qs.get mode).takeDue_append now policy
  refine ⟨?_, h.nodup, h.bound, ?_⟩
  · rw [List.append_assoc]
    refine (List.Perm.append_left flight (SuspensionQueues.ids_set ?_)).trans h.perm
    rw [← ids, SuspensionQueue.ids, SuspensionQueue.ids, ← List.map_append, ← entries]
  · intro c hc notFlight
    rw [List.mem_append, not_or] at notFlight
    refine (h.parked c hc notFlight.1).mono fun other e he hid => ?_
    rw [SuspensionQueues.get_set]
    split
    case isFalse => exact he
    case isTrue eq =>
      subst eq
      rw [entries] at he
      refine (List.mem_append.1 he).resolve_left fun he => notFlight.2 ?_
      rw [← ids, ← hid]
      exact List.mem_map_of_mem he

end Filed

namespace Host

/-- The registration of a host while some continuations are in flight. -/
def Orderly (host : Host) (flight : List ContinuationId) : Prop :=
  Filed host.registry host.queues flight

/-- Driving a continuation in flight takes it out, however the drive ends. -/
theorem settle_orderly {host : Host} {flight : List ContinuationId} {c : Continuation}
    {machine : Machine} {ending : RunEnd} (h : host.Orderly (c.id :: flight))
    (control : ∀ request, ending = .suspended request → machine.control = .suspended request) :
    (host.settle c machine ending).2.Orderly flight := by
  cases ending with
  | suspended request =>
    let wake := request.wakeValue host.readings
    let parked : Continuation :=
      { c with machine, pending := .nothing, state := .suspended request.mode wake }
    have waiting : Filed host.registry host.queues (parked.id :: flight) := h
    exact waiting.park rfl (control request rfl) rfl
  | returned v => exact Filed.release h
  | threw info traceback =>
    simpa [Orderly, settle, Host.release] using Filed.release h
  | faulted fault dump =>
    simpa [Orderly, settle, Host.release] using Filed.release h

theorem control_of_ofHalt? {halt : Halt} {request : WakeRequest}
    (h : RunEnd.ofHalt? halt = some (.suspended request)) :
    halt.machine.control = .suspended request := by
  unfold RunEnd.ofHalt? at h
  split at h
  · simp at h
  · split at h
    · simp at h
    · simp at h
    · simp_all
    · simp at h

theorem resumeState_orderly {fuel : Nat} {host : Host} {flight : List ContinuationId}
    {id : ContinuationId} {result : Outcome × Host} (h : host.Orderly (id :: flight))
    (run : resumeState fuel host id = some result) : result.2.Orderly flight := by
  obtain ⟨c, hc⟩ : ∃ c, host.registry.get? id = some c :=
    Registry.exists_get? (h.perm.subset (by simp))
  obtain ⟨-, rfl⟩ := Registry.get?_eq_some hc
  unfold resumeState at run
  rw [hc] at run
  simp only [Option.bind_eq_bind, Option.bind_eq_some_iff, Option.some.injEq] at run
  obtain ⟨halt, -, ending, ended, rfl⟩ := run
  exact settle_orderly h fun request eq => control_of_ofHalt? (eq ▸ ended)

theorem setPending_orderly {host : Host} {flight : List ContinuationId} {id : ContinuationId}
    (v : Value) (h : host.Orderly flight) (hid : id ∈ flight) :
    (host.setPending id v).Orderly flight := by
  unfold setPending
  split
  case h_1 c hc =>
    obtain ⟨-, rfl⟩ := Registry.get?_eq_some hc
    exact Filed.setPending h hid
  case h_2 => exact h

/-- A tick brings down what it has released, one continuation after the other. -/
theorem resumeAll_orderly {fuel : Nat} {due : List (ContinuationId × Number)} {host : Host}
    {result : List (ContinuationId × Outcome) × Host} (h : host.Orderly (due.map (·.1)))
    (run : resumeAll fuel host due = some result) : result.2.Orderly [] := by
  induction due generalizing host result with
  | nil =>
    cases run
    exact h
  | cons first rest ih =>
    obtain ⟨id, now⟩ := first
    unfold resumeAll at run
    simp only [Option.bind_eq_bind, Option.bind_eq_some_iff, Option.some.injEq] at run
    obtain ⟨⟨outcome, next⟩, driven, ⟨outcomes, last⟩, others, rfl⟩ := run
    have settled : next.Orderly (rest.map (·.1)) :=
      resumeState_orderly (setPending_orderly _ h (by simp)) driven
    have finished : (outcomes, last).2.Orderly [] := ih settled others
    exact finished

theorem takeDue_orderly {modes : List WakeMode} {host : Host} {flight : List ContinuationId}
    (h : host.Orderly flight) :
    (host.takeDue modes).2.Orderly (flight ++ (host.takeDue modes).1.map (·.1)) := by
  induction modes generalizing host flight with
  | nil => simpa [takeDue] using h
  | cons mode rest ih =>
    let released := (host.queues.get mode).takeDue (host.readings.reading mode) host.policy
    let next := { host with queues := host.queues.set released.2 mode }
    have first : next.Orderly (flight ++ released.1) := Filed.takeDue h mode _ _
    simpa [takeDue, Function.comp_def, List.append_assoc] using ih first

theorem tick_orderly {fuel : Nat} {host : Host} {result : TickReport × Host}
    (h : host.Orderly []) (run : tick fuel host = some result) : result.2.Orderly [] := by
  unfold tick at run
  simp only [Option.bind_eq_bind, Option.bind_eq_some_iff, Option.some.injEq] at run
  obtain ⟨⟨resumed, last⟩, driven, rfl⟩ := run
  refine resumeAll_orderly ?_ driven
  have advanced : { host with frame := host.frame + 1 }.Orderly [] := h
  simpa using takeDue_orderly advanced

theorem call_orderly {fuel : Nat} {host : Host} {entry : String} {args : List Value}
    {result : Outcome × Host} (h : host.Orderly [])
    (run : call fuel host entry args = some result) : result.2.Orderly [] := by
  unfold call at run
  split at run
  · let started := { host with
      registry := host.registry.start entry args host.maxCallDepth
      lastContinuation := some host.registry.nextId }
    have inFlight : started.Orderly [host.registry.nextId] := Filed.start h entry args _
    exact resumeState_orderly inFlight run
  · cases run
    simpa [Orderly, failLoad] using h

theorem perform?_orderly {fuel : Nat} {host next : Host} {op : HostOp} (h : host.Orderly [])
    (run : host.perform? fuel op = some next) : next.Orderly [] := by
  cases op with
  | init =>
    cases run
    unfold Host.init
    split <;> exact h
  | runSource name text =>
    obtain ⟨result, ran, rfl⟩ := Option.map_eq_some_iff.1 run
    obtain ⟨registry, queues⟩ := runSource_frame ran
    simpa [Orderly, registry, queues] using h
  | runFile files path =>
    obtain ⟨result, ran, rfl⟩ := Option.map_eq_some_iff.1 run
    obtain ⟨registry, queues⟩ := runFile_frame ran
    simpa [Orderly, registry, queues] using h
  | call entry args =>
    obtain ⟨result, ran, rfl⟩ := Option.map_eq_some_iff.1 run
    exact call_orderly h ran
  | tick =>
    obtain ⟨result, ran, rfl⟩ := Option.map_eq_some_iff.1 run
    exact tick_orderly h ran
  | setGlobal name value =>
    cases run
    exact h
  | setClock clock =>
    cases run
    exact h
  | setHeap heap =>
    cases run
    exact h

theorem Leads.orderly {start host : Host} (h : start.Leads host) (base : start.Orderly []) :
    host.Orderly [] := by
  induction h with
  | refl => exact base
  | step fuel op _ run ih => exact perform?_orderly ih run

/-- After any history of a new host the queues hold exactly the registered continuations,
each once, and each waits for the clock and the value that its state tells. -/
theorem queued_perm_registered {policy : DrainPolicy} {maxCallDepth : Nat} {reporter : Reporter}
    {plugins : List Plugin} {host : Host}
    (h : (Host.new policy maxCallDepth reporter plugins).Leads host) :
    host.queues.ids.Perm host.registry.ids ∧ host.queues.ids.Nodup ∧
      (∀ c ∈ host.registry.entries, c.Parked host.queues) ∧
      ∀ id ∈ host.registry.ids, id.number ≤ host.registry.lastNumber := by
  have filed := h.orderly Filed.empty
  have perm : host.queues.ids.Perm host.registry.ids := filed.perm
  exact ⟨perm, perm.nodup_iff.2 filed.nodup, fun c hc => filed.parked c hc (by simp),
    filed.bound⟩

/-- A call that suspends itself for two frames is registered and queued after one tick. -/
theorem queued_perm_registered_waiting :
    ∃ host, (Host.new .allDue 200 .collecting []).performAll? 10
        [.init, .call Natives.suspendName [.num (Number.ofNat 2)], .tick] = some host ∧
      host.registry.ids = [⟨1⟩] ∧ host.queues.ids.Perm host.registry.ids ∧
      host.queues.ids.Nodup ∧ (∀ c ∈ host.registry.entries, c.Parked host.queues) ∧
      ∀ id ∈ host.registry.ids, id.number ≤ host.registry.lastNumber := by
  have waiting : ((Host.new .allDue 200 .collecting []).performAll? 10
      [.init, .call Natives.suspendName [.num (Number.ofNat 2)], .tick]).map
        (fun host => host.registry.ids) = some [⟨1⟩] := by decide +kernel
  obtain ⟨host, run, ids⟩ := Option.map_eq_some_iff.1 waiting
  exact ⟨host, run, ids, queued_perm_registered (Leads.refl.performAll? run)⟩

end Host
end FrameScript
