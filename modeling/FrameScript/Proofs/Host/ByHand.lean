import FrameScript.Proofs.Host.Lifecycle

/-!
# Resuming by hand

A tick takes the entry of a continuation out of its queue before it drives that. An
embedding program that drives a parked continuation itself does not: its machine is
still suspended, so it is filed once more, and the entry stays for good. From there on
the continuation has as many entries too many as it was resumed by hand.
-/

namespace FrameScript

/-- Entries of queues and continuations in flight against the resumptions by hand: one for
the continuation itself, if it is registered, and one for each of them. -/
structure Tallied (r : Registry) (qs : SuspensionQueues) (flight hands : List ContinuationId) :
    Prop where
  registered : ∀ id ∈ r.ids, (flight ++ qs.ids).count id = hands.count id + 1
  stale : ∀ id, id ∉ r.ids → (flight ++ qs.ids).count id ≤ hands.count id
  nodup : r.ids.Nodup
  bound : ∀ id ∈ r.ids, id.number ≤ r.lastNumber
  handed : ∀ id ∈ hands, id.number ≤ r.lastNumber
  parked : ∀ c ∈ r.entries, c.id ∉ flight → c.Parked qs ∧ c.pending = .nothing

namespace Tallied

variable {r : Registry} {qs : SuspensionQueues} {flight hands : List ContinuationId}

theorem empty : Tallied .empty .new [] [] where
  registered := by simp [Registry.empty, Registry.ids]
  stale := by simp [SuspensionQueues.new, SuspensionQueue.new, SuspensionQueues.ids,
    SuspensionQueue.ids]
  nodup := .nil
  bound := by simp [Registry.empty, Registry.ids]
  handed := by simp
  parked := by simp [Registry.empty]

theorem start (h : Tallied r qs [] hands) (entry : String) (args : List Value)
    (maxCallDepth : Nat) : Tallied (r.start entry args maxCallDepth) qs [r.nextId] hands := by
  have ids : (r.start entry args maxCallDepth).ids = r.ids ++ [r.nextId] := by
    simp [Registry.start, Registry.ids, Continuation.new]
  have fresh : r.nextId ∉ r.ids := by
    intro mem
    have small := h.bound _ mem
    simp only [Registry.nextId] at small
    omega
  have unhanded : hands.count r.nextId = 0 := by
    apply List.count_eq_zero.mpr
    intro mem
    have small := h.handed _ mem
    simp only [Registry.nextId] at small
    omega
  have unqueued : qs.ids.count r.nextId = 0 := by
    have few := h.stale _ fresh
    rw [unhanded] at few
    simpa using few
  constructor
  · intro id mem
    rw [ids] at mem
    rcases List.mem_append.mp mem with mem | mem
    · have apart : r.nextId ≠ id := fun same => fresh (same ▸ mem)
      simpa [List.count_cons, apart] using h.registered id mem
    · obtain rfl := List.mem_singleton.mp mem
      simp [unhanded, unqueued]
  · intro id gone
    rw [ids, List.mem_append, not_or] at gone
    have apart : r.nextId ≠ id := fun same => gone.2 (same ▸ List.mem_singleton_self _)
    simpa [List.count_cons, apart] using h.stale id gone.1
  · rw [ids]
    apply h.nodup.append (List.nodup_singleton _)
    simpa using fresh
  · intro id mem
    rw [ids] at mem
    rcases List.mem_append.mp mem with mem | mem
    · exact Nat.le_succ_of_le (h.bound id mem)
    · obtain rfl := List.mem_singleton.mp mem
      exact Nat.le_refl _
  · intro id mem
    exact Nat.le_succ_of_le (h.handed id mem)
  · intro c mem apart
    rcases List.mem_append.mp mem with mem | mem
    · exact h.parked c mem (by simp)
    · obtain rfl := List.mem_singleton.mp mem
      exact absurd (List.mem_singleton_self _) apart

theorem setPending (h : Tallied r qs flight hands) {c : Continuation} (mem : c.id ∈ flight) :
    Tallied (r.update c) qs flight hands where
  registered := by simpa using h.registered
  stale := by simpa using h.stale
  nodup := by simpa using h.nodup
  bound := by
    rw [Registry.ids_update]
    exact h.bound
  handed := h.handed
  parked := by
    intro d d_mem apart
    rcases Registry.mem_update d_mem with rfl | ⟨d_mem, -⟩
    · exact absurd mem apart
    · exact h.parked d d_mem apart

theorem park {c : Continuation} {mode : WakeMode} {wake : Number} {request : WakeRequest}
    (h : Tallied r qs (c.id :: flight) hands) (state : c.state = .suspended mode wake)
    (control : c.machine.control = .suspended request) (same : request.mode = mode)
    (pending : c.pending = .nothing) :
    Tallied (r.update c) (qs.push mode wake c.id) flight hands := by
  have counts (id : ContinuationId) :
      (flight ++ (qs.push mode wake c.id).ids).count id = (c.id :: flight ++ qs.ids).count id :=
    ((List.Perm.append_left flight (qs.ids_push mode wake c.id)).trans
      List.perm_middle).count_eq id
  have pushed : ∀ other, ∀ e ∈ (qs.get other).entries,
      e ∈ ((qs.push mode wake c.id).get other).entries := by
    intro other e mem
    rw [SuspensionQueues.push, SuspensionQueues.get_set]
    split
    · rename_i eq
      exact SuspensionQueue.mem_push.mpr (.inr (eq ▸ mem))
    · exact mem
  constructor
  · intro id mem
    rw [Registry.ids_update] at mem
    rw [counts]
    exact h.registered id mem
  · intro id gone
    rw [Registry.ids_update] at gone
    rw [counts]
    exact h.stale id gone
  · rw [Registry.ids_update]
    exact h.nodup
  · rw [Registry.ids_update]
    exact h.bound
  · exact h.handed
  · intro d d_mem apart
    rcases Registry.mem_update d_mem with rfl | ⟨d_mem, ne⟩
    · refine ⟨⟨mode, wake, request, state, ⟨⟨wake, (qs.get mode).filedCount, d.id⟩, ?_, rfl, rfl⟩,
        control, same⟩, pending⟩
      rw [SuspensionQueues.push, SuspensionQueues.get_set, if_pos rfl]
      exact SuspensionQueue.mem_push.mpr (.inl rfl)
    · obtain ⟨waits, rests⟩ := h.parked d d_mem (by simp [ne, apart])
      exact ⟨waits.mono fun other e mem _ => pushed other e mem, rests⟩

/-- A continuation in flight that ends is released; what else is filed for it is stale. -/
theorem release {id : ContinuationId} (h : Tallied r qs (id :: flight) hands)
    (mem : id ∈ r.ids) : Tallied (r.release id) qs flight hands := by
  constructor
  · intro other stays
    rw [Registry.ids_release] at stays
    obtain ⟨stays, apart⟩ := List.mem_filter.mp stays
    have apart : id ≠ other := (of_decide_eq_true apart).symm
    simpa [List.count_cons, apart] using h.registered other stays
  · intro other gone
    rw [Registry.ids_release, List.mem_filter, not_and] at gone
    by_cases same : other = id
    · subst same
      have all := h.registered other mem
      simp only [List.cons_append, List.count_cons_self] at all
      omega
    · have apart : id ≠ other := fun eq => same eq.symm
      have unregistered : other ∉ r.ids := fun stays => gone stays (by simpa using same)
      simpa [List.count_cons, apart] using h.stale other unregistered
  · rw [Registry.ids_release]
    exact h.nodup.filter _
  · intro other stays
    rw [Registry.ids_release] at stays
    exact h.bound other (List.mem_of_mem_filter stays)
  · exact h.handed
  · intro c c_mem apart
    obtain ⟨c_mem, ne⟩ := List.mem_filter.mp c_mem
    exact h.parked c c_mem (by simpa [apart] using ne)

/-- What is released for a continuation that has ended changes nothing. -/
theorem skip {id : ContinuationId} (h : Tallied r qs (id :: flight) hands) (gone : id ∉ r.ids) :
    Tallied r qs flight hands := by
  constructor
  · intro other mem
    have apart : id ≠ other := fun same => gone (same ▸ mem)
    simpa [List.count_cons, apart] using h.registered other mem
  · intro other unregistered
    have few := h.stale other unregistered
    rw [List.cons_append, List.count_cons] at few
    omega
  · exact h.nodup
  · exact h.bound
  · exact h.handed
  · intro c mem apart
    refine h.parked c mem ?_
    rw [List.mem_cons, not_or]
    exact ⟨fun same => gone (same ▸ List.mem_map_of_mem mem), apart⟩

theorem takeDue (h : Tallied r qs flight hands) (mode : WakeMode) (now : Number)
    (policy : DrainPolicy) :
    Tallied r (qs.set ((qs.get mode).takeDue now policy).2 mode)
      (flight ++ ((qs.get mode).takeDue now policy).1) hands := by
  obtain ⟨released, entries, ids⟩ := (qs.get mode).takeDue_append now policy
  have all : (flight ++ ((qs.get mode).takeDue now policy).1 ++
      (qs.set ((qs.get mode).takeDue now policy).2 mode).ids).Perm (flight ++ qs.ids) := by
    rw [List.append_assoc]
    apply List.Perm.append_left
    apply SuspensionQueues.ids_set
    rw [← ids, SuspensionQueue.ids, SuspensionQueue.ids, ← List.map_append, ← entries]
  constructor
  · intro id mem
    rw [all.count_eq]
    exact h.registered id mem
  · intro id gone
    rw [all.count_eq]
    exact h.stale id gone
  · exact h.nodup
  · exact h.bound
  · exact h.handed
  · intro c mem apart
    rw [List.mem_append, not_or] at apart
    obtain ⟨waits, rests⟩ := h.parked c mem apart.1
    refine ⟨waits.mono ?_, rests⟩
    intro other e queued own
    rw [SuspensionQueues.get_set]
    split
    · rename_i same
      subst same
      rw [entries] at queued
      refine (List.mem_append.mp queued).resolve_left fun out => apart.2 ?_
      rw [← ids, ← own]
      exact List.mem_map_of_mem out
    · exact queued

/-- A continuation that is resumed by hand is in flight beside its entries. -/
theorem hand {id : ContinuationId} (h : Tallied r qs [] hands) (mem : id ∈ r.ids) :
    Tallied r qs [id] (id :: hands) := by
  constructor
  · intro other stays
    have all := h.registered other stays
    simp only [List.nil_append, List.cons_append, List.count_cons] at all ⊢
    omega
  · intro other gone
    have few := h.stale other gone
    simp only [List.nil_append, List.cons_append, List.count_cons] at few ⊢
    omega
  · exact h.nodup
  · exact h.bound
  · intro other handed
    rcases List.mem_cons.mp handed with rfl | handed
    · exact h.bound other mem
    · exact h.handed other handed
  · intro c c_mem _
    exact h.parked c c_mem (by simp)

end Tallied

namespace Host

variable {fuel : Nat} {host next : Host} {id : ContinuationId} {flight hands : List ContinuationId}

/-- The tally of a host while some continuations are in flight. -/
def Tallies (host : Host) (flight hands : List ContinuationId) : Prop :=
  Tallied host.registry host.queues flight hands

theorem settle_tallies {c : Continuation} {machine : Machine} {ending : RunEnd}
    (h : host.Tallies (c.id :: flight) hands) (mem : c.id ∈ host.registry.ids)
    (control : ∀ request, ending = .suspended request → machine.control = .suspended request) :
    (host.settle c machine ending).2.Tallies flight hands := by
  cases ending with
  | suspended request =>
    let parked : Continuation := { c with
      machine, pending := .nothing
      state := .suspended request.mode (request.wakeValue host.readings) }
    have waiting : Tallied host.registry host.queues (parked.id :: flight) hands := h
    exact waiting.park rfl (control request rfl) rfl rfl
  | returned v => exact Tallied.release h mem
  | threw info traceback | faulted fault dump =>
    have ended := Tallied.release h mem
    simpa [Tallies, settle, Host.release] using ended

theorem resumeState_unregistered (gone : id ∉ host.registry.ids) :
    resumeState fuel host id = some (.unregistered id, host.log .warn LogTarget.scheduler
      "resume of unregistered continuation ignored") := by
  cases found : host.registry.get? id with
  | none =>
    rw [resumeState, found]
    rfl
  | some c =>
    obtain ⟨mem, rfl⟩ := Registry.get?_eq_some found
    exact absurd (List.mem_map_of_mem mem) gone

theorem resumeState_tallies {result : Outcome × Host} (h : host.Tallies (id :: flight) hands)
    (run : resumeState fuel host id = some result) : result.2.Tallies flight hands := by
  by_cases mem : id ∈ host.registry.ids
  · obtain ⟨c, found⟩ := Registry.exists_get? mem
    obtain ⟨-, rfl⟩ := Registry.get?_eq_some found
    simp only [resumeState, found, Option.bind_eq_bind, Option.bind_eq_some_iff,
      Option.some.injEq] at run
    obtain ⟨halt, -, ending, ended, rfl⟩ := run
    have ran : (host.withEnv halt.env).Tallies (c.id :: flight) hands := h
    apply settle_tallies ran mem
    intro request same
    exact control_of_ofHalt? (same ▸ ended)
  · rw [resumeState_unregistered mem] at run
    cases run
    exact Tallied.skip h mem

theorem setPending_tallies (v : Value) (h : host.Tallies flight hands) (mem : id ∈ flight) :
    (host.setPending id v).Tallies flight hands := by
  unfold setPending
  split
  · rename_i c found
    obtain ⟨-, rfl⟩ := Registry.get?_eq_some found
    exact Tallied.setPending h mem
  · exact h

theorem resumeAll_tallies {due : List (ContinuationId × Number)}
    {result : List (ContinuationId × Outcome) × Host} (h : host.Tallies (due.map (·.1)) hands)
    (run : resumeAll fuel host due = some result) : result.2.Tallies [] hands := by
  induction due generalizing host result with
  | nil =>
    cases run
    exact h
  | cons first rest ih =>
    obtain ⟨id, now⟩ := first
    simp only [resumeAll, Option.bind_eq_bind, Option.bind_eq_some_iff, Option.some.injEq] at run
    obtain ⟨⟨outcome, middle⟩, driven, ⟨outcomes, last⟩, others, rfl⟩ := run
    have settled : middle.Tallies (rest.map (·.1)) hands :=
      resumeState_tallies (setPending_tallies _ h (by simp)) driven
    have rested : (outcomes, last).2.Tallies [] hands := ih settled others
    exact rested

theorem takeDue_tallies {modes : List WakeMode} (h : host.Tallies flight hands) :
    (host.takeDue modes).2.Tallies (flight ++ (host.takeDue modes).1.map (·.1)) hands := by
  induction modes generalizing host flight with
  | nil => simpa [takeDue] using h
  | cons mode rest ih =>
    let released := (host.queues.get mode).takeDue (host.readings.reading mode) host.policy
    let middle := { host with queues := host.queues.set released.2 mode }
    have first : middle.Tallies (flight ++ released.1) hands := Tallied.takeDue h mode _ _
    simpa [takeDue, Function.comp_def, List.append_assoc] using ih first

theorem tick_tallies {result : TickReport × Host} (h : host.Tallies [] hands)
    (run : host.tick fuel = some result) : result.2.Tallies [] hands := by
  rw [tick_eq] at run
  obtain ⟨⟨resumed, last⟩, driven, rfl⟩ := Option.map_eq_some_iff.mp run
  have advanced : host.advanced.Tallies [] hands := h
  have in_flight : (host.advanced.takeDue WakeMode.all).2.Tallies
      ((host.advanced.takeDue WakeMode.all).1.map (·.1)) hands := takeDue_tallies advanced
  exact resumeAll_tallies in_flight driven

theorem call_tallies {entry : String} {args : List Value} {result : Outcome × Host}
    (h : host.Tallies [] hands) (run : call fuel host entry args = some result) :
    result.2.Tallies [] hands := by
  unfold call at run
  split at run
  · have in_flight : (host.started entry args).Tallies [host.registry.nextId] hands :=
      Tallied.start h entry args _
    exact resumeState_tallies in_flight run
  · cases run
    simpa [Tallies, failLoad] using h

theorem perform?_tallies {op : HostOp} (h : host.Tallies [] hands)
    (run : host.perform? fuel op = some next) : next.Tallies [] hands := by
  cases op with
  | init =>
    cases run
    unfold Host.init
    split <;> exact h
  | runSource name text =>
    obtain ⟨result, ran, rfl⟩ := Option.map_eq_some_iff.1 run
    obtain ⟨registry, queues⟩ := runSource_frame ran
    simpa [Tallies, registry, queues] using h
  | runFile files path =>
    obtain ⟨result, ran, rfl⟩ := Option.map_eq_some_iff.1 run
    obtain ⟨registry, queues⟩ := runFile_frame ran
    simpa [Tallies, registry, queues] using h
  | call entry args =>
    obtain ⟨result, ran, rfl⟩ := Option.map_eq_some_iff.1 run
    exact call_tallies h ran
  | tick =>
    obtain ⟨result, ran, rfl⟩ := Option.map_eq_some_iff.1 run
    exact tick_tallies h ran
  | setGlobal name value | setClock clock | setHeap heap =>
    cases run
    exact h

/-- The hosts that operations and resumptions by hand lead to, with the continuations that were
registered when they were resumed by hand. -/
inductive Handled (start : Host) : List ContinuationId → Host → Prop
  | refl : Handled start [] start
  | step {hands : List ContinuationId} {host next : Host} (fuel : Nat) (op : HostOp) :
      Handled start hands host → host.perform? fuel op = some next → Handled start hands next
  | hand {hands : List ContinuationId} {host : Host} (fuel : Nat) (id : ContinuationId)
      {result : Outcome × Host} :
      Handled start hands host → resumeState fuel host id = some result →
        Handled start (if id ∈ host.registry.ids then id :: hands else hands) result.2

theorem Leads.handled {start : Host} (h : start.Leads host) : start.Handled [] host := by
  induction h with
  | refl => exact .refl
  | step fuel op _ run ih => exact ih.step fuel op run

theorem Handled.tallies {start : Host} (h : start.Handled hands host)
    (base : start.Tallies [] []) : host.Tallies [] hands := by
  induction h with
  | refl => exact base
  | step fuel op _ run ih => exact perform?_tallies ih run
  | hand fuel id _ run ih =>
    split
    · rename_i mem
      exact resumeState_tallies (Tallied.hand ih mem) run
    · rename_i gone
      rw [resumeState_unregistered gone] at run
      cases run
      exact ih

theorem run_suspended {m : Machine} {request : WakeRequest}
    (control : m.control = .suspended request) (env : Env) (fuel : Nat) :
    m.run (fuel + 1) env = some ⟨m, env, none⟩ := by
  have step : m.step env = ⟨m, env, .done⟩ := by
    simp [Machine.step, Machine.isRunning, control]
  rw [Machine.run, step]

/-- A parked continuation that is resumed by hand is filed once more, and nothing else happens. -/
theorem resumeState_parked {c : Continuation} {request : WakeRequest}
    (found : host.registry.get? c.id = some c) (pending : c.pending = .nothing)
    (control : c.machine.control = .suspended request) (fuel : Nat) :
    resumeState (fuel + 1) host c.id = some (.yielded, host.park c c.machine request) := by
  have drives : drive (fuel + 1) (host.env true) c = some ⟨c.machine, host.env true, none⟩ := by
    rw [drive, pending]
    exact run_suspended control _ fuel
  have ends : RunEnd.ofHalt? ⟨c.machine, host.env true, none⟩ = some (.suspended request) := by
    simp [RunEnd.ofHalt?, control]
  simp only [resumeState, found, drives, ends, Option.bind_eq_bind, Option.bind_some]
  rfl

/-- Whatever operations and resumptions by hand there were: a registered continuation has one entry
in the queues and one more for each time that it was resumed by hand, and one that has ended has at
most the latter. Each such resumption only files it once more, with the present reading. -/
theorem resumed_by_hand {policy : DrainPolicy} {maxCallDepth : Nat} {reporter : Reporter}
    {plugins : List Plugin} {hands : List ContinuationId} {host : Host}
    (handled : (Host.new policy maxCallDepth reporter plugins).Handled hands host) :
    (∀ id ∈ host.registry.ids, host.queues.ids.count id = hands.count id + 1) ∧
    (∀ id, id ∉ host.registry.ids → host.queues.ids.count id ≤ hands.count id) ∧
    (∀ c ∈ host.registry.entries, ∃ request, c.machine.control = .suspended request ∧
      ∀ fuel, resumeState (fuel + 1) host c.id = some (.yielded, host.park c c.machine request)) ∧
    ∀ fuel id, id ∉ host.registry.ids → ∃ next,
      resumeState fuel host id = some (.unregistered id, next) ∧
        next.registry = host.registry ∧ next.queues = host.queues := by
  have tallies : host.Tallies [] hands := handled.tallies Tallied.empty
  refine ⟨tallies.registered, tallies.stale, ?_, ?_⟩
  · intro c mem
    obtain ⟨⟨-, -, request, -, -, control, -⟩, pending⟩ := tallies.parked c mem (by simp)
    have found := Registry.get?_of_mem tallies.nodup mem
    exact ⟨request, control, resumeState_parked found pending control⟩
  · intro fuel id gone
    exact ⟨_, resumeState_unregistered gone, rfl, rfl⟩

/-- A call that waits for two frames and is resumed by hand has two entries. -/
theorem resumed_by_hand_once : ∃ host result,
    (Host.new .allDue 200 .collecting []).performAll? 10
      [.init, .call Natives.suspendName [.num (.ofNat 2)]] = some host ∧
    resumeState 10 host ⟨1⟩ = some result ∧ ⟨1⟩ ∈ result.2.registry.ids ∧
    result.2.queues.ids.count ⟨1⟩ = 2 := by
  have resumed : ((Host.new .allDue 200 .collecting []).performAll? 10
      [.init, .call Natives.suspendName [.num (.ofNat 2)]]).bind (fun host =>
        (resumeState 10 host ⟨1⟩).map fun result => (host.registry.ids, result.2.registry.ids)) =
      some ([⟨1⟩], [⟨1⟩]) := by decide +kernel
  obtain ⟨host, run, facts⟩ := Option.bind_eq_some_iff.1 resumed
  obtain ⟨result, drives, facts⟩ := Option.map_eq_some_iff.1 facts
  obtain ⟨before, after⟩ := Prod.mk.inj facts
  have handled := (Leads.refl.performAll? run).handled.hand 10 ⟨1⟩ drives
  rw [before, if_pos (List.mem_singleton_self _)] at handled
  have mem : (⟨1⟩ : ContinuationId) ∈ result.2.registry.ids := by
    rw [after]
    exact List.mem_singleton_self _
  obtain ⟨counts, -⟩ := resumed_by_hand handled
  exact ⟨host, result, run, drives, mem, counts ⟨1⟩ mem⟩

/-- When its time has come it is resumed twice in one tick, and the second time it has ended. -/
theorem resumed_by_hand_twice :
    (((Host.new .allDue 200 .collecting []).performAll? 10
      [.init, .call Natives.suspendName [.num (.ofNat 2)]]).bind fun host =>
        (resumeState 10 host ⟨1⟩).bind fun result => (result.2.performAll? 10 [.tick]).bind
          fun last => (last.tick 10).map fun ticked =>
            (result.1, result.2.queues.ids, ticked.1.resumed)) =
      some (.yielded, [⟨1⟩, ⟨1⟩],
        [(⟨1⟩, .finished (.num (.ofNat 2))), (⟨1⟩, .unregistered ⟨1⟩)]) := by
  decide +kernel

end Host
end FrameScript
