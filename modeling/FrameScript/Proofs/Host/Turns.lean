import FrameScript.Proofs.Host.Without

/-!
# Turns of hosts that differ by a continuation

What the hosts that differ by `b` do alike: they start calls, take what is due and drive the
continuations that both have. A turn of `b` itself is not seen in the host without it.
-/

namespace FrameScript

variable {e : Renaming} {b : ContinuationId}

/-- None of the new lists and objects of a heap is a place of the renaming. -/
structure Renaming.Omits (e : Renaming) (before after : Heap) : Prop where
  lists : ∀ i, ¬ (before.lists.size ≤ e.lists i ∧ e.lists i < after.lists.size)
  objects : ∀ i, ¬ (before.objects.size ≤ e.objects i ∧ e.objects i < after.objects.size)

theorem Heap.StandsIn.extend {h larger next : Heap} (stands : h.StandsIn e larger)
    (extended : larger.Extends next) (omits : e.Omits larger next) : h.StandsIn e next := by
  obtain ⟨⟨lists, more_lists⟩, ⟨objects, more_objects⟩, chunks⟩ := extended
  refine ⟨?_, ?_, chunks.trans stands.chunks⟩
  · rw [more_lists]
    apply stands.lists.append
    simpa [more_lists] using omits.lists
  · rw [more_objects]
    apply stands.objects.append
    simpa [more_objects] using omits.objects

namespace Host

/-- The host is like the other one, which has started `b` in addition. -/
structure Without (e : Renaming) (b : ContinuationId) (host larger : Host) : Prop where
  globals : larger.globals = host.globals.map (Value.rename e)
  world : host.world.StandsIn e larger.world
  registry : host.registry.Without e b larger.registry
  queues : ∀ mode, (host.queues.get mode).Without b (larger.queues.get mode)
  frame : larger.frame = host.frame
  library : host.natives = Natives.withSuspend
  natives : larger.natives = host.natives
  policy : host.policy = .allDue
  policy' : larger.policy = .allDue
  maxCallDepth : larger.maxCallDepth = host.maxCallDepth
  initialized : host.initialized = true
  initialized' : larger.initialized = true

variable {host larger : Host} {fuel : Nat} {id : ContinuationId}

theorem report_heap (host : Host) (r : ErrorReport) :
    (host.report r).world.heap = host.world.heap := by
  unfold report
  split <;> rfl

theorem setPending_heap (host : Host) (id : ContinuationId) (v : Value) :
    (host.setPending id v).world.heap = host.world.heap := by
  unfold setPending
  split <;> rfl

theorem settle_heap (host : Host) (c : Continuation) (m : Machine) (ending : RunEnd) :
    (host.settle c m ending).2.world.heap = host.world.heap := by
  cases ending with
  | suspended request => rfl
  | returned v => rfl
  | threw info traceback => exact report_heap _ _
  | faulted fault dump => exact report_heap _ _

theorem resumeState_some {c : Continuation} (found : host.registry.get? id = some c)
    {result : Outcome × Host} : resumeState fuel host id = some result ↔
      ∃ halt ending, drive fuel (host.env true) c = some halt ∧
        RunEnd.ofHalt? halt = some ending ∧
        (host.withEnv halt.env).settle c halt.machine ending = result := by
  simp only [resumeState, found, Option.bind_eq_bind, Option.bind_eq_some_iff, Option.some.injEq]
  constructor
  · rintro ⟨halt, drives, ending, ends, settles⟩
    exact ⟨halt, ending, drives, ends, settles⟩
  · rintro ⟨halt, ending, drives, ends, settles⟩
    exact ⟨halt, drives, ending, ends, settles⟩

namespace Without

theorem readings (w : host.Without e b larger) : larger.readings = host.readings := by
  rw [Host.readings, Host.readings, w.world.clock, w.frame]

theorem env (w : host.Without e b larger) (suspendable : Bool) :
    (host.env suspendable).StandsIn e (larger.env suspendable) :=
  ⟨w.globals, w.natives, by simp [Host.env, w.readings], w.world⟩

theorem withEnv (w : host.Without e b larger) {env env' : Env} (stands : env.StandsIn e env') :
    (host.withEnv env).Without e b (larger.withEnv env') :=
  { w with globals := stands.globals, world := stands.world }

theorem withRegistry (w : host.Without e b larger) {r r' : Registry}
    (registry : r.Without e b r') :
    ({ host with registry := r } : Host).Without e b { larger with registry := r' } :=
  { w with registry }

theorem withQueues (w : host.Without e b larger) {qs qs' : SuspensionQueues}
    (queues : ∀ mode, (qs.get mode).Without b (qs'.get mode)) :
    ({ host with queues := qs } : Host).Without e b { larger with queues := qs' } :=
  { w with queues }

theorem report_right (w : host.Without e b larger) (r : ErrorReport) :
    host.Without e b (larger.report r) := by
  unfold report
  split
  · exact { w with }
  · exact { w with world := ⟨w.world.heap, w.world.clock⟩ }

theorem report_left (w : host.Without e b larger) (r : ErrorReport) :
    (host.report r).Without e b larger := by
  unfold report
  split
  · exact { w with }
  · exact { w with world := ⟨w.world.heap, w.world.clock⟩ }

theorem push (w : host.Without e b larger) (mode : WakeMode) (wake : Number)
    (id : ContinuationId) (other : WakeMode) :
    ((host.queues.push mode wake id).get other).Without b
      ((larger.queues.push mode wake (id.past b)).get other) := by
  rw [SuspensionQueues.push, SuspensionQueues.push, SuspensionQueues.get_set,
    SuspensionQueues.get_set]
  split
  · exact (w.queues mode).push wake id
  · exact w.queues other

theorem push_own (w : host.Without e b larger) (mode : WakeMode) {wake : Number}
    (sound : wake ≠ .nan true) (other : WakeMode) :
    (host.queues.get other).Without b ((larger.queues.push mode wake b).get other) := by
  rw [SuspensionQueues.push, SuspensionQueues.get_set]
  split
  · rename_i same
    subst same
    exact (w.queues other).push_own sound
  · exact w.queues other

theorem settle (w : host.Without e b larger) (c : Continuation) (m : Machine) (ending : RunEnd) :
    (larger.settle (c.rename e b) (m.rename e) (ending.rename e)).1 =
        (host.settle c m ending).1.rename e ∧
      (host.settle c m ending).2.Without e b
        (larger.settle (c.rename e b) (m.rename e) (ending.rename e)).2 := by
  have released : (host.release c.id).Without e b (larger.release (c.rename e b).id) :=
    w.withRegistry (w.registry.release c.id)
  cases ending with
  | suspended request =>
    refine ⟨rfl, ?_⟩
    have parked := (w.withRegistry (w.registry.update { c with
      machine := m
      pending := .nothing
      state := .suspended request.mode (request.wakeValue host.readings) })).withQueues
        (w.push request.mode (request.wakeValue host.readings) c.id)
    simp only [Host.settle, RunEnd.rename, park, w.readings]
    exact parked
  | returned v => exact ⟨rfl, released⟩
  | threw info traceback => exact ⟨rfl, (released.report_right _).report_left _⟩
  | faulted fault dump => exact ⟨rfl, (released.report_right _).report_left _⟩

theorem setPending (w : host.Without e b larger) (id : ContinuationId) (v : Value) :
    (host.setPending id v).Without e b (larger.setPending (id.past b) (v.rename e)) := by
  unfold Host.setPending
  rw [w.registry.get? id]
  cases host.registry.get? id with
  | none => exact w
  | some c => exact w.withRegistry (w.registry.update { c with pending := .resume v })

theorem turn (w : host.Without e b larger) (registered : id.past b ∈ larger.registry.ids)
    {result' : Outcome × Host} (drives : resumeState fuel larger (id.past b) = some result')
    (covers : e.Covers larger.world.heap result'.2.world.heap) :
    ∃ result, resumeState fuel host id = some result ∧
      result'.1 = result.1.rename e ∧ result.2.Without e b result'.2 := by
  obtain ⟨c', found'⟩ := Registry.exists_get? registered
  have same := w.registry.get? id
  rw [found'] at same
  obtain ⟨c, found, rfl⟩ := Option.map_eq_some_iff.mp same.symm
  obtain ⟨halt', ending', drives', ends', rfl⟩ := (resumeState_some found').mp drives
  rw [settle_heap] at covers
  obtain ⟨halt, own_drives, stands⟩ := drive_stands (w.env true) w.library b drives' covers
  obtain ⟨ending, ends, rfl⟩ := RunEnd.ofHalt?_stands stands ends'
  rw [stands.machine]
  exact ⟨_, (resumeState_some found).mpr ⟨halt, ending, own_drives, ends, rfl⟩,
    (w.withEnv stands.env).settle c halt.machine ending⟩

theorem settle_own (w : host.Without e b larger) {c : Continuation} (own : c.id = b) (m : Machine)
    (ending : RunEnd) (sound : ∀ mode, ∀ x ∈ ((larger.settle c m ending).2.queues.get mode).entries,
      x.id = b → x.wake ≠ .nan true) :
    host.Without e b (larger.settle c m ending).2 := by
  subst own
  have released : host.Without e c.id (larger.release c.id) :=
    w.withRegistry w.registry.release_own
  cases ending with
  | suspended request =>
    have filed : request.wakeValue larger.readings ≠ .nan true := by
      apply sound request.mode ⟨_, (larger.queues.get request.mode).filedCount, c.id⟩ _ rfl
      simp only [Host.settle, park, SuspensionQueues.push, SuspensionQueues.get_set]
      exact SuspensionQueue.mem_push.mpr (.inl rfl)
    exact { w with
      registry := w.registry.update_own rfl
      queues := w.push_own request.mode filed }
  | returned v => exact released
  | threw info traceback => exact released.report_right _
  | faulted fault dump => exact released.report_right _

theorem setPending_own (w : host.Without e b larger) (v : Value) :
    host.Without e b (larger.setPending b v) := by
  unfold Host.setPending
  split
  · rename_i c found
    obtain ⟨-, own⟩ := Registry.get?_eq_some found
    exact w.withRegistry (w.registry.update_own own)
  · exact w

/-- A turn of `b` without writes is not seen in the host without it. -/
theorem own_turn (w : host.Without e b larger) {result : Outcome × Host}
    (drives : resumeState fuel larger b = some result)
    (tame : ∀ c, larger.registry.get? b = some c → c.Tame fuel (larger.env true))
    (omits : e.Omits larger.world.heap result.2.world.heap)
    (sound : ∀ mode, ∀ x ∈ (result.2.queues.get mode).entries, x.id = b → x.wake ≠ .nan true) :
    host.Without e b result.2 := by
  cases found : larger.registry.get? b with
  | none =>
    rw [resumeState, found] at drives
    cases drives
    exact { w with world := ⟨w.world.heap, w.world.clock⟩ }
  | some c =>
    obtain ⟨-, own⟩ := Registry.get?_eq_some found
    obtain ⟨halt, ending, own_drives, -, rfl⟩ := (resumeState_some found).mp drives
    rw [settle_heap] at omits
    have library : larger.natives = Natives.withSuspend := w.natives.trans w.library
    have change : larger.natives.Change := library ▸ Natives.withSuspend_change
    have extended := drive_extends change (tame c found) own_drives
    have middle : host.Without e b (larger.withEnv halt.env) := { w with
      globals := extended.globals.trans w.globals
      world := ⟨w.world.heap.extend extended.heap omits, extended.clock.trans w.world.clock⟩ }
    exact middle.settle_own own halt.machine ending sound

theorem started (w : host.Without e b larger) (entry : String) (args : List Value) :
    (host.started entry args).Without e b
      (larger.started entry (args.map (Value.rename e))) := by
  have registry : (host.registry.start entry args host.maxCallDepth).Without e b
      (larger.registry.start entry (args.map (Value.rename e)) larger.maxCallDepth) :=
    w.maxCallDepth ▸ w.registry.start entry args host.maxCallDepth
  exact { w with registry }

theorem advanced (w : host.Without e b larger) : host.advanced.Without e b larger.advanced :=
  { w with frame := congrArg (· + 1) w.frame }

/-- The same are due in both hosts, but for `b`. -/
theorem takeDue (w : host.Without e b larger) (modes : List WakeMode) :
    (larger.takeDue modes).1.filter (fun p => p.1 ≠ b) =
        (host.takeDue modes).1.map (fun p => (p.1.past b, p.2)) ∧
      (host.takeDue modes).2.Without e b (larger.takeDue modes).2 := by
  induction modes generalizing host larger with
  | nil => exact ⟨rfl, w⟩
  | cons mode rest ih =>
    let own := (host.queues.get mode).takeDue (host.readings.reading mode) host.policy
    let other := (larger.queues.get mode).takeDue (larger.readings.reading mode) larger.policy
    have taken : other.1.filter (· ≠ b) = own.1.map (·.past b) ∧ own.2.Without b other.2 := by
      simp only [own, other, w.policy, w.policy', w.readings]
      exact (w.queues mode).takeDue _
    have middle : ({ host with queues := host.queues.set own.2 mode } : Host).Without e b
        { larger with queues := larger.queues.set other.2 mode } := by
      apply w.withQueues
      intro another
      rw [SuspensionQueues.get_set, SuspensionQueues.get_set]
      split
      · exact taken.2
      · exact w.queues another
    obtain ⟨due, rests⟩ := ih middle
    refine ⟨?_, rests⟩
    have handed : (other.1.map (·, larger.readings.reading mode)).filter (fun p => p.1 ≠ b) =
        (own.1.map (·, host.readings.reading mode)).map (fun p => (p.1.past b, p.2)) := by
      rw [List.filter_map, List.map_map, w.readings]
      refine (congrArg (List.map (·, host.readings.reading mode)) taken.1).trans ?_
      rw [List.map_map]
      rfl
    rw [Host.takeDue, Host.takeDue]
    dsimp only
    rw [List.filter_append, List.map_append]
    exact congrArg₂ (· ++ ·) handed due

end Without
end Host
end FrameScript
