import FrameScript.Proofs.Host.Queues

/-!
# What a tick resumes

A tick resumes what is due when it inspects the queues, in the order of release and
each continuation once, whatever those before have come to. What it does not resume
stays queued.
-/

namespace FrameScript

theorem WakeMode.mem_all (mode : WakeMode) : mode ∈ WakeMode.all := by
  cases mode <;> decide

namespace Registry

variable {r : Registry} {id other : ContinuationId}

theorem get?_update_ne (apart : other ≠ id) {c : Continuation} (own : c.id = id) :
    (r.update c).get? other = r.get? other := by
  subst own
  simp only [get?, update]
  induction r.entries with
  | nil => rfl
  | cons d rest ih =>
    rw [List.map_cons, List.find?_cons, List.find?_cons, ih]
    by_cases same : d.id = c.id
    · simp [same, apart.symm]
    · simp [same]

theorem get?_update_self {c d : Continuation} (found : r.get? c.id = some d) :
    (r.update c).get? c.id = some c := by
  simp only [get?, update] at found ⊢
  generalize r.entries = entries at found
  induction entries with
  | nil => cases found
  | cons first rest ih =>
    rw [List.find?_cons] at found
    rw [List.map_cons, List.find?_cons]
    by_cases same : first.id = c.id
    · simp [same]
    · simp only [same, decide_false] at found
      simpa [same] using ih found

theorem get?_release_ne (apart : other ≠ id) : (r.release id).get? other = r.get? other := by
  rw [get?, release, List.find?_filter, get?]
  congr 1
  funext c
  by_cases same : c.id = other
  · simp [same, apart]
  · simp [same]

theorem get?_start_ne (apart : other ≠ r.nextId) (entry : String) (args : List Value)
    (maxCallDepth : Nat) : (r.start entry args maxCallDepth).get? other = r.get? other := by
  simp [get?, start, List.find?_append, Continuation.new, apart.symm]

theorem get?_start_self (fresh : r.nextId ∉ r.ids) (entry : String) (args : List Value)
    (maxCallDepth : Nat) : (r.start entry args maxCallDepth).get? r.nextId =
      some (.new r.nextId entry args maxCallDepth) := by
  have absent : r.entries.find? (fun c => c.id = r.nextId) = none := by
    rw [List.find?_eq_none]
    intro c mem same
    exact fresh (of_decide_eq_true same ▸ List.mem_map_of_mem mem)
  simp [get?, start, List.find?_append, absent, Continuation.new]

end Registry

namespace Host

def QueuesOrdered (host : Host) : Prop := ∀ mode, (host.queues.get mode).Ordered

/-- While some continuations are driven, what belongs to the others stays. -/
structure Keeps (ids : List ContinuationId) (host next : Host) : Prop where
  frame : next.frame = host.frame
  policy : next.policy = host.policy
  plugins : next.plugins = host.plugins
  natives : next.natives = host.natives ∨
    next.natives = host.plugins.foldl Plugin.register Natives.withSuspend
  others : ∀ other, other ∉ ids → next.registry.get? other = host.registry.get? other
  entries : ∀ mode, ∀ e ∈ (host.queues.get mode).entries, e ∈ (next.queues.get mode).entries
  added : ∀ mode, ∀ e ∈ (next.queues.get mode).entries,
    e ∈ (host.queues.get mode).entries ∨ e.id ∈ ids
  ordered : host.QueuesOrdered → next.QueuesOrdered

namespace Keeps

variable {ids ids' : List ContinuationId} {host middle next : Host}

theorem refl (ids : List ContinuationId) (host : Host) : Keeps ids host host :=
  ⟨rfl, rfl, rfl, .inl rfl, fun _ _ => rfl, fun _ _ mem => mem, fun _ _ mem => .inl mem, id⟩

theorem of_eq (frame : next.frame = host.frame) (policy : next.policy = host.policy)
    (plugins : next.plugins = host.plugins) (natives : next.natives = host.natives)
    (registry : next.registry = host.registry) (queues : next.queues = host.queues) :
    Keeps ids host next where
  frame := frame
  policy := policy
  plugins := plugins
  natives := .inl natives
  others _ _ := by rw [registry]
  entries mode e mem := queues ▸ mem
  added mode e mem := .inl (queues ▸ mem)
  ordered h mode := queues ▸ h mode

theorem of_registry (host : Host) {r : Registry}
    (others : ∀ other, other ∉ ids → r.get? other = host.registry.get? other) :
    Keeps ids host { host with registry := r } :=
  ⟨rfl, rfl, rfl, .inl rfl, others, fun _ _ mem => mem, fun _ _ mem => .inl mem, id⟩

theorem mono (h : Keeps ids host next) (more : ids ⊆ ids') : Keeps ids' host next :=
  { h with
    others := fun other apart => h.others other fun mem => apart (more mem)
    added := fun mode e mem => (h.added mode e mem).imp_right fun own => more own }

theorem trans (h : Keeps ids host middle) (k : Keeps ids' middle next) :
    Keeps (ids ++ ids') host next where
  frame := k.frame.trans h.frame
  policy := k.policy.trans h.policy
  plugins := k.plugins.trans h.plugins
  natives := by
    rcases k.natives with same | bound
    · exact same ▸ h.natives
    · exact .inr (h.plugins ▸ bound)
  others other apart := by
    rw [List.mem_append, not_or] at apart
    rw [k.others other apart.2, h.others other apart.1]
  entries mode e mem := k.entries mode e (h.entries mode e mem)
  added mode e mem := by
    rcases k.added mode e mem with mem | own
    · exact (h.added mode e mem).imp_right fun own => List.mem_append_left _ own
    · exact .inr (List.mem_append_right _ own)
  ordered := k.ordered ∘ h.ordered

end Keeps

variable {fuel : Nat} {host next : Host} {id : ContinuationId} {c : Continuation}

theorem withEnv_keeps (host : Host) (env : Env) : Keeps [] host (host.withEnv env) :=
  .of_eq rfl rfl rfl rfl rfl rfl

theorem report_keeps (host : Host) (r : ErrorReport) : Keeps [] host (host.report r) := by
  refine .of_eq ?_ ?_ ?_ ?_ ?_ ?_ <;> unfold report <;> split <;> rfl

theorem bindFunctions_keeps (host : Host) (chunks : List Chunk) :
    Keeps [] host (host.bindFunctions chunks) := by
  unfold bindFunctions
  induction chunks generalizing host with
  | nil => exact .refl [] host
  | cons chunk rest ih =>
    have first : Keeps [] host (host.bindFunctions [chunk]) :=
      .of_eq rfl rfl rfl rfl rfl rfl
    exact first.trans (ih _)

theorem settleTopLevel_keeps (host : Host) (ending : RunEnd) :
    Keeps [] host (host.settleTopLevel ending).2 := by
  cases ending with
  | returned v => exact .refl [] host
  | suspended request => exact .refl [] host
  | threw info traceback => exact report_keeps host _
  | faulted fault dump => exact report_keeps host _

theorem runSource_keeps {name text : String} {result : Outcome × Host}
    (run : runSource fuel host name text = some result) : Keeps [] host result.2 := by
  unfold runSource at run
  split at run
  · split at run
    · cases run
      exact report_keeps host _
    · unfold runCompiled at run
      simp only [Option.bind_eq_bind, Option.bind_eq_some_iff, Option.some.injEq] at run
      obtain ⟨halt, -, ending, -, rfl⟩ := run
      exact ((bindFunctions_keeps host _).trans (withEnv_keeps _ halt.env)).trans
        (settleTopLevel_keeps _ ending)
  · cases run
    exact report_keeps host _

theorem release_keeps (host : Host) (id : ContinuationId) : Keeps [id] host (host.release id) :=
  .of_registry host fun _ apart => Registry.get?_release_ne (by simpa using apart)

theorem park_keeps (host : Host) (c : Continuation) (machine : Machine) (request : WakeRequest) :
    Keeps [c.id] host (host.park c machine request) where
  frame := rfl
  policy := rfl
  plugins := rfl
  natives := .inl rfl
  others other apart := Registry.get?_update_ne (by simpa using apart) rfl
  entries mode e mem := by
    simp only [park, SuspensionQueues.push, SuspensionQueues.get_set]
    split
    · rename_i same
      exact SuspensionQueue.mem_push.mpr (.inr (same ▸ mem))
    · exact mem
  added mode e mem := by
    simp only [park, SuspensionQueues.push, SuspensionQueues.get_set] at mem
    split at mem
    · rename_i same
      rcases SuspensionQueue.mem_push.mp mem with rfl | mem
      · exact .inr List.mem_cons_self
      · exact .inl (same ▸ mem)
    · exact .inl mem
  ordered h mode := by
    simp only [park, SuspensionQueues.push, SuspensionQueues.get_set]
    split
    · exact (h request.mode).push _ _
    · exact h mode

theorem settle_keeps (host : Host) (c : Continuation) (machine : Machine) (ending : RunEnd) :
    Keeps [c.id] host (host.settle c machine ending).2 := by
  cases ending with
  | suspended request => exact park_keeps host c machine request
  | returned v => exact release_keeps host c.id
  | threw info traceback => exact (release_keeps host c.id).trans (report_keeps _ _)
  | faulted fault dump => exact (release_keeps host c.id).trans (report_keeps _ _)

theorem resumeState_keeps {result : Outcome × Host}
    (run : resumeState fuel host id = some result) : Keeps [id] host result.2 := by
  unfold resumeState at run
  split at run
  · cases run
    exact .of_eq rfl rfl rfl rfl rfl rfl
  · rename_i c found
    simp only [Option.bind_eq_bind, Option.bind_eq_some_iff, Option.some.injEq] at run
    obtain ⟨halt, -, ending, -, rfl⟩ := run
    obtain ⟨-, rfl⟩ := Registry.get?_eq_some found
    exact (withEnv_keeps host halt.env).trans (settle_keeps _ c halt.machine ending)

def started (host : Host) (entry : String) (args : List Value) : Host :=
  { host with
    registry := host.registry.start entry args host.maxCallDepth
    lastContinuation := some host.registry.nextId }

theorem started_keeps (host : Host) (entry : String) (args : List Value) :
    Keeps [host.registry.nextId] host (host.started entry args) :=
  ⟨rfl, rfl, rfl, .inl rfl,
    fun _ apart => Registry.get?_start_ne (by simpa using apart) entry args _,
    fun _ _ mem => mem, fun _ _ mem => .inl mem, fun h => h⟩

theorem call_keeps {entry : String} {args : List Value} {result : Outcome × Host}
    (run : call fuel host entry args = some result) :
    Keeps [host.registry.nextId] host result.2 := by
  unfold call at run
  split at run
  · exact ((started_keeps host entry args).trans (resumeState_keeps run)).mono (by simp)
  · cases run
    exact (report_keeps host _).mono (by simp)

theorem setPending_keeps (host : Host) (id : ContinuationId) (v : Value) :
    Keeps [id] host (host.setPending id v) := by
  unfold setPending
  split
  · rename_i c found
    obtain ⟨-, rfl⟩ := Registry.get?_eq_some found
    exact .of_registry host fun _ apart => Registry.get?_update_ne (by simpa using apart) rfl
  · exact .refl [id] host

theorem takeDue_rest (host : Host) (modes : List WakeMode) :
    (host.takeDue modes).2 = { host with queues := (host.takeDue modes).2.queues } := by
  induction modes generalizing host with
  | nil => rfl
  | cons mode rest ih => exact ih _

theorem takeDue_ordered (modes : List WakeMode) (ordered : host.QueuesOrdered) :
    (host.takeDue modes).2.QueuesOrdered := by
  induction modes generalizing host with
  | nil => exact ordered
  | cons mode rest ih =>
    refine ih fun other => ?_
    rw [SuspensionQueues.get_set]
    split
    · exact (ordered mode).takeDue _ _
    · exact ordered other

theorem resumeAll_keeps {due : List (ContinuationId × Number)}
    {result : List (ContinuationId × Outcome) × Host}
    (run : resumeAll fuel host due = some result) : Keeps (due.map (·.1)) host result.2 := by
  induction due generalizing host result with
  | nil =>
    cases run
    exact .refl _ _
  | cons first rest ih =>
    obtain ⟨id, now⟩ := first
    simp only [resumeAll, Option.bind_eq_bind, Option.bind_eq_some_iff, Option.some.injEq] at run
    obtain ⟨⟨outcome, middle⟩, driven, ⟨outcomes, last⟩, others, rfl⟩ := run
    have prepared := setPending_keeps host id (.num now)
    exact ((prepared.trans (resumeState_keeps driven)).trans (ih others)).mono (by simp)

theorem resumeAll_ids {due : List (ContinuationId × Number)}
    {result : List (ContinuationId × Outcome) × Host}
    (run : resumeAll fuel host due = some result) : result.1.map (·.1) = due.map (·.1) := by
  induction due generalizing host result with
  | nil =>
    cases run
    rfl
  | cons first rest ih =>
    obtain ⟨id, now⟩ := first
    simp only [resumeAll, Option.bind_eq_bind, Option.bind_eq_some_iff, Option.some.injEq] at run
    obtain ⟨⟨outcome, middle⟩, -, ⟨outcomes, last⟩, others, rfl⟩ := run
    exact congrArg (id :: ·) (ih others)

def advanced (host : Host) : Host := { host with frame := host.frame + 1 }

/-- The reading at which a tick inspects a queue. -/
def tickReading (host : Host) (mode : WakeMode) : Number := host.advanced.readings.reading mode

theorem tick_eq (host : Host) (fuel : Nat) :
    host.tick fuel = (resumeAll fuel (host.advanced.takeDue WakeMode.all).2
      (host.advanced.takeDue WakeMode.all).1).map
        fun result => (⟨result.2.frame, result.1⟩, result.2) := by
  unfold tick advanced
  generalize takeDue _ WakeMode.all = released
  obtain ⟨due, rest⟩ := released
  cases run : resumeAll fuel rest due <;> simp [run]

theorem init_keeps (host : Host) : Keeps [] host host.init := by
  unfold Host.init
  split <;> exact ⟨rfl, rfl, rfl, .inr rfl, fun _ _ => rfl, fun _ _ mem => mem,
    fun _ _ mem => .inl mem, fun h => h⟩

/-- Only a tick takes anything out of the queues, and what is driven otherwise is a new call. -/
theorem perform?_keeps {op : HostOp} (other : op ≠ .tick)
    (run : host.perform? fuel op = some next) : Keeps [host.registry.nextId] host next := by
  cases op with
  | init =>
    cases run
    exact (init_keeps host).mono (by simp)
  | runSource name text =>
    obtain ⟨result, ran, rfl⟩ := Option.map_eq_some_iff.1 run
    exact (runSource_keeps ran).mono (by simp)
  | runFile files path =>
    obtain ⟨result, ran, rfl⟩ := Option.map_eq_some_iff.1 run
    unfold runFile at ran
    split at ran
    · exact (runSource_keeps ran).mono (by simp)
    · cases ran
      exact (report_keeps host _).mono (by simp)
  | call entry args =>
    obtain ⟨result, ran, rfl⟩ := Option.map_eq_some_iff.1 run
    exact call_keeps ran
  | tick => exact absurd rfl other
  | setGlobal name value | setClock clock | setHeap heap =>
    cases run
    exact .of_eq rfl rfl rfl rfl rfl rfl

theorem tick_keeps {result : TickReport × Host} (ran : host.tick fuel = some result) :
    Keeps ((host.advanced.takeDue WakeMode.all).1.map (·.1))
      (host.advanced.takeDue WakeMode.all).2 result.2 := by
  rw [tick_eq] at ran
  obtain ⟨⟨resumed, last⟩, driven, rfl⟩ := Option.map_eq_some_iff.1 ran
  exact resumeAll_keeps driven

theorem perform?_frame {op : HostOp} (run : host.perform? fuel op = some next) :
    (op ≠ .tick → next.frame = host.frame) ∧ (op = .tick → next.frame = host.frame + 1) := by
  constructor
  · intro other
    exact (perform?_keeps other run).frame
  · rintro rfl
    obtain ⟨result, ran, rfl⟩ := Option.map_eq_some_iff.1 run
    rw [(tick_keeps ran).frame, takeDue_rest]
    rfl

/-- No operation changes the policy or the plugins, and natives are bound only anew. -/
theorem perform?_setup {op : HostOp} (run : host.perform? fuel op = some next) :
    next.policy = host.policy ∧ next.plugins = host.plugins ∧ (next.natives = host.natives ∨
      next.natives = host.plugins.foldl Plugin.register Natives.withSuspend) := by
  by_cases ticks : op = .tick
  · subst ticks
    obtain ⟨result, ran, rfl⟩ := Option.map_eq_some_iff.1 run
    have keeps := tick_keeps ran
    have natives := keeps.natives
    rw [keeps.policy, keeps.plugins]
    rw [takeDue_rest] at natives ⊢
    exact ⟨rfl, rfl, natives⟩
  · have keeps := perform?_keeps ticks run
    exact ⟨keeps.policy, keeps.plugins, keeps.natives⟩

theorem Leads.policy {start host : Host} (h : start.Leads host) : host.policy = start.policy := by
  induction h with
  | refl => rfl
  | step fuel op _ run ih => exact (perform?_setup run).1.trans ih

theorem perform?_queuesOrdered {op : HostOp} (h : host.QueuesOrdered)
    (run : host.perform? fuel op = some next) : next.QueuesOrdered := by
  cases op with
  | tick =>
    obtain ⟨result, ran, rfl⟩ := Option.map_eq_some_iff.1 run
    have ordered : host.advanced.QueuesOrdered := h
    exact (tick_keeps ran).ordered (takeDue_ordered _ ordered)
  | _ => exact (perform?_keeps (by simp) run).ordered h

theorem Leads.queuesOrdered {start host : Host} (h : start.Leads host)
    (base : start.QueuesOrdered) : host.QueuesOrdered := by
  induction h with
  | refl => exact base
  | step fuel op _ run ih => exact perform?_queuesOrdered ih run

theorem new_queuesOrdered (policy : DrainPolicy) (maxCallDepth : Nat) (reporter : Reporter)
    (plugins : List Plugin) : (Host.new policy maxCallDepth reporter plugins).QueuesOrdered := by
  intro mode
  cases mode <;> exact SuspensionQueue.new_ordered _

def released (host : Host) (mode : WakeMode) : List QueueEntry :=
  (host.queues.get mode).released (host.readings.reading mode) host.policy

/-- What queues release, each with the reading that it was due at. -/
def dueList (host : Host) (modes : List WakeMode) : List (ContinuationId × Number) :=
  modes.flatMap fun mode =>
    (host.released mode).map fun e => (e.id, host.readings.reading mode)

/-- No wake value is a negative NaN. -/
def WakesSound (host : Host) : Prop :=
  ∀ mode, ∀ e ∈ (host.queues.get mode).entries, e.wake ≠ .nan true

instance (host : Host) : Decidable host.WakesSound :=
  decidable_of_iff (∀ mode ∈ WakeMode.all, ∀ e ∈ (host.queues.get mode).entries, e.wake ≠ .nan true)
    ⟨fun all mode => all mode (WakeMode.mem_all mode), fun all mode _ => all mode⟩

/-- Queues release what they have to, one after the other, and keep the rest. -/
theorem takeDue_eq {modes : List WakeMode} (nodup : modes.Nodup) (ordered : host.QueuesOrdered)
    (sound : host.WakesSound) :
    ∃ queues, host.takeDue modes = (host.dueList modes, { host with queues }) ∧
      (∀ mode ∈ modes, (host.queues.get mode).entries =
        host.released mode ++ (queues.get mode).entries) ∧
      ∀ mode, mode ∉ modes → queues.get mode = host.queues.get mode := by
  induction modes generalizing host with
  | nil => exact ⟨host.queues, rfl, by simp, by simp⟩
  | cons mode rest ih =>
    obtain ⟨fresh, nodup'⟩ := List.nodup_cons.mp nodup
    obtain ⟨kept, split, takes⟩ := (ordered mode).takeDue_eq (sound mode)
      (host.readings.reading mode) host.policy
    let middle : Host := { host with
      queues := host.queues.set { host.queues.get mode with entries := kept } mode }
    have own : (middle.queues.get mode).entries = kept := by
      rw [SuspensionQueues.get_set, if_pos rfl]
    have others (other : WakeMode) (apart : other ≠ mode) :
        middle.queues.get other = host.queues.get other := by
      rw [SuspensionQueues.get_set, if_neg apart]
    have ordered' : middle.QueuesOrdered := by
      have first := takeDue_ordered [mode] ordered
      simpa [takeDue, takes] using first
    have sound' : middle.WakesSound := by
      intro other e mem
      by_cases same : other = mode
      · subst same
        rw [own] at mem
        exact sound other e (split ▸ List.mem_append_right _ mem)
      · rw [others other same] at mem
        exact sound other e mem
    obtain ⟨queues, rest_takes, splits, stays⟩ := ih nodup' ordered' sound'
    have same_released (other : WakeMode) (mem : other ∈ rest) :
        middle.released other = host.released other := by
      rw [released, others other fun same => fresh (same ▸ mem)]
      rfl
    refine ⟨queues, ?_, fun other mem => ?_, fun other apart => ?_⟩
    · have later : middle.dueList rest = host.dueList rest := by
        rw [dueList, dueList, List.flatMap_def, List.flatMap_def]
        congr 1
        exact List.map_congr_left fun other mem => by rw [same_released other mem]; rfl
      rw [takeDue, takes]
      dsimp only
      rw [rest_takes, later, List.map_map]
      rfl
    · rcases List.mem_cons.mp mem with rfl | mem
      · rw [stays other fresh, own]
        exact split
      · rw [← others other fun same => fresh (same ▸ mem), splits other mem,
          same_released other mem]
    · rw [List.mem_cons, not_or] at apart
      rw [stays other apart.2, others other apart.1]

/-- A parked continuation is handed a reading and driven until it stops. -/
def Resumes (fuel : Nat) (host : Host) (c : Continuation) (now : Number) (outcome : Outcome)
    (next : Host) : Prop :=
  ∃ m halt ending, c.machine.resume? (.num now) = some m ∧ m.run fuel (host.env true) = some halt ∧
    RunEnd.ofHalt? halt = some ending ∧ (outcome, next) =
      ((host.setPending c.id (.num now)).withEnv halt.env).settle
        { c with pending := .resume (.num now) } halt.machine ending

/-- Parked continuations are driven one after the other. -/
inductive ResumesAll (fuel : Nat) :
    Host → List (Continuation × Number) → List Outcome → Host → Prop
  | nil (host : Host) : ResumesAll fuel host [] [] host
  | cons {host middle next : Host} {c : Continuation} {now : Number} {outcome : Outcome}
      {rest : List (Continuation × Number)} {outcomes : List Outcome}
      (first : host.Resumes fuel c now outcome middle)
      (others : ResumesAll fuel middle rest outcomes next) :
      ResumesAll fuel host ((c, now) :: rest) (outcome :: outcomes) next

theorem setPending_env (host : Host) (id : ContinuationId) (v : Value) (suspendable : Bool) :
    (host.setPending id v).env suspendable = host.env suspendable := by
  unfold setPending
  split <;> rfl

/-- Resuming a registered continuation drives what is parked. -/
theorem resumeState_iff (found : host.registry.get? c.id = some c)
    (parked : c.machine.isSuspended = true) (now : Number) (outcome : Outcome) (next : Host) :
    resumeState fuel (host.setPending c.id (.num now)) c.id = some (outcome, next) ↔
      host.Resumes fuel c now outcome next := by
  have pending : (host.setPending c.id (.num now)).registry.get? c.id =
      some { c with pending := .resume (.num now) } := by
    rw [setPending, found]
    exact Registry.get?_update_self (c := { c with pending := .resume (.num now) }) found
  obtain ⟨m, resumes⟩ : ∃ m, c.machine.resume? (.num now) = some m := by
    simp [Machine.resume?, parked]
  simp only [resumeState, pending, setPending_env, drive, resumes, Option.getD_some,
    Option.bind_eq_bind, Option.bind_eq_some_iff, Option.some.injEq, Resumes]
  constructor
  · rintro ⟨halt, runs, ending, ends, settled⟩
    exact ⟨m, halt, ending, rfl, runs, ends, settled.symm⟩
  · rintro ⟨m', halt, ending, rfl, runs, ends, settled⟩
    exact ⟨halt, runs, ending, ends, settled.symm⟩

theorem Resumes.keeps {now : Number} {outcome : Outcome}
    (found : host.registry.get? c.id = some c) (parked : c.machine.isSuspended = true)
    (h : host.Resumes fuel c now outcome next) : Keeps ([c.id] ++ [c.id]) host next :=
  (setPending_keeps host c.id (.num now)).trans
    (resumeState_keeps ((resumeState_iff found parked now outcome next).mpr h))

/-- Continuations are registered as they were parked. -/
def AllParked (host : Host) (due : List (Continuation × Number)) : Prop :=
  ∀ p ∈ due, host.registry.get? p.1.id = some p.1 ∧ p.1.machine.isSuspended = true

theorem AllParked.keep {ids : List ContinuationId} {due : List (Continuation × Number)}
    (parked : host.AllParked due) (keeps : Keeps ids host next)
    (apart : ∀ p ∈ due, p.1.id ∉ ids) : next.AllParked due := by
  intro p mem
  obtain ⟨found, suspended⟩ := parked p mem
  exact ⟨(keeps.others _ (apart p mem)).trans found, suspended⟩

/-- The driving of some continuations comes to one that does not stop. -/
def Hangs (fuel : Nat) (host : Host) (due : List (Continuation × Number)) : Prop :=
  ∃ before c now after outcomes middle, due = before ++ (c, now) :: after ∧
    host.ResumesAll fuel before outcomes middle ∧
    ∀ outcome next, ¬ middle.Resumes fuel c now outcome next

/-- What a tick resumes it drives, one after the other, whatever the others come to; and it
returns unless one of them does not stop. -/
theorem resumeAll_drives (fuel : Nat) {due : List (Continuation × Number)}
    (parked : host.AllParked due) (nodup : (due.map (·.1.id)).Nodup) :
    (∀ resumed next, resumeAll fuel host (due.map fun p => (p.1.id, p.2)) = some (resumed, next) →
      resumed.map (·.1) = due.map (·.1.id) ∧
        host.ResumesAll fuel due (resumed.map (·.2)) next) ∧
    (resumeAll fuel host (due.map fun p => (p.1.id, p.2)) = none → host.Hangs fuel due) := by
  induction due generalizing host with
  | nil =>
    refine ⟨fun resumed next run => ?_, nofun⟩
    cases run
    exact ⟨rfl, .nil host⟩
  | cons first rest ih =>
    obtain ⟨c, now⟩ := first
    obtain ⟨⟨found, suspended⟩, parked_rest⟩ := List.forall_mem_cons.mp parked
    obtain ⟨fresh, nodup'⟩ := List.nodup_cons.mp nodup
    have drives (outcome : Outcome) (next : Host) :
        resumeState fuel (host.setPending c.id (.num now)) c.id = some (outcome, next) ↔
          host.Resumes fuel c now outcome next := resumeState_iff found suspended now outcome next
    rw [List.map_cons, resumeAll]
    cases run : resumeState fuel (host.setPending c.id (.num now)) c.id with
    | none =>
      refine ⟨by simp, fun _ => ⟨[], c, now, rest, [], host, rfl, .nil host, ?_⟩⟩
      intro outcome next
      rw [← drives, run]
      nofun
    | some result =>
      obtain ⟨outcome, middle⟩ := result
      have resumes := (drives outcome middle).mp run
      have parked' : middle.AllParked rest := by
        refine AllParked.keep parked_rest (resumes.keeps found suspended) fun p mem => ?_
        have other : p.1.id ≠ c.id := fun same => fresh (List.mem_map.mpr ⟨p, mem, same⟩)
        simpa using other
      obtain ⟨returns, hangs⟩ := ih parked' nodup'
      simp only [Option.bind_eq_bind, Option.bind_some]
      cases others : resumeAll fuel middle (rest.map fun p => (p.1.id, p.2)) with
      | none =>
        refine ⟨by simp, fun _ => ?_⟩
        obtain ⟨before, d, later, after, outcomes, last, rfl, driven, stuck⟩ := hangs others
        exact ⟨(c, now) :: before, d, later, after, outcome :: outcomes, last, rfl,
          .cons resumes driven, stuck⟩
      | some result =>
        obtain ⟨outcomes, last⟩ := result
        obtain ⟨ids, driven⟩ := returns outcomes last others
        refine ⟨fun resumed next same => ?_, nofun⟩
        cases same
        exact ⟨congrArg (c.id :: ·) ids, .cons resumes driven⟩

theorem exists_driven {due : List (ContinuationId × Number)} (all : ∀ p ∈ due,
    ∃ c, host.registry.get? p.1 = some c ∧ c.machine.isSuspended = true) :
    ∃ driven : List (Continuation × Number),
      driven.map (fun p => (p.1.id, p.2)) = due ∧ host.AllParked driven := by
  induction due with
  | nil => exact ⟨[], rfl, by simp [AllParked]⟩
  | cons first rest ih =>
    obtain ⟨⟨c, found, parked⟩, all_rest⟩ := List.forall_mem_cons.mp all
    obtain ⟨driven, same, all_parked⟩ := ih all_rest
    obtain ⟨-, own⟩ := Registry.get?_eq_some found
    refine ⟨(c, first.2) :: driven, by rw [List.map_cons, same, own], ?_⟩
    exact List.forall_mem_cons.mpr ⟨⟨own ▸ found, parked⟩, all_parked⟩

theorem Orderly.mem_registry (orderly : host.Orderly []) {mode : WakeMode} {e : QueueEntry}
    (mem : e ∈ (host.queues.get mode).entries) : e.id ∈ host.registry.ids :=
  orderly.perm.subset (SuspensionQueues.mem_ids mem)

theorem Orderly.exists_suspended (orderly : host.Orderly []) {id : ContinuationId}
    (mem : id ∈ host.registry.ids) :
    ∃ c, host.registry.get? id = some c ∧ c.machine.isSuspended = true := by
  obtain ⟨c, found⟩ := Registry.exists_get? mem
  obtain ⟨registered, -⟩ := Registry.get?_eq_some found
  exact ⟨c, found, (orderly.parked c registered (by simp)).isSuspended⟩

theorem Orderly.exists_parked (orderly : host.Orderly []) {mode : WakeMode} {e : QueueEntry}
    (mem : e ∈ (host.queues.get mode).entries) :
    ∃ c, host.registry.get? e.id = some c ∧ c.machine.isSuspended = true :=
  orderly.exists_suspended (orderly.mem_registry mem)

theorem released_sublist (host : Host) (mode : WakeMode) :
    (host.released mode).Sublist (host.queues.get mode).entries := by
  unfold released SuspensionQueue.released
  split
  · exact List.filter_sublist
  · exact (List.take_sublist _ _).trans List.filter_sublist

/-- No continuation is released twice. -/
theorem Orderly.dueList_nodup (orderly : host.Orderly []) :
    ((host.dueList WakeMode.all).map (·.1)).Nodup := by
  have queued : host.queues.ids.Nodup := orderly.perm.nodup_iff.mpr orderly.nodup
  have ids (mode : WakeMode) :
      ((host.released mode).map (·.id)).Sublist (host.queues.get mode).ids :=
    (host.released_sublist mode).map _
  have all : (host.dueList WakeMode.all).map (·.1) = (host.released .frame).map (·.id) ++
      (host.released .simulation).map (·.id) ++ (host.released .real).map (·.id) := by
    simp [dueList, WakeMode.all, Function.comp_def]
  rw [all]
  exact queued.sublist (((ids .frame).append (ids .simulation)).append (ids .real))

/-- What a tick does to a host whose queues are in order. -/
theorem tick_spec (ordered : host.QueuesOrdered) (orderly : host.Orderly [])
    (sound : host.WakesSound) (fuel : Nat) :
    let due := host.advanced.dueList WakeMode.all
    let rest := (host.advanced.takeDue WakeMode.all).2
    (∀ mode, (host.advanced.released mode).Pairwise QueueEntry.Before) ∧
    (due.map (·.1)).Nodup ∧
    ∃ driven : List (Continuation × Number), driven.map (fun p => (p.1.id, p.2)) = due ∧
      host.AllParked driven ∧
      (∀ report next, host.tick fuel = some (report, next) →
        next.frame = host.frame + 1 ∧ report.frame = next.frame ∧
        report.resumed.map (·.1) = due.map (·.1) ∧
        rest.ResumesAll fuel driven (report.resumed.map (·.2)) next ∧
        ∀ mode, ∀ e ∈ (host.queues.get mode).entries, e ∉ host.advanced.released mode →
          e ∈ (next.queues.get mode).entries) ∧
      (host.tick fuel = none → rest.Hangs fuel driven) := by
  intro due rest
  have ordered' : host.advanced.QueuesOrdered := ordered
  have orderly' : host.advanced.Orderly [] := orderly
  obtain ⟨queues, takes, splits, -⟩ :=
    takeDue_eq (show WakeMode.all.Nodup by decide) ordered' sound
  have nodup : (due.map (·.1)).Nodup := orderly'.dueList_nodup
  have all_parked : ∀ p ∈ due,
      ∃ c, host.registry.get? p.1 = some c ∧ c.machine.isSuspended = true := fun p mem => by
    obtain ⟨mode, -, from_mode⟩ := List.mem_flatMap.mp mem
    obtain ⟨e, out, rfl⟩ := List.mem_map.mp from_mode
    exact orderly.exists_parked ((host.advanced.released_sublist mode).subset out)
  obtain ⟨driven, same, parked⟩ := exists_driven all_parked
  have ids : due.map (·.1) = driven.map (·.1.id) := by rw [← same, List.map_map]; rfl
  have rest_eq : rest = { host.advanced with queues } := congrArg (·.2) takes
  have parked' : rest.AllParked driven := by
    rw [rest_eq]
    exact parked
  obtain ⟨returns, hangs⟩ := resumeAll_drives fuel parked' (ids ▸ nodup)
  have takes' : host.advanced.takeDue WakeMode.all =
      (driven.map (fun p => (p.1.id, p.2)), rest) := by
    rw [rest_eq, same, takes]
  refine ⟨fun mode => (ordered' mode).sorted.sublist (host.advanced.released_sublist mode), nodup,
    driven, same, parked, fun report next ran => ?_, fun ran => hangs ?_⟩
  · rw [tick_eq, takes'] at ran
    obtain ⟨⟨resumed, last⟩, resumes, same_report⟩ := Option.map_eq_some_iff.mp ran
    cases same_report
    obtain ⟨in_order, drives⟩ := returns resumed last resumes
    have keeps := resumeAll_keeps resumes
    refine ⟨?_, rfl, in_order.trans ids.symm, drives, fun mode e mem stays => ?_⟩
    · rw [keeps.frame, rest_eq]
      rfl
    · refine keeps.entries mode e ?_
      have kept := splits mode (WakeMode.mem_all mode)
      rw [rest_eq]
      exact (List.mem_append.mp (kept ▸ mem)).resolve_left stays
  · rw [tick_eq, takes'] at ran
    simpa using ran

/-- A tick resumes exactly what is due when it begins. -/
theorem tick_exact {policy : DrainPolicy} {maxCallDepth : Nat} {reporter : Reporter}
    {plugins : List Plugin} {host : Host}
    (reached : (Host.new policy maxCallDepth reporter plugins).Leads host)
    (sound : host.WakesSound) (fuel : Nat) :
    let due := host.advanced.dueList WakeMode.all
    let rest := (host.advanced.takeDue WakeMode.all).2
    (∀ mode, (host.advanced.released mode).Pairwise QueueEntry.Before) ∧
    (due.map (·.1)).Nodup ∧
    ∃ driven : List (Continuation × Number), driven.map (fun p => (p.1.id, p.2)) = due ∧
      host.AllParked driven ∧
      (∀ report next, host.tick fuel = some (report, next) →
        next.frame = host.frame + 1 ∧ report.frame = next.frame ∧
        report.resumed.map (·.1) = due.map (·.1) ∧
        rest.ResumesAll fuel driven (report.resumed.map (·.2)) next ∧
        ∀ mode, ∀ e ∈ (host.queues.get mode).entries, e ∉ host.advanced.released mode →
          e ∈ (next.queues.get mode).entries) ∧
      (host.tick fuel = none → rest.Hangs fuel driven) :=
  tick_spec (reached.queuesOrdered (new_queuesOrdered _ _ _ _)) (reached.orderly Filed.empty) sound
    fuel

/-- Two calls that are due at once, on the frame counter and in simulation time. -/
theorem tick_exact_two : ∃ host report next, (Host.new .allDue 200 .collecting []).performAll? 10
      [.init, .call Natives.suspendName [.str "g", .num (.ofNat 0)],
        .call Natives.suspendName [.num (.ofNat 1)]] = some host ∧
    host.tick 10 = some (report, next) ∧ next.frame = host.frame + 1 ∧
    report.resumed.map (·.1) = [⟨2⟩, ⟨1⟩] ∧
    report.resumed.map (·.1) = (host.advanced.dueList WakeMode.all).map (·.1) := by
  have ticks : ((Host.new .allDue 200 .collecting []).performAll? 10
      [.init, .call Natives.suspendName [.str "g", .num (.ofNat 0)],
        .call Natives.suspendName [.num (.ofNat 1)]]).map (fun host => (decide host.WakesSound,
          (host.tick 10).map fun result => result.1.resumed.map (·.1))) =
        some (true, some [⟨2⟩, ⟨1⟩]) := by decide +kernel
  obtain ⟨host, run, facts⟩ := Option.map_eq_some_iff.1 ticks
  obtain ⟨wakes, reported⟩ := Prod.mk.inj facts
  have sound : host.WakesSound := of_decide_eq_true wakes
  obtain ⟨⟨report, next⟩, ran, ids⟩ := Option.map_eq_some_iff.1 reported
  obtain ⟨-, -, driven, -, -, returns, -⟩ := tick_exact (Leads.refl.performAll? run) sound 10
  obtain ⟨frame, -, in_order, -⟩ := returns report next ran
  exact ⟨host, report, next, run, ran, frame, ids, in_order⟩

end Host

end FrameScript
