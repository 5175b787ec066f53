import FrameScript.Proofs.Host.Ticks
import FrameScript.Proofs.Number.Rounding

/-!
# When suspended continuations wake

A continuation that suspends is filed under the reading of its clock at that moment,
plus the duration. Whatever else happens, it stays in its queue until the first tick
that finds the clock there, and that tick resumes it.
-/

namespace FrameScript

/-- A continuation that has been suspended, with the readings of the clocks at that moment. -/
structure Suspension where
  id : ContinuationId
  request : WakeRequest
  readings : Readings
  deriving DecidableEq

namespace Suspension

def wake (s : Suspension) : Number := (s.readings.reading s.request.mode).add s.request.duration

/-- A finite duration, and a reading that is a number. -/
def Timely (s : Suspension) : Prop :=
  s.request.duration.isFinite = true ∧ (s.readings.reading s.request.mode).isNaN = false

instance (s : Suspension) : Decidable s.Timely := inferInstanceAs (Decidable (_ ∧ _))

theorem Timely.wake_isNaN {s : Suspension} (h : s.Timely) : s.wake.isNaN = false :=
  Number.add_isNaN h.2 h.1

/-- An entry of a queue of this mode is for this suspension. -/
def Files (s : Suspension) (mode : WakeMode) (e : QueueEntry) : Prop :=
  s.request.mode = mode ∧ e.id = s.id ∧ e.wake = s.wake

end Suspension

namespace Host

variable {fuel : Nat} {host next : Host} {id : ContinuationId}

def suspension? (fuel : Nat) (host : Host) (id : ContinuationId) : Option Suspension := do
  let c ← host.registry.get? id
  let halt ← drive fuel (host.env true) c
  match RunEnd.ofHalt? halt with
  | some (.suspended request) => some ⟨id, request, (host.withEnv halt.env).readings⟩
  | _ => none

/-- The suspensions while continuations are resumed one after the other. -/
def suspensionsAll (fuel : Nat) (host : Host) : List (ContinuationId × Number) → List Suspension
  | [] => []
  | (id, now) :: rest =>
    let host := host.setPending id (.num now)
    (suspension? fuel host id).toList ++
      match resumeState fuel host id with
      | some (_, next) => suspensionsAll fuel next rest
      | none => []

def suspensions (fuel : Nat) (host : Host) : HostOp → List Suspension
  | .call entry args =>
    if host.initialized then
      (suspension? fuel (host.started entry args) host.registry.nextId).toList
    else []
  | .tick =>
    let (due, rest) := host.advanced.takeDue WakeMode.all
    suspensionsAll fuel rest due
  | _ => []

/-- The continuations that an operation drives: a call its own, and a tick what it resumes. -/
def driven (fuel : Nat) (host : Host) : HostOp → List ContinuationId
  | .call _ _ => if host.initialized then [host.registry.nextId] else []
  | .tick =>
    match host.tick fuel with
    | some (report, _) => report.resumed.map (·.1)
    | none => []
  | _ => []

/-- Suspensions for finite durations, while the clocks show numbers. -/
def Timely (fuel : Nat) (host : Host) (op : HostOp) : Prop :=
  ∀ s ∈ host.suspensions fuel op, s.Timely

instance (fuel : Nat) (host : Host) (op : HostOp) : Decidable (host.Timely fuel op) :=
  inferInstanceAs (Decidable (∀ s ∈ host.suspensions fuel op, s.Timely))

/-- The hosts that operations of some kind lead to. -/
inductive LeadsBy (P : Nat → Host → HostOp → Prop) (start : Host) : Host → Prop
  | refl : LeadsBy P start start
  | step {host next : Host} (fuel : Nat) (op : HostOp) (before : LeadsBy P start host)
      (kind : P fuel host op) (run : host.perform? fuel op = some next) : LeadsBy P start next

theorem LeadsBy.leads {P : Nat → Host → HostOp → Prop} {start : Host}
    (h : start.LeadsBy P host) : start.Leads host := by
  induction h with
  | refl => exact .refl
  | step fuel op _ _ run ih => exact ih.step fuel op run

/-- Between two hosts the queues have got entries for suspensions, behind the older ones in the
order of filing, and no others. -/
structure FilesAll (suspensions : List Suspension) (host next : Host) : Prop where
  filed : ∀ s ∈ suspensions,
    ∃ e ∈ (next.queues.get s.request.mode).entries, s.Files s.request.mode e
  others : ∀ mode, ∀ e ∈ (next.queues.get mode).entries,
    e ∈ (host.queues.get mode).entries ∨
      (host.queues.get mode).filedCount ≤ e.filed ∧ ∃ s ∈ suspensions, s.Files mode e
  counted : ∀ mode, (host.queues.get mode).filedCount ≤ (next.queues.get mode).filedCount
  frames : ∀ s ∈ suspensions, s.readings.frame = next.frame

namespace FilesAll

variable {first second : List Suspension} {middle : Host}

theorem of_queues (same : next.queues = host.queues) : FilesAll [] host next where
  filed := by simp
  others mode e mem := .inl (same ▸ mem)
  counted mode := same ▸ Nat.le_refl _
  frames := by simp

theorem trans {ids : List ContinuationId} (h : FilesAll first host middle)
    (k : FilesAll second middle next) (keeps : Keeps ids middle next) :
    FilesAll (first ++ second) host next where
  filed s mem := by
    rcases List.mem_append.mp mem with mem | mem
    · obtain ⟨e, queued, files⟩ := h.filed s mem
      exact ⟨e, keeps.entries _ e queued, files⟩
    · exact k.filed s mem
  others mode e mem := by
    rcases k.others mode e mem with mem | ⟨late, s, mem, files⟩
    · refine (h.others mode e mem).imp_right ?_
      rintro ⟨late, s, mem, files⟩
      exact ⟨late, s, List.mem_append_left _ mem, files⟩
    · exact .inr ⟨Nat.le_trans (h.counted mode) late, s, List.mem_append_right _ mem, files⟩
  counted mode := Nat.le_trans (h.counted mode) (k.counted mode)
  frames s mem := by
    rcases List.mem_append.mp mem with mem | mem
    · rw [h.frames s mem, keeps.frame]
    · exact k.frames s mem

end FilesAll

theorem park_files (host : Host) (c : Continuation) (machine : Machine) (request : WakeRequest) :
    FilesAll [⟨c.id, request, host.readings⟩] host (host.park c machine request) where
  filed s mem := by
    obtain rfl := List.mem_singleton.mp mem
    refine ⟨⟨request.wakeValue host.readings, (host.queues.get request.mode).filedCount, c.id⟩, ?_,
      rfl, rfl, rfl⟩
    simp only [park, SuspensionQueues.push, SuspensionQueues.get_set, if_pos]
    exact SuspensionQueue.mem_push.mpr (.inl rfl)
  others mode e mem := by
    simp only [park, SuspensionQueues.push, SuspensionQueues.get_set] at mem
    split at mem
    · rename_i same
      rcases SuspensionQueue.mem_push.mp mem with rfl | mem
      · exact .inr ⟨same ▸ Nat.le_refl _, _, List.mem_cons_self, same.symm, rfl, rfl⟩
      · exact .inl (same ▸ mem)
    · exact .inl mem
  counted mode := by
    simp only [park, SuspensionQueues.push, SuspensionQueues.get_set]
    split
    · rename_i same
      exact same ▸ Nat.le_succ _
    · exact Nat.le_refl _
  frames s mem := by
    obtain rfl := List.mem_singleton.mp mem
    rfl

theorem resumeState_files {result : Outcome × Host} (run : resumeState fuel host id = some result) :
    FilesAll (suspension? fuel host id).toList host result.2 := by
  unfold resumeState at run
  unfold suspension?
  cases found : host.registry.get? id with
  | none =>
    rw [found] at run
    cases run
    exact .of_queues rfl
  | some c =>
    rw [found] at run
    simp only [Option.bind_eq_bind, Option.bind_eq_some_iff, Option.some.injEq] at run
    obtain ⟨halt, drives, ending, ends, rfl⟩ := run
    obtain ⟨-, rfl⟩ := Registry.get?_eq_some found
    simp only [Option.bind_eq_bind, Option.bind_some, drives, ends]
    cases ending with
    | suspended request =>
      have files := park_files (host.withEnv halt.env) c halt.machine request
      exact ⟨files.filed, files.others, files.counted, files.frames⟩
    | returned v => exact .of_queues rfl
    | threw info traceback => exact .of_queues (by simp [settle, release, withEnv])
    | faulted fault dump => exact .of_queues (by simp [settle, release, withEnv])

theorem setPending_queues (host : Host) (id : ContinuationId) (v : Value) :
    (host.setPending id v).queues = host.queues := by
  unfold setPending
  split <;> rfl

theorem resumeAll_files {due : List (ContinuationId × Number)}
    {result : List (ContinuationId × Outcome) × Host}
    (run : resumeAll fuel host due = some result) :
    FilesAll (suspensionsAll fuel host due) host result.2 := by
  induction due generalizing host result with
  | nil =>
    cases run
    exact .of_queues rfl
  | cons first rest ih =>
    obtain ⟨id, now⟩ := first
    simp only [resumeAll, Option.bind_eq_bind, Option.bind_eq_some_iff, Option.some.injEq] at run
    obtain ⟨⟨outcome, middle⟩, driven, ⟨outcomes, last⟩, others, rfl⟩ := run
    have keeps := resumeAll_keeps others
    have prepared : FilesAll [] host (host.setPending id (.num now)) :=
      .of_queues (setPending_queues host id _)
    have files := (prepared.trans (resumeState_files driven) (resumeState_keeps driven)).trans
      (ih others) keeps
    simpa [suspensionsAll, driven] using files

/-- Queues count what was filed, whatever they have released. -/
theorem takeDue_counts (host : Host) (modes : List WakeMode) (mode : WakeMode) :
    ((host.takeDue modes).2.queues.get mode).filedCount = (host.queues.get mode).filedCount := by
  induction modes generalizing host with
  | nil => rfl
  | cons first rest ih =>
    refine (ih _).trans ?_
    rw [SuspensionQueues.get_set]
    split
    · rename_i same
      exact same ▸ rfl
    · rfl

theorem takeDue_subset {modes : List WakeMode} {mode : WakeMode} {e : QueueEntry}
    (mem : e ∈ ((host.takeDue modes).2.queues.get mode).entries) :
    e ∈ (host.queues.get mode).entries := by
  induction modes generalizing host with
  | nil => exact mem
  | cons first rest ih =>
    have kept := ih mem
    rw [SuspensionQueues.get_set] at kept
    split at kept
    · rename_i same
      exact same ▸ List.mem_of_mem_drop kept
    · exact kept

/-- A tick files its suspensions in the queues that it has inspected. -/
theorem tick_files {result : TickReport × Host} (ran : host.tick fuel = some result) :
    FilesAll (host.suspensions fuel .tick) (host.advanced.takeDue WakeMode.all).2 result.2 := by
  rw [tick_eq] at ran
  obtain ⟨⟨outcomes, last⟩, resumes, rfl⟩ := Option.map_eq_some_iff.mp ran
  exact resumeAll_files resumes

theorem perform?_files {op : HostOp} (run : host.perform? fuel op = some next) :
    FilesAll (host.suspensions fuel op) host next := by
  cases op with
  | init =>
    cases run
    refine .of_queues ?_
    unfold Host.init
    split <;> rfl
  | runSource name text =>
    obtain ⟨result, ran, rfl⟩ := Option.map_eq_some_iff.1 run
    exact .of_queues (runSource_frame ran).2
  | runFile files path =>
    obtain ⟨result, ran, rfl⟩ := Option.map_eq_some_iff.1 run
    exact .of_queues (runFile_frame ran).2
  | call entry args =>
    obtain ⟨result, ran, rfl⟩ := Option.map_eq_some_iff.1 run
    unfold call at ran
    unfold suspensions
    dsimp only
    split at ran
    · rename_i ready
      rw [if_pos ready]
      have files := resumeState_files ran
      exact ⟨files.filed, files.others, files.counted, files.frames⟩
    · rename_i ready
      cases ran
      rw [if_neg ready]
      exact .of_queues (by simp [failLoad])
  | tick =>
    obtain ⟨result, ran, rfl⟩ := Option.map_eq_some_iff.1 run
    have files := tick_files ran
    have counts (mode : WakeMode) :
        ((host.advanced.takeDue WakeMode.all).2.queues.get mode).filedCount =
          (host.queues.get mode).filedCount := takeDue_counts host.advanced WakeMode.all mode
    refine ⟨files.filed, fun mode e mem => ?_, fun mode => ?_, files.frames⟩
    · have kept : e ∈ ((host.advanced.takeDue WakeMode.all).2.queues.get mode).entries →
          e ∈ (host.advanced.queues.get mode).entries := takeDue_subset
      rw [← counts]
      exact (files.others mode e mem).imp_left kept
    · rw [← counts]
      exact files.counted mode
  | setGlobal name value | setClock clock | setHeap heap =>
    cases run
    exact .of_queues rfl

/-- The queues are in order, what they hold is registered, and every wake value is a number. -/
structure Timed (host : Host) : Prop where
  ordered : host.QueuesOrdered
  orderly : host.Orderly []
  numbers : ∀ mode, ∀ e ∈ (host.queues.get mode).entries, e.wake.isNaN = false

theorem new_timed (policy : DrainPolicy) (maxCallDepth : Nat) (reporter : Reporter)
    (plugins : List Plugin) : (Host.new policy maxCallDepth reporter plugins).Timed where
  ordered := new_queuesOrdered _ _ _ _
  orderly := Filed.empty
  numbers mode e mem := by cases mode <;> cases mem

theorem Timed.sound (h : host.Timed) : host.WakesSound := fun mode e mem same => by
  have number := h.numbers mode e mem
  rw [same] at number
  cases number

theorem Timed.perform? (h : host.Timed) {op : HostOp} (timely : host.Timely fuel op)
    (run : host.perform? fuel op = some next) : next.Timed where
  ordered := perform?_queuesOrdered h.ordered run
  orderly := perform?_orderly h.orderly run
  numbers mode e mem := by
    rcases (perform?_files run).others mode e mem with mem | ⟨-, s, mem, -, -, same⟩
    · exact h.numbers mode e mem
    · rw [same]
      exact (timely s mem).wake_isNaN

theorem Timed.leads {P : Nat → Host → HostOp → Prop} {start : Host} (h : start.Timed)
    (timely : ∀ {fuel host op}, P fuel host op → host.Timely fuel op) (run : start.LeadsBy P host) :
    host.Timed := by
  induction run with
  | refl => exact h
  | step fuel op _ kind run ih => exact ih.perform? (timely kind) run

/-- Entries for one continuation are the same. -/
theorem Orderly.entry_unique (orderly : host.Orderly []) {mode other : WakeMode} {e d : QueueEntry}
    (e_mem : e ∈ (host.queues.get mode).entries) (d_mem : d ∈ (host.queues.get other).entries)
    (same : e.id = d.id) : mode = other ∧ e = d := by
  let placed : List (WakeMode × QueueEntry) :=
    WakeMode.all.flatMap fun mode => (host.queues.get mode).entries.map (mode, ·)
  have mem_placed {mode : WakeMode} {e : QueueEntry} (mem : e ∈ (host.queues.get mode).entries) :
      (mode, e) ∈ placed :=
    List.mem_flatMap.mpr ⟨mode, WakeMode.mem_all mode, List.mem_map_of_mem mem⟩
  have ids : placed.map (·.2.id) = host.queues.ids := by
    simp [placed, WakeMode.all, SuspensionQueues.ids, SuspensionQueue.ids, SuspensionQueues.get,
      Function.comp_def]
  have nodup : (placed.map (·.2.id)).Nodup := ids ▸ orderly.perm.nodup_iff.mpr orderly.nodup
  exact Prod.mk.inj (List.inj_on_of_nodup_map nodup (mem_placed e_mem) (mem_placed d_mem) same)

/-- The operation is a tick that finds the clock of a suspension at its wake value, or past it. -/
def Wakes (host : Host) (op : HostOp) (s : Suspension) : Prop :=
  op = .tick ∧ s.wake.atMost (host.tickReading s.request.mode) = true

/-- A suspension that is queued. -/
def Waits (host : Host) (s : Suspension) : Prop :=
  ∃ e ∈ (host.queues.get s.request.mode).entries, s.Files s.request.mode e

theorem mem_released {mode : WakeMode} {e : QueueEntry} (mem : e ∈ host.released mode) :
    e ∈ (host.queues.get mode).entries ∧ e.wake.atMost (host.readings.reading mode) = true := by
  unfold released SuspensionQueue.released at mem
  split at mem
  · exact List.mem_filter.mp mem
  · exact List.mem_filter.mp (List.mem_of_mem_take mem)

theorem mem_dueList {modes : List WakeMode} {id : ContinuationId} :
    id ∈ (host.dueList modes).map (·.1) ↔ ∃ mode ∈ modes, ∃ e ∈ host.released mode, e.id = id := by
  simp [dueList]

/-- What a tick that returns has resumed and what it has left. -/
theorem Timed.tick (h : host.Timed) {result : TickReport × Host}
    (ran : host.tick fuel = some result) :
    result.2.frame = host.frame + 1 ∧
    host.driven fuel .tick = (host.advanced.dueList WakeMode.all).map (·.1) ∧
    ∀ mode, ∀ e ∈ (host.queues.get mode).entries, e ∉ host.advanced.released mode →
      e ∈ (result.2.queues.get mode).entries := by
  obtain ⟨-, -, _, -, -, returns, -⟩ := tick_spec h.ordered h.orderly h.sound fuel
  obtain ⟨frame, -, ids, -, stays⟩ := returns result.1 result.2 ran
  refine ⟨frame, ?_, stays⟩
  rw [← ids, driven, ran]

namespace Waits

variable {s : Suspension} {op : HostOp}

theorem iff_released (waits : host.Waits s) (timed : host.Timed) :
    s.id ∈ (host.advanced.dueList WakeMode.all).map (·.1) ↔
      ∃ e ∈ host.advanced.released s.request.mode, s.Files s.request.mode e := by
  obtain ⟨d, d_mem, d_files⟩ := waits
  rw [mem_dueList]
  constructor
  · rintro ⟨mode, -, e, e_mem, same⟩
    obtain ⟨queued, -⟩ := mem_released e_mem
    obtain ⟨rfl, rfl⟩ := timed.orderly.entry_unique queued d_mem (same.trans d_files.2.1.symm)
    exact ⟨e, e_mem, d_files⟩
  · rintro ⟨e, e_mem, e_files⟩
    exact ⟨s.request.mode, WakeMode.mem_all _, e, e_mem, e_files.2.1⟩

/-- What drives a continuation is a tick that finds it due. -/
theorem wakes (waits : host.Waits s) (timed : host.Timed) (run : host.perform? fuel op = some next)
    (mem : s.id ∈ host.driven fuel op) : host.Wakes op s := by
  cases op with
  | tick =>
    obtain ⟨result, ran, rfl⟩ := Option.map_eq_some_iff.1 run
    rw [(timed.tick ran).2.1] at mem
    obtain ⟨e, released, files⟩ := (waits.iff_released timed).mp mem
    exact ⟨rfl, files.2.2 ▸ (mem_released released).2⟩
  | call entry args =>
    obtain ⟨e, queued, files⟩ := waits
    have registered := timed.orderly.mem_registry queued
    have own : s.id = host.registry.nextId := by
      simp only [driven] at mem
      split at mem
      · exact List.mem_singleton.mp mem
      · cases mem
    exact absurd (own ▸ files.2.1 ▸ registered) timed.orderly.fresh
  | _ => cases mem

/-- If all that is due is resumed, so is a continuation that is queued. -/
theorem driven (waits : host.Waits s) (timed : host.Timed) (policy : host.policy = .allDue)
    (run : host.perform? fuel op = some next) (wakes : host.Wakes op s) :
    s.id ∈ host.driven fuel op := by
  obtain ⟨rfl, due⟩ := wakes
  obtain ⟨result, ran, rfl⟩ := Option.map_eq_some_iff.1 run
  obtain ⟨e, queued, files⟩ := waits
  rw [(timed.tick ran).2.1, iff_released ⟨e, queued, files⟩ timed]
  refine ⟨e, ?_, files⟩
  have all : host.advanced.policy = .allDue := policy
  rw [released, all]
  refine List.mem_filter.mpr ⟨queued, ?_⟩
  rw [SuspensionQueue.isDue, files.2.2]
  exact due

theorem stays (waits : host.Waits s) (timed : host.Timed) (run : host.perform? fuel op = some next)
    (absent : s.id ∉ host.driven fuel op) : next.Waits s := by
  obtain ⟨e, queued, files⟩ := waits
  refine ⟨e, ?_, files⟩
  by_cases ticks : op = .tick
  · subst ticks
    obtain ⟨result, ran, rfl⟩ := Option.map_eq_some_iff.1 run
    obtain ⟨-, all, kept⟩ := timed.tick ran
    refine kept _ e queued fun released => absent ?_
    rw [all, iff_released ⟨e, queued, files⟩ timed]
    exact ⟨e, released, files⟩
  · exact (perform?_keeps ticks run).entries _ e queued

end Waits

/-- Operations that do not drive a continuation. -/
def Undriven (s : Suspension) (fuel : Nat) (host : Host) (op : HostOp) : Prop :=
  host.Timely fuel op ∧ s.id ∉ host.driven fuel op

/-- Operations that do not find a clock at a wake value. -/
def Early (s : Suspension) (fuel : Nat) (host : Host) (op : HostOp) : Prop :=
  host.Timely fuel op ∧ ¬ host.Wakes op s

namespace Waits

variable {s : Suspension} {later : Host}

theorem leads (waits : host.Waits s) (timed : host.Timed) (run : host.LeadsBy (Undriven s) later) :
    later.Timed ∧ later.Waits s := by
  induction run with
  | refl => exact ⟨timed, waits⟩
  | step fuel op _ kind run ih => exact ⟨ih.1.perform? kind.1 run, ih.2.stays ih.1 run kind.2⟩

theorem undriven (waits : host.Waits s) (timed : host.Timed) (run : host.LeadsBy (Early s) later) :
    host.LeadsBy (Undriven s) later := by
  induction run with
  | refl => exact .refl
  | step fuel op _ kind run ih =>
    obtain ⟨timed', waits'⟩ := waits.leads timed ih
    exact .step fuel op ih ⟨kind.1, fun mem => kind.2 (waits'.wakes timed' run mem)⟩ run

end Waits

section Frames

variable {s : Suspension} {later : Host} (frames : s.request.mode = .frame)

include frames

theorem wakes_ofNat {op : HostOp} {d : Nat} (duration : s.request.duration = .ofNat d)
    (finite : s.request.duration.isFinite = true) (positive : 0 < d)
    (small : s.readings.frame + d ≤ 2 ^ 53) :
    host.Wakes op s ↔ op = .tick ∧ s.readings.frame + d ≤ host.frame + 1 := by
  refine and_congr_right fun _ => ?_
  rw [Suspension.wake, frames, duration]
  exact Number.ofNat_add_atMost positive small (duration ▸ finite) (host.frame + 1)

theorem LeadsBy.frame_lt {d : Nat} (duration : s.request.duration = .ofNat d)
    (finite : s.request.duration.isFinite = true) (positive : 0 < d)
    (small : s.readings.frame + d ≤ 2 ^ 53) (begins : host.frame = s.readings.frame)
    (run : host.LeadsBy (Early s) later) : later.frame < s.readings.frame + d := by
  induction run with
  | refl => omega
  | @step middle _ fuel op _ kind run ih =>
    obtain ⟨stays, advances⟩ := perform?_frame run
    by_cases ticks : op = .tick
    · have early : ¬ s.readings.frame + d ≤ middle.frame + 1 := fun le =>
        kind.2 ((wakes_ofNat frames duration finite positive small).mpr ⟨ticks, le⟩)
      rw [advances ticks]
      omega
    · rw [stays ticks]
      exact ih

theorem wakes_of_nonpositive (finite : s.request.duration.isFinite = true)
    (nonpositive : s.request.duration.atMost (.ofNat 0) = true)
    (begins : host.frame = s.readings.frame) :
    host.Wakes .tick s := by
  refine ⟨rfl, ?_⟩
  rw [Suspension.wake, frames, Readings.reading, ← begins]
  exact Number.add_atMost_next host.frame finite ((Number.atMost_iff _ _).mp nonpositive).2.2

theorem LeadsBy.frame_eq (finite : s.request.duration.isFinite = true)
    (nonpositive : s.request.duration.atMost (.ofNat 0) = true)
    (begins : host.frame = s.readings.frame) (run : host.LeadsBy (Early s) later) :
    later.frame = s.readings.frame := by
  induction run with
  | refl => exact begins
  | step fuel op _ kind run ih =>
    have other : op ≠ .tick := fun ticks =>
      kind.2 (ticks ▸ wakes_of_nonpositive frames finite nonpositive ih)
    rw [(perform?_frame run).1 other, ih]

end Frames

/-- A continuation is queued under the reading of its clock at the moment of its suspension, plus
the duration. From there on nothing resumes it but a tick that finds the clock at that value;
and if all that is due is resumed, the first such tick does. -/
theorem woken_exactly {policy : DrainPolicy} {maxCallDepth : Nat} {reporter : Reporter}
    {plugins : List Plugin} {host next : Host} {fuel : Nat} {op : HostOp} {s : Suspension}
    (reached : (Host.new policy maxCallDepth reporter plugins).LeadsBy Timely host)
    (timely : host.Timely fuel op) (run : host.perform? fuel op = some next)
    (suspends : s ∈ host.suspensions fuel op) :
    (∃ e ∈ (next.queues.get s.request.mode).entries, e.id = s.id ∧
      e.wake = (s.readings.reading s.request.mode).add s.request.duration) ∧
    (∀ later fuel op last, next.LeadsBy (Undriven s) later → later.perform? fuel op = some last →
      s.id ∈ later.driven fuel op → later.Wakes op s) ∧
    (policy = .allDue → ∀ later fuel op last, next.LeadsBy (Early s) later →
      later.perform? fuel op = some last →
        (s.id ∈ later.driven fuel op ↔ later.Wakes op s) ∧
        (s.request.mode = .frame → ∀ d, s.request.duration = .ofNat d → 0 < d →
          s.readings.frame + d ≤ 2 ^ 53 →
            (s.id ∈ later.driven fuel op ↔ op = .tick ∧ later.frame + 1 = s.readings.frame + d)) ∧
        (s.request.mode = .frame → s.request.duration.atMost (.ofNat 0) →
          (s.id ∈ later.driven fuel op ↔ op = .tick))) := by
  have timed_host : host.Timed := (new_timed _ _ _ _).leads id reached
  have timed : next.Timed := timed_host.perform? timely run
  have files := perform?_files run
  obtain ⟨finite, -⟩ := timely s suspends
  obtain ⟨e, queued, e_files⟩ := files.filed s suspends
  have waits : next.Waits s := ⟨e, queued, e_files⟩
  have begins : next.frame = s.readings.frame := (files.frames s suspends).symm
  refine ⟨⟨e, queued, e_files.2⟩, fun later fuel op last quiet runs mem => ?_,
    fun all later fuel op last quiet runs => ?_⟩
  · obtain ⟨timed', waits'⟩ := waits.leads timed quiet
    exact waits'.wakes timed' runs mem
  · obtain ⟨timed', waits'⟩ := waits.leads timed (waits.undriven timed quiet)
    have policy' : later.policy = .allDue := by
      rw [quiet.leads.policy, (perform?_setup run).1, reached.leads.policy]
      exact all
    have driven_iff : s.id ∈ later.driven fuel op ↔ later.Wakes op s :=
      ⟨waits'.wakes timed' runs, waits'.driven timed' policy' runs⟩
    refine ⟨driven_iff, fun frames d duration positive small => ?_, fun frames nonpositive => ?_⟩
    · have before := LeadsBy.frame_lt frames duration finite positive small begins quiet
      rw [driven_iff, wakes_ofNat frames duration finite positive small]
      exact and_congr_right fun _ => by omega
    · have same := LeadsBy.frame_eq frames finite nonpositive begins quiet
      rw [driven_iff]
      exact ⟨And.left, fun ticks => ticks ▸ wakes_of_nonpositive frames finite nonpositive same⟩

/-- A call that is suspended for two frames. -/
theorem woken_exactly_two : ∃ host next later s,
    (Host.new .allDue 200 .collecting []).performAll? 10 [.init] = some host ∧
    host.perform? 10 (.call Natives.suspendName [.num (.ofNat 2)]) = some next ∧
    s ∈ host.suspensions 10 (.call Natives.suspendName [.num (.ofNat 2)]) ∧
    next.perform? 10 .tick = some later ∧ s.id ∉ next.driven 10 .tick ∧
    s.id ∈ later.driven 10 .tick := by
  let host := (Host.new .allDue 200 .collecting []).init
  let op : HostOp := .call Natives.suspendName [.num (.ofNat 2)]
  let s : Suspension := ⟨⟨1⟩, ⟨.frame, .ofNat 2⟩, .zero⟩
  have suspends : host.suspensions 10 op = [s] := by decide +kernel
  have ticks : (host.perform? 10 op).bind (fun next => (next.perform? 10 .tick).map fun later =>
      (next.frame, decide (next.Timely 10 .tick), later.frame, (later.perform? 10 .tick).isSome)) =
        some (0, true, 1, true) := by decide +kernel
  obtain ⟨next, run, facts⟩ := Option.bind_eq_some_iff.1 ticks
  obtain ⟨later, runs, facts'⟩ := Option.map_eq_some_iff.1 facts
  simp only [Prod.mk.injEq, decide_eq_true_eq] at facts'
  obtain ⟨begins, timely, frame, returns⟩ := facts'
  obtain ⟨last, ran⟩ := Option.isSome_iff_exists.mp returns
  have reached : (Host.new .allDue 200 .collecting []).LeadsBy Timely host :=
    .step 10 .init .refl (fun _ mem => nomatch mem) rfl
  have timely_call : host.Timely 10 op := by
    intro t mem
    rw [suspends] at mem
    obtain rfl := List.mem_singleton.mp mem
    decide +kernel
  have mem : s ∈ host.suspensions 10 op := suspends ▸ List.mem_singleton_self s
  obtain ⟨-, -, exactly⟩ := woken_exactly reached timely_call run mem
  obtain ⟨first, frames, -⟩ := exactly rfl next 10 .tick later .refl runs
  have absent : s.id ∉ next.driven 10 .tick := by
    rw [frames rfl 2 rfl (by decide) (by decide), begins]
    nofun
  have early : next.LeadsBy (Early s) later :=
    .step 10 .tick .refl ⟨timely, mt first.mpr absent⟩ runs
  obtain ⟨-, frames', -⟩ := exactly rfl later 10 .tick last early ran
  refine ⟨host, next, later, s, rfl, run, mem, runs, absent, ?_⟩
  rw [frames' rfl 2 rfl (by decide) (by decide), frame]
  exact ⟨rfl, rfl⟩

end Host

end FrameScript
