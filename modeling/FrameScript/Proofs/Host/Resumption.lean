import FrameScript.Proofs.Host.Ticks
import FrameScript.Proofs.Machine.Surroundings

/-!
# What a suspension evaluates to

A tick hands a continuation the reading at which it inspected the queue. That is what
the clock shows when the continuation goes on, unless one that was resumed before it has
moved the clock.
-/

namespace FrameScript
namespace Host

variable {fuel : Nat} {host next : Host} {c : Continuation} {now : Number} {outcome : Outcome}

structure Steady (host next : Host) : Prop where
  frame : next.frame = host.frame
  natives : next.natives = host.natives
  clock : next.world.clock = host.world.clock

namespace Steady

variable {middle : Host}

theorem trans (h : Steady host middle) (k : Steady middle next) : Steady host next :=
  ⟨k.frame.trans h.frame, k.natives.trans h.natives, k.clock.trans h.clock⟩

theorem readings (h : Steady host next) : next.readings = host.readings := by
  rw [Host.readings, Host.readings, h.frame, h.clock]

end Steady

theorem report_steady (host : Host) (r : ErrorReport) : Steady host (host.report r) := by
  unfold report
  split <;> exact ⟨rfl, rfl, rfl⟩

theorem settle_steady (host : Host) (c : Continuation) (machine : Machine) (ending : RunEnd) :
    Steady host (host.settle c machine ending).2 := by
  have released : Steady host (host.release c.id) := ⟨rfl, rfl, rfl⟩
  cases ending with
  | suspended request => exact ⟨rfl, rfl, rfl⟩
  | returned v => exact released
  | threw info traceback => exact released.trans (report_steady _ _)
  | faulted fault dump => exact released.trans (report_steady _ _)

theorem setPending_steady (host : Host) (id : ContinuationId) (v : Value) :
    Steady host (host.setPending id v) := by
  unfold setPending
  split <;> exact ⟨rfl, rfl, rfl⟩

theorem takeDue_steady (host : Host) (modes : List WakeMode) :
    Steady host (host.takeDue modes).2 := by
  rw [takeDue_rest]
  exact ⟨rfl, rfl, rfl⟩

/-- Driving a continuation leaves the frame counter alone, and the clocks if the natives do. -/
theorem Resumes.steady (h : host.Resumes fuel c now outcome next) :
    next.frame = host.frame ∧ (host.natives.KeepClocks → Steady host next) := by
  obtain ⟨m, halt, ending, -, runs, -, settled⟩ := h
  obtain ⟨-, rfl⟩ := Prod.mk.inj settled
  have settles := settle_steady ((host.setPending c.id (.num now)).withEnv halt.env)
    { c with pending := .resume (.num now) } halt.machine ending
  have prepares := setPending_steady host c.id (.num now)
  refine ⟨settles.frame.trans prepares.frame, fun keep => ?_⟩
  have clock : halt.env.world.clock = host.world.clock := Machine.run_clock keep runs
  exact ⟨settles.frame.trans prepares.frame, settles.natives.trans prepares.natives,
    settles.clock.trans clock⟩

theorem ResumesAll.steady {driven : List (Continuation × Number)} {outcomes : List Outcome}
    (h : host.ResumesAll fuel driven outcomes next) :
    next.frame = host.frame ∧ (host.natives.KeepClocks → Steady host next) := by
  induction h with
  | nil host => exact ⟨rfl, fun _ => ⟨rfl, rfl, rfl⟩⟩
  | cons first others ih =>
    obtain ⟨frame, steady⟩ := first.steady
    refine ⟨ih.1.trans frame, fun keep => (steady keep).trans (ih.2 ?_)⟩
    rwa [(steady keep).natives]

theorem ResumesAll.append {before after : List (Continuation × Number)} {outcomes : List Outcome}
    (h : host.ResumesAll fuel (before ++ after) outcomes next) :
    ∃ first middle last, host.ResumesAll fuel before first middle ∧
      middle.ResumesAll fuel after last next := by
  induction before generalizing host outcomes with
  | nil => exact ⟨[], host, outcomes, .nil host, h⟩
  | cons p rest ih =>
    cases h with
    | cons first others =>
      obtain ⟨outcomes, middle, last, driven, ends⟩ := ih others
      exact ⟨_, middle, last, .cons first driven, ends⟩

theorem Leads.forall_natives {P : Native → Prop} {start : Host} (h : start.Leads host)
    (library : ∀ e ∈ Natives.withSuspend.entries, P e.2)
    (base : ∀ e ∈ start.natives.entries, P e.2)
    (brought : ∀ p ∈ start.plugins, ∀ n ∈ p.natives, P n.2) :
    host.plugins = start.plugins ∧ ∀ e ∈ host.natives.entries, P e.2 := by
  induction h with
  | refl => exact ⟨rfl, base⟩
  | step fuel op _ run ih =>
    obtain ⟨same, all⟩ := ih
    obtain ⟨-, plugins, natives⟩ := perform?_setup run
    refine ⟨plugins.trans same, ?_⟩
    rcases natives with natives | natives
    · exact natives ▸ all
    · rw [natives, same]
      exact Plugin.forall_registerAll library brought

/-- No native moves a clock if no plugin brings one that does. -/
theorem Leads.keepClocks {start : Host} (h : start.Leads host) (base : start.natives.KeepClocks)
    (still : ∀ p ∈ start.plugins, ∀ n ∈ p.natives, n.2.KeepsClock) :
    host.plugins = start.plugins ∧ host.natives.KeepClocks :=
  h.forall_natives Natives.withSuspend_keepClocks base still

/-- What a tick hands to a continuation is the reading at which it inspected the queue. It is what
the clock shows when the continuation goes on, for the frame counter always and for the other clocks
if no plugin moves them. -/
theorem handed_reading {policy : DrainPolicy} {maxCallDepth : Nat} {reporter : Reporter}
    {plugins : List Plugin} {host next : Host} {report : TickReport}
    (reached : (Host.new policy maxCallDepth reporter plugins).Leads host)
    (sound : host.WakesSound) (ran : host.tick fuel = some (report, next)) :
    ∃ driven : List (Continuation × Number),
      report.resumed.map (·.1) = driven.map (·.1.id) ∧
      ∀ before c now after, driven = before ++ (c, now) :: after →
        ∃ mode outcomes middle outcome last,
          (∃ e ∈ (host.queues.get mode).entries, e.id = c.id) ∧
          (host.advanced.takeDue WakeMode.all).2.ResumesAll fuel before outcomes middle ∧
          middle.Resumes fuel c now outcome last ∧ now = host.tickReading mode ∧
          (mode = .frame ∨ (∀ p ∈ plugins, ∀ n ∈ p.natives, n.2.KeepsClock) →
            now = middle.readings.reading mode) := by
  obtain ⟨-, -, driven, same, -, returns, -⟩ := tick_spec
    (reached.queuesOrdered (new_queuesOrdered _ _ _ _)) (reached.orderly Filed.empty) sound fuel
  obtain ⟨-, -, ids, drives, -⟩ := returns report next ran
  refine ⟨driven, ?_, fun before c now after split => ?_⟩
  · rw [ids, ← same, List.map_map]
    rfl
  · have mem : (c.id, now) ∈ host.advanced.dueList WakeMode.all := by
      rw [← same, split]
      simp
    obtain ⟨mode, -, from_mode⟩ := List.mem_flatMap.mp mem
    obtain ⟨e, released, handed⟩ := List.mem_map.mp from_mode
    obtain ⟨own, reading⟩ := Prod.mk.inj handed
    obtain ⟨outcomes, middle, last, driven_before, others⟩ := (split ▸ drives).append
    cases others with
    | cons first rest =>
      have queued := (host.advanced.released_sublist mode).subset released
      refine ⟨mode, outcomes, middle, _, _, ⟨e, queued, own⟩, driven_before, first, reading.symm,
        fun still => ?_⟩
      obtain ⟨frame, steady⟩ := driven_before.steady
      have taken := takeDue_steady host.advanced WakeMode.all
      rw [← reading]
      rcases still with rfl | still
      · rw [Readings.reading, Readings.reading]
        exact congrArg Number.ofNat (frame.trans taken.frame).symm
      · obtain ⟨-, keep⟩ := reached.keepClocks (fun e mem => nomatch mem) still
        rw [(steady (taken.natives ▸ keep)).readings, taken.readings]

/-- A call that waits for the next tick. -/
theorem handed_reading_call : ∃ host report next,
    (Host.new .allDue 200 .collecting []).performAll? 10
      [.init, .call Natives.suspendName [.str "g", .num (.ofNat 0)]] = some host ∧
    host.tick 10 = some (report, next) ∧
    ∃ (c : Continuation) (now : Number) (mode : WakeMode) (middle last : Host) (outcome : Outcome),
      report.resumed.map (·.1) = [c.id] ∧ middle.Resumes 10 c now outcome last ∧
      now = middle.readings.reading mode := by
  have ticks : ((Host.new .allDue 200 .collecting []).performAll? 10
      [.init, .call Natives.suspendName [.str "g", .num (.ofNat 0)]]).map (fun host =>
        (decide host.WakesSound, (host.tick 10).map fun result => result.1.resumed.length)) =
      some (true, some 1) := by decide +kernel
  obtain ⟨host, run, facts⟩ := Option.map_eq_some_iff.1 ticks
  obtain ⟨wakes, reported⟩ := Prod.mk.inj facts
  obtain ⟨⟨report, next⟩, ran, one⟩ := Option.map_eq_some_iff.1 reported
  obtain ⟨driven, ids, handed⟩ :=
    handed_reading (Leads.refl.performAll? run) (of_decide_eq_true wakes) ran
  obtain ⟨⟨c, now⟩, rfl⟩ := List.length_eq_one_iff.mp
    (by simpa [one] using (congrArg List.length ids).symm : driven.length = 1)
  obtain ⟨mode, -, middle, outcome, last, -, -, resumes, -, shown⟩ := handed [] c now [] rfl
  exact ⟨host, report, next, run, ran, c, now, mode, middle, last, outcome, ids, resumes,
    shown (.inr (by simp))⟩

def movingPlugin : Plugin :=
  ⟨"clock", [("move", fun context world _ =>
    ⟨.value .null, context, { world with clock := world.clock.advanceSimulation (.ofNat 5) }⟩)],
    fun _ => false⟩

/-- Two calls that wait for the same tick; the first one moves simulation time on before the other
one looks at it. -/
def movingText : String :=
  "function a() \x7b suspend(\"g\", 0) move() \x7d
  function b() \x7b let v = suspend(\"g\", 0) return clock().simulation - v \x7d"

/-- The second call is handed a reading that the clock no longer shows. -/
theorem handed_reading_moved :
    ((Host.new .allDue 200 .collecting [movingPlugin]).performAll? 100
      [.init, .runSource "moving" movingText, .call "a" [], .call "b" []]).bind (fun host =>
        (host.tick 100).map fun result => result.1.resumed) =
      some [(⟨1⟩, .finished .null), (⟨2⟩, .finished (.num (.ofNat 5)))] := by decide +kernel

end Host
end FrameScript
