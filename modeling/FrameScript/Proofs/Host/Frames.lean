import FrameScript.Proofs.Host.Lifecycle

/-!
# The accounts of the frame driver

The frame driver ticks until nothing is registered, if it is told to stop then, or until it has
used up its frames. It stops at the first check at which it has a reason to. Each outcome of a
tick but `yielded` takes one continuation out of the registry, so what was registered before the
run is registered after it, has finished or has failed.
-/

namespace FrameScript

namespace Registry

variable {r next : Registry} {id : ContinuationId} {outcome : Outcome}

theorem length_ids (r : Registry) : r.ids.length = r.size := List.length_map _

theorem Follows.size (follows : r.Follows next id outcome) (nodup : r.ids.Nodup)
    (registered : id ∈ r.ids) :
    r.size = next.size + ([(id, outcome)].countP (·.2.isFinished) +
      [(id, outcome)].countP (·.2.isErrored)) := by
  rw [← length_ids r, ← length_ids next]
  cases outcome with
  | yielded =>
    rw [follows.stays rfl]
    rfl
  | finished v | errored info =>
    have left : next.ids = r.ids.erase id := by
      rw [follows.leaves (by simp), nodup.erase_eq_filter]
      exact List.filter_congr fun other _ => by simp [bne, beq_eq_decide]
    rw [left, ← List.length_erase_add_one registered]
    rfl

end Registry

namespace Host

variable {fuel : Nat} {host next last : Host}

theorem resumeAll_size {due : List (ContinuationId × Number)}
    {answers : List (ContinuationId × Outcome)} (orderly : host.Orderly (due.map (·.1)))
    (run : resumeAll fuel host due = some (answers, last)) :
    host.registry.size = last.registry.size +
      (answers.countP (·.2.isFinished) + answers.countP (·.2.isErrored)) := by
  induction due generalizing host answers with
  | nil =>
    cases run
    rfl
  | cons first rest ih =>
    obtain ⟨id, now⟩ := first
    simp only [resumeAll, Option.bind_eq_bind, Option.bind_eq_some_iff, Option.some.injEq] at run
    obtain ⟨⟨outcome, middle⟩, driven, ⟨outcomes, final⟩, others, same⟩ := run
    obtain ⟨rfl, rfl⟩ := Prod.mk.inj same
    have prepared : (host.setPending id (.num now)).Orderly (id :: rest.map (·.1)) :=
      setPending_orderly _ orderly (by simp)
    have registered : id ∈ (host.setPending id (.num now)).registry.ids :=
      prepared.perm.subset (by simp)
    have first_size := (resumeState_drives registered driven).2.size prepared.nodup registered
    have rest_size := ih (resumeState_orderly prepared driven) others
    have same_size := congrArg List.length (setPending_ids host id (.num now)).1
    rw [Registry.length_ids, Registry.length_ids] at same_size
    simp only [List.countP_cons, List.countP_nil] at first_size rest_size ⊢
    omega

/-- A tick takes out of the registry what it reports as finished or failed. -/
theorem tick_size {report : TickReport} (orderly : host.Orderly [])
    (run : host.tick fuel = some (report, next)) :
    host.registry.size = next.registry.size +
      (report.resumed.countP (·.2.isFinished) + report.resumed.countP (·.2.isErrored)) := by
  rw [tick_eq] at run
  obtain ⟨⟨resumed, final⟩, resumes, same⟩ := Option.map_eq_some_iff.mp run
  obtain ⟨rfl, rfl⟩ := Prod.mk.inj same
  have advanced : host.advanced.Orderly [] := orderly
  have in_flight : (host.advanced.takeDue WakeMode.all).2.Orderly
      ((host.advanced.takeDue WakeMode.all).1.map (·.1)) := takeDue_orderly advanced
  have registry : (host.advanced.takeDue WakeMode.all).2.registry = host.registry := by
    rw [takeDue_rest]
    rfl
  rw [← registry]
  exact resumeAll_size in_flight resumes

theorem tick_frame {report : TickReport} (run : host.tick fuel = some (report, next)) :
    next.frame = host.frame + 1 := by
  have performed : host.perform? fuel .tick = some next := by simp [perform?, run]
  exact (perform?_frame performed).2 rfl

def Idle (options : FrameOptions) (host : Host) : Prop :=
  options.exitWhenIdle = true ∧ host.registry.size = 0

end Host

def FrameOptions.Spent (options : FrameOptions) (frames : Nat) : Prop :=
  options.maxFrames = some frames

/-- The driver has run no more frames than it may. -/
def FrameOptions.Allows (options : FrameOptions) (frames : Nat) : Prop :=
  ∀ limit, options.maxFrames = some limit → frames ≤ limit

theorem FrameOptions.Allows.next {options : FrameOptions} {frames : Nat}
    (allows : options.Allows frames) (unspent : ¬ options.Spent frames) :
    options.Allows (frames + 1) := by
  intro limit given
  have apart : frames ≠ limit := fun same => unspent (same ▸ given)
  have within := allows limit given
  omega

namespace Host

variable {fuel : Nat} {host next last : Host} {options : FrameOptions} {frames : Nat}
  {stop : StopReason}

/-- A reason to stop holds at a check. -/
def Stops (options : FrameOptions) (host : Host) (frames : Nat) : StopReason → Prop
  | .idle => host.Idle options
  | .maxFrames => ¬ host.Idle options ∧ options.Spent frames

theorem idle_iff : (options.exitWhenIdle && host.registry.size == 0) = true ↔
    host.Idle options := by
  simp [Idle]

theorem stopReason?_eq_some (allows : options.Allows frames) :
    stopReason? options host frames = some stop ↔ host.Stops options frames stop := by
  unfold stopReason?
  split
  · rename_i idle
    have idle := idle_iff.mp idle
    cases stop <;> simp [Stops, idle]
  · rename_i busy
    have busy : ¬ host.Idle options := fun idle => busy (idle_iff.mpr idle)
    cases limit : options.maxFrames with
    | none => cases stop <;> simp [Stops, busy, FrameOptions.Spent, limit]
    | some most =>
      have within := allows most limit
      have reached : most ≤ frames ↔ most = frames := by omega
      cases stop <;> simp [Stops, busy, FrameOptions.Spent, limit, reached]

theorem stopReason?_eq_none (allows : options.Allows frames) :
    stopReason? options host frames = none ↔ ¬ host.Idle options ∧ ¬ options.Spent frames := by
  rw [Option.eq_none_iff_forall_ne_some]
  simp only [ne_eq, stopReason?_eq_some allows]
  constructor
  · intro no_reason
    have busy : ¬ host.Idle options := no_reason .idle
    exact ⟨busy, fun spent => no_reason .maxFrames ⟨busy, spent⟩⟩
  · rintro ⟨busy, unspent⟩ stop
    cases stop with
    | idle => exact busy
    | maxFrames => exact fun stops => unspent stops.2

/-- Ticks with their reports, after some frames. At the check before each of them there is no
reason to stop, and the clocks are moved after each. -/
inductive Ticked (fuel : Nat) (advance : ManualClock → ManualClock) (options : FrameOptions) :
    Nat → Host → List TickReport → Host → Prop
  | done {frames : Nat} {host : Host} : Ticked fuel advance options frames host [] host
  | tick {frames : Nat} {host next last : Host} {report : TickReport} {reports : List TickReport} :
      ¬ host.Idle options → ¬ options.Spent frames → host.tick fuel = some (report, next) →
      Ticked fuel advance options (frames + 1) (next.withClock (advance next.world.clock)) reports
        last →
      Ticked fuel advance options frames host (report :: reports) last

variable {advance : ManualClock → ManualClock} {reports : List TickReport}

/-- The driver ticks up to the first check at which it has a reason to stop. -/
theorem runFrames_ticked {ticks : Nat} {summary total : FrameSummary}
    (allows : options.Allows summary.frames)
    (run : runFrames ticks fuel advance options host summary = some (total, stop, last)) :
    ∃ reports, Ticked fuel advance options summary.frames host reports last ∧
      total = reports.foldl FrameSummary.add summary ∧ last.Stops options total.frames stop := by
  induction ticks generalizing host summary with
  | zero =>
    unfold runFrames at run
    split at run
    · rename_i found
      cases run
      exact ⟨[], .done, rfl, (stopReason?_eq_some allows).mp found⟩
    · cases run
  | succ ticks ih =>
    unfold runFrames at run
    split at run
    · rename_i found
      cases run
      exact ⟨[], .done, rfl, (stopReason?_eq_some allows).mp found⟩
    · rename_i found
      obtain ⟨busy, unspent⟩ := (stopReason?_eq_none allows).mp found
      simp only [Option.bind_eq_bind, Option.bind_eq_some_iff] at run
      obtain ⟨⟨report, next⟩, ticked, others⟩ := run
      obtain ⟨reports, later, counted, stops⟩ := ih (allows.next unspent) others
      exact ⟨report :: reports, .tick busy unspent ticked later, counted, stops⟩

/-- Ticks that lead to a check with a reason to stop are the only ones that do. -/
theorem Ticked.unique {other : Host} {others : List TickReport}
    (run : Ticked fuel advance options frames host reports last)
    (stops : last.Idle options ∨ options.Spent (frames + reports.length))
    (run' : Ticked fuel advance options frames host others other)
    (stops' : other.Idle options ∨ options.Spent (frames + others.length)) :
    others = reports ∧ other = last := by
  induction run generalizing others with
  | done =>
    cases run' with
    | done => exact ⟨rfl, rfl⟩
    | tick busy unspent => exact absurd stops (not_or.mpr ⟨busy, unspent⟩)
  | @tick frames host next last report reports busy unspent ticked _ ih =>
    cases run' with
    | done => exact absurd stops' (not_or.mpr ⟨busy, unspent⟩)
    | tick _ _ ticked' later =>
      rw [ticked] at ticked'
      cases ticked'
      have shift (n : Nat) : frames + (n + 1) = frames + 1 + n := by omega
      rw [List.length_cons, shift] at stops stops'
      obtain ⟨rfl, rfl⟩ := ih stops later stops'
      exact ⟨rfl, rfl⟩

theorem Ticked.frame (run : Ticked fuel advance options frames host reports last) :
    last.frame = host.frame + reports.length := by
  induction run with
  | done => rfl
  | @tick _ host next _ _ reports _ _ ticked _ ih =>
    have moved : (next.withClock (advance next.world.clock)).frame = next.frame := rfl
    rw [ih, moved, tick_frame ticked, List.length_cons]
    omega

def resumptions (reports : List TickReport) : List (ContinuationId × Outcome) :=
  reports.flatMap (·.resumed)

theorem Ticked.size (run : Ticked fuel advance options frames host reports last)
    (orderly : host.Orderly []) :
    host.registry.size = last.registry.size + ((resumptions reports).countP (·.2.isFinished) +
      (resumptions reports).countP (·.2.isErrored)) := by
  induction run with
  | done => rfl
  | @tick _ host next _ report _ _ _ ticked _ ih =>
    have still : (next.withClock (advance next.world.clock)).Orderly [] :=
      tick_orderly orderly ticked
    have first := tick_size orderly ticked
    have rest := ih still
    have moved : (next.withClock (advance next.world.clock)).registry = next.registry := rfl
    rw [moved] at rest
    simp only [resumptions, List.flatMap_cons, List.countP_append] at rest ⊢
    omega

theorem foldl_add (summary : FrameSummary) (reports : List TickReport) :
    reports.foldl FrameSummary.add summary =
      { frames := summary.frames + reports.length
        resumed := summary.resumed + (resumptions reports).length
        finished := summary.finished + (resumptions reports).countP (·.2.isFinished)
        errored := summary.errored + (resumptions reports).countP (·.2.isErrored) } := by
  induction reports generalizing summary with
  | nil => rfl
  | cons report rest ih =>
    rw [List.foldl_cons, ih]
    simp only [FrameSummary.add, resumptions, List.flatMap_cons, List.length_cons,
      List.length_append, List.countP_append, FrameSummary.mk.injEq]
    omega

/-- A run of the frame driver that has come to its end, with the reports of its ticks. -/
structure FrameRun (fuel : Nat) (advance : ManualClock → ManualClock) (options : FrameOptions)
    (host last : Host) (reports : List TickReport) (summary : FrameSummary) (stop : StopReason) :
    Prop where
  ticked : Ticked fuel advance options 0 host reports last
  /-- No other ticks lead to a check at which there is a reason to stop. -/
  first : ∀ others other, Ticked fuel advance options 0 host others other →
    other.Idle options ∨ options.Spent others.length → others = reports ∧ other = last
  frames : summary.frames = reports.length
  frame : last.frame = host.frame + summary.frames
  resumed : summary.resumed = (resumptions reports).length
  finished : summary.finished = (resumptions reports).countP (·.2.isFinished)
  errored : summary.errored = (resumptions reports).countP (·.2.isErrored)
  registered : host.registry.size = last.registry.size + summary.finished + summary.errored
  idle : stop = .idle → options.exitWhenIdle = true ∧ last.registry.size = 0
  maxFrames : stop = .maxFrames → options.maxFrames = some summary.frames ∧
    ¬ (options.exitWhenIdle = true ∧ last.registry.size = 0)

/-- After any history the summary of the frame driver accounts for its ticks and for every
continuation that was registered, and the driver stops at the first check with a reason to. -/
theorem runFrames_accounted {policy : DrainPolicy} {maxCallDepth : Nat} {reporter : Reporter}
    {plugins : List Plugin} {ticks : Nat} {summary : FrameSummary}
    (reached : (Host.new policy maxCallDepth reporter plugins).Leads host)
    (run : runFrames ticks fuel advance options host .zero = some (summary, stop, last)) :
    ∃ reports, FrameRun fuel advance options host last reports summary stop := by
  have unused : options.Allows FrameSummary.zero.frames := fun _ _ => Nat.zero_le _
  obtain ⟨reports, ticked, counted, stops⟩ := runFrames_ticked unused run
  have orderly : host.Orderly [] := reached.orderly Filed.empty
  have size := ticked.size orderly
  rw [foldl_add] at counted
  simp only [FrameSummary.zero, Nat.zero_add] at counted ticked
  subst counted
  have reason : last.Idle options ∨ options.Spent reports.length := by
    cases stop with
    | idle => exact .inl stops
    | maxFrames => exact .inr stops.2
  exact ⟨reports,
    { ticked
      first := fun others other run' reason' =>
        ticked.unique (by simpa using reason) run' (by simpa using reason')
      frames := rfl
      frame := ticked.frame
      resumed := rfl
      finished := rfl
      errored := rfl
      registered := by simpa [Nat.add_assoc] using size
      idle := by
        rintro rfl
        exact stops
      maxFrames := by
        rintro rfl
        exact ⟨stops.2, stops.1⟩ }⟩

/-- Two calls suspend themselves, for two frames and for nine, and the driver has three frames:
one of the calls finishes, the other one is left. -/
theorem runFrames_accounted_three : ∃ host last,
    (Host.new .allDue 200 .collecting []).performAll? 10
        [.init, .call Natives.suspendName [.num (Number.ofNat 2)],
          .call Natives.suspendName [.num (Number.ofNat 9)]] = some host ∧
      runFrames 3 10 id ⟨some 3, true⟩ host .zero = some (⟨3, 1, 1, 0⟩, .maxFrames, last) ∧
      host.registry.size = 2 ∧ last.registry.size = 1 ∧
      ∃ reports, FrameRun 10 id ⟨some 3, true⟩ host last reports ⟨3, 1, 1, 0⟩ .maxFrames := by
  have plays : ((Host.new .allDue 200 .collecting []).performAll? 10
      [.init, .call Natives.suspendName [.num (Number.ofNat 2)],
        .call Natives.suspendName [.num (Number.ofNat 9)]]).bind (fun host =>
          (runFrames 3 10 id ⟨some 3, true⟩ host .zero).map fun result =>
            (host.registry.size, result.1, result.2.1, result.2.2.registry.size)) =
      some (2, ⟨3, 1, 1, 0⟩, .maxFrames, 1) := by decide +kernel
  obtain ⟨host, prepared, runs⟩ := Option.bind_eq_some_iff.mp plays
  obtain ⟨⟨summary, stop, last⟩, run, shown⟩ := Option.map_eq_some_iff.mp runs
  simp only [Prod.mk.injEq] at shown
  obtain ⟨before, rfl, rfl, after⟩ := shown
  exact ⟨host, last, prepared, run, before, after,
    runFrames_accounted (Leads.refl.performAll? prepared) run⟩

end Host
end FrameScript
