import FrameScript.Proofs.Host.Waking

/-!
# Turns in the frame queue

A host may resume only one continuation of each queue in a tick. If none is suspended for less
than no frames, what is due in the frame queue is never passed: whatever is filed from then on
goes behind it, so every tick brings it one place forward until it is resumed.
-/

namespace FrameScript

instance : DecidableRel QueueEntry.Before := fun a b =>
  inferInstanceAs (Decidable (a.compare b = .lt))

theorem QueueEntry.Before.asymm {a b : QueueEntry} (h : a.Before b) : ¬ b.Before a := by
  rw [before_iff] at *
  omega

namespace SuspensionQueue

variable {l l' : List QueueEntry} {e : QueueEntry}

theorem idxOf_eq_length (sorted : l.Pairwise QueueEntry.Before) (mem : e ∈ l) :
    l.idxOf e = (l.filter fun d => decide (d.Before e)).length := by
  induction l with
  | nil => cases mem
  | cons first rest ih =>
    obtain ⟨before, sorted'⟩ := List.pairwise_cons.mp sorted
    rcases List.mem_cons.mp mem with rfl | mem
    · have none_before : ∀ d ∈ e :: rest, ¬ d.Before e := by
        intro d d_mem
        rcases List.mem_cons.mp d_mem with rfl | d_mem
        · exact fun h => h.asymm h
        · exact (before d d_mem).asymm
      rw [List.idxOf_cons_self, List.filter_eq_nil_iff.mpr (by simpa using none_before)]
      rfl
    · have first_before := before e mem
      have apart : first ≠ e := by
        rintro rfl
        exact first_before.asymm first_before
      rw [List.idxOf_cons_ne rest apart, List.filter_cons_of_pos (by simpa using first_before),
        List.length_cons, ih sorted' mem]

theorem idxOf_congr (sorted : l.Pairwise QueueEntry.Before)
    (sorted' : l'.Pairwise QueueEntry.Before) (mem : e ∈ l) (kept : ∀ d ∈ l, d ∈ l')
    (added : ∀ d ∈ l', d ∈ l ∨ e.Before d) : l'.idxOf e = l.idxOf e := by
  have irrefl : ∀ {d : QueueEntry}, ¬ d.Before d := fun h => h.asymm h
  have nodup : l.Nodup := sorted.imp fun before => by
    rintro rfl
    exact irrefl before
  have nodup' : l'.Nodup := sorted'.imp fun before => by
    rintro rfl
    exact irrefl before
  rw [idxOf_eq_length sorted mem, idxOf_eq_length sorted' (kept e mem)]
  refine (List.perm_ext_iff_of_nodup (nodup'.filter _) (nodup.filter _)).mpr ?_ |>.length_eq
  intro d
  rw [List.mem_filter, List.mem_filter, decide_eq_true_eq]
  refine and_congr_left fun before => ⟨fun d_mem => ?_, kept d⟩
  exact (added d d_mem).resolve_right before.asymm

theorem takeDue_onePerTick {q : SuspensionQueue} {now : Number} {first : QueueEntry}
    {rest : List QueueEntry} (all : q.entries = first :: rest) (due : isDue now first = true) :
    q.takeDue now .onePerTick = ([first.id], { q with entries := rest }) := by
  unfold takeDue
  rw [all, List.takeWhile_cons, if_pos due]
  simp

end SuspensionQueue

namespace Host

variable {fuel : Nat} {host middle next later : Host} {op : HostOp} {d e : QueueEntry}

/-- No suspension on the frame counter is for a negative duration. -/
def Forward (fuel : Nat) (host : Host) (op : HostOp) : Prop :=
  ∀ s ∈ host.suspensions fuel op, s.request.mode = .frame →
    (Number.ofNat 0).atMost s.request.duration = true

instance (fuel : Nat) (host : Host) (op : HostOp) : Decidable (host.Forward fuel op) :=
  inferInstanceAs (Decidable (∀ s ∈ host.suspensions fuel op, _))

def frameQueue (host : Host) : List QueueEntry := (host.queues.get .frame).entries

def ahead (host : Host) (e : QueueEntry) : Nat := host.frameQueue.idxOf e

def framesFiled (host : Host) : Nat := (host.queues.get .frame).filedCount

theorem Forward.filed (forward : host.Forward fuel op)
    (files : FilesAll (host.suspensions fuel op) middle next) (mem : d ∈ next.frameQueue) :
    d ∈ middle.frameQueue ∨
      middle.framesFiled ≤ d.filed ∧ (Number.ofNat next.frame).place ≤ d.wake.place := by
  refine (files.others .frame d mem).imp_right ?_
  rintro ⟨late, s, suspended, frames, -, wake⟩
  refine ⟨late, ?_⟩
  rw [wake, Suspension.wake, frames, Readings.reading, files.frames s suspended]
  exact Number.place_ofNat_le_add next.frame (forward s suspended frames)

theorem Forward.behind (forward : host.Forward fuel op)
    (files : FilesAll (host.suspensions fuel op) middle next) (filed : e.filed < middle.framesFiled)
    (due : e.wake.atMost (.ofNat next.frame) = true) (mem : d ∈ next.frameQueue) :
    d ∈ middle.frameQueue ∨ e.Before d := by
  refine (forward.filed files mem).imp_right ?_
  rintro ⟨late, after⟩
  have before := Number.place_le_ofNat due
  rw [QueueEntry.before_iff]
  omega

theorem framesFiled_mono (run : host.perform? fuel op = some next) :
    host.framesFiled ≤ next.framesFiled :=
  (perform?_files run).counted .frame

theorem frame_mono (run : host.perform? fuel op = some next) : host.frame ≤ next.frame := by
  obtain ⟨stays, advances⟩ := perform?_frame run
  by_cases ticks : op = .tick
  · rw [advances ticks]
    exact Nat.le_succ _
  · exact (stays ticks).ge

theorem due_mono {m n : Nat} {x : Number} (due : x.atMost (.ofNat m) = true) (le : m ≤ n) :
    x.atMost (.ofNat n) = true := by
  obtain ⟨number, -, below⟩ := (Number.atMost_iff _ _).mp due
  exact (Number.atMost_iff _ _).mpr
    ⟨number, Number.ofNat_isNaN n, below.trans (Number.level_ofNat_mono le)⟩

/-- From the moment on that an entry is due, nothing is filed before it. -/
theorem LeadsBy.behind (run : next.LeadsBy Forward later) (filed : e.filed < next.framesFiled)
    (due : e.wake.atMost (.ofNat next.frame) = true) {count : Nat}
    (now : ∀ d ∈ next.frameQueue, count ≤ d.filed → e.Before d) :
    next.frame ≤ later.frame ∧ next.framesFiled ≤ later.framesFiled ∧
      ∀ d ∈ later.frameQueue, count ≤ d.filed → e.Before d := by
  induction run with
  | refl => exact ⟨Nat.le_refl _, Nat.le_refl _, now⟩
  | step fuel op _ forward run ih =>
    obtain ⟨frames, counted, behind⟩ := ih
    have frames' := frames.trans (frame_mono run)
    refine ⟨frames', counted.trans (framesFiled_mono run), fun d mem late => ?_⟩
    rcases forward.behind (perform?_files run) (Nat.lt_of_lt_of_le filed counted)
      (due_mono due frames') mem with mem | before
    · exact behind d mem late
    · exact before

/-- One continuation is released per tick, and no wake value in the frame queue keeps it from
releasing what is due. -/
structure Paced (host : Host) : Prop where
  policy : host.policy = .onePerTick
  ordered : host.QueuesOrdered
  sound : ∀ e ∈ host.frameQueue, e.wake ≠ .nan true

theorem new_paced (maxCallDepth : Nat) (reporter : Reporter) (plugins : List Plugin) :
    (Host.new .onePerTick maxCallDepth reporter plugins).Paced where
  policy := rfl
  ordered := new_queuesOrdered _ _ _ _
  sound e mem := by cases mem

namespace Paced

theorem perform? (paced : host.Paced) (forward : host.Forward fuel op)
    (run : host.perform? fuel op = some next) : next.Paced where
  policy := (perform?_setup run).1.trans paced.policy
  ordered := perform?_queuesOrdered paced.ordered run
  sound e mem := by
    rcases forward.filed (perform?_files run) mem with mem | ⟨-, after⟩
    · exact paced.sound e mem
    · intro same
      have nonneg := Number.place_ofNat_nonneg next.frame
      have negative : (Number.nan true).place < 0 := by decide
      rw [same] at after
      omega

theorem leads (paced : host.Paced) (run : host.LeadsBy Forward later) : later.Paced := by
  induction run with
  | refl => exact paced
  | step fuel op _ forward run ih => exact ih.perform? forward run

theorem sorted (paced : host.Paced) : host.frameQueue.Pairwise QueueEntry.Before :=
  (paced.ordered .frame).sorted

theorem filed_lt (paced : host.Paced) (mem : e ∈ host.frameQueue) : e.filed < host.framesFiled :=
  (paced.ordered .frame).counted e mem

/-- An operation other than a tick leaves what is due in its place. -/
theorem stays (paced : host.Paced) (forward : host.Forward fuel op) (other : op ≠ .tick)
    (run : host.perform? fuel op = some next) (mem : e ∈ host.frameQueue)
    (due : e.wake.atMost (.ofNat host.frame) = true) :
    e ∈ next.frameQueue ∧ next.ahead e = host.ahead e := by
  have keeps := perform?_keeps other run
  have due' : e.wake.atMost (.ofNat next.frame) = true := keeps.frame ▸ due
  refine ⟨keeps.entries .frame e mem, ?_⟩
  apply SuspensionQueue.idxOf_congr paced.sorted (paced.perform? forward run).sorted mem
    (keeps.entries .frame)
  intro d d_mem
  exact forward.behind (perform?_files run) (paced.filed_lt mem) due' d_mem

theorem takeDue_frame (host : Host) :
    let taken := (host.queues.get .frame).takeDue (host.readings.reading .frame) host.policy
    (host.takeDue WakeMode.all).2.queues.get .frame = taken.2 ∧
      ∃ others, (host.takeDue WakeMode.all).1.map (·.1) = taken.1 ++ others := by
  refine ⟨rfl, ?_⟩
  simp only [WakeMode.all, takeDue, List.map_append, List.map_map, Function.comp_def, List.map_id']
  exact ⟨_, rfl⟩

/-- What is due at a tick is released in turn. -/
theorem releases (paced : host.Paced) {first : QueueEntry} {rest : List QueueEntry}
    (all : host.frameQueue = first :: rest) (mem : e ∈ host.frameQueue)
    (due : e.wake.atMost (.ofNat (host.frame + 1)) = true) :
    (host.advanced.takeDue WakeMode.all).2.frameQueue = rest ∧
      ((host.advanced.takeDue WakeMode.all).1.map (·.1)).head? = some first.id := by
  have sorted : (first :: rest).Pairwise QueueEntry.Before := all ▸ paced.sorted
  have first_due : SuspensionQueue.isDue (host.tickReading .frame) first = true := by
    rcases List.mem_cons.mp (all ▸ mem) with rfl | later
    · exact due
    · have before := (List.pairwise_cons.mp sorted).1 e later
      exact before.isDue (paced.sound first (all ▸ List.mem_cons_self)) due
  have takes := SuspensionQueue.takeDue_onePerTick all first_due
  obtain ⟨left, others, ids⟩ := takeDue_frame host.advanced
  have policy : host.advanced.policy = .onePerTick := paced.policy
  have queue : host.advanced.queues.get .frame = host.queues.get .frame := rfl
  rw [policy, queue, ← tickReading, takes] at left ids
  rw [ids, frameQueue, left]
  exact ⟨rfl, rfl⟩

/-- A tick at which an entry is due resumes its continuation if nothing is before it, and brings
it one place forward otherwise. -/
theorem tick (paced : host.Paced) (forward : host.Forward fuel .tick)
    (mem : e ∈ host.frameQueue) (due : e.wake.atMost (.ofNat (host.frame + 1)) = true)
    (run : host.perform? fuel .tick = some next) :
    (host.ahead e = 0 → (host.driven fuel .tick).head? = some e.id) ∧
      (0 < host.ahead e → e ∈ next.frameQueue ∧ next.ahead e + 1 = host.ahead e) := by
  obtain ⟨result, ran, rfl⟩ := Option.map_eq_some_iff.1 run
  obtain ⟨first, rest, all⟩ := List.exists_cons_of_ne_nil (List.ne_nil_of_mem mem)
  obtain ⟨left, head⟩ := paced.releases all mem due
  have next_frame : result.2.frame = host.frame + 1 := (perform?_frame run).2 rfl
  have ids : host.driven fuel .tick = (host.advanced.takeDue WakeMode.all).1.map (·.1) := by
    have resumes := ran
    rw [tick_eq] at resumes
    obtain ⟨resumed, driven, same⟩ := Option.map_eq_some_iff.mp resumes
    rw [Host.driven, ran, ← resumeAll_ids driven, ← same]
  have place : host.ahead e = (first :: rest).idxOf e := by rw [ahead, all]
  by_cases is_first : first = e
  · subst is_first
    rw [List.idxOf_cons_self] at place
    refine ⟨fun _ => ?_, by omega⟩
    rw [ids, head]
  · rw [List.idxOf_cons_ne rest is_first] at place
    refine ⟨by omega, fun _ => ?_⟩
    have kept : e ∈ rest := (List.mem_cons.mp (all ▸ mem)).resolve_left (Ne.symm is_first)
    have sorted_rest : rest.Pairwise QueueEntry.Before :=
      (List.pairwise_cons.mp (all ▸ paced.sorted)).2
    have entries (d : QueueEntry) (d_mem : d ∈ rest) : d ∈ result.2.frameQueue := by
      rw [← left] at d_mem
      exact (tick_keeps ran).entries .frame d d_mem
    have filed : e.filed < (host.advanced.takeDue WakeMode.all).2.framesFiled := by
      rw [framesFiled, takeDue_counts]
      exact paced.filed_lt mem
    refine ⟨entries e kept, ?_⟩
    rw [place]
    refine congrArg (· + 1) (SuspensionQueue.idxOf_congr sorted_rest
      (paced.perform? forward run).sorted kept entries fun d d_mem => ?_)
    have behind := forward.behind (tick_files ran) filed (next_frame ▸ due) d_mem
    rwa [left] at behind

end Paced

/-- The hosts after some number of ticks: the first one is at once, and between them and after
them there may be other operations. -/
inductive TicksBy (P : Nat → Host → HostOp → Prop) (start : Host) : Nat → Host → Prop
  | start : TicksBy P start 0 start
  | tick {n : Nat} {host next : Host} (fuel : Nat) (before : TicksBy P start n host)
      (kind : P fuel host .tick) (run : host.perform? fuel .tick = some next) :
      TicksBy P start (n + 1) next
  | other {n : Nat} {host next : Host} (fuel : Nat) (op : HostOp)
      (before : TicksBy P start (n + 1) host) (kind : P fuel host op) (different : op ≠ .tick)
      (run : host.perform? fuel op = some next) : TicksBy P start (n + 1) next

theorem TicksBy.leadsBy {P : Nat → Host → HostOp → Prop} {n : Nat} (run : host.TicksBy P n later) :
    host.LeadsBy P later := by
  induction run with
  | start => exact .refl
  | tick fuel _ kind run ih => exact .step fuel .tick ih kind run
  | other fuel op _ kind _ run ih => exact .step fuel op ih kind run

theorem TicksBy.frame {P : Nat → Host → HostOp → Prop} {n : Nat} (run : host.TicksBy P n later) :
    later.frame = host.frame + n := by
  induction run with
  | start => rfl
  | tick fuel _ _ run ih =>
    rw [(perform?_frame run).2 rfl, ih]
    rfl
  | other fuel op _ _ different run ih => rw [(perform?_frame run).1 different, ih]

/-- An entry that is due comes one place forward with every tick. -/
theorem TicksBy.ahead {n : Nat} (run : host.TicksBy Forward n later) (paced : host.Paced)
    (mem : e ∈ host.frameQueue) (due : e.wake.atMost (.ofNat (host.frame + 1)) = true)
    (turn : n ≤ host.ahead e) : e ∈ later.frameQueue ∧ later.ahead e + n = host.ahead e := by
  induction run with
  | start => exact ⟨mem, rfl⟩
  | @tick n middle next fuel before forward run ih =>
    obtain ⟨queued, place⟩ := ih (by omega)
    have frame := before.frame
    have due' := due_mono due (by omega : host.frame + 1 ≤ middle.frame + 1)
    obtain ⟨-, moves⟩ := (paced.leads before.leadsBy).tick forward queued due' run
    obtain ⟨stays, place'⟩ := moves (by omega)
    exact ⟨stays, by omega⟩
  | @other n middle next fuel op before forward different run ih =>
    obtain ⟨queued, place⟩ := ih turn
    have frame := before.frame
    have due' := due_mono due (by omega : host.frame + 1 ≤ middle.frame)
    obtain ⟨stays, place'⟩ := (paced.leads before.leadsBy).stays forward different run queued due'
    exact ⟨stays, place' ▸ place⟩

/-- Once an entry of the frame queue is due, nothing that is filed goes before it. A tick resumes
it or brings it one place forward; so it waits for as many ticks as there are entries before it,
and the next one resumes it. -/
theorem frame_queue_in_turn {maxCallDepth : Nat} {reporter : Reporter} {plugins : List Plugin}
    {host : Host}
    (reached : (Host.new .onePerTick maxCallDepth reporter plugins).LeadsBy Forward host) :
    (∀ fuel op next later, host.Forward fuel op → host.perform? fuel op = some next →
      next.LeadsBy Forward later →
      ∀ e ∈ next.frameQueue, e.wake.atMost (.ofNat next.frame) →
      ∀ d ∈ later.frameQueue, host.framesFiled ≤ d.filed → e.filed < d.filed → e.Before d) ∧
    ∀ e ∈ host.frameQueue, e.wake.atMost (.ofNat (host.frame + 1)) →
      (∀ fuel next, host.Forward fuel .tick → host.perform? fuel .tick = some next →
        (host.ahead e = 0 → (host.driven fuel .tick).head? = some e.id) ∧
        (0 < host.ahead e → e ∈ next.frameQueue ∧ next.ahead e + 1 = host.ahead e)) ∧
      (∀ n later, host.TicksBy Forward n later → n ≤ host.ahead e →
        e ∈ later.frameQueue ∧ later.ahead e + n = host.ahead e) ∧
      ∀ later fuel last, host.TicksBy Forward (host.ahead e) later → later.Forward fuel .tick →
        later.perform? fuel .tick = some last → (later.driven fuel .tick).head? = some e.id := by
  have paced : host.Paced := (new_paced _ _ _).leads reached
  constructor
  · intro fuel op next later forward run leads e mem due d d_mem late after
    have new : ∀ d ∈ next.frameQueue, max host.framesFiled (e.filed + 1) ≤ d.filed →
        e.Before d := by
      intro d d_mem late
      have due_by := Number.place_le_ofNat due
      rw [QueueEntry.before_iff]
      rcases forward.filed (perform?_files run) d_mem with d_mem | ⟨-, not_before⟩
      · have early := paced.filed_lt d_mem
        omega
      · omega
    have filed := (paced.perform? forward run).filed_lt mem
    exact (leads.behind filed due new).2.2 d d_mem (Nat.max_le.mpr ⟨late, after⟩)
  · intro e mem due
    refine ⟨fun fuel next forward run => paced.tick forward mem due run,
      fun n later run turn => run.ahead paced mem due turn,
      fun later fuel last run forward ran => ?_⟩
    obtain ⟨queued, place⟩ := run.ahead paced mem due (Nat.le_refl _)
    have frame := run.frame
    have due' := due_mono due (by omega : host.frame + 1 ≤ later.frame + 1)
    exact ((paced.leads run.leadsBy).tick forward queued due' ran).1 (by omega)

/-- A function that is suspended again and again, each time until the next tick. -/
def restlessText : String := "function restless() \x7b while (true) suspend(0) \x7d"

/-- Of two restless calls the first is resumed by the first tick and filed again, and the second
is resumed by the second tick. -/
theorem frame_queue_in_turn_restless : ∃ host e later,
    (Host.new .onePerTick 200 .collecting []).performAll? 100
      [.init, .runSource "restless" restlessText, .call "restless" [], .call "restless" []] =
        some host ∧
    e ∈ host.frameQueue ∧ host.ahead e = 1 ∧ host.perform? 100 .tick = some later ∧
    later.frameQueue.map (·.id) = [⟨2⟩, ⟨1⟩] ∧ (later.driven 100 .tick).head? = some e.id := by
  let again : HostOp := .call "restless" []
  let e : QueueEntry := ⟨.ofNat 0, 1, ⟨2⟩⟩
  have ticks : ((Host.new .onePerTick 200 .collecting []).init.perform? 100
      (.runSource "restless" restlessText)).bind (fun ready =>
        (ready.perform? 100 again).bind fun once => (once.perform? 100 again).bind fun host =>
          (host.perform? 100 .tick).bind fun later => (later.perform? 100 .tick).map fun _ =>
            ((decide (ready.Forward 100 again), decide (once.Forward 100 again),
              decide (host.Forward 100 .tick), decide (later.Forward 100 .tick)),
              host.frame, decide (e ∈ host.frameQueue), host.ahead e,
              later.frameQueue.map (·.id))) =
      some ((true, true, true, true), 0, true, 1, [⟨2⟩, ⟨1⟩]) := by decide +kernel
  obtain ⟨ready, loads, facts⟩ := Option.bind_eq_some_iff.1 ticks
  obtain ⟨once, calls, facts⟩ := Option.bind_eq_some_iff.1 facts
  obtain ⟨host, calls', facts⟩ := Option.bind_eq_some_iff.1 facts
  obtain ⟨later, run, facts⟩ := Option.bind_eq_some_iff.1 facts
  obtain ⟨last, run', facts⟩ := Option.map_eq_some_iff.1 facts
  simp only [Prod.mk.injEq, decide_eq_true_eq] at facts
  obtain ⟨⟨first, second, third, fourth⟩, frame, mem, ahead, ids⟩ := facts
  have reached : (Host.new .onePerTick 200 .collecting []).LeadsBy Forward host := by
    refine .step 100 again (.step 100 again (.step 100 _ (.step 100 .init .refl ?_ rfl) ?_ loads)
      first calls) second calls'
    · exact fun _ mem => nomatch mem
    · exact fun _ mem => nomatch mem
  have due : e.wake.atMost (.ofNat (host.frame + 1)) = true := by
    rw [frame]
    decide +kernel
  obtain ⟨-, turns⟩ := frame_queue_in_turn reached
  obtain ⟨-, -, resumes⟩ := turns e mem due
  have ticked : host.TicksBy Forward (host.ahead e) later := ahead ▸ .tick 100 .start third run
  refine ⟨host, e, later, ?_, mem, ahead, run, ids, resumes later 100 last ticked fourth run'⟩
  simp only [performAll?, Option.bind_eq_some_iff, Option.some.injEq]
  exact ⟨_, rfl, ready, loads, once, calls, host, calls', rfl⟩

end Host

end FrameScript
