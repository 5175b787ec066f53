import FrameScript.Proofs.Host.ByHand
import FrameScript.Proofs.Host.Waking

/-!
# Parked continuations

Operations that do not resume a continuation leave all of it alone: its machine with the frames
and their code, its state and its entries. Scripts that are loaded in the meantime rebind names
of globals, so what it finds when it goes on to look them up may be new, but the code that it
goes on with is not.
-/

namespace FrameScript
namespace Host

variable {fuel : Nat} {host middle next later : Host} {id : ContinuationId}

/-- What belongs to a continuation is the same at two hosts. -/
structure Spares (id : ContinuationId) (host next : Host) : Prop where
  registered : next.registry.get? id = host.registry.get? id
  queued : ∀ mode, ∀ e, e.id = id →
    (e ∈ (next.queues.get mode).entries ↔ e ∈ (host.queues.get mode).entries)

namespace Spares

theorem refl (id : ContinuationId) (host : Host) : Spares id host host :=
  ⟨rfl, fun _ _ _ => .rfl⟩

theorem trans (h : Spares id host middle) (k : Spares id middle next) : Spares id host next where
  registered := k.registered.trans h.registered
  queued mode e own := (k.queued mode e own).trans (h.queued mode e own)

end Spares

theorem Keeps.spares {ids : List ContinuationId} (keeps : Keeps ids host next) (apart : id ∉ ids) :
    Spares id host next where
  registered := keeps.others id apart
  queued := by
    rintro mode e rfl
    constructor
    · intro mem
      exact (keeps.added mode e mem).resolve_right apart
    · exact keeps.entries mode e

theorem takeDue_spares (modes : List WakeMode)
    (apart : id ∉ (host.takeDue modes).1.map (·.1)) : Spares id host (host.takeDue modes).2 where
  registered := by rw [takeDue_rest]
  queued := by
    rintro mode e rfl
    constructor
    · exact takeDue_subset
    · intro mem
      induction modes generalizing host with
      | nil => exact mem
      | cons first rest ih =>
        let now := host.readings.reading first
        let queue := (host.queues.get first).takeDue now host.policy
        have released : (host.takeDue (first :: rest)).1.map (·.1) = queue.1 ++
            (takeDue { host with queues := host.queues.set queue.2 first } rest).1.map (·.1) := by
          simp [takeDue, queue, now, Function.comp_def]
        rw [released, List.mem_append, not_or] at apart
        apply ih apart.2
        rw [SuspensionQueues.get_set]
        split
        · rename_i same
          subst same
          obtain ⟨out, split, ids⟩ := (host.queues.get mode).takeDue_append now host.policy
          rw [split] at mem
          refine (List.mem_append.mp mem).resolve_left fun out_mem => apart.1 ?_
          rw [← ids]
          exact List.mem_map_of_mem out_mem
        · exact mem

/-- A tick leaves alone what it does not report. -/
theorem tick_spares {report : TickReport} (ran : host.tick fuel = some (report, next))
    (absent : id ∉ report.resumed.map (·.1)) : Spares id host next := by
  have resumes := ran
  rw [tick_eq] at resumes
  obtain ⟨result, driven, same⟩ := Option.map_eq_some_iff.mp resumes
  have ids : report.resumed.map (·.1) = (host.advanced.takeDue WakeMode.all).1.map (·.1) := by
    rw [← resumeAll_ids driven, ← (Prod.mk.inj same).1]
  rw [ids] at absent
  have advances : Spares id host host.advanced := ⟨rfl, fun _ _ _ => .rfl⟩
  exact (advances.trans (takeDue_spares WakeMode.all absent)).trans
    ((tick_keeps ran).spares absent)

theorem resumeState_spares {other : ContinuationId} {result : Outcome × Host}
    (apart : id ≠ other) (run : resumeState fuel host other = some result) :
    Spares id host result.2 :=
  (resumeState_keeps run).spares (by simpa using apart)

/-- The hosts that operations lead to which do not resume a continuation, neither in a tick nor by
hand. -/
inductive Passes (id : ContinuationId) (start : Host) : Host → Prop
  | refl : Passes id start start
  | step {host next : Host} (fuel : Nat) (op : HostOp) (before : Passes id start host)
      (other : op ≠ .tick) (run : host.perform? fuel op = some next) : Passes id start next
  | tick {host next : Host} {report : TickReport} (fuel : Nat) (before : Passes id start host)
      (ran : host.tick fuel = some (report, next)) (absent : id ∉ report.resumed.map (·.1)) :
      Passes id start next
  | hand {host : Host} {result : Outcome × Host} (fuel : Nat) (other : ContinuationId)
      (before : Passes id start host) (apart : id ≠ other)
      (ran : resumeState fuel host other = some result) : Passes id start result.2

theorem Tallies.ne_nextId {hands : List ContinuationId} (tallies : host.Tallies [] hands)
    (mem : id ∈ host.registry.ids) : id ≠ host.registry.nextId := by
  rintro rfl
  have small := tallies.bound _ mem
  simp only [Registry.nextId] at small
  omega

/-- A continuation that is passed over is spared, and the tally of the host still holds. -/
theorem Passes.spares {c : Continuation} {hands : List ContinuationId}
    (passes : host.Passes id later) (tallies : host.Tallies [] hands)
    (found : host.registry.get? id = some c) :
    Spares id host later ∧ ∃ hands', later.Tallies [] hands' := by
  induction passes with
  | refl => exact ⟨.refl id host, hands, tallies⟩
  | step fuel op _ other run ih =>
    obtain ⟨spares, hands', tallies'⟩ := ih
    have mem := Registry.mem_ids_of_get? (spares.registered.trans found)
    have apart := tallies'.ne_nextId mem
    exact ⟨spares.trans ((perform?_keeps other run).spares (by simpa using apart)), hands',
      perform?_tallies tallies' run⟩
  | tick fuel _ ran absent ih =>
    obtain ⟨spares, hands', tallies'⟩ := ih
    exact ⟨spares.trans (tick_spares ran absent), hands', tick_tallies tallies' ran⟩
  | @hand middle result fuel other _ apart ran ih =>
    obtain ⟨spares, hands', tallies'⟩ := ih
    refine ⟨spares.trans (resumeState_spares apart ran), ?_⟩
    by_cases mem : other ∈ middle.registry.ids
    · exact ⟨other :: hands', resumeState_tallies (Tallied.hand tallies' mem) ran⟩
    · rw [resumeState_unregistered mem] at ran
      cases ran
      exact ⟨hands', tallies'⟩

/-- Between two hosts the names of some chunks come to stand for new functions, of the last chunk
with that name each, and nothing else changes. -/
structure Rebinds (chunks : List Chunk) (host next : Host) : Prop where
  rest : next = { host with
    globals := next.globals, world := host.world.withHeap next.world.heap }
  lists : next.world.heap.lists = host.world.heap.lists
  objects : next.world.heap.objects = host.world.heap.objects
  functions : ∃ more, next.world.heap.chunks = host.world.heap.chunks ++ more
  others : ∀ name, (∀ chunk ∈ chunks, chunk.name ≠ name) →
    next.globals.get? name = host.globals.get? name
  named : ∀ name chunk, chunks.reverse.find? (·.name = name) = some chunk →
    ∃ r : FunctionRef, next.globals.get? name = some (.function r) ∧
      host.world.heap.chunks.size ≤ r.slot ∧ next.world.heap.chunks[r.slot]? = some chunk

namespace Rebinds

theorem nil (host : Host) : Rebinds [] host host where
  rest := rfl
  lists := rfl
  objects := rfl
  functions := ⟨#[], by simp⟩
  others _ _ := rfl
  named := by simp

theorem trans {first second : List Chunk} (h : Rebinds first host middle)
    (k : Rebinds second middle next) : Rebinds (first ++ second) host next where
  rest := by
    rw [k.rest, h.rest]
    rfl
  lists := k.lists.trans h.lists
  objects := k.objects.trans h.objects
  functions := by
    obtain ⟨more, added⟩ := h.functions
    obtain ⟨others, added'⟩ := k.functions
    exact ⟨more ++ others, by rw [added', added, Array.append_assoc]⟩
  others name apart := by
    simp only [List.forall_mem_append] at apart
    rw [k.others name apart.2, h.others name apart.1]
  named name chunk last := by
    rw [List.reverse_append, List.find?_append] at last
    obtain ⟨more, added⟩ := h.functions
    obtain ⟨others, added'⟩ := k.functions
    cases found : second.reverse.find? (·.name = name) with
    | some other =>
      rw [found, Option.some_or] at last
      obtain ⟨r, bound, fresh, held⟩ := k.named name other found
      rw [added, Array.size_append] at fresh
      exact ⟨r, bound, by omega, held ▸ last⟩
    | none =>
      rw [found, Option.none_or] at last
      obtain ⟨r, bound, fresh, held⟩ := h.named name chunk last
      refine ⟨r, ?_, fresh, ?_⟩
      · rw [k.others name (by simpa using found), bound]
      · obtain ⟨inside, -⟩ := Array.getElem?_eq_some_iff.mp held
        rw [added', Array.getElem?_append_left inside, held]

end Rebinds

theorem bindFunctions_rebinds (host : Host) (chunks : List Chunk) :
    Rebinds chunks host (host.bindFunctions chunks) := by
  unfold bindFunctions
  induction chunks generalizing host with
  | nil => exact .nil host
  | cons chunk rest ih =>
    have first : Rebinds [chunk] host (host.bindFunctions [chunk]) := by
      constructor
      · rfl
      · rfl
      · rfl
      · exact ⟨#[chunk], rfl⟩
      · intro name apart
        have other : name ≠ chunk.name := (apart chunk (List.mem_singleton_self _)).symm
        exact (Table.get?_insert ..).trans (if_neg other)
      · intro name last found
        obtain ⟨rfl, rfl⟩ : chunk.name = name ∧ chunk = last := by simpa using found
        refine ⟨⟨host.world.heap.chunks.size⟩, ?_, Nat.le_refl _, ?_⟩
        · exact (Table.get?_insert ..).trans (if_pos rfl)
        · exact Array.getElem?_push_size
    exact first.trans (ih _)

/-- Whatever is loaded, called, ticked or resumed by hand: a continuation that is not resumed itself
is registered as it was, with all of its machine, and queued as it was. When it is resumed its own
machine goes on, and what a script that was loaded has changed for it is what names of globals
stand for. -/
theorem parked_untouched {policy : DrainPolicy} {maxCallDepth : Nat} {reporter : Reporter}
    {plugins : List Plugin} {hands : List ContinuationId} {host later : Host} {c : Continuation}
    (handled : (Host.new policy maxCallDepth reporter plugins).Handled hands host)
    (registered : c ∈ host.registry.entries) (passes : host.Passes c.id later) :
    later.registry.get? c.id = some c ∧ c.Parked later.queues ∧
    (∀ mode, ∀ e, e.id = c.id →
      (e ∈ (later.queues.get mode).entries ↔ e ∈ (host.queues.get mode).entries)) ∧
    (∀ fuel now outcome next,
      resumeState fuel (later.setPending c.id (.num now)) c.id = some (outcome, next) ↔
        later.Resumes fuel c now outcome next) ∧
    ∀ chunks, later.Rebinds chunks (later.bindFunctions chunks) := by
  have tallies : host.Tallies [] hands := handled.tallies Tallied.empty
  have found := Registry.get?_of_mem tallies.nodup registered
  obtain ⟨parked, -⟩ := tallies.parked c registered (by simp)
  obtain ⟨spares, -⟩ := passes.spares tallies found
  have kept : later.registry.get? c.id = some c := spares.registered.trans found
  refine ⟨kept, ?_, spares.queued, ?_, bindFunctions_rebinds later⟩
  · exact parked.mono fun mode e mem own => (spares.queued mode e own).mpr mem
  · exact fun fuel now outcome next => resumeState_iff kept parked.isSuspended now outcome next

def firstText : String :=
  "function g() \x7b return 1 \x7d function f() \x7b suspend(1) return g() \x7d"

def secondText : String :=
  "function g() \x7b return 2 \x7d function f() \x7b return 3 \x7d"

/-- A call waits while both its function and the one that it goes on to call are loaded anew. A new
call runs the new code; the old one goes on with its own and calls the new function from there. -/
theorem parked_untouched_reload : ∃ host c later,
    (Host.new .allDue 200 .collecting []).performAll? 100
      [.init, .runSource "first" firstText, .call "f" []] = some host ∧
    c ∈ host.registry.entries ∧ host.perform? 100 (.runSource "second" secondText) = some later ∧
    later.registry.get? c.id = some c ∧
    (later.call 100 "f" []).map (·.1) = some (.finished (.num (.ofNat 3))) ∧
    (later.tick 100).map (·.1.resumed) = some [(c.id, .finished (.num (.ofNat 2)))] := by
  have runs : ((Host.new .allDue 200 .collecting []).performAll? 100
      [.init, .runSource "first" firstText, .call "f" []]).bind (fun host =>
        (host.perform? 100 (.runSource "second" secondText)).map fun later =>
          (host.registry.ids, (later.call 100 "f" []).map (·.1),
            (later.tick 100).map (·.1.resumed))) =
      some ([⟨1⟩], some (.finished (.num (.ofNat 3))),
        some [(⟨1⟩, .finished (.num (.ofNat 2)))]) := by decide +kernel
  obtain ⟨host, run, facts⟩ := Option.bind_eq_some_iff.1 runs
  obtain ⟨later, loads, facts⟩ := Option.map_eq_some_iff.1 facts
  simp only [Prod.mk.injEq] at facts
  obtain ⟨ids, calls, ticks⟩ := facts
  obtain ⟨c, found⟩ := Registry.exists_get? (ids ▸ List.mem_singleton_self _ :
    (⟨1⟩ : ContinuationId) ∈ host.registry.ids)
  obtain ⟨registered, own⟩ := Registry.get?_eq_some found
  have passes : host.Passes c.id later := .step 100 _ .refl (by simp) loads
  obtain ⟨kept, -⟩ := parked_untouched (Leads.refl.performAll? run).handled registered passes
  exact ⟨host, c, later, run, registered, loads, kept, calls, own ▸ ticks⟩

end Host
end FrameScript
