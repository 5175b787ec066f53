import FrameScript.Proofs.Host.Closed
import FrameScript.Proofs.Host.Deletion
import Mathlib.Data.Nat.Nth

/-!
# Continuations do not interfere

A call whose continuation makes no writes can be deleted from a run of calls and ticks. The other
continuations are driven in the same turns, and hosts and outcomes are the same up to the ids and
the places of what is made after the call. The places that the deleted continuation takes in the
heap are counted out by one renaming for the whole run.
-/

namespace FrameScript

variable {b : ContinuationId} {turns : List Turn} {h last : Heap} {count : Heap → Nat}

theorem Turn.Chain.grows (chain : Turn.Chain h turns last) : h.Grows last := by
  induction chain with
  | nil grows => exact grows
  | cons waits runs _ ih => exact (waits.trans runs).trans ih

theorem Turn.Chain.makes_lt (grow : ∀ {h next : Heap}, h.Grows next → count h ≤ count next)
    (chain : Turn.Chain h turns last) {place : Nat} (makes : b.Makes count turns place) :
    place < count last := by
  obtain ⟨t, mem, -, -, high⟩ := makes
  induction chain with
  | nil _ => cases mem
  | cons _ _ others ih =>
    rcases List.mem_cons.mp mem with rfl | mem
    · exact high.trans_le (grow others.grows)
    · exact ih mem

/-- The places that are left are counted in order. -/
theorem Leaves.exists_strictMono {bound : Nat}
    (finite : ∀ place, b.Makes count turns place → place < bound) :
    ∃ f, StrictMono f ∧ Leaves b count turns 0 f := by
  have infinite : (Set.ofPred fun place => ¬ b.Makes count turns place).Infinite := by
    apply Set.infinite_of_forall_exists_gt
    intro place
    refine ⟨max bound place + 1, fun makes => ?_, by omega⟩
    have low := finite _ makes
    omega
  refine ⟨Nat.nth fun place => ¬ b.Makes count turns place, Nat.nth_strictMono infinite, ?_⟩
  intro place _
  rw [← Set.mem_range, Nat.range_nth_of_infinite infinite]
  rfl

/-- A strictly monotone map that hits all places below a bound leaves them alone. -/
theorem eq_self_of_hits {f : Nat → Nat} (mono : StrictMono f) {n : Nat}
    (hits : ∀ place < n, ∃ i, f i = place) {i : Nat} (low : i < n) : f i = i := by
  induction i using Nat.strong_induction_on with
  | h i ih =>
    obtain ⟨j, at_place⟩ := hits i low
    have below : j ≤ f j := mono.le_apply
    rcases Nat.lt_or_eq_of_le (at_place ▸ below) with less | rfl
    · have same := ih j less (less.trans low)
      omega
    · exact at_place

theorem Leaves.fixes (grow : ∀ {h next : Heap}, h.Grows next → count h ≤ count next)
    {f : Nat → Nat} (leaves : Leaves b count turns 0 f) (mono : StrictMono f)
    (chain : Turn.Chain h turns last) {i : Nat} (low : i < count h) : f i = i := by
  refine eq_self_of_hits mono (fun place below => ?_) low
  refine (leaves place (Nat.zero_le _)).mpr fun makes => ?_
  exact absurd (chain.makes_ge grow makes) (Nat.not_le_of_lt below)

/-- The renaming leaves out the places of what the continuation makes in the turns, and only
those. -/
structure Renaming.LeavesOut (e : Renaming) (b : ContinuationId) (turns : List Turn) : Prop where
  lists : ∀ place, (∃ i, e.lists i = place) ↔ ¬ b.Makes Heap.listCount turns place
  objects : ∀ place, (∃ i, e.objects i = place) ↔ ¬ b.Makes Heap.objectCount turns place

namespace Renaming.LeavesOut

variable {e : Renaming}

theorem exists_of_chain (b : ContinuationId) (chain : Turn.Chain h turns last) :
    ∃ e : Renaming, e.LeavesOut b turns := by
  obtain ⟨lists, lists_mono, lists_leave⟩ :=
    Leaves.exists_strictMono fun _ => chain.makes_lt (b := b) Heap.Grows.lists
  obtain ⟨objects, objects_mono, objects_leave⟩ :=
    Leaves.exists_strictMono fun _ => chain.makes_lt (b := b) Heap.Grows.objects
  exact ⟨⟨lists, objects, lists_mono, objects_mono⟩,
    fun place => lists_leave place (Nat.zero_le _),
    fun place => objects_leave place (Nat.zero_le _)⟩

theorem foresees (leaves : e.LeavesOut b turns) (chain : Turn.Chain h turns last) :
    e.Foresees b turns h :=
  ⟨⟨last, chain⟩, fun place _ => leaves.lists place, fun place _ => leaves.objects place⟩

theorem fixes (leaves : e.LeavesOut b turns) (chain : Turn.Chain h turns last) : e.Fixes h where
  lists _ low := Leaves.fixes Heap.Grows.lists (fun place _ => leaves.lists place) e.lists_mono
    chain low
  objects _ low := Leaves.fixes Heap.Grows.objects (fun place _ => leaves.objects place)
    e.objects_mono chain low

end Renaming.LeavesOut

def Value.Apart (b : ContinuationId) (turns : List Turn) : Value → Prop
  | .list r => ¬ b.Makes Heap.listCount turns r.slot
  | .object r => ¬ b.Makes Heap.objectCount turns r.slot
  | _ => True

instance (b : ContinuationId) (turns : List Turn) : DecidablePred (Value.Apart b turns)
  | .list r => inferInstanceAs (Decidable (¬ b.Makes Heap.listCount turns r.slot))
  | .object r => inferInstanceAs (Decidable (¬ b.Makes Heap.objectCount turns r.slot))
  | .null | .bool _ | .num _ | .str _ | .function _ | .native _ | .error _ => .isTrue trivial

def Move.values : Move → List Value
  | .call _ args => args
  | .tick | .clock _ => []
  | .list items => items.toList
  | .object fields => fields.entries.map (·.2)

theorem Value.Apart.exists_rename {e : Renaming} (leaves : e.LeavesOut b turns) {v : Value}
    (apart : v.Apart b turns) : ∃ own : Value, own.rename e = v := by
  cases v with
  | list r =>
    obtain ⟨i, place⟩ := (leaves.lists r.slot).mpr apart
    exact ⟨.list ⟨i⟩, by rw [Value.rename_list, place]⟩
  | object r =>
    obtain ⟨i, place⟩ := (leaves.objects r.slot).mpr apart
    exact ⟨.object ⟨i⟩, by rw [Value.rename_object, place]⟩
  | null => exact ⟨.null, rfl⟩
  | bool b => exact ⟨.bool b, rfl⟩
  | num x => exact ⟨.num x, rfl⟩
  | str text => exact ⟨.str text, rfl⟩
  | function r => exact ⟨.function r, rfl⟩
  | native name => exact ⟨.native name, rfl⟩
  | error info => exact ⟨.error info, rfl⟩

theorem Move.map_fixed {f : Value → Value} {move : Move} (fixed : ∀ v ∈ move.values, f v = v) :
    move.map f = move := by
  cases move with
  | call entry args => exact congrArg (Move.call entry) (List.map_fixed fixed)
  | tick => rfl
  | clock c => rfl
  | list items => exact congrArg Move.list (Array.map_fixed fixed)
  | object fields => exact congrArg Move.object (Table.map_fixed fixed)

theorem Move.map_map (f g : Value → Value) (move : Move) :
    (move.map f).map g = move.map (g ∘ f) := by
  cases move with
  | object fields => simp [Move.map, Table.map, Function.comp_def]
  | _ => simp [Move.map]

/-- Moves without references to what the continuation makes can also be made without it. -/
theorem Renaming.LeavesOut.exists_moves {e : Renaming} (leaves : e.LeavesOut b turns)
    {moves : List Move} (apart : ∀ move ∈ moves, ∀ v ∈ move.values, v.Apart b turns) :
    ∃ others : List Move, others.map (Move.rename e) = moves := by
  have exists_own (v : Value) : ∃ own : Value, v.Apart b turns → own.rename e = v := by
    by_cases apart : v.Apart b turns
    · obtain ⟨own, same⟩ := apart.exists_rename leaves
      exact ⟨own, fun _ => same⟩
    · exact ⟨v, fun holds => absurd holds apart⟩
  choose own same using exists_own
  refine ⟨moves.map (Move.map own), ?_⟩
  rw [List.map_map]
  refine (List.map_congr_left fun move mem => ?_).trans (List.map_id _)
  rw [Function.comp_apply, Move.rename, Move.map_map]
  exact Move.map_fixed fun v inside => same v (apart move mem v inside)

namespace Host

variable {fuel : Nat} {start : Host} {entry : String} {args : List Value} {moves : List Move}
  {first : Stage} {stages : List Stage}

theorem Leads.library {host : Host} (h : start.Leads host) (alone : start.plugins = [])
    (base : start.natives = Natives.withSuspend) :
    host.plugins = [] ∧ host.natives = Natives.withSuspend := by
  induction h with
  | refl => exact ⟨alone, base⟩
  | step fuel op _ run ih =>
    obtain ⟨none, same⟩ := ih
    obtain ⟨-, plugins, natives⟩ := perform?_setup run
    refine ⟨plugins.trans none, ?_⟩
    rcases natives with kept | anew
    · exact kept.trans same
    · rw [anew, none]
      rfl

/-- The first turn of a continuation without writes is not seen in the host that has not started
it. -/
theorem without_first {e : Renaming} {t : Turn} (orderly : start.Orderly [])
    (ordered : start.QueuesOrdered) (policy : start.policy = .allDue)
    (initialized : start.initialized = true) (library : start.natives = Natives.withSuspend)
    (closed : start.Closed) (fixes : e.Fixes start.world.heap)
    (took : turn? fuel (start.started entry args) start.registry.nextId = some t)
    (harmless : t.Harmless fuel) (omits : e.Omits t.before.world.heap t.next.world.heap) :
    start.Without e start.registry.nextId t.next ∧ t.next.Orderly [] := by
  have started :=
    without_started closed fixes orderly ordered policy initialized library entry args
  have in_flight : (start.started entry args).Orderly [start.registry.nextId] :=
    Filed.start orderly entry args start.maxCallDepth
  refine ⟨turn?_own started took harmless omits, ?_⟩
  obtain ⟨result, drives, rfl⟩ := Option.map_eq_some_iff.mp took
  exact resumeState_orderly in_flight drives

/-- A call whose continuation makes no writes and is never filed under a negative NaN can be
deleted from a run of calls and ticks: the other continuations are driven in the same turns, from
the same hosts and with the same outcomes, up to the ids and the places of what is made later. -/
theorem undisturbed {depth : Nat} {reporter : Reporter} {plugins : List Plugin}
    (reached : (Host.new .allDue depth reporter plugins).Leads start)
    (initialized : start.initialized = true) (library : start.natives = Natives.withSuspend)
    (closed : start.Closed)
    (run : playAll fuel start (.call entry args :: moves) = some (first :: stages))
    (harmless : ∀ t ∈ (first :: stages).flatMap (·.turns),
      t.id = start.registry.nextId → t.Harmless fuel)
    (apart : ∀ move ∈ moves, ∀ v ∈ move.values,
      v.Apart start.registry.nextId ((first :: stages).flatMap (·.turns))) :
    ∃ e : Renaming, e.LeavesOut start.registry.nextId ((first :: stages).flatMap (·.turns)) ∧
      e.Fixes start.world.heap ∧
      start.Without e start.registry.nextId first.next ∧
      ∃ others : List Move, others.map (Move.rename e) = moves ∧
        ∃ rest, playAll fuel start others = some rest ∧
          List.Forall₂ (Stage.Without e start.registry.nextId) rest stages := by
  have change : start.natives.Change := library ▸ Natives.withSuspend_change
  obtain ⟨last, chain⟩ := playAll_chain change run
  obtain ⟨e, leaves⟩ := Renaming.LeavesOut.exists_of_chain start.registry.nextId chain
  have fixes := leaves.fixes chain
  obtain ⟨others, same⟩ := leaves.exists_moves apart
  refine ⟨e, leaves, fixes, ?_⟩
  have foresees := leaves.foresees chain
  simp only [playAll, Option.bind_eq_bind, Option.bind_eq_some_iff, Option.some.injEq] at run
  obtain ⟨_, plays, _, rests, split⟩ := run
  obtain ⟨rfl, rfl⟩ := List.cons.inj split
  rw [play, if_pos initialized] at plays
  obtain ⟨t, took, rfl⟩ := Option.map_eq_some_iff.mp plays
  have own : t.id = start.registry.nextId := by
    obtain ⟨result, -, rfl⟩ := Option.map_eq_some_iff.mp took
    rfl
  obtain ⟨harmless_first, harmless_rest⟩ := List.forall_mem_cons.mp harmless
  obtain ⟨without, orderly⟩ := without_first (reached.orderly Filed.empty)
    (reached.queuesOrdered (new_queuesOrdered _ _ _ _)) reached.policy initialized library closed
    fixes took (harmless_first own) (foresees.omits own)
  refine ⟨without, others, same, ?_⟩
  rw [← same] at rests
  exact playAll_without without orderly rests foresees.tail harmless_rest

/-- A function that waits with a list of its own and one that makes lists, waits and fails. -/
def waitingText : String :=
  "function wait(n) \x7b let own = [n] suspend(\"g\", 0) return own \x7d
  function fail() \x7b let own = [[1]] suspend(\"g\", 0) return own.missing.field \x7d"

def waitingHost : Option Host :=
  (Host.new .allDue 200 .collecting []).init.performAll? 200
    [.runSource "waiting" waitingText, .call "wait" [.num (.ofNat 1)]]

def waitingMoves : List Move := [.call "wait" [.num (.ofNat 2)], .tick]

/-- The call of the function that fails is deleted between two of the one that waits. -/
theorem undisturbed_failing : ∃ start first stages, waitingHost = some start ∧
    playAll 200 start (.call "fail" [] :: waitingMoves) = some (first :: stages) ∧
    ((first :: stages).map fun stage => stage.turns.map (·.id.number)) =
      [[2], [3], [1, 2, 3]] ∧
    ∃ (e : Renaming) (others : List Move) (rest : List Stage),
      others.map (Move.rename e) = waitingMoves ∧ playAll 200 start others = some rest ∧
      List.Forall₂ (Stage.Without e ⟨2⟩) rest stages := by
  have checks : (waitingHost.bind fun start =>
      (playAll 200 start (.call "fail" [] :: waitingMoves)).map fun all =>
        ((decide (start.initialized = true), decide start.Closed, start.registry.nextId),
          (all.map fun stage => stage.turns.map (·.id.number)),
          decide (∀ t ∈ all.flatMap (·.turns), t.id = start.registry.nextId → t.Harmless 200),
          decide (∀ move ∈ waitingMoves, ∀ v ∈ move.values,
            v.Apart start.registry.nextId (all.flatMap (·.turns))))) =
      some ((true, true, ⟨2⟩), [[2], [3], [1, 2, 3]], true, true) := by decide +kernel
  obtain ⟨start, begins, facts⟩ := Option.bind_eq_some_iff.mp checks
  obtain ⟨all, run, facts⟩ := Option.map_eq_some_iff.mp facts
  obtain ⟨⟨initialized, closed, id⟩, ids, harmless, apart⟩ := by
    simpa only [Prod.mk.injEq, decide_eq_true_eq] using facts
  have from_init : (Host.new .allDue 200 .collecting []).init.Leads start :=
    Leads.refl.performAll? begins
  have reached : (Host.new .allDue 200 .collecting []).Leads start :=
    (Leads.refl.step 200 .init rfl).performAll? begins
  cases all with
  | nil => cases ids
  | cons first stages =>
    obtain ⟨e, -, -, -, others, same, rest, plays, without⟩ :=
      undisturbed reached initialized (from_init.library rfl rfl).2 closed run harmless apart
    exact ⟨start, first, stages, begins, run, ids, e, others, rest, same, plays, id ▸ without⟩

def resumedAfter (ops : List HostOp) : Option (List Outcome) :=
  ((Host.new .allDue 200 .collecting []).performAll? 10 ops).bind fun host =>
    (host.tick 10).map fun ticked => ticked.1.resumed.map (·.2)

/-- A call that is filed while the clock shows a negative NaN keeps a later one from being
resumed. -/
theorem undisturbed_nan :
    let wait : HostOp := .call Natives.suspendName [.str "g", .num (.ofNat 0)]
    let clockAt (x : Number) : HostOp := .setClock ⟨x, .zero false⟩
    resumedAfter [.init, clockAt (.nan true), clockAt (.zero false), wait] =
      some [.finished (.num (.zero false))] ∧
    resumedAfter [.init, clockAt (.nan true), wait, clockAt (.zero false), wait] = some [] := by
  decide +kernel

end Host
end FrameScript
