import FrameScript.Proofs.Host.Plays

/-!
# Runs with a continuation deleted

A run of a host is followed, turn by turn, by one of the host without `b`, from which the turns of
`b` are left out. The renaming is fixed for the whole run: it leaves out the places of the lists
and objects that `b` makes.
-/

namespace FrameScript

variable {e : Renaming} {b : ContinuationId}

def Turn.Makes (count : Heap → Nat) (t : Turn) (place : Nat) : Prop :=
  count t.before.world.heap ≤ place ∧ place < count t.next.world.heap

def ContinuationId.Makes (b : ContinuationId) (count : Heap → Nat) (turns : List Turn)
    (place : Nat) : Prop :=
  ∃ t ∈ turns, t.id = b ∧ t.Makes count place

instance (b : ContinuationId) (count : Heap → Nat) (turns : List Turn) (place : Nat) :
    Decidable (b.Makes count turns place) :=
  inferInstanceAs (Decidable (∃ t ∈ turns, t.id = b ∧
    count t.before.world.heap ≤ place ∧ place < count t.next.world.heap))

/-- From some place on, what is left out are the places of what `b` makes. -/
def Leaves (b : ContinuationId) (count : Heap → Nat) (turns : List Turn) (start : Nat)
    (f : Nat → Nat) : Prop :=
  ∀ place, start ≤ place → ((∃ i, f i = place) ↔ ¬ b.Makes count turns place)

section

variable {count : Heap → Nat} {turns rest : List Turn} {h last : Heap} {t : Turn} {start : Nat}
  {f : Nat → Nat} (grow : ∀ {h next : Heap}, h.Grows next → count h ≤ count next)

include grow

theorem Turn.Chain.makes_ge (chain : Turn.Chain h turns last) {place : Nat}
    (makes : b.Makes count turns place) : count h ≤ place := by
  obtain ⟨t, mem, -, low, -⟩ := makes
  induction chain with
  | nil _ => cases mem
  | cons waits runs _ ih =>
    rcases List.mem_cons.mp mem with rfl | mem
    · exact (grow waits).trans low
    · exact ((grow waits).trans (grow runs)).trans (ih mem)

theorem Leaves.covers (leaves : Leaves b count (t :: rest) start f)
    (others : Turn.Chain t.next.world.heap rest last) (other : t.id ≠ b)
    (late : start ≤ count t.before.world.heap) {place : Nat} (makes : t.Makes count place) :
    ∃ i, f i = place := by
  apply (leaves place (late.trans makes.1)).mpr
  rintro ⟨u, mem, own, makes'⟩
  rcases List.mem_cons.mp mem with rfl | mem
  · exact other own
  · have later := others.makes_ge grow ⟨u, mem, own, makes'⟩
    exact absurd makes.2 (Nat.not_lt_of_le later)

omit grow in
theorem Leaves.omits (leaves : Leaves b count (t :: rest) start f) (own : t.id = b)
    (late : start ≤ count t.before.world.heap) (i : Nat) : ¬ t.Makes count (f i) := by
  intro makes
  exact (leaves _ (late.trans makes.1)).mp ⟨i, rfl⟩ ⟨t, List.mem_cons_self, own, makes⟩

omit grow in
theorem Leaves.tail (leaves : Leaves b count (t :: rest) start f)
    (late : start ≤ count t.next.world.heap) :
    Leaves b count rest (count t.next.world.heap) f := by
  intro place high
  rw [leaves place (late.trans high)]
  apply not_congr
  constructor
  · rintro ⟨u, mem, own, makes⟩
    rcases List.mem_cons.mp mem with rfl | mem
    · exact absurd makes.2 (Nat.not_lt_of_le high)
    · exact ⟨u, mem, own, makes⟩
  · rintro ⟨u, mem, own, makes⟩
    exact ⟨u, List.mem_cons_of_mem _ mem, own, makes⟩

end

def Heap.listCount (h : Heap) : Nat := h.lists.size

def Heap.objectCount (h : Heap) : Nat := h.objects.size

/-- The turns still to come go from this heap on, and the renaming leaves out what `b` makes in
them. -/
structure Renaming.Foresees (e : Renaming) (b : ContinuationId) (turns : List Turn) (h : Heap) :
    Prop where
  chain : ∃ last, Turn.Chain h turns last
  lists : Leaves b Heap.listCount turns h.listCount e.lists
  objects : Leaves b Heap.objectCount turns h.objectCount e.objects

namespace Renaming.Foresees

variable {turns rest : List Turn} {h next : Heap} {t : Turn}

theorem tail (foresees : e.Foresees b (t :: rest) h) :
    e.Foresees b rest t.next.world.heap := by
  obtain ⟨⟨last, chain⟩, lists, objects⟩ := foresees
  cases chain with
  | cons waits runs others =>
    have grows := waits.trans runs
    exact ⟨⟨last, others⟩, lists.tail grows.lists, objects.tail grows.objects⟩

theorem covers (foresees : e.Foresees b (t :: rest) h) (other : t.id ≠ b) :
    e.Covers t.before.world.heap t.next.world.heap := by
  obtain ⟨⟨last, chain⟩, lists, objects⟩ := foresees
  cases chain with
  | cons waits runs others =>
    constructor
    · intro place low high
      exact lists.covers Heap.Grows.lists others other waits.lists ⟨low, high⟩
    · intro place low high
      exact objects.covers Heap.Grows.objects others other waits.objects ⟨low, high⟩

theorem omits (foresees : e.Foresees b (t :: rest) h) (own : t.id = b) :
    e.Omits t.before.world.heap t.next.world.heap := by
  obtain ⟨⟨last, chain⟩, lists, objects⟩ := foresees
  cases chain with
  | cons waits runs others =>
    exact ⟨lists.omits own waits.lists, objects.omits own waits.objects⟩

/-- What the embedding program makes before the next turn is not left out. -/
theorem covers_until (foresees : e.Foresees b turns h)
    (chain : ∃ last, Turn.Chain next turns last) : e.Covers h next := by
  obtain ⟨-, lists, objects⟩ := foresees
  obtain ⟨last, chain⟩ := chain
  constructor
  · intro place low high
    refine (lists place low).mpr fun makes => ?_
    exact absurd high (Nat.not_lt_of_le (chain.makes_ge Heap.Grows.lists makes))
  · intro place low high
    refine (objects place low).mpr fun makes => ?_
    exact absurd high (Nat.not_lt_of_le (chain.makes_ge Heap.Grows.objects makes))

theorem before (foresees : e.Foresees b turns h) (grows : h.Grows next)
    (chain : ∃ last, Turn.Chain next turns last) : e.Foresees b turns next :=
  ⟨chain, fun place high => foresees.lists place (grows.lists.trans high),
    fun place high => foresees.objects place (grows.objects.trans high)⟩

end Renaming.Foresees

/-- A turn of the host without `b` and the same turn in the other one. -/
structure Turn.Without (e : Renaming) (b : ContinuationId) (t larger : Turn) : Prop where
  id : larger.id = t.id.past b
  outcome : larger.outcome = t.outcome.rename e
  before : t.before.Without e b larger.before
  next : t.next.Without e b larger.next

/-- Stages that have the same turns, in the same order, but for those of `b`. -/
structure Stage.Without (e : Renaming) (b : ContinuationId) (stage larger : Stage) : Prop where
  turns : List.Forall₂ (Turn.Without e b) stage.turns (larger.turns.filter fun t => t.id ≠ b)
  next : stage.next.Without e b larger.next

/-- In its turn the continuation writes to nothing that is there, and what it leaves in the queues
is not filed under a negative NaN. -/
structure Turn.Harmless (fuel : Nat) (t : Turn) : Prop where
  tame : ∀ c, t.before.registry.get? t.id = some c → c.Tame fuel (t.before.env true)
  sound : ∀ mode, ∀ x ∈ (t.next.queues.get mode).entries, x.id = t.id → x.wake ≠ .nan true

instance (fuel : Nat) (t : Turn) : Decidable (t.Harmless fuel) :=
  decidable_of_iff ((∀ c ∈ t.before.registry.get? t.id, c.Tame fuel (t.before.env true)) ∧
    ∀ mode ∈ WakeMode.all, ∀ x ∈ (t.next.queues.get mode).entries,
      x.id = t.id → x.wake ≠ .nan true)
    ⟨fun ⟨tame, sound⟩ => ⟨tame, fun mode => sound mode (WakeMode.mem_all mode)⟩,
      fun ⟨tame, sound⟩ => ⟨tame, fun mode _ => sound mode⟩⟩

def Move.map (f : Value → Value) : Move → Move
  | .call entry args => .call entry (args.map f)
  | .tick => .tick
  | .clock c => .clock c
  | .list items => .list (items.map f)
  | .object fields => .object (fields.map f)

def Move.rename (e : Renaming) (move : Move) : Move := move.map (Value.rename e)

namespace Host

variable {fuel : Nat} {host larger : Host} {stage' : Stage} {later : List Turn}

namespace Without

theorem withHeap (w : host.Without e b larger) {h h' : Heap} (stands : h.StandsIn e h') :
    (host.withHeap h).Without e b (larger.withHeap h') :=
  { w with world := ⟨stands, w.world.clock⟩ }

theorem withClock (w : host.Without e b larger) (clock : ManualClock) :
    (host.withClock clock).Without e b (larger.withClock clock) :=
  { w with world := ⟨w.world.heap, rfl⟩ }

end Without

theorem turn?_without (w : host.Without e b larger) {id : ContinuationId}
    (registered : id.past b ∈ larger.registry.ids) {turn' : Turn}
    (took : turn? fuel larger (id.past b) = some turn')
    (covers : e.Covers turn'.before.world.heap turn'.next.world.heap) :
    ∃ turn, turn? fuel host id = some turn ∧ turn.Without e b turn' := by
  obtain ⟨result', drives', rfl⟩ := Option.map_eq_some_iff.mp took
  obtain ⟨result, drives, outcome, next⟩ := w.turn registered drives' covers
  exact ⟨_, Option.map_eq_some_iff.mpr ⟨result, drives, rfl⟩, rfl, outcome, w, next⟩

theorem turn?_own (w : host.Without e b larger) {turn' : Turn}
    (took : turn? fuel larger b = some turn') (harmless : turn'.Harmless fuel)
    (omits : e.Omits turn'.before.world.heap turn'.next.world.heap) :
    host.Without e b turn'.next := by
  obtain ⟨result', drives', rfl⟩ := Option.map_eq_some_iff.mp took
  exact w.own_turn drives' harmless.tame omits harmless.sound

/-- What is resumed in one host is resumed in the other, but for `b`. -/
theorem turnsFrom_without {due due' : List (ContinuationId × Number)}
    (w : host.Without e b larger)
    (same : due'.filter (fun p => p.1 ≠ b) = due.map fun p => (p.1.past b, p.2))
    (orderly : larger.Orderly (due'.map (·.1))) (run : turnsFrom fuel larger due' = some stage')
    (foresees : e.Foresees b (stage'.turns ++ later) larger.world.heap)
    (harmless : ∀ t ∈ stage'.turns, t.id = b → t.Harmless fuel) :
    ∃ stage, turnsFrom fuel host due = some stage ∧ stage.Without e b stage' ∧
      stage'.next.Orderly [] ∧ e.Foresees b later stage'.next.world.heap := by
  induction due' generalizing host larger due stage' with
  | nil =>
    cases run
    obtain rfl : due = [] := by simpa using same.symm
    exact ⟨_, rfl, ⟨.nil, w⟩, orderly, foresees⟩
  | cons first rest ih =>
    obtain ⟨id', now⟩ := first
    simp only [turnsFrom, Option.bind_eq_bind, Option.bind_eq_some_iff, Option.some.injEq] at run
    obtain ⟨turn', took, others', rests, rfl⟩ := run
    obtain ⟨harmless_first, harmless_rest⟩ := List.forall_mem_cons.mp harmless
    obtain ⟨result', drives, taken⟩ := Option.map_eq_some_iff.mp took
    have id_turn : turn'.id = id' := by rw [← taken]
    have next_turn : turn'.next = result'.2 := by rw [← taken]
    have in_flight : (larger.setPending id' (.num now)).Orderly (id' :: rest.map (·.1)) :=
      setPending_orderly _ orderly List.mem_cons_self
    have orderly' : turn'.next.Orderly (rest.map (·.1)) :=
      next_turn ▸ resumeState_orderly in_flight drives
    have foresees' : e.Foresees b (others'.turns ++ later) turn'.next.world.heap := foresees.tail
    by_cases own : id' = b
    · subst own
      rw [List.filter_cons_of_neg (by simp)] at same
      have next := turn?_own (w.setPending_own (.num now)) took (harmless_first id_turn)
        (foresees.omits id_turn)
      obtain ⟨stage, runs, without, last, future⟩ :=
        ih next same orderly' rests foresees' harmless_rest
      refine ⟨stage, runs, ⟨?_, without.next⟩, last, future⟩
      rw [List.filter_cons_of_neg (by simp [id_turn])]
      exact without.turns
    · rw [List.filter_cons_of_pos (by simpa using own)] at same
      obtain ⟨⟨id, now'⟩, due_rest, rfl, same_first, same_rest⟩ := List.map_eq_cons_iff.mp same.symm
      obtain ⟨rfl, rfl⟩ := Prod.mk.inj same_first
      have other : turn'.id ≠ b := id_turn ▸ own
      have registered : id.past b ∈ (larger.setPending (id.past b) (.num now')).registry.ids :=
        in_flight.perm.subset (by simp)
      obtain ⟨turn, takes, without_turn⟩ := turn?_without (w.setPending id (.num now')) registered
        took (foresees.covers other)
      obtain ⟨stage, runs, without, last, future⟩ :=
        ih without_turn.next same_rest.symm orderly' rests foresees' harmless_rest
      refine ⟨⟨turn :: stage.turns, stage.next⟩, ?_, ⟨?_, without.next⟩, last, future⟩
      · rw [turnsFrom, takes]
        simp only [Option.bind_eq_bind, Option.bind_some, runs]
      · rw [List.filter_cons_of_pos (by simpa using other)]
        exact .cons without_turn without.turns

theorem play_without (w : host.Without e b larger) (orderly : larger.Orderly []) (move : Move)
    (run : play fuel larger (move.rename e) = some stage')
    (foresees : e.Foresees b (stage'.turns ++ later) larger.world.heap)
    (chain : ∃ last, Turn.Chain stage'.next.world.heap later last)
    (harmless : ∀ t ∈ stage'.turns, t.id = b → t.Harmless fuel) :
    ∃ stage, play fuel host move = some stage ∧ stage.Without e b stage' ∧
      stage'.next.Orderly [] ∧ e.Foresees b later stage'.next.world.heap := by
  cases move with
  | call entry args =>
    rw [Move.rename, Move.map, play, if_pos w.initialized', w.registry.nextId] at run
    obtain ⟨turn', took, rfl⟩ := Option.map_eq_some_iff.mp run
    have in_flight : (larger.started entry (args.map (Value.rename e))).Orderly
        [host.registry.nextId.past b] := w.registry.nextId ▸ Filed.start orderly entry _ _
    obtain ⟨result', drives, taken⟩ := Option.map_eq_some_iff.mp took
    have other : turn'.id ≠ b := by
      rw [← taken]
      exact ContinuationId.past_ne _ b
    have next_turn : turn'.next = result'.2 := by rw [← taken]
    obtain ⟨turn, takes, without⟩ := turn?_without (w.started entry args)
      (in_flight.perm.subset (by simp)) took (foresees.covers other)
    refine ⟨⟨[turn], turn.next⟩, ?_, ⟨?_, without.next⟩, ?_, foresees.tail⟩
    · rw [play, if_pos w.initialized, takes]
      rfl
    · rw [List.filter_cons_of_pos (by simpa using other)]
      exact .cons without .nil
    · exact next_turn ▸ resumeState_orderly in_flight drives
  | tick =>
    obtain ⟨due, rest⟩ := w.advanced.takeDue WakeMode.all
    have in_flight : (larger.advanced.takeDue WakeMode.all).2.Orderly
        ((larger.advanced.takeDue WakeMode.all).1.map (·.1)) :=
      takeDue_orderly (show larger.advanced.Orderly [] from orderly)
    have heap : (larger.advanced.takeDue WakeMode.all).2.world.heap = larger.world.heap := by
      rw [takeDue_rest]
      rfl
    exact turnsFrom_without rest due in_flight run (heap ▸ foresees) harmless
  | clock clock =>
    cases run
    exact ⟨_, rfl, ⟨.nil, w.withClock clock⟩, orderly, foresees⟩
  | list items =>
    cases run
    have covers := foresees.covers_until chain
    obtain ⟨stands, -⟩ := w.world.heap.newList items covers
    exact ⟨_, rfl, ⟨.nil, w.withHeap stands⟩, orderly,
      foresees.before (Heap.newList_grows _ _) chain⟩
  | object fields =>
    cases run
    have covers := foresees.covers_until chain
    obtain ⟨stands, -⟩ := w.world.heap.newObject fields covers
    exact ⟨_, rfl, ⟨.nil, w.withHeap stands⟩, orderly,
      foresees.before (Heap.newObject_grows _ _) chain⟩

/-- A run of the host without `b` follows that of the other host, stage by stage. -/
theorem playAll_without (w : host.Without e b larger) (orderly : larger.Orderly [])
    {moves : List Move} {stages' : List Stage}
    (run : playAll fuel larger (moves.map (Move.rename e)) = some stages')
    (foresees : e.Foresees b (stages'.flatMap (·.turns)) larger.world.heap)
    (harmless : ∀ t ∈ stages'.flatMap (·.turns), t.id = b → t.Harmless fuel) :
    ∃ stages, playAll fuel host moves = some stages ∧
      List.Forall₂ (Stage.Without e b) stages stages' := by
  induction moves generalizing host larger stages' with
  | nil =>
    cases run
    exact ⟨[], rfl, .nil⟩
  | cons move rest ih =>
    simp only [List.map_cons, playAll, Option.bind_eq_bind, Option.bind_eq_some_iff,
      Option.some.injEq] at run
    obtain ⟨stage', first, others', rests, rfl⟩ := run
    rw [List.flatMap_cons] at foresees harmless
    obtain ⟨harmless_first, harmless_rest⟩ := List.forall_mem_append.mp harmless
    have library : larger.natives = Natives.withSuspend := w.natives.trans w.library
    have change : larger.natives.Change := library ▸ Natives.withSuspend_change
    have kept := (play_chain change first).2
    have chain := playAll_chain (kept ▸ change) rests
    obtain ⟨stage, plays, without, orderly', future⟩ :=
      play_without w orderly move first foresees chain harmless_first
    obtain ⟨stages, plays_rest, all⟩ := ih without.next orderly' rests future harmless_rest
    refine ⟨stage :: stages, ?_, .cons without all⟩
    rw [playAll, plays]
    simp only [Option.bind_eq_bind, Option.bind_some, plays_rest]

end Host
end FrameScript
