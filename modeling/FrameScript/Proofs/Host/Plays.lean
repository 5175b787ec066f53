import FrameScript.Proofs.Host.Resumption
import FrameScript.Proofs.Host.Turns

/-!
# Runs of calls and ticks

A program that embeds a host calls functions and ticks, and in between it moves the clocks and
makes lists and objects. Each call and each tick is a stage of the run with the turns of the
continuations that it drives. The heap only grows, so what one turn adds to it is at other places
than what another one adds.
-/

namespace FrameScript

/-- A continuation is driven: from which host on, how that ended, and which host it led to. -/
structure Turn where
  before : Host
  id : ContinuationId
  outcome : Outcome
  next : Host

/-- The turns that an operation of the host takes, in order, and the host after it. -/
structure Stage where
  turns : List Turn
  next : Host

/-- What the embedding program does next. -/
inductive Move where
  | call (entry : String) (args : List Value)
  | tick
  /-- The clocks show something else. -/
  | clock (clock : ManualClock)
  /-- A list is made, for arguments of later calls. -/
  | list (items : Array Value)
  /-- An object is made. -/
  | object (fields : Table Value)

namespace Host

variable {fuel : Nat} {host next : Host} {id : ContinuationId}

def turn? (fuel : Nat) (host : Host) (id : ContinuationId) : Option Turn :=
  (resumeState fuel host id).map fun result => ⟨host, id, result.1, result.2⟩

def turnsFrom (fuel : Nat) (host : Host) : List (ContinuationId × Number) → Option Stage
  | [] => some ⟨[], host⟩
  | (id, now) :: rest => do
    let turn ← turn? fuel (host.setPending id (.num now)) id
    let stage ← turnsFrom fuel turn.next rest
    some ⟨turn :: stage.turns, stage.next⟩

def withHeap (host : Host) (h : Heap) : Host := { host with world := host.world.withHeap h }

/-- One operation of the host, if that returns. -/
def play (fuel : Nat) (host : Host) : Move → Option Stage
  | .call entry args =>
    if host.initialized then
      (turn? fuel (host.started entry args) host.registry.nextId).map fun t => ⟨[t], t.next⟩
    else some ⟨[], (host.failLoad .notInitialized).2⟩
  | .tick =>
    let (due, rest) := host.advanced.takeDue WakeMode.all
    turnsFrom fuel rest due
  | .clock clock => some ⟨[], host.withClock clock⟩
  | .list items => some ⟨[], host.withHeap (host.world.heap.newList items).1⟩
  | .object fields => some ⟨[], host.withHeap (host.world.heap.newObject fields).1⟩

def playAll (fuel : Nat) (host : Host) : List Move → Option (List Stage)
  | [] => some []
  | move :: rest => do
    let stage ← play fuel host move
    let stages ← playAll fuel stage.next rest
    some (stage :: stages)

theorem turn?_eq_some {t : Turn} : turn? fuel host id = some t ↔
    t.before = host ∧ t.id = id ∧ resumeState fuel host id = some (t.outcome, t.next) := by
  rw [turn?, Option.map_eq_some_iff]
  constructor
  · rintro ⟨result, drives, rfl⟩
    exact ⟨rfl, rfl, drives⟩
  · rintro ⟨rfl, rfl, drives⟩
    exact ⟨_, drives, rfl⟩

theorem turnsFrom_cons {now : Number} {rest : List (ContinuationId × Number)} {stage : Stage} :
    turnsFrom fuel host ((id, now) :: rest) = some stage ↔
      ∃ turn others, turn? fuel (host.setPending id (.num now)) id = some turn ∧
        turnsFrom fuel turn.next rest = some others ∧
        stage = ⟨turn :: others.turns, others.next⟩ := by
  simp only [turnsFrom, Option.bind_eq_bind, Option.bind_eq_some_iff, Option.some.injEq]
  constructor
  · rintro ⟨turn, took, others, rests, same⟩
    exact ⟨turn, others, took, rests, same.symm⟩
  · rintro ⟨turn, others, took, rests, same⟩
    exact ⟨turn, took, others, rests, same.symm⟩

theorem playAll_cons {move : Move} {rest : List Move} {stages : List Stage} :
    playAll fuel host (move :: rest) = some stages ↔
      ∃ stage others, play fuel host move = some stage ∧
        playAll fuel stage.next rest = some others ∧ stages = stage :: others := by
  simp only [playAll, Option.bind_eq_bind, Option.bind_eq_some_iff, Option.some.injEq]
  constructor
  · rintro ⟨stage, first, others, rests, same⟩
    exact ⟨stage, others, first, rests, same.symm⟩
  · rintro ⟨stage, others, first, rests, same⟩
    exact ⟨stage, first, others, rests, same.symm⟩

theorem play_started (initialized : host.initialized = true) {entry : String}
    {args : List Value} {stage : Stage} : play fuel host (.call entry args) = some stage ↔
      ∃ turn, turn? fuel (host.started entry args) host.registry.nextId = some turn ∧
        stage = ⟨[turn], turn.next⟩ := by
  rw [play, if_pos initialized, Option.map_eq_some_iff]
  constructor
  · rintro ⟨turn, took, same⟩
    exact ⟨turn, took, same.symm⟩
  · rintro ⟨turn, took, same⟩
    exact ⟨turn, took, same.symm⟩

theorem play_call (fuel : Nat) (initialized : host.initialized = true) (entry : String)
    (args : List Value) :
    call fuel host entry args = (turn? fuel (host.started entry args) host.registry.nextId).map
      fun t => (t.outcome, t.next) := by
  rw [call, if_pos initialized, turn?, Option.map_map]
  exact Option.map_id'.symm

/-- The turns of a tick are what its report tells. -/
theorem play_tick (fuel : Nat) (host : Host) :
    tick fuel host = (play fuel host .tick).map fun stage =>
      (⟨stage.next.frame, stage.turns.map fun t => (t.id, t.outcome)⟩, stage.next) := by
  have all (host : Host) (due : List (ContinuationId × Number)) : resumeAll fuel host due =
      (turnsFrom fuel host due).map fun stage =>
        (stage.turns.map fun t => (t.id, t.outcome), stage.next) := by
    induction due generalizing host with
    | nil => rfl
    | cons first rest ih =>
      obtain ⟨id, now⟩ := first
      rw [resumeAll, turnsFrom, turn?]
      cases resumeState fuel (host.setPending id (.num now)) id with
      | none => rfl
      | some result =>
        simp only [Option.map_some, Option.bind_eq_bind, Option.bind_some, ih]
        cases turnsFrom fuel result.2 rest <;> rfl
  rw [tick_eq, play, all, Option.map_map]
  rfl

end Host

/-- Turns one after the other, from a heap to another one, while the heap grows. -/
inductive Turn.Chain : Heap → List Turn → Heap → Prop
  | nil {h last : Heap} (grows : h.Grows last) : Chain h [] last
  | cons {h last : Heap} {t : Turn} {rest : List Turn} (waits : h.Grows t.before.world.heap)
      (runs : t.before.world.heap.Grows t.next.world.heap)
      (others : Chain t.next.world.heap rest last) : Chain h (t :: rest) last

namespace Turn.Chain

variable {h middle last : Heap} {turns more : List Turn}

theorem after (grows : h.Grows middle) (chain : Chain middle turns last) : Chain h turns last := by
  cases chain with
  | nil rest => exact .nil (grows.trans rest)
  | cons waits runs others => exact .cons (grows.trans waits) runs others

theorem append (chain : Chain h turns middle) (others : Chain middle more last) :
    Chain h (turns ++ more) last := by
  induction chain with
  | nil grows => exact others.after grows
  | cons waits runs _ ih => exact .cons waits runs (ih others)

end Turn.Chain

namespace Host

variable {fuel : Nat} {host next : Host} {id : ContinuationId}

theorem resumeState_grows {result : Outcome × Host} (natives : host.natives.Change)
    (run : resumeState fuel host id = some result) :
    host.world.heap.Grows result.2.world.heap ∧ result.2.natives = host.natives := by
  cases found : host.registry.get? id with
  | none =>
    rw [resumeState, found] at run
    cases run
    exact ⟨.refl _, rfl⟩
  | some c =>
    obtain ⟨halt, ending, drives, -, rfl⟩ := (resumeState_some found).mp run
    rw [settle_heap, (settle_steady _ _ _ _).natives]
    exact ⟨(drive_grows natives drives).heap, rfl⟩

theorem turn?_grows {t : Turn} (natives : host.natives.Change)
    (took : turn? fuel host id = some t) :
    host.world.heap.Grows t.before.world.heap ∧ t.before.world.heap.Grows t.next.world.heap ∧
      t.next.natives = host.natives := by
  obtain ⟨rfl, -, drives⟩ := turn?_eq_some.mp took
  exact ⟨.refl _, resumeState_grows natives drives⟩

theorem turnsFrom_chain {due : List (ContinuationId × Number)} {stage : Stage}
    (natives : host.natives.Change) (run : turnsFrom fuel host due = some stage) :
    Turn.Chain host.world.heap stage.turns stage.next.world.heap ∧
      stage.next.natives = host.natives := by
  induction due generalizing host stage with
  | nil =>
    cases run
    exact ⟨.nil (.refl _), rfl⟩
  | cons first rest ih =>
    obtain ⟨id, now⟩ := first
    obtain ⟨turn, others, took, rests, rfl⟩ := turnsFrom_cons.mp run
    have pending := setPending_steady host id (.num now)
    obtain ⟨waits, grows, same⟩ := turn?_grows (pending.natives ▸ natives) took
    rw [setPending_heap] at waits
    obtain ⟨chain, kept⟩ := ih (same.trans pending.natives ▸ natives) rests
    exact ⟨.cons waits grows chain, kept.trans (same.trans pending.natives)⟩

theorem play_chain {move : Move} {stage : Stage} (natives : host.natives.Change)
    (run : play fuel host move = some stage) :
    Turn.Chain host.world.heap stage.turns stage.next.world.heap ∧
      stage.next.natives = host.natives := by
  cases move with
  | call entry args =>
    by_cases initialized : host.initialized = true
    · obtain ⟨turn, took, rfl⟩ := (play_started initialized).mp run
      have natives' : (host.started entry args).natives.Change := natives
      obtain ⟨waits, grows, same⟩ := turn?_grows natives' took
      exact ⟨.cons waits grows (.nil (.refl _)), same⟩
    · rw [play, if_neg initialized] at run
      cases run
      have heap : (host.failLoad .notInitialized).2.world.heap = host.world.heap :=
        report_heap host _
      exact ⟨.nil (heap ▸ .refl _), (report_steady host _).natives⟩
  | tick =>
    have rest := takeDue_rest host.advanced WakeMode.all
    have natives' : (host.advanced.takeDue WakeMode.all).2.natives.Change := by
      rw [rest]
      exact natives
    obtain ⟨chain, same⟩ := turnsFrom_chain natives' run
    rw [rest] at chain same
    exact ⟨chain, same⟩
  | clock clock =>
    cases run
    exact ⟨.nil (.refl _), rfl⟩
  | list items =>
    cases run
    exact ⟨.nil (Heap.newList_grows _ items), rfl⟩
  | object fields =>
    cases run
    exact ⟨.nil (Heap.newObject_grows _ fields), rfl⟩

theorem playAll_chain {moves : List Move} {stages : List Stage} (natives : host.natives.Change)
    (run : playAll fuel host moves = some stages) :
    ∃ last, Turn.Chain host.world.heap (stages.flatMap (·.turns)) last := by
  induction moves generalizing host stages with
  | nil =>
    cases run
    exact ⟨_, .nil (.refl _)⟩
  | cons move rest ih =>
    obtain ⟨stage, others, first, rests, rfl⟩ := playAll_cons.mp run
    obtain ⟨chain, same⟩ := play_chain natives first
    obtain ⟨last, chains⟩ := ih (same ▸ natives) rests
    exact ⟨last, chain.append chains⟩

end Host
end FrameScript
