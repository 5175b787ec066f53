import FrameScript.Proofs.Host.Ticks

/-!
# The life of a continuation

A call is given an id that was never given before. Every drive returns one outcome for
its continuation: as long as that is `yielded`, the continuation stays registered, and any
other outcome is the last one. What a tick collects is registered when its turn comes,
whatever was resumed before it.
-/

namespace FrameScript

/-- What was handed out and returned so far, the oldest first. -/
structure Ledger where
  /-- The ids of the calls. -/
  started : List ContinuationId
  /-- The outcomes, each with the continuation that it is about. -/
  answered : List (ContinuationId × Outcome)

namespace Ledger

def empty : Ledger := ⟨[], []⟩

def outcomes (ledger : Ledger) (id : ContinuationId) : List Outcome :=
  (ledger.answered.filter fun answer => answer.1 = id).map (·.2)

def start (ledger : Ledger) (ids : List ContinuationId) : Ledger :=
  { ledger with started := ledger.started ++ ids }

def answer (ledger : Ledger) (answers : List (ContinuationId × Outcome)) : Ledger :=
  { ledger with answered := ledger.answered ++ answers }

variable {ledger : Ledger} {id other : ContinuationId} {outcome : Outcome}

theorem outcomes_answer_self :
    (ledger.answer [(id, outcome)]).outcomes id = ledger.outcomes id ++ [outcome] := by
  simp [outcomes, answer]

theorem outcomes_answer_ne (apart : other ≠ id) :
    (ledger.answer [(id, outcome)]).outcomes other = ledger.outcomes other := by
  simp [outcomes, answer, apart.symm]

theorem outcomes_eq_nil (fresh : ∀ answer ∈ ledger.answered, answer.1 ≠ id) :
    ledger.outcomes id = [] := by
  rw [outcomes, List.map_eq_nil_iff, List.filter_eq_nil_iff]
  intro answer mem
  simpa using fresh answer mem

theorem answer_append (answers more : List (ContinuationId × Outcome)) :
    (ledger.answer answers).answer more = ledger.answer (answers ++ more) := by
  simp [answer]

/-- What was returned agrees with what is registered: an unregistered continuation had its
last outcome, and the registered ones had none but `yielded`. -/
structure Balanced (ledger : Ledger) (r : Registry) : Prop where
  increasing : ledger.started.Pairwise fun first later => first.number < later.number
  bound : ∀ id ∈ ledger.started, id.number ≤ r.lastNumber
  known : ∀ id ∈ r.ids, id ∈ ledger.started
  own : ∀ answer ∈ ledger.answered, answer.1 ∈ ledger.started
  live : ∀ id ∈ r.ids, ∃ n, ledger.outcomes id = List.replicate n .yielded
  ended : ∀ id ∈ ledger.started, id ∉ r.ids →
    ∃ n last, last ≠ .yielded ∧ ledger.outcomes id = List.replicate n .yielded ++ [last]

end Ledger

/-- What an outcome means for the registration of the continuation that it is about. -/
structure Registry.Follows (r next : Registry) (id : ContinuationId) (outcome : Outcome) :
    Prop where
  lastNumber : next.lastNumber = r.lastNumber
  stays : outcome = .yielded → next.ids = r.ids
  leaves : outcome ≠ .yielded → next.ids = r.ids.filter (· ≠ id)

namespace Ledger.Balanced

variable {ledger : Ledger} {r next : Registry} {id : ContinuationId} {outcome : Outcome}

theorem new : Ledger.empty.Balanced .empty where
  increasing := .nil
  bound := by simp [Ledger.empty]
  known := by simp [Registry.empty, Registry.ids]
  own := by simp [Ledger.empty]
  live := by simp [Registry.empty, Registry.ids]
  ended := by simp [Ledger.empty]

theorem congr (h : ledger.Balanced r) (ids : next.ids = r.ids)
    (lastNumber : next.lastNumber = r.lastNumber) : ledger.Balanced next where
  increasing := h.increasing
  bound := by rw [lastNumber]; exact h.bound
  known := by rw [ids]; exact h.known
  own := h.own
  live := by rw [ids]; exact h.live
  ended := by rw [ids]; exact h.ended

theorem start (h : ledger.Balanced r) (entry : String) (args : List Value) (maxCallDepth : Nat) :
    (ledger.start [r.nextId]).Balanced (r.start entry args maxCallDepth) := by
  have ids : (r.start entry args maxCallDepth).ids = r.ids ++ [r.nextId] := by
    simp [Registry.start, Registry.ids, Continuation.new]
  have fresh : r.nextId ∉ ledger.started := by
    intro mem
    have small := h.bound _ mem
    simp only [Registry.nextId] at small
    omega
  have none_yet : ledger.outcomes r.nextId = [] := by
    apply outcomes_eq_nil
    intro answer mem same
    exact fresh (same ▸ h.own answer mem)
  constructor
  · apply List.pairwise_append.mpr
    refine ⟨h.increasing, List.pairwise_singleton _ _, ?_⟩
    intro first mem later new
    obtain rfl := List.mem_singleton.mp new
    exact Nat.lt_succ_of_le (h.bound first mem)
  · intro id mem
    rcases List.mem_append.mp mem with mem | mem
    · exact Nat.le_succ_of_le (h.bound id mem)
    · obtain rfl := List.mem_singleton.mp mem
      exact Nat.le_refl _
  · intro id mem
    rw [ids] at mem
    rcases List.mem_append.mp mem with mem | mem
    · exact List.mem_append_left _ (h.known id mem)
    · exact List.mem_append_right _ mem
  · intro answer mem
    exact List.mem_append_left _ (h.own answer mem)
  · intro id mem
    rw [ids] at mem
    rcases List.mem_append.mp mem with mem | mem
    · exact h.live id mem
    · obtain rfl := List.mem_singleton.mp mem
      exact ⟨0, none_yet⟩
  · intro id mem gone
    rw [ids, List.mem_append, not_or] at gone
    rcases List.mem_append.mp mem with mem | mem
    · exact h.ended id mem gone.1
    · exact absurd mem gone.2

theorem answer (h : ledger.Balanced r) (registered : id ∈ r.ids)
    (follows : r.Follows next id outcome) : (ledger.answer [(id, outcome)]).Balanced next := by
  obtain ⟨n, before⟩ := h.live id registered
  have fewer : ∀ other ∈ next.ids, other ∈ r.ids := by
    intro other mem
    by_cases yields : outcome = .yielded
    · exact follows.stays yields ▸ mem
    · rw [follows.leaves yields] at mem
      exact List.mem_of_mem_filter mem
  constructor
  · exact h.increasing
  · rw [follows.lastNumber]
    exact h.bound
  · intro other mem
    exact h.known other (fewer other mem)
  · intro answer mem
    rcases List.mem_append.mp mem with mem | mem
    · exact h.own answer mem
    · obtain rfl := List.mem_singleton.mp mem
      exact h.known id registered
  · intro other mem
    by_cases same : other = id
    · subst same
      have yields : outcome = .yielded := by
        by_contra ends
        rw [follows.leaves ends] at mem
        simpa using List.of_mem_filter mem
      refine ⟨n + 1, ?_⟩
      rw [outcomes_answer_self, before, yields, List.replicate_succ']
    · rw [outcomes_answer_ne same]
      exact h.live other (fewer other mem)
  · intro other mem gone
    by_cases same : other = id
    · subst same
      have ends : outcome ≠ .yielded := by
        intro yields
        exact gone (follows.stays yields ▸ registered)
      refine ⟨n, outcome, ends, ?_⟩
      rw [outcomes_answer_self, before]
    · rw [outcomes_answer_ne same]
      apply h.ended other mem
      intro stays
      apply gone
      by_cases yields : outcome = .yielded
      · exact follows.stays yields ▸ stays
      · rw [follows.leaves yields]
        exact List.mem_filter.mpr ⟨stays, by simpa using same⟩

end Ledger.Balanced

/-- The outcome for a continuation that is not registered. -/
def Outcome.unregistered (id : ContinuationId) : Outcome :=
  .errored ⟨ErrorCode.panic, id.text ++ " is not registered"⟩

/-- The message of a broken machine does not begin like the text of an id. -/
theorem Fault.message_head? (fault : Fault) : fault.message.toList.head? ≠ some 'c' := by
  cases fault with
  | stackUnderflow function pc =>
    change ("operand stack underflow in '" ++ function ++ "' at pc " ++
      toString pc).toList.head? ≠ _
    simp
  | badLocal function slot =>
    change ("invalid local slot " ++ toString slot ++ " in '" ++ function ++ "'").toList.head? ≠ _
    simp
  | badJump function pc =>
    change ("program counter " ++ toString pc ++ " out of range in '" ++ function ++
      "'").toList.head? ≠ _
    simp
  | badHandler =>
    change "exception handler refers to a frame that no longer exists".toList.head? ≠ _
    simp
  | noFrame =>
    change "no active frame and no result".toList.head? ≠ _
    simp

theorem Fault.message_ne (fault : Fault) (id : ContinuationId) :
    fault.message ≠ id.text ++ " is not registered" := by
  intro same
  apply fault.message_head?
  simp [same, ContinuationId.text]

namespace Host

variable {fuel : Nat} {host next : Host} {id : ContinuationId}

/-- The hosts at which continuations have their turn while they are resumed one after the other. -/
def turnsAll (fuel : Nat) (host : Host) :
    List (ContinuationId × Number) → List (Host × ContinuationId)
  | [] => []
  | (id, now) :: rest =>
    let host := host.setPending id (.num now)
    (host, id) :: match resumeState fuel host id with
      | some (_, next) => turnsAll fuel next rest
      | none => []

/-- The hosts at which a tick drives continuations. -/
def tickTurns (fuel : Nat) (host : Host) : List (Host × ContinuationId) :=
  turnsAll fuel (host.advanced.takeDue WakeMode.all).2 (host.advanced.takeDue WakeMode.all).1

/-- A registered continuation is driven until it stops. -/
def Drives (fuel : Nat) (host : Host) (id : ContinuationId) (ending : RunEnd) (outcome : Outcome) :
    Prop :=
  ∃ c halt, host.registry.get? id = some c ∧ drive fuel (host.env true) c = some halt ∧
    RunEnd.ofHalt? halt = some ending ∧
    outcome = ((host.withEnv halt.env).settle c halt.machine ending).1

theorem settle_follows (host : Host) (c : Continuation) (machine : Machine) (ending : RunEnd) :
    host.registry.Follows (host.settle c machine ending).2.registry c.id
      (host.settle c machine ending).1 := by
  cases ending with
  | suspended request =>
    exact ⟨rfl, fun _ => Registry.ids_update _ _, fun ends => absurd rfl ends⟩
  | returned v =>
    refine ⟨rfl, ?_, fun _ => Registry.ids_release _ _⟩
    intro yields
    cases yields
  | threw info traceback | faulted fault dump =>
    rw [settle, report_registry]
    refine ⟨rfl, ?_, fun _ => Registry.ids_release _ _⟩
    intro yields
    cases yields

theorem resumeState_drives {outcome : Outcome} (registered : id ∈ host.registry.ids)
    (run : resumeState fuel host id = some (outcome, next)) :
    (∃ ending, host.Drives fuel id ending outcome) ∧
      host.registry.Follows next.registry id outcome := by
  obtain ⟨c, found⟩ := Registry.exists_get? registered
  obtain ⟨-, rfl⟩ := Registry.get?_eq_some found
  simp only [resumeState, found, Option.bind_eq_bind, Option.bind_eq_some_iff,
    Option.some.injEq] at run
  obtain ⟨halt, drives, ending, ends, settled⟩ := run
  obtain ⟨rfl, rfl⟩ := Prod.mk.inj settled.symm
  constructor
  · exact ⟨ending, c, halt, found, drives, ends, rfl⟩
  · exact settle_follows (host.withEnv halt.env) c halt.machine ending

theorem setPending_ids (host : Host) (id : ContinuationId) (v : Value) :
    (host.setPending id v).registry.ids = host.registry.ids ∧
      (host.setPending id v).registry.lastNumber = host.registry.lastNumber := by
  unfold setPending
  split
  · exact ⟨Registry.ids_update _ _, rfl⟩
  · exact ⟨rfl, rfl⟩

/-- What is in flight is registered, and stays so until its turn. The outcomes are those of
the turns, and the ledger takes them in. -/
theorem resumeAll_turns {ledger : Ledger} {due : List (ContinuationId × Number)}
    {answers : List (ContinuationId × Outcome)} (orderly : host.Orderly (due.map (·.1)))
    (balanced : ledger.Balanced host.registry)
    (run : resumeAll fuel host due = some (answers, next)) :
    (ledger.answer answers).Balanced next.registry ∧
      List.Forall₂ (fun turn answer => turn.2 = answer.1 ∧
        ∃ ending, turn.1.Drives fuel answer.1 ending answer.2)
        (host.turnsAll fuel due) answers := by
  induction due generalizing host ledger answers with
  | nil =>
    cases run
    refine ⟨?_, .nil⟩
    simpa [Ledger.answer] using balanced
  | cons first rest ih =>
    obtain ⟨id, now⟩ := first
    simp only [resumeAll, Option.bind_eq_bind, Option.bind_eq_some_iff, Option.some.injEq] at run
    obtain ⟨⟨outcome, middle⟩, driven, ⟨outcomes, last⟩, others, same⟩ := run
    obtain ⟨rfl, rfl⟩ := Prod.mk.inj same
    have in_flight : id ∈ host.registry.ids := orderly.perm.subset (by simp)
    obtain ⟨ids, lastNumber⟩ := setPending_ids host id (.num now)
    have registered : id ∈ (host.setPending id (.num now)).registry.ids := ids ▸ in_flight
    obtain ⟨drives, follows⟩ := resumeState_drives registered driven
    have orderly' : middle.Orderly (rest.map (·.1)) :=
      resumeState_orderly (setPending_orderly _ orderly (by simp)) driven
    have balanced' : (ledger.answer [(id, outcome)]).Balanced middle.registry :=
      (balanced.congr ids lastNumber).answer registered follows
    obtain ⟨last_balanced, turns⟩ := ih orderly' balanced' others
    constructor
    · rwa [Ledger.answer_append] at last_balanced
    · rw [turnsAll, driven]
      exact .cons ⟨rfl, drives⟩ turns

/-- Each outcome in the report of a tick is that of a registered continuation. -/
theorem tick_turns {ledger : Ledger} {report : TickReport} (orderly : host.Orderly [])
    (balanced : ledger.Balanced host.registry) (run : host.tick fuel = some (report, next)) :
    (ledger.answer report.resumed).Balanced next.registry ∧
      List.Forall₂ (fun turn answer => turn.2 = answer.1 ∧
        ∃ ending, turn.1.Drives fuel answer.1 ending answer.2)
          (host.tickTurns fuel) report.resumed := by
  rw [tick_eq] at run
  obtain ⟨⟨resumed, last⟩, resumes, same⟩ := Option.map_eq_some_iff.mp run
  obtain ⟨rfl, rfl⟩ := Prod.mk.inj same
  have advanced : host.advanced.Orderly [] := orderly
  have in_flight : (host.advanced.takeDue WakeMode.all).2.Orderly
      ((host.advanced.takeDue WakeMode.all).1.map (·.1)) := takeDue_orderly advanced
  have registry : (host.advanced.takeDue WakeMode.all).2.registry = host.registry := by
    rw [takeDue_rest]
    rfl
  exact resumeAll_turns in_flight (registry ▸ balanced) resumes

def starts (host : Host) : HostOp → List ContinuationId
  | .call _ _ => if host.initialized then [host.registry.nextId] else []
  | _ => []

/-- The outcomes that an operation returns for continuations: a call for its own, a tick in
its report. -/
def answers (fuel : Nat) (host : Host) : HostOp → List (ContinuationId × Outcome)
  | .call entry args =>
    if host.initialized then
      (call fuel host entry args).toList.map fun result => (host.registry.nextId, result.1)
    else []
  | .tick => (host.tick fuel).elim [] fun result => result.1.resumed
  | _ => []

def record (fuel : Nat) (host : Host) (op : HostOp) (ledger : Ledger) : Ledger :=
  (ledger.start (host.starts op)).answer (host.answers fuel op)

/-- The hosts that operations lead to, each with the ledger of these operations. -/
inductive Lived (start : Host) : Ledger → Host → Prop
  | new : Lived start .empty start
  | step {ledger : Ledger} {host next : Host} (fuel : Nat) (op : HostOp) :
      Lived start ledger host → host.perform? fuel op = some next →
        Lived start (host.record fuel op ledger) next

/-- The ledger and the host after operations that share a bound, if all of them return. -/
def liveAll? (fuel : Nat) (ledger : Ledger) (host : Host) : List HostOp → Option (Ledger × Host)
  | [] => some (ledger, host)
  | op :: rest => (host.perform? fuel op).bind fun next =>
    liveAll? fuel (host.record fuel op ledger) next rest

theorem Lived.liveAll? {ops : List HostOp} {start : Host} {ledger last : Ledger}
    (h : start.Lived ledger host) (run : liveAll? fuel ledger host ops = some (last, next)) :
    start.Lived last next := by
  induction ops generalizing host ledger with
  | nil =>
    cases run
    exact h
  | cons op rest ih =>
    obtain ⟨middle, first, others⟩ := Option.bind_eq_some_iff.1 run
    exact ih (h.step fuel op first) others

theorem Lived.leads {start : Host} {ledger : Ledger} (h : start.Lived ledger host) :
    start.Leads host := by
  induction h with
  | new => exact .refl
  | step fuel op _ run ih => exact ih.step fuel op run

theorem record_other {ledger : Ledger} {op : HostOp} (starts : host.starts op = [])
    (answers : host.answers fuel op = []) : host.record fuel op ledger = ledger := by
  simp [record, starts, answers, Ledger.start, Ledger.answer]

theorem call_balanced {ledger : Ledger} {entry : String} {args : List Value} {outcome : Outcome}
    (balanced : ledger.Balanced host.registry)
    (run : call fuel host entry args = some (outcome, next)) :
    (host.record fuel (.call entry args) ledger).Balanced next.registry := by
  simp only [record, starts, answers, run]
  unfold call at run
  split at run
  · rename_i ready
    rw [if_pos ready, if_pos ready]
    have registered : host.registry.nextId ∈ (host.started entry args).registry.ids := by
      simp [started, Registry.start, Registry.ids, Continuation.new]
    obtain ⟨-, follows⟩ := resumeState_drives registered run
    exact (balanced.start entry args host.maxCallDepth).answer registered follows
  · rename_i other
    rw [if_neg other, if_neg other]
    cases run
    rw [report_registry]
    simpa [Ledger.start, Ledger.answer] using balanced

theorem perform?_balanced {ledger : Ledger} {op : HostOp} (orderly : host.Orderly [])
    (balanced : ledger.Balanced host.registry) (run : host.perform? fuel op = some next) :
    (host.record fuel op ledger).Balanced next.registry := by
  cases op with
  | init =>
    cases run
    rw [record_other rfl rfl]
    unfold Host.init
    split <;> exact balanced
  | runSource name text =>
    obtain ⟨result, ran, rfl⟩ := Option.map_eq_some_iff.1 run
    rw [record_other rfl rfl, (runSource_frame ran).1]
    exact balanced
  | runFile files path =>
    obtain ⟨result, ran, rfl⟩ := Option.map_eq_some_iff.1 run
    rw [record_other rfl rfl, (runFile_frame ran).1]
    exact balanced
  | call entry args =>
    obtain ⟨result, ran, rfl⟩ := Option.map_eq_some_iff.1 run
    exact call_balanced balanced ran
  | tick =>
    obtain ⟨result, ran, rfl⟩ := Option.map_eq_some_iff.1 run
    have answers : host.answers fuel .tick = result.1.resumed := by simp [Host.answers, ran]
    obtain ⟨balanced', -⟩ := tick_turns orderly balanced ran
    simpa [record, starts, answers, Ledger.start] using balanced'
  | setGlobal name value | setClock clock | setHeap heap =>
    cases run
    rw [record_other rfl rfl]
    exact balanced

theorem Lived.balanced {start : Host} {ledger : Ledger} (h : start.Lived ledger host)
    (orderly : start.Orderly []) (balanced : Ledger.empty.Balanced start.registry) :
    ledger.Balanced host.registry := by
  induction h with
  | new => exact balanced
  | step fuel op before run ih => exact perform?_balanced (before.leads.orderly orderly) ih run

/-- A drive says that a continuation is not registered only if the script raised an error with
this text. -/
theorem Drives.threw {ending : RunEnd} {outcome : Outcome} (h : host.Drives fuel id ending outcome)
    {other : ContinuationId} (same : outcome = .unregistered other) :
    ∃ traceback,
      ending = .threw ⟨ErrorCode.panic, other.text ++ " is not registered"⟩ traceback := by
  obtain ⟨c, halt, -, -, -, rfl⟩ := h
  cases ending with
  | threw info traceback =>
    rw [settle, Outcome.unregistered, Outcome.errored.injEq] at same
    exact ⟨traceback, by rw [same]⟩
  | faulted fault dump =>
    rw [settle, Outcome.unregistered, Outcome.errored.injEq, ErrorInfo.mk.injEq] at same
    exact absurd same.2 (fault.message_ne other)
  | returned v => cases same
  | suspended request => cases same

/-- Ids are handed out in increasing order. The outcomes that are returned for one of them are
`yielded` any number of times, and as long as there are no others it is registered; then at most one
other outcome, after which it is neither registered nor queued. A tick drives registered
continuations only, so a report never says that one is not registered unless a script raised an
error with just this text. -/
theorem lifecycle {policy : DrainPolicy} {maxCallDepth : Nat} {reporter : Reporter}
    {plugins : List Plugin} {ledger : Ledger} {host : Host}
    (lived : (Host.new policy maxCallDepth reporter plugins).Lived ledger host) :
    (ledger.started.Pairwise fun first later => first.number < later.number) ∧
    (∀ answer ∈ ledger.answered, answer.1 ∈ ledger.started) ∧
    (∀ id ∈ ledger.started,
      (∃ n, ledger.outcomes id = List.replicate n .yielded) ∧ id ∈ host.registry.ids ∨
      (∃ n last, last ≠ .yielded ∧ ledger.outcomes id = List.replicate n .yielded ++ [last]) ∧
        id ∉ host.registry.ids ∧ id ∉ host.queues.ids) ∧
    ∀ fuel report next, host.tick fuel = some (report, next) →
      List.Forall₂ (fun turn answer => turn.2 = answer.1 ∧ turn.2 ∈ turn.1.registry.ids ∧
        ∃ ending, turn.1.Drives fuel answer.1 ending answer.2 ∧
          ∀ other, answer.2 = .unregistered other → ∃ traceback,
            ending = .threw ⟨ErrorCode.panic, other.text ++ " is not registered"⟩ traceback)
        (host.tickTurns fuel) report.resumed := by
  have orderly : host.Orderly [] := lived.leads.orderly Filed.empty
  have balanced : ledger.Balanced host.registry := lived.balanced Filed.empty .new
  refine ⟨balanced.increasing, balanced.own, ?_, ?_⟩
  · intro id mem
    by_cases registered : id ∈ host.registry.ids
    · exact .inl ⟨balanced.live id registered, registered⟩
    · refine .inr ⟨balanced.ended id mem registered, registered, ?_⟩
      intro queued
      exact registered (orderly.perm.subset queued)
  · intro fuel report next run
    obtain ⟨-, turns⟩ := tick_turns orderly balanced run
    refine turns.imp ?_
    rintro ⟨middle, id⟩ ⟨-, outcome⟩ ⟨rfl, ending, drives⟩
    refine ⟨rfl, ?_, ending, drives, fun other => drives.threw⟩
    obtain ⟨c, -, found, -⟩ := drives
    exact Registry.mem_ids_of_get? found

/-- Three calls: one waits for two frames, one fails at once and one ends with the next tick. -/
theorem lifecycle_three : ∃ ledger host,
    liveAll? 10 .empty (Host.new .allDue 200 .collecting [])
      [.init, .call Natives.suspendName [.num (.ofNat 2)], .call "nothing" [],
        .call Natives.suspendName [.str "g", .num (.ofNat 0)], .tick, .tick] =
      some (ledger, host) ∧
    ledger.started = [⟨1⟩, ⟨2⟩, ⟨3⟩] ∧
    ledger.outcomes ⟨1⟩ = [.yielded, .finished (.num (.ofNat 2))] ∧ ⟨1⟩ ∉ host.queues.ids ∧
    (ledger.started.Pairwise fun first later => first.number < later.number) := by
  have lives : (liveAll? 10 .empty (Host.new .allDue 200 .collecting [])
      [.init, .call Natives.suspendName [.num (.ofNat 2)], .call "nothing" [],
        .call Natives.suspendName [.str "g", .num (.ofNat 0)], .tick, .tick]).map
        (fun result => (result.1.started, result.1.outcomes ⟨1⟩)) =
      some ([⟨1⟩, ⟨2⟩, ⟨3⟩], [.yielded, .finished (.num (.ofNat 2))]) := by decide +kernel
  obtain ⟨⟨ledger, host⟩, run, facts⟩ := Option.map_eq_some_iff.1 lives
  obtain ⟨started, outcomes⟩ := Prod.mk.inj facts
  dsimp only at started outcomes
  obtain ⟨increasing, -, lives, -⟩ := lifecycle (Lived.new.liveAll? run)
  refine ⟨ledger, host, run, started, outcomes, ?_, increasing⟩
  have mem : (⟨1⟩ : ContinuationId) ∈ ledger.started := by simp [started]
  rcases lives ⟨1⟩ mem with ⟨⟨n, yields⟩, -⟩ | ⟨-, -, unqueued⟩
  · have last : Outcome.finished (.num (.ofNat 2)) ∈ List.replicate n Outcome.yielded := by
      simp [← yields, outcomes]
    cases List.eq_of_mem_replicate last
  · exact unqueued

end Host
end FrameScript
