import FrameScript.Host.Resume
import FrameScript.Proofs.Machine.Renaming

/-!
# Driving on a larger heap

A continuation whose references are renamed is driven on the larger heap as it is on the smaller
one. One that makes no writes leaves everything but the heap alone, and that it only adds to.
-/

namespace FrameScript

variable {e : Renaming}

def RunEnd.rename (e : Renaming) : RunEnd → RunEnd
  | returned v => returned (v.rename e)
  | ending => ending

theorem SlotDump.ofStack?_rename {h larger : Heap} (stands : h.StandsIn e larger)
    {stack : Array Value} {dump : List SlotDump}
    (dumped : ofStack? larger (stack.map (Value.rename e)) = some dump) :
    ofStack? h stack = some dump := by
  rw [ofStack?, Array.toList_map, List.zipIdx_map, List.mapM_map] at dumped
  refine Value.mapM_eq_some_mono (fun slot _ d found => ?_) dumped
  obtain ⟨v, i⟩ := slot
  obtain ⟨text, has_text, same⟩ := Option.map_eq_some_iff.mp found
  refine Option.map_eq_some_iff.mpr ⟨text, Value.text?_rename stands has_text, ?_⟩
  rwa [Value.typeName_rename] at same

/-- What a run has come to does not depend on what else is on the heap. -/
theorem RunEnd.ofHalt?_stands {halt halt' : Halt} (stands : halt.StandsIn e halt')
    {ending' : RunEnd} (ends : ofHalt? halt' = some ending') :
    ∃ ending, ofHalt? halt = some ending ∧ ending' = ending.rename e := by
  obtain ⟨m, env, fault⟩ := halt
  obtain ⟨m', env', fault'⟩ := halt'
  obtain ⟨machine, same, env_stands⟩ := stands
  obtain rfl : m' = m.rename e := machine
  obtain rfl : fault' = fault := same
  have heap : env.heap.StandsIn e env'.heap := env_stands.world.heap
  have faults (f : Fault)
      (ends : (SlotDump.ofStack? env'.heap (m.rename e).stack).map (faulted f) = some ending') :
      ∃ ending, (SlotDump.ofStack? env.heap m.stack).map (faulted f) = some ending ∧
        ending' = ending.rename e := by
    obtain ⟨dump, dumped, rfl⟩ := Option.map_eq_some_iff.mp ends
    exact ⟨_, Option.map_eq_some_iff.mpr ⟨dump, SlotDump.ofStack?_rename heap dumped, rfl⟩, rfl⟩
  unfold ofHalt? at ends ⊢
  cases fault' with
  | some f => exact faults f ends
  | none =>
    obtain ⟨frames, stack, handlers, control, traceback, limit⟩ := m
    cases control with
    | running => exact faults .noFrame ends
    | returned v =>
      cases ends
      exact ⟨_, rfl, rfl⟩
    | suspended request =>
      cases ends
      exact ⟨_, rfl, rfl⟩
    | thrown v =>
      obtain ⟨info, thrown, rfl⟩ := Option.map_eq_some_iff.mp ends
      exact ⟨_, Option.map_eq_some_iff.mpr ⟨info, Value.thrownInfo?_rename heap thrown, rfl⟩, rfl⟩

def Pending.rename (e : Renaming) : Pending → Pending
  | start args => start (args.map (Value.rename e))
  | resume v => resume (v.rename e)
  | nothing => nothing

def Pending.isStart : Pending → Bool
  | start _ => true
  | _ => false

def Outcome.rename (e : Renaming) : Outcome → Outcome
  | finished v => finished (v.rename e)
  | outcome => outcome

/-- The id that a continuation has if `b` was started in addition. -/
def ContinuationId.past (id b : ContinuationId) : ContinuationId :=
  if id.number < b.number then id else ⟨id.number + 1⟩

/-- The continuation as it is if `b` was started in addition. -/
def Continuation.rename (e : Renaming) (b : ContinuationId) (c : Continuation) : Continuation :=
  { c with id := c.id.past b, machine := c.machine.rename e, pending := c.pending.rename e }

def Continuation.ready (env : Env) (c : Continuation) : Stepped :=
  match c.pending with
  | .start args =>
    match env.globals.get? c.entry with
    | some callee => c.machine.startCall env callee args
    | none => c.machine.raise env ⟨ErrorCode.undefinedVariable,
        "entry function '" ++ c.entry ++ "' is not defined"⟩
  | .resume v => ⟨(c.machine.resume? v).getD c.machine, env, .continue⟩
  | .nothing => ⟨c.machine, env, .continue⟩

theorem Host.drive_eq (fuel : Nat) (env : Env) (c : Continuation) :
    drive fuel env c = Machine.runFrom fuel (c.ready env) := by
  unfold drive Continuation.ready
  cases c.pending with
  | start args => cases env.globals.get? c.entry <;> rfl
  | resume v => rfl
  | nothing => rfl

theorem Machine.rename_resume? (m : Machine) (v : Value) :
    (m.rename e).resume? (v.rename e) = (m.resume? v).map (Machine.rename e) := by
  unfold resume?
  rw [rename_isSuspended]
  split
  · obtain ⟨frames, stack, handlers, control, traceback, limit⟩ := m
    cases frames with
    | nil => rfl
    | cons frame callers => simp [deliver, rename, push, Control.rename]
  · rfl

section

variable {env larger : Env} {c : Continuation} {fuel : Nat} {halt halt' : Halt}

theorem Continuation.ready_stands (stands : env.StandsIn e larger)
    (natives : ∀ name native, env.natives.get? name = some native → native.Renames)
    (b : ContinuationId) (goes : ((c.rename e b).ready larger).verdict ≠ .lost)
    (covers : e.Covers larger.heap ((c.rename e b).ready larger).env.heap) :
    Stepped.StandsIn e (c.ready env) ((c.rename e b).ready larger) := by
  obtain ⟨own, entry, state, machine, pending⟩ := c
  cases pending with
  | start args =>
    simp only [ready, rename, Pending.rename, stands.globals, Table.get?_map] at goes covers ⊢
    cases called : env.globals.get? entry with
    | none => exact Machine.throwInfo_stands machine stands _
    | some callee =>
      rw [called] at goes covers
      exact Machine.startCall_stands machine stands natives callee args goes covers
  | resume v =>
    refine ⟨?_, rfl, stands⟩
    simp only [ready, rename, Pending.rename, Machine.rename_resume?]
    cases machine.resume? v <;> rfl
  | nothing => exact ⟨rfl, rfl, stands⟩

theorem Machine.startCall_callee? (m : Machine) (callee : Value) (args : List Value) :
    ({ m with stack := m.stack.push callee ++ args.toArray } : Machine).callee? args.length =
      some callee := by
  have size : (m.stack.push callee ++ args.toArray).size = m.stack.size + 1 + args.length := by
    simp [Nat.add_assoc, Nat.add_comm 1]
  have below : m.stack.size + 1 + args.length - (args.length + 1) = m.stack.size := by omega
  rw [callee?, size, below]
  simp

theorem Continuation.ready_changes {tame : Prop} (c : Continuation) (natives : env.natives.Change)
    (still : tame → c.pending.isStart = true →
      env.globals.get? c.entry ≠ some (.native "push")) :
    env.Changes tame (c.ready env).env := by
  unfold ready
  split
  · rename_i args pending
    split
    · rename_i callee called
      apply Machine.callValue_changes natives
      intro tamed pushes
      rw [Machine.startCall_callee?] at pushes
      exact still tamed (by rw [pending]; rfl) (called.trans pushes)
    · exact .of_eq (Machine.throwInfo_env _ _ _)
  · exact .of_eq rfl
  · exact .of_eq rfl

theorem Continuation.ready_grows (c : Continuation) (natives : env.natives.Change) :
    env.Grows (c.ready env).env := by
  have changes : env.Changes False (c.ready env).env := c.ready_changes natives False.elim
  exact changes.grows

/-- A drive on the larger heap that returns is also one on the smaller heap. -/
theorem Host.drive_stands (stands : env.StandsIn e larger)
    (library : env.natives = Natives.withSuspend) (b : ContinuationId)
    (drives : drive fuel larger (c.rename e b) = some halt')
    (covers : e.Covers larger.heap halt'.env.heap) :
    ∃ halt, drive fuel env c = some halt ∧ halt.StandsIn e halt' := by
  have library' : larger.natives = Natives.withSuspend := stands.natives.trans library
  have change : larger.natives.Change := library' ▸ Natives.withSuspend_change
  have renames (name : String) (native : Native) (found : env.natives.get? name = some native) :
      native.Renames := Natives.withSuspend_rename (library ▸ found)
  have grows := (c.rename e b).ready_grows change
  have begins := Continuation.ready_stands (c := c) stands renames b
  rw [drive_eq] at drives ⊢
  unfold Machine.runFrom at drives ⊢
  generalize (c.rename e b).ready larger = s' at drives grows begins
  generalize c.ready env = s at begins ⊢
  obtain ⟨m', larger', verdict'⟩ := s'
  obtain ⟨m, own_env, verdict⟩ := s
  have goes_on (goes : verdict' ≠ .lost) (run : m'.run fuel larger' = some halt') :
      verdict' = verdict ∧ ∃ halt, m.run fuel own_env = some halt ∧ halt.StandsIn e halt' := by
    have later := Machine.run_grows (grows.natives ▸ change) run
    obtain ⟨machine, same, stands'⟩ := begins goes (covers.mono (.refl _) later.heap)
    obtain rfl : m' = m.rename e := machine
    have library_own : own_env.natives = Natives.withSuspend :=
      stands'.natives.symm.trans (grows.natives.trans library')
    exact ⟨same, Machine.run_stands stands' library_own run (covers.mono grows.heap (.refl _))⟩
  cases verdict' with
  | lost => cases drives
  | fault f =>
    cases drives
    obtain ⟨machine, same, stands'⟩ := begins nofun covers
    obtain rfl : verdict = .fault f := same.symm
    exact ⟨_, rfl, machine, rfl, stands'⟩
  | «continue» | done =>
    obtain ⟨rfl, runs⟩ := goes_on nofun drives
    exact runs

theorem Host.drive_grows (natives : env.natives.Change) (drives : drive fuel env c = some halt) :
    env.Grows halt.env := by
  have first := c.ready_grows natives
  rw [drive_eq] at drives
  unfold Machine.runFrom at drives
  split at drives
  · cases drives
    exact first
  · cases drives
  · exact first.trans (Machine.run_grows (first.natives ▸ natives) drives)

/-- The states at which a drive executes something. -/
def Continuation.states (fuel : Nat) (env : Env) (c : Continuation) : List (Machine × Env) :=
  match (c.ready env).verdict with
  | .fault _ | .lost => []
  | _ => Stepped.states fuel { c.ready env with verdict := .continue }

/-- A drive neither writes to globals nor to lists and objects that are there. -/
structure Continuation.Tame (fuel : Nat) (env : Env) (c : Continuation) : Prop where
  entry : c.pending.isStart = true → env.globals.get? c.entry ≠ some (.native "push")
  steps : ∀ p ∈ c.states fuel env, p.1.isTame = true

instance (fuel : Nat) (env : Env) (c : Continuation) : Decidable (c.Tame fuel env) :=
  decidable_of_iff ((c.pending.isStart = true →
      env.globals.get? c.entry ≠ some (.native "push")) ∧
    ∀ p ∈ c.states fuel env, p.1.isTame = true)
    ⟨fun ⟨entry, steps⟩ => ⟨entry, steps⟩, fun ⟨entry, steps⟩ => ⟨entry, steps⟩⟩

/-- A drive without writes extends the heap and leaves the globals alone. -/
theorem Host.drive_extends (natives : env.natives.Change) (tame : c.Tame fuel env)
    (drives : drive fuel env c = some halt) : env.Extends halt.env := by
  obtain ⟨entry, steps⟩ := tame
  have changes : env.Changes True (c.ready env).env := c.ready_changes natives fun _ => entry
  have first := changes.extends trivial
  unfold Continuation.states at steps
  rw [drive_eq] at drives
  unfold Machine.runFrom at drives
  generalize c.ready env = s at drives first steps
  obtain ⟨m, env', verdict⟩ := s
  cases verdict with
  | lost => cases drives
  | fault f =>
    cases drives
    exact first
  | «continue» | done =>
    exact first.trans (Machine.run_extends (s := ⟨m, env', .continue⟩) (first.natives ▸ natives)
      rfl steps drives)

end
end FrameScript
