import FrameScript.Proofs.Code.Assembly
import FrameScript.Proofs.Code.Journal

/-!
# Every hole is filled

Between two builders code is appended, with holes among it: jumps without their target. A hole
waits until it is patched, which happens once. What waits in the end of a statement are just the
jumps of `break` that it has recorded in the innermost loop around it.
-/

namespace FrameScript

namespace BuildEvent

def holes (events : List BuildEvent) : List Nat :=
  events.filterMap fun event => match event with
    | .hole position => some position
    | _ => none

def patches (events : List BuildEvent) : List (Nat × Nat) :=
  events.filterMap fun event => match event with
    | .patch position target => some (position, target)
    | _ => none

@[simp] theorem holes_append (before after : List BuildEvent) :
    holes (before ++ after) = holes before ++ holes after := List.filterMap_append

@[simp] theorem patches_append (before after : List BuildEvent) :
    patches (before ++ after) = patches before ++ patches after := List.filterMap_append

end BuildEvent

open BuildEvent

@[simp] theorem Instr.target?_withTarget (target : Nat) (i : Instr) :
    (i.withTarget target).target? = i.target?.map fun _ => target := by cases i <;> rfl

namespace Builder

/-- Where the instruction at a position jumps to, if it does. -/
def targetAt? (b : Builder) (position : Nat) : Option Nat := b.code[position]?.bind Instr.target?

/-- Between the builders these events have happened, and of the holes some still wait. -/
structure Settles (b : Builder) (events : List BuildEvent) (waiting : List Nat) (next : Builder) :
    Prop where
  grown : b.here ≤ next.here
  /-- Code in front stays. -/
  front : ∀ p < b.here, next.code[p]? = b.code[p]?
  /-- Every instruction has got a line. -/
  lines : next.lines.size + b.code.size = b.lines.size + next.code.size
  natural : ∀ total less, .minus total less ∈ events → less ≤ total
  fresh : ∀ p ∈ holes events, b.here ≤ p ∧ p < next.here
  distinct : (holes events).Nodup
  once : (holes events).Perm ((patches events).map (·.1) ++ waiting)
  final : ∀ e ∈ patches events, next.targetAt? e.1 = some e.2 ∧ e.2 ≤ next.here
  still : ∀ p ∈ waiting, next.targetAt? p = some 0
  /-- A jump is a hole or goes back. -/
  known : ∀ p t, b.here ≤ p → next.targetAt? p = some t →
    p ∈ holes events ∨ .back p t ∈ events ∧ t ≤ p

namespace Settles

variable {b middle next : Builder} {events later : List BuildEvent} {waiting others : List Nat}

theorem same (code : next.code = b.code) (lines : next.lines = b.lines) :
    Settles b [] [] next where
  grown := by simp [here, code]
  front p _ := by rw [code]
  lines := by rw [code, lines, Nat.add_comm]
  natural _ _ mem := by cases mem
  fresh _ mem := by cases mem
  distinct := .nil
  once := .nil
  final _ mem := by cases mem
  still _ mem := by cases mem
  known p t outside found := by
    rw [targetAt?, code, Array.getElem?_eq_none outside] at found
    cases found

theorem refl (b : Builder) : Settles b [] [] b := same rfl rfl

theorem code_emit (b : Builder) (i : Instr) (p : Nat) :
    (b.emit i).code[p]? = if p = b.here then some i else b.code[p]? := by
  rw [emit, Array.getElem?_push]
  rfl

theorem targetAt?_emit (b : Builder) (i : Instr) {p t : Nat} (outside : b.here ≤ p)
    (found : (b.emit i).targetAt? p = some t) : p = b.here ∧ i.target? = some t := by
  rw [targetAt?, code_emit] at found
  split at found
  · rename_i there
    exact ⟨there, found⟩
  · rw [Array.getElem?_eq_none outside] at found
    cases found

theorem emitted (i : Instr) (natural : ∀ total less, .minus total less ∈ events → less ≤ total)
    (unpatched : patches events = []) (left_open : holes events = waiting)
    (waits : waiting = [] ∨ waiting = [b.here] ∧ i.target? = some 0)
    (known : ∀ t, i.target? = some t →
      b.here ∈ holes events ∨ .back b.here t ∈ events ∧ t ≤ b.here) :
    Settles b events waiting (b.emit i) where
  grown := by simp
  front p before := by rw [code_emit, if_neg (Nat.ne_of_lt before)]
  lines := by simp [emit]; omega
  natural := natural
  fresh p mem := by
    rcases waits with nothing | ⟨one, -⟩
    · rw [left_open, nothing] at mem
      cases mem
    · rw [left_open, one, List.mem_singleton] at mem
      simp [mem]
  distinct := by
    rcases waits with nothing | ⟨one, -⟩
    · simp [left_open, nothing]
    · simp [left_open, one]
  once := by rw [unpatched, left_open]; exact .refl _
  final e mem := by
    rw [unpatched] at mem
    cases mem
  still p mem := by
    rcases waits with nothing | ⟨one, untargeted⟩
    · rw [nothing] at mem
      cases mem
    · rw [one, List.mem_singleton] at mem
      rw [targetAt?, code_emit, if_pos mem]
      exact untargeted
  known p t outside found := by
    obtain ⟨rfl, target⟩ := targetAt?_emit b i outside found
    exact known t target

theorem emit (b : Builder) {i : Instr} (plain : i.target? = none) : Settles b [] [] (b.emit i) :=
  emitted i (by simp) rfl rfl (.inl rfl) fun t target => by
    rw [plain] at target
    cases target

theorem hole (b : Builder) {i : Instr} (untargeted : i.target? = some 0) :
    Settles b [.hole b.here] [b.here] (b.emit i) :=
  emitted i (by simp) rfl rfl (.inr ⟨rfl, untargeted⟩) fun t target => .inl (by simp [holes])

theorem back (b : Builder) {target : Nat} (before : target ≤ b.here) :
    Settles b [.back b.here target] [] (b.emit (.jump target)) :=
  emitted _ (by simp) rfl rfl (.inl rfl) fun t same => by
    cases same
    exact .inr ⟨by simp, before⟩

theorem minus (b : Builder) {total less : Nat} (natural : less ≤ total) :
    Settles b [.minus total less] [] b :=
  { refl b with
    natural := by simp [natural]
    once := .nil
    known := fun p t outside found => by
      rcases (refl b).known p t outside found with mem | ⟨mem, -⟩ <;> cases mem }

theorem trans (h : Settles b events waiting middle) (k : Settles middle later others next) :
    Settles b (events ++ later) (others ++ waiting) next := by
  have stays {p t : Nat} (found : middle.targetAt? p = some t) : next.targetAt? p = some t := by
    have inside : p < middle.here := Nat.lt_of_not_le fun outside => by
      rw [targetAt?, Array.getElem?_eq_none outside] at found
      cases found
    rw [targetAt?, k.front p inside]
    exact found
  refine
    { grown := Nat.le_trans h.grown k.grown
      front := fun p before => ?_
      lines := by have := h.lines; have := k.lines; omega
      natural := ?_
      fresh := ?_
      distinct := ?_
      once := ?_
      final := ?_
      still := ?_
      known := ?_ }
  · rw [k.front p (Nat.lt_of_lt_of_le before h.grown), h.front p before]
  · intro total less mem
    rcases List.mem_append.mp mem with mem | mem
    · exact h.natural total less mem
    · exact k.natural total less mem
  · intro p mem
    rw [holes_append, List.mem_append] at mem
    rcases mem with mem | mem
    · exact ⟨(h.fresh p mem).1, Nat.lt_of_lt_of_le (h.fresh p mem).2 k.grown⟩
    · exact ⟨Nat.le_trans h.grown (k.fresh p mem).1, (k.fresh p mem).2⟩
  · rw [holes_append, List.nodup_append]
    refine ⟨h.distinct, k.distinct, fun p mem q mem' => ?_⟩
    exact Nat.ne_of_lt (Nat.lt_of_lt_of_le (h.fresh p mem).2 (k.fresh q mem').1)
  · rw [holes_append, patches_append, List.map_append]
    refine (h.once.append k.once).trans ?_
    rw [List.append_assoc, List.append_assoc]
    exact (List.perm_append_comm.trans (.of_eq (List.append_assoc ..))).append_left _
  · intro e mem
    rw [patches_append, List.mem_append] at mem
    rcases mem with mem | mem
    · exact ⟨stays (h.final e mem).1, Nat.le_trans (h.final e mem).2 k.grown⟩
    · exact k.final e mem
  · intro p mem
    rcases List.mem_append.mp mem with mem | mem
    · exact k.still p mem
    · exact stays (h.still p mem)
  · intro p t outside found
    rw [holes_append]
    by_cases inside : p < middle.here
    · have found' : middle.targetAt? p = some t := by
        rw [targetAt?, ← k.front p inside]
        exact found
      rcases h.known p t outside found' with mem | ⟨mem, le⟩
      · exact .inl (List.mem_append_left _ mem)
      · exact .inr ⟨List.mem_append_left _ mem, le⟩
    · rcases k.known p t (Nat.le_of_not_lt inside) found with mem | ⟨mem, le⟩
      · exact .inl (List.mem_append_right _ mem)
      · exact .inr ⟨List.mem_append_right _ mem, le⟩

theorem perm (h : Settles b events waiting next) (p : waiting.Perm others) :
    Settles b events others next :=
  { h with
    once := h.once.trans (p.append_left _)
    still := fun q mem => h.still q (p.mem_iff.mpr mem) }

theorem code_patch (b : Builder) (p q : Nat) : (b.patch p).code[q]? =
    if p = q then b.code[q]?.map (Instr.withTarget b.here) else b.code[q]? := by
  rw [Builder.patch, Array.getElem?_modify]

theorem patch {p : Nat} (h : Settles b events (p :: waiting) next) :
    Settles b (events ++ [.patch p next.here]) waiting (next.patch p) := by
  have mem : p ∈ holes events := h.once.mem_iff.mpr (by simp)
  obtain ⟨low, high⟩ := h.fresh p mem
  have distinct : ((patches events).map (·.1) ++ p :: waiting).Nodup :=
    h.once.nodup_iff.mp h.distinct
  obtain ⟨-, later, apart⟩ := List.nodup_append.mp distinct
  have other {q : Nat} (ne : p ≠ q) : (next.patch p).targetAt? q = next.targetAt? q := by
    rw [targetAt?, code_patch, if_neg ne]
    rfl
  have there : (next.patch p).targetAt? p = some next.here := by
    have untargeted := h.still p List.mem_cons_self
    rw [targetAt?, Option.bind_eq_some_iff] at untargeted
    obtain ⟨i, found, target⟩ := untargeted
    rw [targetAt?, code_patch, if_pos rfl, found]
    simp [target]
  refine
    { grown := by rw [here_patch]; exact h.grown
      front := fun q before => ?_
      lines := ?_
      natural := fun total less mem => h.natural total less (by simpa using mem)
      fresh := fun q mem => by rw [here_patch]; exact h.fresh q (by simpa [holes] using mem)
      distinct := by simpa [holes] using h.distinct
      once := ?_
      final := ?_
      still := ?_
      known := ?_ }
  · rw [code_patch, if_neg (by omega), h.front q before]
  · have := h.lines
    simpa [Builder.patch] using this
  · have same : holes (events ++ [.patch p next.here]) = holes events := by simp [holes]
    rw [same]
    simpa [patches] using h.once
  · intro e mem
    rw [patches_append, List.mem_append] at mem
    rcases mem with mem | mem
    · have ne : p ≠ e.1 := fun same =>
        apart e.1 (List.mem_map_of_mem mem) p List.mem_cons_self same.symm
      rw [other ne, here_patch]
      exact h.final e mem
    · obtain rfl : e = (p, next.here) := by simpa [patches] using mem
      exact ⟨there, Nat.le_of_eq (here_patch ..).symm⟩
  · intro q mem
    have ne : p ≠ q := fun same => (List.nodup_cons.mp later).1 (same ▸ mem)
    rw [other ne]
    exact h.still q (List.mem_cons_of_mem _ mem)
  · intro q t outside found
    by_cases same : p = q
    · subst same
      exact .inl (by simp [mem])
    · rw [other same] at found
      rcases h.known q t outside found with mem | ⟨mem, le⟩
      · exact .inl (by simp [mem])
      · exact .inr ⟨List.mem_append_left _ mem, le⟩

theorem recast {b' next' : Builder} (h : Settles b events waiting next)
    (code : b'.code = b.code) (lines : b'.lines = b.lines) (code' : next'.code = next.code)
    (lines' : next'.lines = next.lines) : Settles b' events waiting next' := by
  have first : Settles b' [] [] b := same code.symm lines.symm
  have last : Settles next [] [] next' := same code' lines'
  simpa using (first.trans h).trans last

theorem closeScope (deep : 0 < b.depth) : Settles b [.minus b.depth 1] [] b.closeScope := by
  have counted := minus b (show 1 ≤ b.depth from deep)
  unfold Builder.closeScope
  dsimp only
  split
  · exact counted.recast rfl rfl rfl rfl
  · have moved : Settles b [.minus b.depth 1] [] { b with
        depth := b.depth - 1
        locals := b.locals.dropWhile fun l => b.depth - 1 < l.depth } :=
      counted.recast rfl rfl rfl rfl
    exact moved.trans (emit _ rfl)

end Settles
end Builder

namespace Journal

open Builder

/-- From one journal to another code is appended, of which some holes still wait, breaks are
recorded in the innermost loop, and locals are declared. -/
structure Runs (j : Journal) (waiting breaks : List Nat) (added : List Local) (k : Journal) :
    Prop where
  settles : ∃ events, k.events = j.events ++ events ∧
    Settles j.builder events waiting k.builder
  locals : k.builder.locals = added ++ j.builder.locals
  depths : ∀ l ∈ added, l.depth = j.builder.depth
  depth : k.builder.depth = j.builder.depth
  loops : k.builder.loops = noted breaks j.builder.loops
  handlers : k.builder.handlers = j.builder.handlers
  /-- Breaks are recorded in loops only. -/
  outside : j.builder.loops = [] → breaks = []

namespace Runs

variable {j k l : Journal} {waiting others breaks later : List Nat} {added more : List Local}

theorem grows (h : Runs j waiting breaks added k) :
    ∃ code, Grows j.builder code breaks k.builder := by
  obtain ⟨events, -, settles⟩ := h.settles
  have front : j.builder.code.toList <+: k.builder.code.toList := by
    rw [List.prefix_iff_getElem?]
    intro p inside
    rw [Array.length_toList] at inside
    rw [Array.getElem?_toList, settles.front p inside, Array.getElem_toList,
      Array.getElem?_eq_getElem inside]
  obtain ⟨code, same⟩ := front
  exact ⟨code, same.symm, ⟨added, h.locals, h.depths⟩, h.depth, h.loops, h.handlers⟩

theorem here_le (h : Runs j waiting breaks added k) : j.builder.here ≤ k.builder.here := by
  obtain ⟨events, -, settles⟩ := h.settles
  exact settles.grown

theorem refl (j : Journal) : Runs j [] [] [] j where
  settles := ⟨[], by simp, .refl _⟩
  locals := rfl
  depths _ mem := by cases mem
  depth := rfl
  loops := (noted_nil _).symm
  handlers := rfl
  outside _ := rfl

theorem trans (h : Runs j waiting breaks added k) (h' : Runs k others later more l) :
    Runs j (others ++ waiting) (later ++ breaks) (more ++ added) l where
  settles := by
    obtain ⟨events, happened, settles⟩ := h.settles
    obtain ⟨events', happened', settles'⟩ := h'.settles
    exact ⟨events ++ events', by rw [happened', happened, List.append_assoc],
      settles.trans settles'⟩
  locals := by rw [h'.locals, h.locals, List.append_assoc]
  depths l mem := by
    rcases List.mem_append.mp mem with mem | mem
    · rw [h'.depths l mem, h.depth]
    · exact h.depths l mem
  depth := h'.depth.trans h.depth
  loops := by rw [h'.loops, h.loops, noted_noted]
  handlers := h'.handlers.trans h.handlers
  outside loopless := by
    have first := h.outside loopless
    rw [h'.outside (by rw [h.loops, loopless, noted]), first, List.nil_append]

theorem perm (h : Runs j waiting breaks added k) (p : waiting.Perm others) :
    Runs j others breaks added k := by
  obtain ⟨events, happened, settles⟩ := h.settles
  exact { h with settles := ⟨events, happened, settles.perm p⟩ }

theorem behind (h : Runs j [] [] [] k) (h' : Runs k waiting breaks added l) :
    Runs j waiting breaks added l := by simpa using h.trans h'

theorem of_emits {code : List Instr} {events : List BuildEvent}
    (e : Emits j.builder code k.builder) (notes : k.events = j.events ++ events)
    (s : Settles j.builder events waiting k.builder) : Runs j waiting [] [] k where
  settles := ⟨events, notes, s⟩
  locals := e.locals
  depths _ mem := by cases mem
  depth := e.depth
  loops := e.loops.trans (noted_nil _).symm
  handlers := e.handlers
  outside _ := rfl

theorem emits (h : Runs j waiting breaks added k) {code : List Instr} {events : List BuildEvent}
    (e : Emits k.builder code l.builder) (notes : l.events = k.events ++ events)
    (s : Settles k.builder events [] l.builder) : Runs j waiting breaks added l :=
  h.trans (of_emits e notes s)

theorem events_on (change : Builder → Builder) (k : Journal) :
    (k.on change).events = k.events ++ [] := (List.append_nil _).symm

theorem emit (h : Runs j waiting breaks added k) {i : Instr} (plain : i.target? = none) :
    Runs j waiting breaks added (k.on (·.emit i)) :=
  h.emits (.emit _ i) (events_on ..) (.emit k.builder plain)

theorem hole (h : Runs j waiting breaks added k) {i : Instr} (untargeted : i.target? = some 0) :
    Runs j (k.builder.here :: waiting) breaks added (k.hole i) :=
  h.trans (of_emits (k := k.hole i) (.emit _ i) rfl (.hole k.builder untargeted))

theorem back (h : Runs j waiting breaks added k) {target : Nat}
    (before : target ≤ k.builder.here) : Runs j waiting breaks added (k.back target) :=
  h.emits (l := k.back target) (.emit _ _) rfl (.back k.builder before)

theorem minus (h : Runs j waiting breaks added k) {total less : Nat} (natural : less ≤ total) :
    Runs j waiting breaks added (k.note (.minus total less)) :=
  h.emits (l := k.note (.minus total less)) (.refl _) rfl (.minus k.builder natural)

theorem atLine (h : Runs j waiting breaks added k) (line : Nat) :
    Runs j waiting breaks added (k.on (·.atLine line)) :=
  h.emits (.atLine _ line) (events_on ..) (.same rfl rfl)

theorem patch {p : Nat} (h : Runs j (p :: waiting) breaks added k) :
    Runs j waiting breaks added (k.patch p) := by
  obtain ⟨events, happened, settles⟩ := h.settles
  refine ⟨⟨events ++ [.patch p k.builder.here], ?_, settles.patch⟩, h.locals, h.depths, h.depth,
    h.loops, h.handlers, h.outside⟩
  rw [← List.append_assoc, ← happened]
  rfl

theorem patch_middle {p : Nat} (h : Runs j (others ++ p :: waiting) breaks added k) :
    Runs j (others ++ waiting) breaks added (k.patch p) := (h.perm List.perm_middle).patch

theorem patches (jumps : List Nat) {k : Journal} (h : Runs j (jumps ++ waiting) breaks added k) :
    Runs j waiting breaks added (jumps.foldl (fun k jump => k.patch jump) k) := by
  induction jumps generalizing k with
  | nil => exact h
  | cons jump rest ih => exact ih h.patch

theorem declare (h : Runs j waiting breaks added k) (name : String) :
    Runs j waiting breaks (⟨name, k.builder.depth⟩ :: added) (k.on (·.declare name)) := by
  have declared : Runs k [] [] [⟨name, k.builder.depth⟩] (k.on (·.declare name)) :=
    { settles := ⟨[], events_on .., .same rfl rfl⟩
      locals := rfl
      depths := by simp
      depth := rfl
      loops := (noted_nil _).symm
      handlers := rfl
      outside := fun _ => rfl }
  exact h.trans declared

theorem load (h : Runs j waiting breaks added k) (name : String) :
    Runs j waiting breaks added (k.on (·.load name)) := by
  cases found : k.builder.resolve name with
  | none =>
    have same : k.on (·.load name) = k.on (·.emit (.getGlobal name)) := by
      simp [on, Builder.load, found]
    exact same ▸ h.emit rfl
  | some slot =>
    have same : k.on (·.load name) = k.on (·.emit (.getLocal slot)) := by
      simp [on, Builder.load, found]
    exact same ▸ h.emit rfl

theorem store (h : Runs j waiting breaks added k) (name : String) :
    Runs j waiting breaks added (k.on (·.store name)) := by
  cases found : k.builder.resolve name with
  | none =>
    have same : k.on (·.store name) = k.on (·.emit (.setGlobal name)) := by
      simp [on, Builder.store, found]
    exact same ▸ h.emit rfl
  | some slot =>
    have same : k.on (·.store name) = k.on (·.emit (.setLocal slot)) := by
      simp [on, Builder.store, found]
    exact same ▸ h.emit rfl

theorem emitTimes (n : Nat) {i : Instr} (plain : i.target? = none) {k : Journal}
    (h : Runs j waiting breaks added k) :
    Runs j waiting breaks added (k.on (·.emitTimes n i)) := by
  induction n generalizing k with
  | zero => exact h
  | succ n ih => exact ih (h.emit plain)

theorem scope (h : Runs (j.on (·.openScope)) waiting breaks added k)
    (shallow : ∀ l ∈ j.builder.locals, l.depth ≤ j.builder.depth) :
    Runs j waiting breaks [] k.closeScope := by
  obtain ⟨events, happened, settles⟩ := h.settles
  obtain ⟨code, grown⟩ := h.grows
  obtain ⟨closed, locals⟩ := Grows.scope grown shallow
  have deep : 0 < k.builder.depth := by
    rw [h.depth]
    exact Nat.succ_pos _
  have settles : Settles j.builder events waiting k.builder := settles.recast rfl rfl rfl rfl
  exact
    { settles := ⟨events ++ [.minus k.builder.depth 1],
        by rw [← List.append_assoc]; exact congrArg (· ++ _) happened,
        settles.trans (.closeScope deep)⟩
      locals := locals
      depths := fun _ mem => by cases mem
      depth := closed.depth
      loops := closed.loops
      handlers := closed.handlers
      outside := h.outside }

theorem guarded (h : Runs (j.on (·.enterTry)) waiting breaks added k) :
    Runs j waiting breaks added k.leaveTry := by
  obtain ⟨events, happened, settles⟩ := h.settles
  have in_try : 1 ≤ k.builder.handlers := by
    rw [h.handlers]
    exact Nat.succ_pos _
  have settles : Settles j.builder events waiting k.builder := settles.recast rfl rfl rfl rfl
  have counted : Settles k.builder [.minus k.builder.handlers 1] [] k.leaveTry.builder :=
    (Settles.minus k.builder in_try).recast rfl rfl rfl rfl
  exact
    { settles := ⟨events ++ [.minus k.builder.handlers 1],
        by rw [← List.append_assoc]; exact congrArg (· ++ _) happened,
        settles.trans counted⟩
      locals := h.locals
      depths := h.depths
      depth := h.depth
      loops := h.loops
      handlers := by
        change k.builder.handlers - 1 = _
        rw [h.handlers]
        rfl
      outside := h.outside }

/-- Unwinding to a loop takes away what is above it. -/
theorem unwindTo (h : Runs j waiting breaks added k) {loop : Loop}
    (locals : loop.locals ≤ k.builder.locals.length)
    (handlers : loop.handlers ≤ k.builder.handlers) :
    Runs j waiting breaks added (k.unwindTo loop) := by
  have counted := (h.minus locals).minus handlers
  by_cases same : k.builder.locals.length - loop.locals = 0
  · have unwound := counted.emitTimes (k.builder.handlers - loop.handlers) (i := .popHandler) rfl
    simpa [Journal.unwindTo, Builder.unwindTo, on, note, same] using unwound
  · have popped := counted.emit (i := .popN (k.builder.locals.length - loop.locals)) rfl
    have unwound := popped.emitTimes (k.builder.handlers - loop.handlers) (i := .popHandler) rfl
    simpa [Journal.unwindTo, Builder.unwindTo, on, note, same, Builder.emit] using unwound

theorem record (h : Runs j waiting [] added k) (jump : Nat) (inside : j.builder.loops ≠ []) :
    Runs j waiting [jump] added (k.on (·.recordBreak jump)) := by
  obtain ⟨events, happened, settles⟩ := h.settles
  have same : k.builder.loops = j.builder.loops := h.loops.trans (noted_nil _)
  obtain ⟨loop, outer, loops⟩ := List.exists_cons_of_ne_nil inside
  have recorded : k.builder.recordBreak jump =
      { k.builder with loops := { loop with breaks := jump :: loop.breaks } :: outer } := by
    simp [recordBreak, same, loops]
  refine ⟨⟨events, happened, ?_⟩, ?_, h.depths, ?_, ?_, ?_, fun loopless => absurd loopless inside⟩
  · have noted : Settles k.builder [] [] (k.builder.recordBreak jump) :=
      .same (by rw [recorded]) (by rw [recorded])
    simpa using settles.trans noted
  · rw [builder_on, recorded]
    exact h.locals
  · rw [builder_on, recorded]
    exact h.depth
  · rw [builder_on, recorded, loops]
    rfl
  · rw [builder_on, recorded]
    exact h.handlers

/-- A loop that is left: the hole in front of its body and its breaks are filled. -/
theorem closeLoop {start p : Nat} (h : Runs j [p] [] added k)
    (inner : Runs (k.on (·.openLoop start)) breaks breaks [] l) :
    Runs j [] [] added ((l.patch p).closeLoop) := by
  let outer (b : Builder) : Builder := { b with loops := k.builder.loops }
  have left : Runs j (breaks ++ [p]) [] added (l.on outer) := by
    obtain ⟨events, happened, settles⟩ := h.settles
    obtain ⟨events', happened', settles'⟩ := inner.settles
    exact
      { settles := ⟨events ++ events', by
            rw [← List.append_assoc, ← happened]
            exact happened',
          settles.trans (settles'.recast rfl rfl rfl rfl)⟩
        locals := inner.locals.trans h.locals
        depths := h.depths
        depth := inner.depth.trans h.depth
        loops := h.loops
        handlers := inner.handlers.trans h.handlers
        outside := fun _ => rfl }
  have waits : (breaks ++ [p]).Perm (p :: (breaks ++ [])) := by simp
  have filled := (left.perm waits).patch.patches
  have loops : (l.patch p).builder.loops =
      ⟨start, breaks ++ [], k.builder.locals.length, k.builder.handlers⟩ :: k.builder.loops :=
    inner.loops
  rw [List.append_nil] at loops
  have commute : (l.on outer).patch p = (l.patch p).on outer := rfl
  rw [commute] at filled
  rw [Journal.closeLoop, loops]
  exact filled

end Runs

mutual

/-- The holes of an expression are filled when it ends. -/
theorem expr_runs (j : Journal) : (e : Expr) → Runs j [] [] [] (j.expr e)
  | .null | .bool _ | .num _ | .str _ => (Runs.refl j).emit rfl
  | .list items => (exprs_runs j items).emit rfl
  | .object fields => (fields_runs j fields).emit rfl
  | .ident name => (Runs.refl j).load name
  | .member object name => (expr_runs j object).emit rfl
  | .index object position => ((expr_runs j object).trans (expr_runs _ position)).emit rfl
  | .call callee args line =>
    ((((expr_runs j callee).trans (exprs_runs _ args)).atLine line).emit rfl).atLine _
  | .unary op operand => (expr_runs j operand).emit rfl
  | .binary op left right => ((expr_runs j left).trans (expr_runs _ right)).emit rfl
  | .logical op left right => by
    cases op with
    | and => exact (((expr_runs j left).hole rfl).trans (expr_runs _ right)).patch
    | or => exact (((expr_runs j left).hole rfl).trans (expr_runs _ right)).patch

theorem exprs_runs (j : Journal) : (es : List Expr) → Runs j [] [] [] (j.exprs es)
  | [] => .refl j
  | e :: rest => (expr_runs j e).trans (exprs_runs _ rest)

theorem fields_runs (j : Journal) : (es : List (String × Expr)) → Runs j [] [] [] (j.fields es)
  | [] => .refl j
  | (_, e) :: rest => (expr_runs j e).trans (fields_runs _ rest)

end

theorem exprOrNull_runs (j : Journal) (value : Option Expr) :
    Runs j [] [] [] (j.exprOrNull value) := by
  cases value with
  | none => exact (Runs.refl j).emit rfl
  | some e => exact expr_runs j e

theorem assign_runs (j : Journal) (value : Expr) (target : Target) :
    Runs j [] [] [] (j.assign value target) := by
  cases target with
  | ident name => exact (expr_runs j value).store name
  | member object name => exact ((expr_runs j object).trans (expr_runs _ value)).emit rfl
  | index object position =>
    exact (((expr_runs j object).trans (expr_runs _ position)).trans (expr_runs _ value)).emit rfl

end Journal

def Stmt.declared (depth : Nat) : Stmt → List Local
  | .declare _ name _ => if depth = 0 then [] else [⟨name, depth⟩]
  | _ => []

namespace Builder

/-- Every instruction has a line, no local is deeper than the scope, and the innermost loop began
with at most the locals, handlers and instructions that are there now. -/
structure Sound (b : Builder) : Prop where
  lines : b.lines.size = b.code.size
  shallow : ∀ l ∈ b.locals, l.depth ≤ b.depth
  around : ∀ loop ∈ b.loops.head?,
    loop.locals ≤ b.locals.length ∧ loop.handlers ≤ b.handlers ∧ loop.start ≤ b.here

namespace Sound

variable {b : Builder}

theorem new (depth line : Nat) : (Builder.new depth line).Sound :=
  ⟨rfl, by simp [Builder.new], by simp [Builder.new]⟩

theorem openScope (h : b.Sound) : b.openScope.Sound where
  lines := h.lines
  shallow l mem := Nat.le_succ_of_le (h.shallow l mem)
  around := h.around

theorem declare (h : b.Sound) (name : String) : (b.declare name).Sound where
  lines := h.lines
  shallow l mem := by
    rcases List.mem_cons.mp mem with rfl | mem
    · exact Nat.le_refl _
    · exact h.shallow l mem
  around loop mem :=
    have inside := h.around loop mem
    ⟨Nat.le_succ_of_le inside.1, inside.2⟩

theorem openLoop (h : b.Sound) {start : Nat} (before : start ≤ b.here) :
    (b.openLoop start).Sound where
  lines := h.lines
  shallow := h.shallow
  around loop mem := by
    obtain rfl : _ = loop := Option.some.inj mem
    exact ⟨Nat.le_refl _, Nat.le_refl _, before⟩

theorem enterTry (h : b.Sound) : b.enterTry.Sound where
  lines := h.lines
  shallow := h.shallow
  around loop mem :=
    have inside := h.around loop mem
    ⟨inside.1, Nat.le_succ_of_le inside.2.1, inside.2.2⟩

end Sound
end Builder

namespace Journal

open Builder

theorem Runs.sound {j k : Journal} {waiting breaks : List Nat} {added : List Local}
    (h : Runs j waiting breaks added k) (sound : j.builder.Sound) : k.builder.Sound where
  lines := by
    obtain ⟨events, -, settles⟩ := h.settles
    have := settles.lines
    have := sound.lines
    omega
  shallow := by
    obtain ⟨code, grown⟩ := h.grows
    exact grown.shallow sound.shallow
  around loop mem := by
    rw [h.loops] at mem
    cases loops : j.builder.loops with
    | nil =>
      rw [loops] at mem
      cases mem
    | cons first outer =>
      rw [loops] at mem
      obtain rfl : _ = loop := Option.some.inj mem
      obtain ⟨locals, handlers, start⟩ := sound.around first (by rw [loops]; rfl)
      refine ⟨?_, ?_, Nat.le_trans start h.here_le⟩
      · rw [h.locals, List.length_append]
        exact Nat.le_trans locals (Nat.le_add_left ..)
      · rw [h.handlers]
        exact handlers

theorem here_le_hole (j : Journal) (i : Instr) : j.builder.here ≤ (j.hole i).builder.here := by simp

theorem tested_runs (j : Journal) (line : Nat) (test : Expr) :
    Runs j [((j.on (·.atLine line)).expr test).builder.here] [] []
      (((j.on (·.atLine line)).expr test).hole (.jumpIfFalse 0)) :=
  (((Runs.refl j).atLine line).behind (expr_runs _ test)).hole rfl

theorem placed_runs (j : Journal) (iterable : Expr) (list index : Nat) :
    ∃ added, Runs j [((((j.expr iterable).on (·.declare "(for list)")).on
        (·.emit (.push (.num (Number.zero false))))).on (·.declare "(for index)")).builder.here] []
      added (((((j.expr iterable).on (·.declare "(for list)")).on
        (·.emit (.push (.num (Number.zero false))))).on (·.declare "(for index)")).hole
          (.iterNext list index 0)) :=
  ⟨_, ((((expr_runs j iterable).declare "(for list)").emit
    (i := .push (.num (Number.zero false))) rfl).declare "(for index)").hole rfl⟩

/-- A jump over what follows, to which the hole in front leads. -/
theorem Runs.cross {j k l : Journal} {p : Nat} {breaks : List Nat} (h : Runs j [p] [] [] k)
    (inside : Runs k breaks breaks [] l) :
    Runs j (l.builder.here :: breaks) breaks [] ((l.hole (.jump 0)).patch p) := by
  have left : Runs j ((l.builder.here :: breaks) ++ [p]) (breaks ++ []) [] (l.hole (.jump 0)) :=
    (h.trans inside).hole (i := .jump 0) rfl
  have met := left.patch_middle
  rwa [List.append_nil, List.append_nil] at met

theorem Runs.join {j k l : Journal} {p : Nat} {breaks later : List Nat}
    (h : Runs j (p :: breaks) breaks [] k) (inside : Runs k later later [] l) :
    Runs j (later ++ breaks) (later ++ breaks) [] (l.patch p) := (h.trans inside).patch_middle

mutual

/-- After a statement its holes are filled, but for the breaks that it records. -/
theorem stmt_runs {j k : Journal} (sound : j.builder.Sound) : (s : Stmt) → j.stmt s = .ok k →
    ∃ breaks, Runs j breaks breaks (s.declared j.builder.depth) k
  | .block line body, h => by
    obtain ⟨l, compiled, h⟩ := bind_ok h
    cases h
    have begun := (Runs.refl j).atLine line
    obtain ⟨breaks, added, inside⟩ :=
      stmts_runs (j := (j.on (·.atLine line)).on (·.openScope))
        (begun.sound sound).openScope body compiled
    exact ⟨breaks, begun.behind (inside.scope sound.shallow)⟩
  | .declare line name value, h => by
    cases h
    have valued := ((Runs.refl j).atLine line).behind (exprOrNull_runs _ value)
    refine ⟨[], ?_⟩
    rw [Stmt.declared, ← valued.depth]
    split
    · exact valued.emit rfl
    · exact valued.declare name
  | .assign line target value, h => by
    cases h
    exact ⟨[], ((Runs.refl j).atLine line).behind (assign_runs _ value target)⟩
  | .ifThen line test body, h => by
    obtain ⟨l, compiled, h⟩ := bind_ok h
    cases h
    have jumped := tested_runs j line test
    have stood := jumped.sound sound
    obtain ⟨breaks, inside⟩ := stmt_runs stood.openScope body compiled
    exact ⟨_, jumped.join (inside.scope stood.shallow)⟩
  | .ifThenElse line test body otherwise, h => by
    obtain ⟨l, compiled, h⟩ := bind_ok h
    obtain ⟨m, compiled', h⟩ := bind_ok h
    cases h
    have jumped := tested_runs j line test
    have stood := jumped.sound sound
    obtain ⟨breaks, inside⟩ := stmt_runs stood.openScope body compiled
    have met := jumped.cross (inside.scope stood.shallow)
    have stood' := met.sound sound
    obtain ⟨later, other⟩ := stmt_runs stood'.openScope otherwise compiled'
    exact ⟨_, met.join (other.scope stood'.shallow)⟩
  | .while line test body, h => by
    obtain ⟨l, compiled, h⟩ := bind_ok h
    cases h
    have jumped := tested_runs j line test
    have looped := (jumped.sound sound).openLoop jumped.here_le
    obtain ⟨breaks, inside⟩ := stmt_runs looped.openScope body compiled
    have round := inside.scope looped.shallow
    exact ⟨[], jumped.closeLoop (round.back (Nat.le_trans jumped.here_le round.here_le))⟩
  | .forOf line name iterable body, h => by
    obtain ⟨l, compiled, h⟩ := bind_ok h
    cases h
    have begun := (Runs.refl j).atLine line
    have stood := begun.sound sound
    obtain ⟨added, jumped⟩ := placed_runs ((j.on (·.atLine line)).on (·.openScope)) iterable
      (((j.on (·.atLine line)).on (·.openScope)).expr iterable).builder.locals.length
      (((((j.on (·.atLine line)).on (·.openScope)).expr iterable).on (·.declare "(for list)")).on
        (·.emit (.push (.num (Number.zero false))))).builder.locals.length
    have looped := (jumped.sound stood.openScope).openLoop (here_le_hole _ _)
    obtain ⟨breaks, inside⟩ := stmt_runs (looped.openScope.declare name).openScope body compiled
    have bound := ((Runs.refl _).declare name).trans
      (inside.scope (looped.openScope.declare name).shallow)
    have round := bound.scope looped.shallow
    rw [List.append_nil] at round
    have closed := jumped.closeLoop (round.back (Nat.le_trans (here_le_hole _ _) round.here_le))
    exact ⟨[], begun.behind (closed.scope stood.shallow)⟩
  | .tryCatch line body name handler, h => by
    obtain ⟨l, compiled, h⟩ := bind_ok h
    obtain ⟨m, compiled', h⟩ := bind_ok h
    cases h
    have jumped := ((Runs.refl j).atLine line).hole (i := .pushHandler 0) rfl
    have held := (jumped.sound sound).enterTry
    obtain ⟨breaks, added, inside⟩ := stmts_runs (j := (((j.on (·.atLine line)).hole
      (.pushHandler 0)).on (·.enterTry)).on (·.openScope)) held.openScope body compiled
    have met := jumped.cross ((inside.scope held.shallow).emit (i := .popHandler) rfl).guarded
    have stood := met.sound sound
    obtain ⟨later, more, caught⟩ := stmts_runs (stood.openScope.declare name) handler compiled'
    have bound := ((Runs.refl _).declare name).trans caught
    rw [List.append_nil] at bound
    exact ⟨_, met.join (bound.scope stood.shallow)⟩
  | .return line value, h => by
    cases h
    exact ⟨[], (((Runs.refl j).atLine line).behind (exprOrNull_runs _ value)).emit rfl⟩
  | .throw line value, h => by
    cases h
    exact ⟨[], (((Runs.refl j).atLine line).behind (expr_runs _ value)).emit rfl⟩
  | .break line, h => by
    cases loops : j.builder.loops with
    | nil => simp [stmt, loops] at h
    | cons loop outer =>
      simp only [stmt, loops, Except.ok.injEq] at h
      subst h
      obtain ⟨locals, handlers, -⟩ := sound.around loop (by rw [loops]; rfl)
      have unwound := ((Runs.refl j).atLine line).unwindTo locals handlers
      exact ⟨_, (unwound.hole rfl).record _ (by simp [loops])⟩
  | .continue line, h => by
    cases loops : j.builder.loops with
    | nil => simp [stmt, loops] at h
    | cons loop outer =>
      simp only [stmt, loops, Except.ok.injEq] at h
      subst h
      obtain ⟨locals, handlers, start⟩ := sound.around loop (by rw [loops]; rfl)
      have unwound := ((Runs.refl j).atLine line).unwindTo locals handlers
      exact ⟨[], unwound.back (Nat.le_trans start unwound.here_le)⟩
  | .expr line value, h => by
    cases h
    exact ⟨[], (((Runs.refl j).atLine line).behind (expr_runs _ value)).emit rfl⟩

theorem stmts_runs {j k : Journal} (sound : j.builder.Sound) :
    (body : List Stmt) → j.stmts body = .ok k → ∃ breaks added, Runs j breaks breaks added k
  | [], h => by
    cases h
    exact ⟨[], [], .refl j⟩
  | s :: rest, h => by
    obtain ⟨l, compiled, h⟩ := bind_ok h
    obtain ⟨breaks, first⟩ := stmt_runs sound s compiled
    obtain ⟨later, added, others⟩ := stmts_runs (first.sound sound) rest h
    exact ⟨_, _, first.trans others⟩

end

end Journal
end FrameScript
