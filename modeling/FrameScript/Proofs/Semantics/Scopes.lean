import FrameScript.Proofs.Code.Enclosure
import FrameScript.Proofs.Semantics.Expressions

/-!
# Ends of statements on the machine

Where the code of a statement comes to: behind itself, to an end of the loop around,
to the caller, or to the innermost handler. Scopes that are left on the way drop
their slots and handlers.
-/

namespace FrameScript

open Script (Unbracketed)

/-- A place inside of another: its slots come on top of those of the other. -/
structure Site.Inside (inside c : Site) : Prop where
  scope : c.scope <:+ inside.scope
  catches : inside.catches = c.catches
  loop : inside.loop = c.loop

theorem Site.Inside.refl (c : Site) : c.Inside c := ⟨List.suffix_refl _, rfl, rfl⟩

namespace Setting

def guarded (s : Setting) (catches : List Catch) : Setting :=
  { s with handlers := handlersOf s.callers s.below catches ++ s.handlers }

/-- A frame, as it has been entered, that runs the code of a layout. -/
structure Carries (s : Setting) (code : List Point) (call : Callable) (n : Nat) : Prop where
  instrs : s.chunk.code.toList = code.map (·.instr)
  outer : ∀ h ∈ s.handlers, h.frameDepth ≤ s.callers.length
  calls : call.Shown n s.limit (s.callers.length + 1)

variable {s : Setting} {code : List Point} {call : Callable} {n : Nat}

theorem Carries.executes (h : s.Carries code call n) (catches : List Catch) :
    (s.guarded catches).Executes code call n where
  instrs := h.instrs
  handlers := by
    intro handler mem
    rcases List.mem_append.mp mem with mem | mem
    · obtain ⟨c, -, rfl⟩ := List.mem_map.mp mem
      exact Nat.le_refl _
    · exact Nat.le_succ_of_le (h.outer handler mem)
  calls := h.calls

theorem Carries.keptHandlers (h : s.Carries code call n) (catches : List Catch) :
    (s.guarded catches).keptHandlers = s.handlers := by
  have own : (handlersOf s.callers s.below catches).filter
      (fun h => h.frameDepth ≤ s.callers.length) = [] := by
    rw [List.filter_eq_nil_iff]
    intro handler mem
    obtain ⟨c, -, rfl⟩ := List.mem_map.mp mem
    simp
  have others : s.handlers.filter (fun h => h.frameDepth ≤ s.callers.length) = s.handlers := by
    rw [List.filter_eq_self]
    intro handler mem
    simpa using h.outer handler mem
  rw [Setting.keptHandlers, guarded, List.filter_append]
  exact (congrArg₂ _ own others).trans (List.nil_append _)

/-- Where execution at a place comes to, with what there is of the locals then. -/
def Reaches (s : Setting) (marks : Marks) (c next : Site) (done : Nat) :
    Completion × Locals → Scene → Situation → Prop
  | (.normal, locals), scene, t => ∃ marks' vs, List.rtake marks' c.scope.length = marks ∧
    Mirrors marks' next.scope locals vs ∧ t = (s.guarded c.catches).situation done vs scene
  | (.broke, locals), scene, t => ∃ l vs, c.loop = some l ∧
    MirrorsOuter marks l.scope locals vs ∧ t = (s.guarded l.catches).situation l.exit vs scene
  | (.continued, locals), scene, t => ∃ l vs, c.loop = some l ∧
    MirrorsOuter marks l.scope locals vs ∧ t = (s.guarded l.catches).situation l.start vs scene
  | (.returned v, _), scene, t => t = ⟨(Machine.running s.callers s.below s.handlers s.traceback
    s.limit).pushResult scene.env v, scene.calls⟩
  | (.thrown v, locals), scene, t => ∃ vs, MirrorsOuter marks c.scope locals vs ∧
    (s.guarded c.catches).Raised vs v scene t

theorem Raised.below {vs : List Value} {v : Value} {scene : Scene} {t : Situation}
    (h : s.Raised vs v scene t) (k : Nat) : s.Raised (vs.rtake k) v scene t := by
  obtain ⟨pc, above, upper, rfl⟩ := h
  refine ⟨pc, above, upper ++ vs.take (vs.length - k), ?_⟩
  rw [List.append_assoc, stack, stack, ← List.append_assoc (vs.take _), List.rtake,
    List.take_append_drop]

/-- What is reached at a place inside of another one is reached there. -/
theorem Reaches.outer {marks marks' : Marks} {inside c next : Site} {done : Nat}
    (within : inside.Inside c) (nested : c.Nested) (same : List.rtake marks' c.scope.length = marks)
    {r : Completion × Locals} {scene : Scene} {t : Situation}
    (h : s.Reaches marks' inside next done r scene t) : s.Reaches marks c next done r scene t := by
  obtain ⟨completion, locals⟩ := r
  cases completion with
  | normal =>
    obtain ⟨m, vs, kept, mirrors, rfl⟩ := h
    refine ⟨m, vs, ?_, mirrors, by rw [within.catches]⟩
    rw [← same, ← kept, rtake_rtake _ within.scope.length_le]
  | broke | continued =>
    obtain ⟨l, vs, loop, mirrors, rfl⟩ := h
    rw [within.loop] at loop
    exact ⟨l, vs, loop, mirrors.remark (nested l loop).1.length_le same, rfl⟩
  | returned v => exact h
  | thrown v =>
    obtain ⟨vs, mirrors, raised⟩ := h
    rw [within.catches] at raised
    exact ⟨_, (mirrors.outer within.scope).remark (Nat.le_refl _) same, raised.below _⟩

/-- Where execution in a scope of its own comes to, with none of the scope's locals left. -/
def Leaves (s : Setting) (marks : Marks) (c next : Site) (done : Nat) (r : Completion × Locals)
    (scene : Scene) (t : Situation) : Prop :=
  s.Reaches marks c next done r scene t ∧ r.2.length ≤ marks.shown

/-- A scope that is left: its locals are gone, and so are its slots. -/
theorem inScope_shown {marks marks' : Marks} {inside c next : Site} {mid done k : Nat}
    {body : Locals → Exec} {locals : Locals} {scene : Scene} {t : Situation}
    (within : inside.Inside c) (nested : c.Nested) (same : List.rtake marks' c.scope.length = marks)
    (shown : locals.length = marks.shown) (grown : c.scope <:+ next.scope)
    (closes : ∀ vs scene, vs.length = next.scope.length →
      ((s.guarded c.catches).situation mid vs scene).Comes
        ((s.guarded c.catches).situation done (vs.rtake c.scope.length) scene))
    (h : (body locals scene).Shown k t (s.Reaches marks' inside next mid)) :
    (Exec.inScope body locals scene).Shown k t (s.Leaves marks c c done) := by
  refine h.bind ?_
  rintro ⟨completion, inner⟩ scene' u comes reached
  replace reached := reached.outer within nested same
  have short : (inner.rtake marks.shown).length ≤ marks.shown := by
    rw [length_rtake]
    exact Nat.min_le_left _ _
  simp only [shown]
  cases completion with
  | normal =>
    obtain ⟨m, vs, rfl, mirrors, rfl⟩ := reached
    refine ⟨_, closes vs scene' mirrors.length_values, ⟨_, _, ?_, mirrors.toOuter grown, rfl⟩,
      short⟩
    exact rtake_rtake m (Nat.le_refl _)
  | broke | continued =>
    obtain ⟨l, vs, loop, mirrors, rfl⟩ := reached
    exact ⟨_, .refl _, ⟨l, vs, loop, mirrors.truncate, rfl⟩, short⟩
  | returned v => exact ⟨u, .refl u, reached, short⟩
  | thrown v =>
    obtain ⟨vs, mirrors, raised⟩ := reached
    exact ⟨u, .refl u, ⟨vs, mirrors.truncate, raised⟩, short⟩

theorem Executes.closePoints_comes (h : s.Executes code call n) {inside outside : Site}
    {pc : Nat} (placed : Placed code pc (Site.closePoints inside outside)) {vs : List Value}
    (all : vs.length = inside.scope.length) (scene : Scene) :
    (s.situation pc vs scene).Comes (s.situation (pc + (Site.closePoints inside outside).length)
      (vs.rtake outside.scope.length) scene) := by
  unfold Site.closePoints at placed ⊢
  split at placed
  · rename_i same
    rw [if_pos same, rtake_of_length_le vs (by omega)]
    exact .refl _
  · rename_i more
    rw [if_neg more, List.length_singleton]
    refine moves (h.instr placed) ?_
    rw [Instr.effect, if_pos (by omega), List.rtake, all]

theorem Carries.removePoints_comes (h : s.Carries code call n) {slots : List SlotKind}
    (count : Nat) {catches : List Catch} (enough : count ≤ catches.length) {pc : Nat}
    (placed : Placed code pc (Site.removePoints slots count catches)) (vs : List Value)
    (scene : Scene) :
    ((s.guarded catches).situation pc vs scene).Comes
      ((s.guarded (catches.drop count)).situation (pc + count) vs scene) := by
  induction count generalizing pc catches with
  | zero => exact .refl _
  | succ count ih =>
    cases catches with
    | nil => simp at enough
    | cons c outer =>
      have rest := ih (by simpa using enough) placed.tail
      rw [Nat.add_assoc, Nat.add_comm 1] at rest
      refine .step rfl ?_
      have next : ((s.guarded (c :: outer)).situation pc vs scene).next = _ :=
        next_situation ((h.executes (c :: outer)).instr placed) rfl (by simp)
      rw [next]
      exact rest

/-- A jump out of a loop's body drops what the body has added. -/
theorem Carries.leavePoints_comes (h : s.Carries code call n) {c : Site} {loop : LoopSite}
    {target : Nat} (catches : loop.catches <:+ c.catches) {pc : Nat}
    (placed : Placed code pc (c.leavePoints loop target)) {vs : List Value}
    (all : vs.length = c.scope.length) (scene : Scene) :
    ((s.guarded c.catches).situation pc vs scene).Comes
      ((s.guarded loop.catches).situation target (vs.rtake loop.scope.length) scene) := by
  have kept : c.catches.drop (c.catches.length - loop.catches.length) = loop.catches := by
    obtain ⟨added, eq⟩ := catches
    simp [← eq]
  have closing : Placed code pc (Site.closePoints c { c with scope := loop.scope }) :=
    placed.left.left
  have drops := (h.executes c.catches).closePoints_comes closing all scene
  have removing : Placed code _ (Site.removePoints (loop.scope.map (·.kind))
    (c.catches.length - loop.catches.length) c.catches) := placed.left.right
  have removes := h.removePoints_comes _ (Nat.sub_le _ _) removing (vs.rtake loop.scope.length)
    scene
  have jump := placed.right
  rw [kept] at removes
  rw [Site.unwindPoints, List.length_append, Site.length_removePoints, ← Nat.add_assoc] at jump
  exact (drops.trans removes).trans (moves ((h.executes loop.catches).instr jump) rfl)

end Setting

end FrameScript
