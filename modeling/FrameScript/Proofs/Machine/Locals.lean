import FrameScript.Proofs.Code.Places
import FrameScript.Proofs.Machine.Safety

/-!
# Locals on the stack

At the first instruction of a statement a frame has exactly the locals in scope on
the stack, and one handler for each try body around. A frame that waits for the
result of a call still lacks the local that the result is for.
-/

namespace FrameScript

/-- Where the values end that are below these frames, on a stack of this size. -/
def endBelow (above : List Frame) (size : Nat) : Nat :=
  match above.getLast? with
  | some g => g.base - 1
  | none => size

theorem endBelow_cons (chunk : Chunk) (pc : Nat) (below : List Value) (above : List Frame)
    (size : Nat) : endBelow (⟨chunk, pc, below.length + 1⟩ :: above) size =
      endBelow above below.length := by
  cases above with
  | nil => rfl
  | cons g rest =>
    obtain ⟨last, eq⟩ := Option.ne_none_iff_exists'.mp
      (mt List.getLast?_eq_none_iff.mp (List.cons_ne_nil g rest))
    simp only [endBelow, List.getLast?_cons_cons, eq]

namespace Machine

/-- The values of a frame, the earliest first: from its base up to the callee of the frame
above or to the top. -/
def segment (m : Machine) (above : List Frame) (f : Frame) : List Value :=
  (m.stack.toList.take (endBelow above m.stack.size)).drop f.base

/-- The installed handlers of a depth. -/
def handlersAt (m : Machine) (depth : Nat) : List Handler :=
  m.handlers.filter fun h => h.frameDepth = depth

end Machine

abbrev Holds (locals : List Slot) (vs : List Value) : Prop :=
  List.Forall₂ (fun s v => s.kind.Holds v) locals vs

variable {layout : Chunk → List Point}

/-- A frame has these values and this number of handlers. -/
structure Frame.Has (f : Frame) (above callers : List Frame) (st : List Value)
    (handlers : List Handler) (sh : Shape) (vs : List Value) : Prop where
  fits : Fits sh.slots vs
  within : endBelow above st.length ≤ st.length
  values : (st.reverse.take (endBelow above st.length)).drop f.base = vs.reverse
  handlers : (handlers.filter fun h => h.frameDepth = callers.length + 1).length =
    sh.catches.length

theorem length_own_handlers {callers : List Frame} {below : List Value} {outer : List Handler}
    (waits : Waits layout callers below outer) (catches : List Catch) :
    ((handlersOf callers below catches ++ outer).filter
      (fun h => h.frameDepth = callers.length + 1)).length = catches.length := by
  have none_outer : outer.filter (fun h => h.frameDepth = callers.length + 1) = [] := by
    refine List.filter_eq_nil_iff.mpr fun h mem => ?_
    have := waits.handlers_depth h mem
    simp only [decide_eq_true_eq]
    omega
  have all_own : (handlersOf callers below catches).filter
      (fun h => h.frameDepth = callers.length + 1) = handlersOf callers below catches := by
    simp [handlersOf]
  rw [List.filter_append, none_outer, all_own]
  simp [handlersOf]

theorem Frame.has_top {chunk : Chunk} {pc : Nat} {sh : Shape} {vs below : List Value}
    {callee : Value} {callers : List Frame} {outer : List Handler} (fits : Fits sh.slots vs)
    (waits : Waits layout callers below outer) :
    Frame.Has ⟨chunk, pc, below.length + 1⟩ [] callers (vs ++ callee :: below)
      (handlersOf callers below sh.catches ++ outer) sh vs where
  fits := fits
  within := Nat.le_refl _
  values := by
    have whole : endBelow [] (vs ++ callee :: below).length =
        (vs ++ callee :: below).reverse.length := (List.length_reverse ..).symm
    have base : below.length + 1 = (below.reverse ++ [callee]).length := by simp
    rw [whole, List.take_length, List.reverse_append, List.reverse_cons, base, List.drop_left]
  handlers := length_own_handlers waits sh.catches

theorem Frame.Has.above {f : Frame} {above callers : List Frame} {below : List Value}
    {outer : List Handler} {sh : Shape} {vs : List Value}
    (h : f.Has above callers below outer sh vs) {chunk : Chunk} {pc : Nat} (upper : List Value)
    (catches : List Catch) :
    f.Has (⟨chunk, pc, below.length + 1⟩ :: above) callers (upper ++ below)
      (handlersOf (above ++ f :: callers) below catches ++ outer) sh vs where
  fits := h.fits
  within := by
    have := h.within
    rw [endBelow_cons, List.length_append]
    omega
  values := by
    have low : endBelow above below.length ≤ below.reverse.length := by simpa using h.within
    rw [endBelow_cons, List.reverse_append, List.take_append_of_le_length low, h.values]
  handlers := by
    have none_own : (handlersOf (above ++ f :: callers) below catches).filter
        (fun h => h.frameDepth = callers.length + 1) = [] := by
      refine List.filter_eq_nil_iff.mpr fun h mem => ?_
      obtain ⟨c, -, rfl⟩ := List.mem_map.mp mem
      simp only [List.length_append, List.length_cons, decide_eq_true_eq]
      omega
    rw [List.filter_append, none_own]
    exact h.handlers

/-- Every frame that waits has what its layout says, but the result of its call. -/
theorem Waits.has {above callers : List Frame} {f : Frame} {st : List Value}
    {handlers : List Handler} (w : Waits layout (above ++ f :: callers) st handlers) :
    ∃ slots catches vs, f.Has above callers st handlers ⟨slots, catches⟩ vs ∧
      Verified (layout f.chunk) f.chunk ∧
      ShapeAt (layout f.chunk) f.pc ⟨.plain :: slots, catches⟩ := by
  induction above generalizing st handlers with
  | nil =>
    cases w with
    | frame holding shape guard outer =>
      exact ⟨_, _, _, Frame.has_top holding.fits outer, holding.verified, shape⟩
  | cons g above ih =>
    cases w with
    | @frame chunk pc _ own vs below callee _ _ holding shape guard outer =>
      obtain ⟨slots, catches, vs', has, verified, shape'⟩ := ih outer
      have whole : f.Has (⟨chunk, pc, below.length + 1⟩ :: above) callers _ _ _ vs' :=
        has.above (vs ++ [callee]) own
      rw [List.append_assoc] at whole
      exact ⟨slots, catches, vs', whole, verified, shape'⟩

theorem Active.has {above callers : List Frame} {f : Frame} {st : List Value}
    {handlers : List Handler} (a : Active layout (above ++ f :: callers) st handlers) :
    ∃ slots catches vs, f.Has above callers st handlers ⟨slots, catches⟩ vs ∧
      Verified (layout f.chunk) f.chunk ∧
      ShapeAt (layout f.chunk) f.pc
        ⟨if above = [] then slots else .plain :: slots, catches⟩ := by
  cases above with
  | nil =>
    cases a with
    | frame holding shape outer =>
      exact ⟨_, _, _, Frame.has_top holding.fits outer, holding.verified, shape⟩
  | cons g above =>
    cases a with
    | @frame chunk pc sh vs below callee _ _ holding shape outer =>
      obtain ⟨slots, catches, vs', has, verified, shape'⟩ := outer.has
      have whole : f.Has (⟨chunk, pc, below.length + 1⟩ :: above) callers _ _ _ vs' :=
        has.above (vs ++ [callee]) sh.catches
      rw [List.append_assoc] at whole
      exact ⟨slots, catches, vs', whole, verified, shape'⟩

theorem exists_layout {r : Routine} (sourced : r.Sourced) (chunk : Chunk)
    (compiles : r.Compiles chunk) : ∃ layout : Chunk → List Point, layout chunk = r.points ∧
      ∀ c : Chunk, c.Sourced → Verified (layout c) c := by
  refine ⟨fun c => if c = chunk then r.points else someLayout c, if_pos rfl, fun c h => ?_⟩
  beta_reduce
  by_cases same : c = chunk
  · subst same
    rw [if_pos rfl]
    exact compiles.verified sourced h.arity
  · rw [if_neg same]
    exact someLayout_verified c h

/-- What a frame has at the first instruction of a statement. -/
structure Machine.Stands (m : Machine) (above callers : List Frame) (f : Frame) (p : Place) :
    Prop where
  /-- A frame that executes the statement has exactly the locals in scope. -/
  executing : above = [] → m.isRunning → Holds p.site.scope.reverse (m.segment above f)
  /-- A frame that waits has them all but the last, which its call is to give. -/
  waiting : (above ≠ [] ∨ m.isSuspended) → ∃ result earlier,
    p.site.scope = result :: earlier ∧ Holds earlier.reverse (m.segment above f)
  handlers : (m.handlersAt (callers.length + 1)).length = p.site.catches.length

theorem holds_of_fits {locals : List Slot} {vs : List Value}
    (fits : Fits (locals.map (·.kind)) vs) : Holds locals.reverse vs.reverse :=
  List.rel_reverse (List.forall₂_map_left_iff.mp fits)

/-- A frame of a sound machine has the locals in scope at the first instruction of every
statement. -/
theorem Machine.Sound.stands {limit : Nat} {h : Heap} {m : Machine}
    (sound : m.Sound layout limit h) {above callers : List Frame} {f : Frame}
    (frames : m.frames = above ++ f :: callers) {r : Routine} (lays : layout f.chunk = r.points)
    {p : Place} (mem : p ∈ r.places) (some_code : p.size ≠ 0) (there : f.pc = p.pc) :
    m.Stands above callers f p := by
  have shape := Routine.place_shape mem some_code
  rw [← lays, ← there] at shape
  obtain ⟨mframes, stack, handlers, control, traceback, bound⟩ := m
  obtain ⟨-, -, st, rfl, -, disciplined⟩ := sound
  subst frames
  have values : Machine.segment ⟨above ++ f :: callers, pile st, handlers, control, traceback,
      bound⟩ above f = (st.reverse.take (endBelow above st.length)).drop f.base := by
    simp [segment, pile]
  -- The shape of the place is the shape at the position, so its locals are the slots.
  have scope {slots : List SlotKind} {catches : List Catch}
      (shape' : ShapeAt (layout f.chunk) f.pc ⟨slots, catches⟩) :
      slots = p.site.scope.map (·.kind) ∧ catches = p.site.catches := by
    have same := shape'.unique shape
    exact ⟨congrArg Shape.slots same, congrArg Shape.catches same⟩
  have missing {slots : List SlotKind} {catches : List Catch} {vs : List Value}
      (has : f.Has above callers st handlers ⟨slots, catches⟩ vs)
      (shape' : ShapeAt (layout f.chunk) f.pc ⟨.plain :: slots, catches⟩) :
      ∃ result earlier, p.site.scope = result :: earlier ∧ Holds earlier.reverse vs.reverse := by
    obtain ⟨all, -⟩ := scope shape'
    obtain ⟨result, earlier, eq, -, rfl⟩ := List.map_eq_cons_iff.mp all.symm
    exact ⟨result, earlier, eq, holds_of_fits has.fits⟩
  cases control with
  | running =>
    obtain ⟨slots, catches, vs, has, -, shape'⟩ := Active.has disciplined
    refine ⟨fun top _ => ?_, fun waits => ?_, ?_⟩
    · rw [if_pos top] at shape'
      rw [values, has.values]
      obtain ⟨rfl, -⟩ := scope shape'
      exact holds_of_fits has.fits
    · have below : above ≠ [] := waits.resolve_right (by simp [Machine.isSuspended])
      rw [if_neg below] at shape'
      rw [values, has.values]
      exact missing has shape'
    · exact has.handlers.trans (congrArg _ (scope shape').2)
  | suspended request =>
    obtain ⟨slots, catches, vs, has, -, shape'⟩ := Waits.has disciplined
    refine ⟨by simp [Machine.isRunning], fun _ => ?_,
      has.handlers.trans (congrArg _ (scope shape').2)⟩
    rw [values, has.values]
    exact missing has shape'
  | returned v | thrown v => exact absurd disciplined.1 (by simp)

theorem Reachable.sourced {limit : Nat} {m : Machine} {env : Env} (h : Reachable limit m env)
    {above callers : List Frame} {f : Frame} (frames : m.frames = above ++ f :: callers) :
    f.chunk.Sourced := by
  obtain ⟨⟨-, -, st, -, -, disciplined⟩, -⟩ := h.sound someLayout_verified
  obtain ⟨mframes, stack, handlers, control, traceback, bound⟩ := m
  subst frames
  cases control with
  | running =>
    obtain ⟨-, -, -, -, verified, -⟩ := Active.has disciplined
    exact sourced_of_someLayout verified
  | suspended request =>
    obtain ⟨-, -, -, -, verified, -⟩ := Waits.has disciplined
    exact sourced_of_someLayout verified
  | returned v | thrown v => exact absurd disciplined.1 (by simp)

end FrameScript
