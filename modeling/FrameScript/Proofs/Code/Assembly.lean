import FrameScript.Proofs.Code.Emission
import FrameScript.Proofs.Code.Retarget
import FrameScript.Proofs.Offences

/-!
# The builder assembles the layout

Compiling a statement appends the code that its layout lists. Only the jumps of
`break` still miss their target when the statement is done: they are recorded
in the innermost loop, and closing the loop points them at its end.
-/

namespace FrameScript

namespace Site

/-- The innermost loop began where fewer locals and handlers were in place. -/
def Nested (c : Site) : Prop :=
  ∀ l, c.loop = some l → l.scope <:+ c.scope ∧ l.catches <:+ c.catches

namespace Nested

variable {c : Site}

theorem inner (h : c.Nested) : c.inner.Nested := h

theorem declare (h : c.Nested) (name : String) (kind : SlotKind) :
    (c.declare name kind).Nested :=
  fun l k => ⟨(h l k).1.trans (List.suffix_cons _ _), (h l k).2⟩

theorem inTry (h : c.Nested) (target : Nat) : (c.inTry target).Nested :=
  fun l k => ⟨(h l k).1, (h l k).2.trans (List.suffix_cons _ _)⟩

theorem inLoop (c : Site) (start exit : Nat) : (c.inLoop start exit).Nested := by
  intro l h
  simp only [Site.inLoop, Option.some.injEq] at h
  subst h
  exact ⟨List.suffix_refl _, List.suffix_refl _⟩

theorem after (h : c.Nested) (s : Stmt) : (c.after s).Nested := by
  cases s <;> try exact h
  case declare line name value =>
    rw [Site.after]
    split
    · exact h
    · exact h.declare name .plain

end Nested

theorem after_global (c : Site) (s : Stmt) : (c.after s).global = c.global := by
  cases s <;> try rfl
  case declare line name value => by_cases h : c.global <;> simp [after, h, declare]

theorem after_catches (c : Site) (s : Stmt) : (c.after s).catches = c.catches := by
  cases s <;> try rfl
  case declare line name value => by_cases h : c.global <;> simp [after, h, declare]

theorem after_loop (c : Site) (s : Stmt) : (c.after s).loop = c.loop := by
  cases s <;> try rfl
  case declare line name value => by_cases h : c.global <;> simp [after, h, declare]

end Site

namespace Builder

/-- The records of a builder are those of a place. -/
structure Stands (b : Builder) (c : Site) : Prop where
  names : b.Names c.scope
  shallow : ∀ l ∈ b.locals, l.depth ≤ b.depth
  global : b.depth = 0 ↔ c.global = true
  handlers : b.handlers = c.catches.length
  loop : b.loops.head?.map (fun l => (l.start, l.locals, l.handlers)) =
    c.loop.map fun l => (l.start, l.scope.length, l.catches.length)

def noted (breaks : List Nat) : List Loop → List Loop
  | [] => []
  | loop :: outer => { loop with breaks := breaks ++ loop.breaks } :: outer

/-- The builder has emitted code, recorded breaks and declared locals. -/
structure Grows (b : Builder) (code : List Instr) (breaks : List Nat) (next : Builder) : Prop where
  code : next.code.toList = b.code.toList ++ code
  locals : ∃ added, next.locals = added ++ b.locals ∧ ∀ l ∈ added, l.depth = b.depth
  depth : next.depth = b.depth
  loops : next.loops = noted breaks b.loops
  handlers : next.handlers = b.handlers

theorem noted_nil (loops : List Loop) : noted [] loops = loops := by cases loops <;> rfl

theorem noted_noted (later breaks : List Nat) (loops : List Loop) :
    noted later (noted breaks loops) = noted (later ++ breaks) loops := by
  cases loops <;> simp [noted]

theorem Emits.grows {b next : Builder} {code : List Instr} (h : Emits b code next) :
    Grows b code [] next where
  code := h.code
  locals := ⟨[], h.locals, by simp⟩
  depth := h.depth
  loops := h.loops.trans (noted_nil _).symm
  handlers := h.handlers

namespace Grows

variable {b middle next : Builder} {first second : List Instr} {breaks later : List Nat}

theorem trans (h : Grows b first breaks middle) (k : Grows middle second later next) :
    Grows b (first ++ second) (later ++ breaks) next where
  code := by rw [k.code, h.code, List.append_assoc]
  locals := by
    obtain ⟨added, grown, depths⟩ := h.locals
    obtain ⟨added', grown', depths'⟩ := k.locals
    refine ⟨added' ++ added, by rw [grown', grown, List.append_assoc], ?_⟩
    intro l mem
    rcases List.mem_append.mp mem with mem | mem
    · rw [depths' l mem, h.depth]
    · exact depths l mem
  depth := k.depth.trans h.depth
  loops := by rw [k.loops, h.loops, noted_noted]
  handlers := k.handlers.trans h.handlers

theorem here (h : Grows b first breaks next) : next.here = b.here + first.length := by
  have := congrArg List.length h.code
  simpa [Builder.here] using this

theorem declare (b : Builder) (name : String) : Grows b [] [] (b.declare name) where
  code := by simp [Builder.declare]
  locals := ⟨[⟨name, b.depth⟩], rfl, by simp⟩
  depth := rfl
  loops := (noted_nil _).symm
  handlers := rfl

theorem patch {before after : List Instr} {i : Instr} {position : Nat}
    (h : Grows b (before ++ i :: after) breaks next) (here : position = b.here + before.length) :
    Grows b (before ++ i.withTarget next.here :: after) breaks (next.patch position) where
  code := by
    have code := h.code
    rw [← List.append_assoc] at code ⊢
    exact patch_code code (by simp [here, Builder.here])
  locals := h.locals
  depth := h.depth
  loops := h.loops
  handlers := h.handlers

theorem shallow (h : Grows b first breaks next) (old : ∀ l ∈ b.locals, l.depth ≤ b.depth) :
    ∀ l ∈ next.locals, l.depth ≤ next.depth := by
  obtain ⟨added, grown, depths⟩ := h.locals
  intro l mem
  rw [grown, List.mem_append] at mem
  rw [h.depth]
  rcases mem with mem | mem
  · exact Nat.le_of_eq (depths l mem)
  · exact old l mem

theorem scope (h : Grows b.openScope first breaks next)
    (old : ∀ l ∈ b.locals, l.depth ≤ b.depth) :
    Grows b (first ++ if next.locals.length = b.locals.length then []
        else [.popN (next.locals.length - b.locals.length)]) breaks next.closeScope ∧
      next.closeScope.locals = b.locals := by
  obtain ⟨added, grown, depths⟩ := h.locals
  change next.locals = added ++ b.locals at grown
  have outer : next.depth - 1 = b.depth := by rw [h.depth]; rfl
  have deep : ∀ l ∈ added, decide (next.depth - 1 < l.depth) = true := by
    intro l mem
    rw [outer, depths l mem]
    simp [openScope]
  have rest : b.locals.dropWhile (fun l => decide (next.depth - 1 < l.depth)) = b.locals := by
    cases locals : b.locals with
    | nil => rfl
    | cons l earlier =>
      have := old l (by simp [locals])
      exact List.dropWhile_cons_of_neg (by simp only [outer, decide_eq_true_eq]; omega)
  have kept : next.locals.dropWhile (fun l => decide (next.depth - 1 < l.depth)) = b.locals := by
    rw [grown, List.dropWhile_append_of_pos deep, rest]
  unfold closeScope
  simp only [kept]
  have lengths : next.locals.length = added.length + b.locals.length := by rw [grown]; simp
  by_cases same : next.locals.length = b.locals.length
  · rw [if_pos same, if_pos (by omega)]
    refine ⟨⟨?_, ⟨[], rfl, by simp⟩, outer, h.loops, h.handlers⟩, rfl⟩
    simpa [openScope] using h.code
  · rw [if_neg same, if_neg (by omega)]
    refine ⟨⟨?_, ⟨[], rfl, by simp⟩, outer, h.loops, h.handlers⟩, rfl⟩
    simp [emit, h.code, openScope]

end Grows

namespace Stands

variable {b next : Builder} {c : Site} {code : List Instr} {breaks : List Nat}

theorem of_emits (h : b.Stands c) (k : Emits b code next) : next.Stands c where
  names := h.names.of_emits k
  shallow := by rw [k.locals, k.depth]; exact h.shallow
  global := by rw [k.depth]; exact h.global
  handlers := k.handlers.trans h.handlers
  loop := by rw [k.loops]; exact h.loop

theorem openScope (h : b.Stands c) : b.openScope.Stands c.inner where
  names := h.names
  shallow := fun l mem => Nat.le_succ_of_le (h.shallow l mem)
  global := by simp [Builder.openScope, Site.inner]
  handlers := h.handlers
  loop := h.loop

theorem declare (h : b.Stands c) (name : String) (kind : SlotKind) :
    (b.declare name).Stands (c.declare name kind) where
  names := by
    have := h.names
    simp only [Names] at this
    simp [Names, Builder.declare, Site.declare, this]
  shallow := by
    intro l mem
    rcases List.mem_cons.mp mem with rfl | mem
    · exact Nat.le_refl _
    · exact h.shallow l mem
  global := h.global
  handlers := h.handlers
  loop := h.loop

theorem openLoop (h : b.Stands c) (start exit : Nat) :
    (b.openLoop start).Stands (c.inLoop start exit) where
  names := h.names
  shallow := h.shallow
  global := h.global
  handlers := h.handlers
  loop := by
    have lengths : b.locals.length = c.scope.length := by
      simpa using congrArg List.length h.names
    simp [Builder.openLoop, Site.inLoop, lengths, h.handlers]

theorem inTry (h : b.Stands c) (target : Nat) :
    b.enterTry.Stands (c.inTry target) where
  names := h.names
  shallow := h.shallow
  global := h.global
  handlers := by simp [enterTry, Site.inTry, h.handlers]
  loop := h.loop

theorem after (h : b.Stands c) (k : Grows b code breaks next) (s : Stmt)
    (names : next.Names (c.after s).scope) : next.Stands (c.after s) where
  names := names
  shallow := k.shallow h.shallow
  global := by rw [k.depth, Site.after_global]; exact h.global
  handlers := by rw [k.handlers, Site.after_catches]; exact h.handlers
  loop := by
    rw [k.loops, Site.after_loop, ← h.loop]
    cases b.loops <;> rfl

theorem innermost (h : b.Stands c) {record : Loop} {outer : List Loop}
    (loops : b.loops = record :: outer) :
    ∃ loop, c.loop = some loop ∧ record.start = loop.start ∧
      record.locals = loop.scope.length ∧ record.handlers = loop.catches.length := by
  have := h.loop
  rw [loops, List.head?_cons, Option.map_some, eq_comm, Option.map_eq_some_iff] at this
  obtain ⟨loop, site, same⟩ := this
  simp only [Prod.mk.injEq] at same
  exact ⟨loop, site, same.1.symm, same.2.1.symm, same.2.2.symm⟩

theorem length (h : b.Stands c) : b.locals.length = c.scope.length := by
  simpa using congrArg List.length h.names

theorem patch (h : b.Stands c) (position : Nat) : (b.patch position).Stands c :=
  ⟨h.names, h.shallow, h.global, h.handlers, h.loop⟩

end Stands

theorem Grows.scope_points {b next : Builder} {code : List Instr} {breaks : List Nat}
    {c inside : Site} (h : Grows b.openScope code breaks next) (stands : b.Stands c)
    (names : next.Names inside.scope) :
    Grows b (code ++ (Site.closePoints inside c).map (·.instr)) breaks next.closeScope ∧
      next.closeScope.Names c.scope := by
  obtain ⟨grown, locals⟩ := h.scope stands.shallow
  have lengths : next.locals.length = inside.scope.length := by
    simpa using congrArg List.length names
  refine ⟨?_, by rw [Names, locals]; exact stands.names⟩
  rw [lengths, stands.length] at grown
  unfold Site.closePoints
  by_cases same : inside.scope.length = c.scope.length
  · simpa [same] using grown
  · simpa [same] using grown

theorem emitTimes_emits (b : Builder) (count : Nat) (i : Instr) :
    Emits b (List.replicate count i) (b.emitTimes count i) := by
  induction count generalizing b with
  | zero => exact Emits.refl b
  | succ count ih => exact (Emits.emit b i).trans (ih (b.emit i))

theorem map_removePoints (slots : List SlotKind) (count : Nat) (catches : List Catch) :
    (Site.removePoints slots count catches).map (·.instr) = List.replicate count .popHandler := by
  induction count generalizing catches with
  | zero => rfl
  | succ count ih => simp [Site.removePoints, List.replicate_succ, ih]

/-- Unwinding to a loop drops what its body has added. -/
theorem unwindTo_emits {b : Builder} {c : Site} (stands : b.Stands c) (record : Loop)
    (loop : LoopSite) (locals : record.locals = loop.scope.length)
    (handlers : record.handlers = loop.catches.length) (within : loop.scope <:+ c.scope) :
    Emits b ((c.unwindPoints loop).map (·.instr)) (b.unwindTo record) := by
  have fewer := within.length_le
  unfold unwindTo Site.unwindPoints
  rw [List.map_append, map_removePoints, stands.length, locals, handlers, ← stands.handlers]
  dsimp only
  by_cases same : c.scope.length = loop.scope.length
  · rw [if_pos same, if_pos (by omega)]
    exact emitTimes_emits _ _ _
  · rw [if_neg same, if_neg (by omega)]
    exact (Emits.emit _ _).trans (emitTimes_emits _ _ _)

/-- Closing a loop points its breaks at the present end. -/
theorem closeLoop_eq {b : Builder} {loop : Loop} {outer : List Loop}
    (h : b.loops = loop :: outer) :
    b.closeLoop.code.toList = retarget b.here loop.breaks b.code.toList ∧
      b.closeLoop.locals = b.locals ∧ b.closeLoop.depth = b.depth ∧
      b.closeLoop.loops = outer ∧ b.closeLoop.handlers = b.handlers := by
  have folded (breaks : List Nat) (b : Builder) :
      (breaks.foldl (fun b jump => b.patch jump) b).code.toList =
          retarget b.here breaks b.code.toList ∧
        (breaks.foldl (fun b jump => b.patch jump) b).locals = b.locals ∧
        (breaks.foldl (fun b jump => b.patch jump) b).depth = b.depth ∧
        (breaks.foldl (fun b jump => b.patch jump) b).loops = b.loops ∧
        (breaks.foldl (fun b jump => b.patch jump) b).handlers = b.handlers := by
    induction breaks generalizing b with
    | nil => exact ⟨rfl, rfl, rfl, rfl, rfl⟩
    | cons jump rest ih =>
      have same : (b.patch jump).here = b.here := by simp [patch, Builder.here]
      have := ih (b.patch jump)
      rw [same] at this
      simpa [retarget, patch] using this
  unfold closeLoop
  rw [h]
  exact folded loop.breaks { b with loops := outer }

/-- The code of statements has been appended, and the builder stands after them. -/
structure Assembles (b : Builder) (code : List Point) (breaks : List Nat) (scope : List Slot)
    (next : Builder) : Prop where
  grows : Grows b (code.map (·.instr)) breaks next
  names : next.Names scope

namespace Assembles

variable {b middle next : Builder} {first second : List Point} {breaks later : List Nat}
  {scope scope' : List Slot}

theorem of_emits (h : Emits b (first.map (·.instr)) next) (names : b.Names scope) :
    Assembles b first [] scope next :=
  ⟨h.grows, names.of_emits h⟩

theorem emit (names : b.Names scope) (p : Point) : Assembles b [p] [] scope (b.emit p.instr) :=
  of_emits (Emits.emit b p.instr) names

theorem append (h : Assembles b first breaks scope middle)
    (k : Assembles middle second later scope' next) :
    Assembles b (first ++ second) (later ++ breaks) scope' next :=
  ⟨by rw [List.map_append]; exact h.grows.trans k.grows, k.names⟩

theorem here (h : Assembles b first breaks scope next) : next.here = b.here + first.length := by
  simpa using h.grows.here

theorem atLine {line : Nat} (h : Assembles (b.atLine line) first breaks scope next) :
    Assembles b first breaks scope next :=
  ⟨by simpa using (Emits.atLine b line).grows.trans h.grows, h.names⟩

theorem declare {c : Site} (h : b.Stands c) (name : String) (kind : SlotKind) :
    Assembles b [] [] (c.declare name kind).scope (b.declare name) :=
  ⟨Grows.declare b name, (h.declare name kind).names⟩

theorem stands {c : Site} (h : Assembles b first breaks c.scope next) (k : b.Stands c) :
    next.Stands c where
  names := h.names
  shallow := h.grows.shallow k.shallow
  global := by rw [h.grows.depth]; exact k.global
  handlers := h.grows.handlers.trans k.handlers
  loop := by
    rw [h.grows.loops, ← k.loop]
    cases b.loops <;> rfl

theorem patch {p : Point} {position : Nat}
    (h : Assembles b (first ++ p :: second) breaks scope next)
    (here : position = b.here + first.length) :
    Assembles b (first ++ ⟨p.shape, p.instr.withTarget next.here⟩ :: second) breaks scope
      (next.patch position) := by
  have grows := h.grows
  rw [List.map_append, List.map_cons] at grows
  exact ⟨by simpa using grows.patch (by simpa using here), h.names⟩

/-- Code with a jump over what follows: the jump in front of it goes behind that one, and that
one to the end. -/
theorem fork {last : Builder} {front left right : List Point} {p q : Point}
    {other : List Nat} {scope'' : List Slot} {position position' : Nat}
    (h : Assembles b (front ++ [p]) [] scope middle)
    (k : Assembles middle (left ++ [q]) breaks scope' next)
    (k' : Assembles (next.patch position) right other scope'' last)
    (here : position = b.here + front.length) (here' : position' = middle.here + left.length) :
    Assembles b (front ++ ⟨p.shape, p.instr.withTarget next.here⟩ ::
        (left ++ ⟨q.shape, q.instr.withTarget last.here⟩ :: right)) (other ++ breaks) scope''
      (last.patch position') := by
  have joined : Assembles b (front ++ p :: (left ++ [q])) breaks scope' next := by
    simpa using h.append k
  have both := (joined.patch here).append k'
  have whole : Assembles b ((front ++ ⟨p.shape, p.instr.withTarget next.here⟩ :: left) ++
      q :: right) (other ++ breaks) scope'' last := by simpa using both
  have place : position' = b.here +
      (front ++ ⟨p.shape, p.instr.withTarget next.here⟩ :: left).length := by
    rw [here', h.here]
    simp only [List.length_append, List.length_cons, List.length_nil]
    omega
  simpa using whole.patch place

theorem close {c inside : Site} (h : Assembles b.openScope first breaks inside.scope next)
    (k : b.Stands c) :
    Assembles b (first ++ Site.closePoints inside c) breaks c.scope next.closeScope := by
  obtain ⟨grown, names⟩ := h.grows.scope_points k h.names
  exact ⟨by rw [List.map_append]; exact grown, names⟩

theorem record (h : Assembles b first [] scope next) (jump : Nat) :
    Assembles b first [jump] scope (next.recordBreak jump) := by
  have loops := h.grows.loops
  rw [noted_nil] at loops
  unfold recordBreak
  cases k : b.loops with
  | nil =>
    rw [k] at loops
    simp only [loops]
    exact ⟨⟨h.grows.code, h.grows.locals, h.grows.depth, by rw [loops, k]; rfl,
      h.grows.handlers⟩, h.names⟩
  | cons loop outer =>
    rw [k] at loops
    simp only [loops]
    exact ⟨⟨h.grows.code, h.grows.locals, h.grows.depth, by rw [k]; rfl, h.grows.handlers⟩,
      h.names⟩

theorem guarded (h : Assembles b.enterTry first breaks scope next) :
    Assembles b first breaks scope next.leaveTry :=
  ⟨⟨h.grows.code, h.grows.locals, h.grows.depth, h.grows.loops,
    by simp [leaveTry, h.grows.handlers, enterTry]⟩, h.names⟩

end Assembles

namespace Stands

variable {b : Builder} {c : Site}

theorem expr_emit (stands : b.Stands c) (value : Expr) (i : Instr) :
    Assembles b (value.points c.scope b.here c.shape ++ [⟨c.shape.push, i⟩]) [] c.scope
      ((b.expr value).emit i) := by
  have valued := expr_emits stands.names c.shape value
  exact (Assembles.of_emits valued stands.names).append
    (Assembles.emit (stands.names.of_emits valued) ⟨c.shape.push, i⟩)

theorem here_expr (stands : b.Stands c) (value : Expr) :
    (b.expr value).here = b.here + value.size := by
  simpa using (Assembles.of_emits (expr_emits stands.names c.shape value) stands.names).here

/-- What the body of the innermost loop has added is dropped, and then a jump follows. -/
theorem leave (stands : b.Stands c) (nested : c.Nested) {record : Loop} {outer : List Loop}
    (loops : b.loops = record :: outer) (target : Nat) :
    ∃ loop, c.loop = some loop ∧ record.start = loop.start ∧
      (b.unwindTo record).here =
        b.here + c.extent.unwindSize (loop.scope.length, loop.catches.length) ∧
      Assembles b (c.leavePoints loop target) [] c.scope
        ((b.unwindTo record).emit (.jump target)) := by
  obtain ⟨loop, site, start, locals, handlers⟩ := stands.innermost loops
  have unwound := unwindTo_emits stands record loop locals handlers (nested loop site).1
  refine ⟨loop, site, start, by simpa using unwound.here, ?_⟩
  exact (Assembles.of_emits unwound stands.names).append (Assembles.emit
    (stands.of_emits unwound).names ⟨⟨loop.scope.map (·.kind), loop.catches⟩, .jump target⟩)

end Stands

theorem Assembles.closeLoop {b middle last : Builder} {front rest : List Point} {p : Point}
    {scope scope' : List Slot} {start position : Nat} {round : Site} {body : Stmt}
    (h : Assembles b (front ++ [p]) [] scope middle)
    (k : Assembles (middle.openLoop start) (body.points (round.withExit 0) middle.here ++ rest)
      (body.breaks round.extent middle.here) scope' last)
    (here : position = b.here + front.length) :
    Assembles b (front ++ ⟨p.shape, p.instr.withTarget last.here⟩ ::
        (body.points (round.withExit last.here) middle.here ++ rest)) [] scope'
      (last.patch position).closeLoop := by
  have r := (Stmt.points_retargets last.here (round.withExit 0) middle.here body).extend
    (rest.map (·.instr))
  rw [Site.withExit_extent, Site.withExit_withExit, ← List.map_append, ← List.map_append] at r
  generalize body.points (round.withExit 0) middle.here ++ rest = code at k r
  generalize body.points (round.withExit last.here) middle.here ++ rest = other at r ⊢
  generalize body.breaks round.extent middle.here = breaks at k r
  have emitted : last.code.toList = (b.code.toList ++ front.map (·.instr)) ++
      p.instr :: code.map (·.instr) := by
    rw [k.grows.code]
    change middle.code.toList ++ _ = _
    rw [h.grows.code]
    simp
  have loops : (last.patch position).loops =
      ⟨start, breaks ++ [], middle.locals.length, middle.handlers⟩ :: middle.loops := k.grows.loops
  obtain ⟨closed, locals, depth, outer, handlers⟩ := closeLoop_eq loops
  obtain ⟨added, grown, depths⟩ := k.grows.locals
  change last.locals = added ++ middle.locals at grown
  change ∀ l ∈ added, l.depth = middle.depth at depths
  obtain ⟨first, grown', depths'⟩ := h.grows.locals
  refine ⟨⟨?_, ⟨added ++ first, ?_, ?_⟩, ?_, ?_, ?_⟩, ?_⟩
  · have before : (b.code.toList ++ front.map (·.instr)).length = position := by
      simp [here, Builder.here]
    have patched := patch_code emitted before
    have retargeted := r (b.code.toList ++ front.map (·.instr) ++
      [p.instr.withTarget last.here]) [] (by rw [h.here]; simp [Builder.here])
    rw [closed, patched, here_patch, List.append_nil]
    simpa using retargeted
  · rw [locals]
    change last.locals = _
    rw [grown, grown', List.append_assoc]
  · intro l mem
    rcases List.mem_append.mp mem with mem | mem
    · rw [depths l mem, h.grows.depth]
    · exact depths' l mem
  · rw [depth]
    exact k.grows.depth.trans h.grows.depth
  · rw [outer, h.grows.loops]
  · rw [handlers]
    exact k.grows.handlers.trans h.grows.handlers
  · rw [Names, locals]
    exact k.names

def listed (b : Builder) (iterable : Expr) : Builder :=
  ((b.openScope.expr iterable).declare Site.itemsName).emit (.push (.num (Number.zero false)))

def placed (b : Builder) (iterable : Expr) : Builder :=
  (b.listed iterable).declare Site.positionName

/-- What the front of a for-of loop emits, and where it leaves the builder. -/
theorem placed_assembles {b : Builder} {c : Site} (stands : b.Stands c) (iterable : Expr) :
    Assembles b.openScope (iterable.points c.scope b.here c.shape ++
        [⟨(c.inner.declare Site.itemsName .plain).shape, .push (.num (Number.zero false))⟩]) []
      c.inRounds.scope (b.placed iterable) ∧
    (b.placed iterable).Stands c.inRounds ∧
    (b.openScope.expr iterable).locals.length = c.scope.length ∧
    (b.listed iterable).locals.length = c.scope.length + 1 ∧
    (b.placed iterable).here = b.here + iterable.size + 1 := by
  have evaluated := Assembles.of_emits (expr_emits stands.openScope.names c.shape iterable)
    stands.openScope.names
  have stood := evaluated.stands stands.openScope
  have items := stood.declare Site.itemsName .plain
  have pushed := items.of_emits (Emits.emit _ (.push (.num (Number.zero false))))
  have counted := evaluated.append ((Assembles.declare stood Site.itemsName .plain).append
    (Assembles.emit items.names
      ⟨(c.inner.declare Site.itemsName .plain).shape, .push (.num (Number.zero false))⟩))
  have declared := counted.append (Assembles.declare pushed Site.positionName .position)
  have there : (b.openScope.expr iterable).here = b.here + iterable.size := by
    simpa using evaluated.here
  refine ⟨?_, pushed.declare Site.positionName .position, stood.length, pushed.length,
    by simp [placed, listed, there]⟩
  rw [List.nil_append] at declared
  simpa [placed, listed, Site.inRounds] using declared

mutual

/-- Compiling a statement appends its layout, with the end of the loop around still open. -/
theorem stmt_assembles {b next : Builder} {c : Site} (stands : b.Stands c) (nested : c.Nested) :
    (s : Stmt) → b.stmt s = .ok next →
      Assembles b (s.points (c.withExit 0) b.here) (s.breaks c.extent b.here)
        (c.after s).scope next
  | .block line body, h => by
    obtain ⟨mid, compiled, h⟩ := bind_ok h
    cases h
    have begun := stands.of_emits (Emits.atLine b line)
    have inside := stmts_assembles begun.openScope nested.inner body compiled
    simpa [Stmt.points, Stmt.breaks, Site.after] using (inside.close begun).atLine
  | .declare line name value, h => by
    cases h
    have begun := stands.of_emits (Emits.atLine b line)
    have valued := exprOrNull_emits begun.names c.shape value
    have stood := begun.of_emits valued
    by_cases top : c.global
    · have zero : ((b.atLine line).exprOrNull value).depth = 0 := stood.global.mpr top
      have stored := (Assembles.of_emits valued begun.names).append
        (Assembles.emit stood.names ⟨c.shape.push, .setGlobal name⟩)
      simpa [Stmt.points, Stmt.breaks, Site.after, top, zero] using stored.atLine
    · have deep : ((b.atLine line).exprOrNull value).depth ≠ 0 :=
        fun zero => top (stood.global.mp zero)
      have declared := (Assembles.of_emits valued begun.names).append
        (Assembles.declare stood name .plain)
      simpa [Stmt.points, Stmt.breaks, Site.after, top, deep] using declared.atLine
  | .assign line target value, h => by
    cases h
    have begun := stands.of_emits (Emits.atLine b line)
    have assigned := assign_emits begun.names value target
    simpa [Stmt.points, Stmt.breaks, Site.after] using
      (Assembles.of_emits assigned begun.names).atLine
  | .ifThen line test body, h => by
    obtain ⟨mid, compiled, h⟩ := bind_ok h
    cases h
    have begun := stands.of_emits (Emits.atLine b line)
    have jumped := begun.expr_emit test (.jumpIfFalse 0)
    have there : ((b.atLine line).expr test).here = b.here + test.size := begun.here_expr test
    have stood := jumped.stands begun
    have inside := (stmt_assembles stood.openScope nested.inner body compiled).close stood
    have joined := jumped.append inside
    rw [List.append_assoc] at joined
    have patched := joined.patch (show ((b.atLine line).expr test).here = _ by simp [there])
    have closed := Site.length_closePoints_after c.inner c rfl rfl body
    rw [inside.here] at patched
    change Assembles b _ _ c.scope _
    simpa [Stmt.points, Stmt.breaks, Instr.withTarget, there, closed] using patched.atLine
  | .ifThenElse line test body otherwise, h => by
    obtain ⟨mid, compiled, h⟩ := bind_ok h
    obtain ⟨last, compiled', h⟩ := bind_ok h
    cases h
    have begun := stands.of_emits (Emits.atLine b line)
    have jumped := begun.expr_emit test (.jumpIfFalse 0)
    have there : ((b.atLine line).expr test).here = b.here + test.size := begun.here_expr test
    have stood := jumped.stands begun
    have inside := (stmt_assembles stood.openScope nested.inner body compiled).close stood
    have left := inside.append (Assembles.emit inside.names ⟨c.shape, .jump 0⟩)
    have stood' := (left.stands stood).patch ((b.atLine line).expr test).here
    have other := (stmt_assembles stood'.openScope nested.inner otherwise compiled').close stood'
    have done := jumped.fork left other
      (show ((b.atLine line).expr test).here = _ by simp [there]) inside.here
    have closed := Site.length_closePoints_after c.inner c rfl rfl
    have second : (mid.closeScope.emit (.jump 0)).here = b.here + test.size + 1 +
        (body.size c.extent.inner + Stmt.closeSize [body]) + 1 := by
      simpa [closed, there, Nat.add_assoc] using left.here
    rw [other.here] at done
    change Assembles b _ _ c.scope _
    simpa [Stmt.points, Stmt.breaks, Instr.withTarget, there, second, closed] using done.atLine
  | .while line test body, h => by
    obtain ⟨mid, compiled, h⟩ := bind_ok h
    cases h
    have begun := stands.of_emits (Emits.atLine b line)
    have jumped := begun.expr_emit test (.jumpIfFalse 0)
    have there : ((b.atLine line).expr test).here = b.here + test.size := begun.here_expr test
    generalize place : b.here + test.size + 1 +
      (body.size c.extent.inLoop.inner + Stmt.closeSize [body]) + 1 = exit
    have looped := (jumped.stands begun).openLoop b.here exit
    have nested' := (Site.Nested.inLoop c b.here exit).inner
    have inside := (stmt_assembles looped.openScope nested' body compiled).close looped
    have left := inside.append (Assembles.emit inside.names ⟨c.shape, .jump b.here⟩)
    have closed := Site.length_closePoints_after (c.inLoop b.here exit).inner c rfl rfl body
    have last : (mid.closeScope.emit (.jump b.here)).here = exit := by
      rw [← place]
      simpa [closed, there, Nat.add_assoc] using left.here
    rw [List.append_assoc] at left
    have done := jumped.closeLoop left
      (show ((b.atLine line).expr test).here = _ by simp [there])
    rw [last] at done
    change Assembles b _ _ c.scope _
    simpa [Stmt.points, Stmt.breaks, Instr.withTarget, there, place] using done.atLine
  | .forOf line name iterable body, h => by
    obtain ⟨mid, compiled, h⟩ := bind_ok h
    cases h
    have begun := stands.of_emits (Emits.atLine b line)
    obtain ⟨placed, stood, list, index, there⟩ := placed_assembles begun iterable
    change ((((((b.atLine line).placed iterable).emit (.iterNext
      ((b.atLine line).openScope.expr iterable).locals.length
      ((b.atLine line).listed iterable).locals.length 0)).openLoop
      ((b.atLine line).placed iterable).here).openScope.declare name).openScope.stmt body) =
        .ok mid at compiled
    change Assembles b _ _ c.scope ((((mid.closeScope.closeScope).emit
      (.jump ((b.atLine line).placed iterable).here)).patch
        ((b.atLine line).placed iterable).here).closeLoop.closeScope)
    rw [list, index] at compiled
    generalize size : body.size ((c.extent.inner.declare 2).inLoop.declare 1) +
      Stmt.closeSize [body] = length
    generalize start : ((b.atLine line).placed iterable).here = pc at *
    generalize place : pc + 1 + length + 2 = exit
    have begins := placed.append (Assembles.emit stood.names
      ⟨c.inRounds.shape, .iterNext c.scope.length (c.scope.length + 1) 0⟩)
    have looped := (stood.of_emits (Emits.emit _
      (.iterNext c.scope.length (c.scope.length + 1) 0))).openLoop pc exit
    have bound : Stands _ ((c.inRounds.inLoop pc exit).declare name .plain) :=
      looped.openScope.declare name .plain
    have opened : Stands _ ((c.inRounds.inLoop pc exit).declare name .plain) :=
      bound.openScope
    have nested' := (Site.Nested.inLoop c.inRounds pc exit).declare name .plain
    have inside := (stmt_assembles opened nested' body compiled).close bound
    have round := ((Assembles.declare looped.openScope name .plain).append inside).close looped
    have left := round.append (Assembles.emit round.names ⟨c.inRounds.shape, .jump pc⟩)
    have closed := Site.length_closePoints_after
      ((c.inRounds.inLoop pc exit).declare name .plain)
      ((c.inRounds.inLoop pc exit).declare name .plain) rfl rfl body
    have dropped := Site.length_closePoints_declare (c.inRounds.inLoop pc exit) c.inRounds rfl
      name .plain
    have last : (mid.closeScope.closeScope.emit (.jump pc)).here = exit := by
      rw [← place, ← size]
      simpa [closed, dropped, start, Nat.add_assoc] using left.here
    simp only [List.nil_append, List.append_nil, List.append_assoc] at left
    have done := begins.closeLoop left (by simpa [Nat.add_assoc] using there)
    rw [last] at done
    have ended := (done.close begun).atLine
    subst there place size
    simpa [Stmt.points, Stmt.breaks, Instr.withTarget, start] using ended
  | .tryCatch line body name handler, h => by
    obtain ⟨mid, compiled, h⟩ := bind_ok h
    obtain ⟨last, compiled', h⟩ := bind_ok h
    cases h
    have begun := stands.of_emits (Emits.atLine b line)
    generalize size : Stmt.sizes c.extent.inner.inTry body + Stmt.closeSize body = length
    generalize place : b.here + 1 + length + 2 = target
    change ((b.atLine line).emit (.pushHandler 0)).enterTry.openScope.stmts body = _ at compiled
    change ((((mid.closeScope.emit .popHandler).leaveTry.emit (.jump 0)).patch
      (b.atLine line).here).openScope.declare name).stmts handler = _ at compiled'
    change Assembles b _ _ c.scope
      (last.closeScope.patch (mid.closeScope.emit .popHandler).leaveTry.here)
    have jumped : Assembles (b.atLine line) ([] ++ [⟨c.shape, .pushHandler 0⟩]) [] c.scope _ :=
      Assembles.emit begun.names ⟨c.shape, .pushHandler 0⟩
    have held := (jumped.stands begun).inTry target
    have opened : Stands _ (c.inner.inTry target) := held.openScope
    have inside := (stmts_assembles opened (nested.inner.inTry target) body compiled).close held
    have removed := (inside.append (Assembles.emit inside.names
      ⟨(c.inner.inTry target).shape, .popHandler⟩)).guarded
    have left := removed.append (Assembles.emit removed.names ⟨c.shape, .jump 0⟩)
    have stood := (left.stands (c := c) (jumped.stands begun)).patch (b.atLine line).here
    have bound : Stands _ (c.inner.declare name .plain) := stood.openScope.declare name .plain
    have caught := ((Assembles.declare stood.openScope name .plain).append
      (stmts_assembles bound (nested.inner.declare name .plain) handler compiled')).close stood
    have done := jumped.fork left caught (show (b.atLine line).here = _ from rfl) removed.here
    have closed := Site.length_closePoints (c.inner.inTry target) c rfl rfl body
    have dropped := Site.length_closePoints_caught c name handler
    have second : ((mid.closeScope.emit .popHandler).leaveTry.emit (.jump 0)).here = target := by
      rw [← place, ← size]
      simpa [closed, Nat.add_assoc] using left.here
    rw [caught.here] at done
    subst place size
    simpa [Stmt.points, Stmt.breaks, Instr.withTarget, second, dropped] using done.atLine
  | .return line value, h => by
    cases h
    have begun := stands.of_emits (Emits.atLine b line)
    have valued := exprOrNull_emits begun.names c.shape value
    have emitted := Assembles.of_emits valued begun.names |>.append
      (Assembles.emit (begun.names.of_emits valued) ⟨c.shape.push, .ret⟩)
    simpa [Stmt.points, Stmt.breaks, Site.after] using emitted.atLine
  | .throw line value, h => by
    cases h
    have begun := stands.of_emits (Emits.atLine b line)
    simpa [Stmt.points, Stmt.breaks, Site.after] using (begun.expr_emit value .throw).atLine
  | .break line, h => by
    cases loops : b.loops with
    | nil => simp [stmt, loops] at h
    | cons record outer =>
      simp only [stmt, loops, Except.ok.injEq] at h
      subst h
      have begun := stands.of_emits (Emits.atLine b line)
      obtain ⟨loop, site, -, there, left⟩ := begun.leave nested loops 0
      have noted := left.atLine.record ((b.atLine line).unwindTo record).here
      change Assembles b _ _ c.scope _
      rw [Stmt.points_break site, there]
      rw [there] at noted
      simpa [Stmt.breaks, Site.extent, site] using noted
  | .continue line, h => by
    cases loops : b.loops with
    | nil => simp [stmt, loops] at h
    | cons record outer =>
      simp only [stmt, loops, Except.ok.injEq] at h
      subst h
      have begun := stands.of_emits (Emits.atLine b line)
      obtain ⟨loop, site, start, -, left⟩ := begun.leave nested loops record.start
      change Assembles b _ _ c.scope _
      rw [Stmt.points_continue site]
      rw [start] at left ⊢
      simpa [Stmt.breaks] using left.atLine
  | .expr line value, h => by
    cases h
    have begun := stands.of_emits (Emits.atLine b line)
    simpa [Stmt.points, Stmt.breaks, Site.after] using (begun.expr_emit value .pop).atLine

theorem stmts_assembles {b next : Builder} {c : Site} (stands : b.Stands c) (nested : c.Nested) :
    (body : List Stmt) → b.stmts body = .ok next →
      Assembles b (Stmt.pointsAll (c.withExit 0) b.here body)
        (Stmt.breaksAll c.extent b.here body) (c.afterAll body).scope next
  | [], h => by
    cases h
    exact .of_emits (Emits.refl b) stands.names
  | s :: rest, h => by
    obtain ⟨mid, compiled, h⟩ := bind_ok h
    have first := stmt_assembles stands nested s compiled
    have behind := stands.after first.grows s first.names
    have others := stmts_assembles behind (nested.after s) rest h
    rw [first.here] at others
    simpa [Stmt.pointsAll, Stmt.breaksAll, Site.afterAll] using first.append others

end

end Builder

end FrameScript
