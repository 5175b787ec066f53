import FrameScript.Proofs.Code.Layout

/-!
# Ends of loops

The jumps of `break` are emitted before the end of their loop is known. The
layout of a statement with one end of the loop around it becomes the layout with
another end when the jumps of its breaks get another target.
-/

namespace FrameScript

/-- Point the jumps at some positions at a target. -/
def retarget (target : Nat) (positions : List Nat) (code : List Instr) : List Instr :=
  positions.foldl (fun code i => code.modify i (Instr.withTarget target)) code

/-- Wherever the code stands, retargeting the jumps at these positions makes it other code. -/
def Retargets (target : Nat) (positions : List Nat) (pc : Nat) (code other : List Instr) : Prop :=
  ∀ before after, before.length = pc →
    retarget target positions (before ++ code ++ after) = before ++ other ++ after

namespace Retargets

variable {target pc : Nat} {code other : List Instr}

theorem refl (target pc : Nat) (code : List Instr) : Retargets target [] pc code code :=
  fun _ _ _ => rfl

theorem append {positions later : List Nat} {code' other' : List Instr}
    (h : Retargets target positions pc code other)
    (k : Retargets target later (pc + code.length) code' other') :
    Retargets target (later ++ positions) pc (code ++ code') (other ++ other') := by
  intro before after length
  have first : retarget target later (before ++ (code ++ code') ++ after) =
      before ++ code ++ (other' ++ after) := by
    rw [← List.append_assoc before, k (before ++ code) after (by simp [length])]
    simp
  have second := h before (other' ++ after) length
  rw [retarget, List.foldl_append]
  rw [retarget] at first second
  rw [first, second]
  simp

theorem cons {positions : List Nat} (i : Instr)
    (h : Retargets target positions (pc + 1) code other) :
    Retargets target positions pc (i :: code) (i :: other) := by
  simpa using (refl target pc [i]).append h

theorem prepend {positions : List Nat} (first : List Instr)
    (h : Retargets target positions (pc + first.length) code other) :
    Retargets target positions pc (first ++ code) (first ++ other) := by
  simpa using (refl target pc first).append h

theorem extend {positions : List Nat} (last : List Instr)
    (h : Retargets target positions pc code other) :
    Retargets target positions pc (code ++ last) (other ++ last) := by
  simpa using h.append (refl target _ last)

theorem jump (target pc : Nat) (i : Instr) :
    Retargets target [pc] pc [i] [i.withTarget target] := by
  intro before after length
  subst length
  simp [retarget, List.modify_eq_take_cons_drop]

end Retargets

namespace Stmt

mutual

/-- Where the jumps of `break` are that leave the statement's surrounding loop, the latest
first. -/
def breaks (e : Extent) (pc : Nat) : Stmt → List Nat
  | block _ body => breaksAll e.inner pc body
  | ifThen _ test body => breaks e.inner (pc + test.size + 1) body
  | ifThenElse _ test body otherwise =>
    breaks e.inner (pc + test.size + 1 + (body.size e.inner + closeSize [body]) + 1) otherwise ++
      breaks e.inner (pc + test.size + 1) body
  | tryCatch _ body _ handler =>
    breaksAll (e.inner.declare 1)
        (pc + 1 + (sizes e.inner.inTry body + closeSize body) + 2) handler ++
      breaksAll e.inner.inTry (pc + 1) body
  | «break» _ => (e.loop.map fun loop => [pc + e.unwindSize loop]).getD []
  | _ => []

def breaksAll (e : Extent) (pc : Nat) : List Stmt → List Nat
  | [] => []
  | s :: rest => breaksAll (e.after s) (pc + s.size e) rest ++ breaks e pc s

end

end Stmt

namespace Site

@[simp] theorem withExit_scope (c : Site) (exit : Nat) : (c.withExit exit).scope = c.scope := rfl

@[simp] theorem withExit_shape (c : Site) (exit : Nat) : (c.withExit exit).shape = c.shape := rfl

@[simp] theorem withExit_global (c : Site) (exit : Nat) :
    (c.withExit exit).global = c.global := rfl

@[simp] theorem withExit_inner (c : Site) (exit : Nat) :
    (c.withExit exit).inner = c.inner.withExit exit := rfl

@[simp] theorem withExit_declare (c : Site) (exit : Nat) (name : String) (kind : SlotKind) :
    (c.withExit exit).declare name kind = (c.declare name kind).withExit exit := rfl

@[simp] theorem withExit_inTry (c : Site) (exit target : Nat) :
    (c.withExit exit).inTry target = (c.inTry target).withExit exit := rfl

@[simp] theorem withExit_inLoop (c : Site) (exit start stop : Nat) :
    (c.withExit exit).inLoop start stop = c.inLoop start stop := rfl

@[simp] theorem withExit_inRounds (c : Site) (exit : Nat) :
    (c.withExit exit).inRounds = c.inRounds.withExit exit := rfl

@[simp] theorem withExit_extent (c : Site) (exit : Nat) :
    (c.withExit exit).extent = c.extent := by
  cases h : c.loop <;> simp [extent, withExit, h]

@[simp] theorem withExit_after (c : Site) (exit : Nat) (s : Stmt) :
    (c.withExit exit).after s = (c.after s).withExit exit := by
  cases s <;> try rfl
  case declare line name value =>
    by_cases h : c.global <;> simp [after, h]

@[simp] theorem withExit_afterAll (c : Site) (exit : Nat) (body : List Stmt) :
    (c.withExit exit).afterAll body = (c.afterAll body).withExit exit := by
  unfold afterAll
  induction body generalizing c with
  | nil => rfl
  | cons s rest ih => simp [ih]

@[simp] theorem withExit_closePoints (c outside : Site) (exit : Nat) :
    closePoints (c.withExit exit) outside = closePoints c outside := rfl

@[simp] theorem closePoints_withExit (c outside : Site) (exit : Nat) :
    closePoints c (outside.withExit exit) = closePoints c outside := rfl

@[simp] theorem withExit_withExit (c : Site) (first exit : Nat) :
    (c.withExit first).withExit exit = c.withExit exit := by
  cases h : c.loop <;> simp [withExit, h]

@[simp] theorem inLoop_inner_withExit (c : Site) (start first exit : Nat) :
    (c.inLoop start first).inner.withExit exit = (c.inLoop start exit).inner := rfl

@[simp] theorem inLoop_declare_withExit (c : Site) (start first exit : Nat) (name : String)
    (kind : SlotKind) : ((c.inLoop start first).declare name kind).withExit exit =
      (c.inLoop start exit).declare name kind := rfl

@[simp] theorem inner_scope (c : Site) : c.inner.scope = c.scope := rfl

@[simp] theorem inTry_scope (c : Site) (target : Nat) : (c.inTry target).scope = c.scope := rfl

@[simp] theorem inLoop_scope (c : Site) (start exit : Nat) :
    (c.inLoop start exit).scope = c.scope := rfl

@[simp] theorem closePoints_inner (c outside : Site) :
    closePoints c outside.inner = closePoints c outside := rfl

@[simp] theorem inLoop_closePoints (c outside : Site) (start exit : Nat) :
    closePoints (c.inLoop start exit) outside = closePoints c outside := rfl

@[simp] theorem closePoints_inTry (c outside : Site) (target : Nat) :
    closePoints c (outside.inTry target) = closePoints c outside := rfl

@[simp] theorem closePoints_inLoop (c outside : Site) (start exit : Nat) :
    closePoints c (outside.inLoop start exit) = closePoints c outside := rfl

@[simp] theorem withExit_leavePoints (c : Site) (exit : Nat) (loop : LoopSite) (target : Nat) :
    (c.withExit exit).leavePoints loop target = c.leavePoints loop target := rfl

end Site

namespace Target

@[simp] theorem points_withExit (c : Site) (exit pc : Nat) (value : Expr) (target : Target) :
    target.points (c.withExit exit) pc value = target.points c pc value := by
  cases target <;> rfl

end Target

namespace Stmt

theorem points_break {c : Site} {loop : LoopSite} (site : c.loop = some loop)
    (exit pc line : Nat) :
    («break» line).points (c.withExit exit) pc = c.leavePoints loop exit := by
  simp only [points, Site.withExit, site, Option.map_some, Option.getD_some]
  rfl

theorem points_continue {c : Site} {loop : LoopSite} (site : c.loop = some loop)
    (exit pc line : Nat) :
    («continue» line).points (c.withExit exit) pc = c.leavePoints loop loop.start := by
  simp only [points, Site.withExit, site, Option.map_some, Option.getD_some]
  rfl

mutual

/-- The layout with one end of the loop becomes that with another by retargeting its breaks. -/
theorem points_retargets (exit : Nat) (c : Site) (pc : Nat) :
    (s : Stmt) → Retargets exit (s.breaks c.extent pc) pc ((s.points c pc).map (·.instr))
      ((s.points (c.withExit exit) pc).map (·.instr))
  | block _ body => by
    simp only [points, breaks, List.map_append, Site.withExit_inner, Site.withExit_afterAll,
      Site.withExit_closePoints, Site.closePoints_withExit]
    exact (pointsAll_retargets exit c.inner pc body).extend _
  | declare _ _ _ => .refl _ _ _
  | assign _ _ _ => by
    simpa [points, breaks] using Retargets.refl exit pc _
  | ifThen _ test body => by
    simp only [points, breaks, List.map_append, List.map_cons, Site.withExit_inner,
      Site.withExit_after, Site.withExit_closePoints, Site.closePoints_withExit,
      Site.withExit_scope, Site.withExit_shape, Site.withExit_extent]
    have inside := points_retargets exit c.inner (pc + test.size + 1) body
    exact .prepend _ (.cons _ (.extend _ (by simpa using inside)))
  | ifThenElse _ test body otherwise => by
    simp only [points, breaks, List.map_append, List.map_cons, Site.withExit_inner,
      Site.withExit_after, Site.withExit_closePoints, Site.closePoints_withExit,
      Site.withExit_scope, Site.withExit_shape, Site.withExit_extent]
    have inside := points_retargets exit c.inner (pc + test.size + 1) body
    have other := points_retargets exit c.inner
      (pc + test.size + 1 + (body.size c.extent.inner + closeSize [body]) + 1) otherwise
    refine .prepend _ (.cons _ (.append (by simpa using inside) (.prepend _ (.cons _
      (.extend _ ?_)))))
    have closed := Site.length_closePoints_after c.inner c rfl rfl body
    simpa [closed, Nat.add_assoc] using other
  | «while» _ _ _ => by
    simpa [points, breaks] using Retargets.refl exit pc _
  | forOf _ _ _ _ => by
    simpa [points, breaks] using Retargets.refl exit pc _
  | tryCatch _ body name handler => by
    simp only [points, breaks, List.map_append, List.map_cons, Site.withExit_inner,
      Site.withExit_afterAll, Site.withExit_closePoints, Site.closePoints_withExit,
      Site.withExit_shape, Site.withExit_extent, Site.withExit_inTry, Site.withExit_declare]
    generalize target : pc + 1 + (sizes c.extent.inner.inTry body + closeSize body) + 2 = place
    have inside := pointsAll_retargets exit (c.inner.inTry place) (pc + 1) body
    have caught := pointsAll_retargets exit (c.inner.declare name .plain) place handler
    refine .cons _ (.append (by simpa using inside) (.prepend _ (.cons _ (.cons _
      (.extend _ ?_)))))
    have closed := Site.length_closePoints (c.inner.inTry place) c rfl rfl body
    have reached : pc + (1 + (sizes c.extent.inner.inTry body + (closeSize body + 2))) = place := by
      omega
    simpa [closed, reached, Nat.add_assoc] using caught
  | «return» _ _ => .refl _ _ _
  | throw _ _ => .refl _ _ _
  | «break» _ => by
    cases h : c.loop with
    | none => simpa [points, breaks, h, Site.withExit, Site.extent] using Retargets.refl exit pc []
    | some loop =>
      have stays : (c.withExit exit).loop = some { loop with exit } := by simp [Site.withExit, h]
      simp only [points, breaks, h, stays, Option.map_some, Option.getD_some, Site.extent]
      simp only [Site.leavePoints, List.map_append]
      refine .prepend (List.map (·.instr) (c.unwindPoints loop)) ?_
      simpa [Site.extent, h, Instr.withTarget] using
        Retargets.jump exit (pc + (c.unwindPoints loop).length) (.jump loop.exit)
  | «continue» _ => by
    cases h : c.loop with
    | none => simpa [points, breaks, h, Site.withExit] using Retargets.refl exit pc []
    | some loop => 
      have stays : (c.withExit exit).loop = some { loop with exit } := by simp [Site.withExit, h]
      simp only [points, breaks, h, stays, Option.map_some, Option.getD_some]
      exact Retargets.refl exit pc _
  | expr _ _ => .refl _ _ _

theorem pointsAll_retargets (exit : Nat) (c : Site) (pc : Nat) :
    (body : List Stmt) →
      Retargets exit (breaksAll c.extent pc body) pc ((pointsAll c pc body).map (·.instr))
        ((pointsAll (c.withExit exit) pc body).map (·.instr))
  | [] => .refl _ _ _
  | s :: rest => by
    simp only [pointsAll, List.map_append, breaksAll, Site.withExit_after, Site.withExit_extent]
    refine (points_retargets exit c pc s).append ?_
    simpa using pointsAll_retargets exit (c.after s) (pc + s.size c.extent) rest

end

end Stmt

end FrameScript
