import FrameScript.Proofs.Code.Layout

/-!
# Parts of a layout

Where the parts of a statement stand in the code that its layout lists: the expressions
and the statements inside it, the instructions between them, and what leaves its scopes.
Each statement that contains others has one structure that says so.
-/

namespace FrameScript

/-- The part stands in the layout from this position on. -/
def Placed (code : List Point) (pc : Nat) (part : List Point) : Prop := part <+: code.drop pc

namespace Placed

variable {code first second : List Point} {p : Point} {pc n : Nat}

theorem left (h : Placed code pc (first ++ second)) : Placed code pc first :=
  (List.prefix_append first second).trans h

theorem right (h : Placed code pc (first ++ second)) :
    Placed code (pc + first.length) second := by
  obtain ⟨rest, eq⟩ := h
  refine ⟨rest, ?_⟩
  rw [← List.drop_drop, ← eq, List.append_assoc, List.drop_left]

/-- What stands behind a part of so many instructions. -/
theorem behind (h : Placed code pc (first ++ second)) (size : first.length = n) :
    Placed code (pc + n) second := size ▸ h.right

theorem head (h : Placed code pc (p :: first)) : code[pc]? = some p := by
  obtain ⟨rest, eq⟩ := h
  have := congrArg List.head? eq
  simpa using this.symm

theorem one (h : Placed code pc (p :: first)) : Placed code pc [p] :=
  (show Placed code pc ([p] ++ first) from h).left

theorem tail (h : Placed code pc (p :: first)) : Placed code (pc + 1) first :=
  (show Placed code pc ([p] ++ first) from h).right

end Placed

namespace Stmt

variable {code : List Point} {c : Site} {pc line : Nat}

structure BlockParts (code : List Point) (c : Site) (pc : Nat) (body : List Stmt) (done : Nat) :
    Prop where
  inside : Placed code pc (pointsAll c.inner pc body)
  closes : Placed code (pc + sizes c.inner.extent body)
    (Site.closePoints (c.inner.afterAll body) c)
  ends : pc + sizes c.inner.extent body +
    (Site.closePoints (c.inner.afterAll body) c).length = done

theorem block_parts {body : List Stmt} (placed : Placed code pc ((block line body).points c pc)) :
    BlockParts code c pc body (pc + (block line body).size c.extent) where
  inside := placed.left
  closes := placed.behind (length_pointsAll ..)
  ends := by
    rw [Site.length_closePoints c.inner c rfl rfl, Nat.add_assoc]
    rfl

theorem points_ifThen (c : Site) (pc line : Nat) (test : Expr) (body : Stmt) :
    (ifThen line test body).points c pc = test.points c.scope pc c.shape ++
      (⟨c.shape.push, .jumpIfFalse (pc + (ifThen line test body).size c.extent)⟩ ::
        (body.points c.inner (pc + test.size + 1) ++ Site.closePoints (c.inner.after body) c)) := by
  simp only [points, size, Nat.add_assoc]

structure IfThenParts (code : List Point) (c : Site) (pc : Nat) (test : Expr) (body : Stmt)
    (done : Nat) : Prop where
  tests : Placed code pc (test.points c.scope pc c.shape)
  jumps : Placed code (pc + test.size) [⟨c.shape.push, .jumpIfFalse done⟩]
  inside : Placed code (pc + test.size + 1) (body.points c.inner (pc + test.size + 1))
  closes : Placed code (pc + test.size + 1 + body.size c.inner.extent)
    (Site.closePoints (c.inner.after body) c)
  ends : pc + test.size + 1 + body.size c.inner.extent +
    (Site.closePoints (c.inner.after body) c).length = done

theorem ifThen_parts {test : Expr} {body : Stmt}
    (placed : Placed code pc ((ifThen line test body).points c pc)) :
    IfThenParts code c pc test body (pc + (ifThen line test body).size c.extent) := by
  rw [points_ifThen] at placed
  have jumps := placed.behind (Expr.length_points ..)
  exact
    { tests := placed.left
      jumps := jumps.one
      inside := jumps.tail.left
      closes := jumps.tail.behind (length_points ..)
      ends := by
        rw [Site.length_closePoints_after c.inner c rfl rfl]
        simp only [size, Nat.add_assoc, Site.extent_inner] }

theorem points_ifThenElse (c : Site) (pc line : Nat) (test : Expr) (body otherwise : Stmt)
    {other : Nat}
    (begins : pc + test.size + 1 + (body.size c.extent.inner + closeSize [body]) + 1 = other) :
    (ifThenElse line test body otherwise).points c pc = test.points c.scope pc c.shape ++
      (⟨c.shape.push, .jumpIfFalse other⟩ :: (body.points c.inner (pc + test.size + 1) ++
        (Site.closePoints (c.inner.after body) c ++
          (⟨c.shape, .jump (pc + (ifThenElse line test body otherwise).size c.extent)⟩ ::
            (otherwise.points c.inner other ++
              Site.closePoints (c.inner.after otherwise) c))))) := by
  subst begins
  simp only [points, size, Nat.add_assoc]

/-- Where the parts of a conditional with two branches stand, where the second one begins and
where it ends. -/
structure IfThenElseParts (code : List Point) (c : Site) (pc : Nat) (test : Expr)
    (body otherwise : Stmt) (other done : Nat) : Prop where
  tests : Placed code pc (test.points c.scope pc c.shape)
  jumps : Placed code (pc + test.size) [⟨c.shape.push, .jumpIfFalse other⟩]
  inside : Placed code (pc + test.size + 1) (body.points c.inner (pc + test.size + 1))
  closes : Placed code (pc + test.size + 1 + body.size c.inner.extent)
    (Site.closePoints (c.inner.after body) c)
  leaves : Placed code (pc + test.size + 1 + body.size c.inner.extent +
    (Site.closePoints (c.inner.after body) c).length) [⟨c.shape, .jump done⟩]
  begins : pc + test.size + 1 + body.size c.inner.extent +
    (Site.closePoints (c.inner.after body) c).length + 1 = other
  inside' : Placed code other (otherwise.points c.inner other)
  closes' : Placed code (other + otherwise.size c.inner.extent)
    (Site.closePoints (c.inner.after otherwise) c)
  ends : other + otherwise.size c.inner.extent +
    (Site.closePoints (c.inner.after otherwise) c).length = done

theorem ifThenElse_parts {test : Expr} {body otherwise : Stmt} {other : Nat}
    (begins : pc + test.size + 1 + (body.size c.extent.inner + closeSize [body]) + 1 = other)
    (placed : Placed code pc ((ifThenElse line test body otherwise).points c pc)) :
    IfThenElseParts code c pc test body otherwise other
      (pc + (ifThenElse line test body otherwise).size c.extent) := by
  have closed := Site.length_closePoints_after c.inner c rfl rfl
  have there : pc + test.size + 1 + body.size c.inner.extent +
      (Site.closePoints (c.inner.after body) c).length + 1 = other := by
    rw [closed, ← begins]
    simp only [Nat.add_assoc, Site.extent_inner]
  rw [points_ifThenElse c pc line test body otherwise begins] at placed
  have jumps := placed.behind (Expr.length_points ..)
  have closes := jumps.tail.behind (length_points ..)
  have second := closes.right.tail
  rw [there] at second
  exact
    { tests := placed.left
      jumps := jumps.one
      inside := jumps.tail.left
      closes := closes.left
      leaves := closes.right.one
      begins := there
      inside' := second.left
      closes' := second.behind (length_points ..)
      ends := by
        rw [closed, ← begins]
        simp only [size, Nat.add_assoc, Site.extent_inner] }

theorem points_while (c : Site) (pc line : Nat) (test : Expr) (body : Stmt) {exit : Nat}
    (exits : pc + («while» line test body).size c.extent = exit) :
    («while» line test body).points c pc = test.points c.scope pc c.shape ++
      (⟨c.shape.push, .jumpIfFalse exit⟩ ::
        (body.points (c.inLoop pc exit).inner (pc + test.size + 1) ++
          (Site.closePoints ((c.inLoop pc exit).inner.after body) c ++
            [⟨c.shape, .jump pc⟩]))) := by
  subst exits
  simp only [points, size, Nat.add_assoc]

structure WhileParts (code : List Point) (c : Site) (pc : Nat) (test : Expr) (body : Stmt)
    (exit : Nat) : Prop where
  tests : Placed code pc (test.points c.scope pc c.shape)
  jumps : Placed code (pc + test.size) [⟨c.shape.push, .jumpIfFalse exit⟩]
  inside : Placed code (pc + test.size + 1)
    (body.points (c.inLoop pc exit).inner (pc + test.size + 1))
  closes : Placed code (pc + test.size + 1 + body.size (c.inLoop pc exit).inner.extent)
    (Site.closePoints ((c.inLoop pc exit).inner.after body) c)
  back : Placed code (pc + test.size + 1 + body.size (c.inLoop pc exit).inner.extent +
    (Site.closePoints ((c.inLoop pc exit).inner.after body) c).length) [⟨c.shape, .jump pc⟩]

theorem while_parts {test : Expr} {body : Stmt} {exit : Nat}
    (exits : pc + («while» line test body).size c.extent = exit)
    (placed : Placed code pc ((«while» line test body).points c pc)) :
    WhileParts code c pc test body exit := by
  rw [points_while c pc line test body exits] at placed
  have jumps := placed.behind (Expr.length_points ..)
  have closes := jumps.tail.behind (length_points ..)
  exact
    { tests := placed.left
      jumps := jumps.one
      inside := jumps.tail.left
      closes := closes.left
      back := closes.right }

theorem points_forOf (c : Site) (pc line : Nat) (name : String) (iterable : Expr) (body : Stmt)
    {start exit : Nat} (begins : pc + iterable.size + 1 = start)
    (exits : start + 1 +
      (body.size ((c.extent.inner.declare 2).inLoop.declare 1) + closeSize [body]) + 2 = exit) :
    let round := (c.inRounds.inLoop start exit).declare name .plain
    (forOf line name iterable body).points c pc = iterable.points c.scope pc c.shape ++
      (⟨(c.inner.declare Site.itemsName .plain).shape, .push (.num (Number.zero false))⟩ ::
        ⟨c.inRounds.shape, .iterNext c.scope.length (c.scope.length + 1) exit⟩ ::
        (body.points round (start + 1) ++ (Site.closePoints (round.after body) round ++
          (Site.closePoints round c.inRounds ++
            (⟨c.inRounds.shape, .jump start⟩ :: Site.closePoints c.inRounds c))))) := by
  subst exits begins
  rfl

/-- Where the parts of a for-of loop stand whose rounds begin at `start` with the item as a
local of `round`, where they end, and where the loop's own two locals are gone. -/
structure ForOfParts (code : List Point) (c round : Site) (pc : Nat) (iterable : Expr)
    (body : Stmt) (start exit done : Nat) : Prop where
  iterates : Placed code pc (iterable.points c.scope pc c.shape)
  sets : Placed code (pc + iterable.size)
    [⟨(c.inner.declare Site.itemsName .plain).shape, .push (.num (Number.zero false))⟩]
  takes : Placed code start [⟨c.inRounds.shape, .iterNext c.scope.length (c.scope.length + 1) exit⟩]
  inside : Placed code (start + 1) (body.points round (start + 1))
  closes : Placed code (start + 1 + body.size round.extent)
    (Site.closePoints (round.after body) round)
  drops : Placed code (start + 1 + body.size round.extent +
    (Site.closePoints (round.after body) round).length) (Site.closePoints round c.inRounds)
  back : Placed code (start + 1 + body.size round.extent +
    (Site.closePoints (round.after body) round).length +
    (Site.closePoints round c.inRounds).length) [⟨c.inRounds.shape, .jump start⟩]
  exits : start + 1 + body.size round.extent +
    (Site.closePoints (round.after body) round).length +
    (Site.closePoints round c.inRounds).length + 1 = exit
  leaves : Placed code exit (Site.closePoints c.inRounds c)
  ends : exit + (Site.closePoints c.inRounds c).length = done

theorem forOf_parts {name : String} {iterable : Expr} {body : Stmt} {start exit : Nat}
    (begins : pc + iterable.size + 1 = start)
    (exits : start + 1 +
      (body.size ((c.extent.inner.declare 2).inLoop.declare 1) + closeSize [body]) + 2 = exit)
    (placed : Placed code pc ((forOf line name iterable body).points c pc)) :
    ForOfParts code c ((c.inRounds.inLoop start exit).declare name .plain) pc iterable body
      start exit (pc + (forOf line name iterable body).size c.extent) := by
  have closed := Site.length_closePoints_after ((c.inRounds.inLoop start exit).declare name .plain)
    ((c.inRounds.inLoop start exit).declare name .plain) rfl rfl body
  have dropped := Site.length_closePoints_declare (c.inRounds.inLoop start exit) c.inRounds rfl
    name .plain
  have left := Site.length_closePoints_inRounds c
  have there : start + 1 + body.size ((c.inRounds.inLoop start exit).declare name .plain).extent +
      (Site.closePoints (((c.inRounds.inLoop start exit).declare name .plain).after body)
        ((c.inRounds.inLoop start exit).declare name .plain)).length +
      (Site.closePoints ((c.inRounds.inLoop start exit).declare name .plain) c.inRounds).length +
      1 = exit := by
    rw [closed, dropped, ← exits]
    simp [Nat.add_assoc]
  rw [points_forOf c pc line name iterable body begins exits] at placed
  have sets := placed.behind (Expr.length_points ..)
  have takes := sets.tail
  rw [begins] at takes
  have closes := takes.tail.behind (length_points ..)
  have back := closes.right.right
  have leaves := back.tail
  rw [there] at leaves
  exact
    { iterates := placed.left
      sets := sets.one
      takes := takes.one
      inside := takes.tail.left
      closes := closes.left
      drops := closes.right.left
      back := back.one
      exits := there
      leaves := leaves
      ends := by
        rw [left, ← exits, ← begins]
        simp only [size]
        omega }

theorem points_try (c : Site) (pc line : Nat) (body : List Stmt) (name : String)
    (handler : List Stmt) {target : Nat}
    (begins : pc + 1 + (sizes c.extent.inner.inTry body + closeSize body) + 2 = target) :
    let guarded := c.inner.inTry target
    let caught := c.inner.declare name .plain
    (tryCatch line body name handler).points c pc = ⟨c.shape, .pushHandler target⟩ ::
      (pointsAll guarded (pc + 1) body ++ (Site.closePoints (guarded.afterAll body) guarded ++
        (⟨guarded.shape, .popHandler⟩ ::
          ⟨c.shape, .jump (pc + (tryCatch line body name handler).size c.extent)⟩ ::
          (pointsAll caught target handler ++
            Site.closePoints (caught.afterAll handler) c)))) := by
  subst begins
  simp only [points, size, Nat.add_assoc]

/-- Where the parts of a try statement stand whose handler begins at a position, with the body
at the place `guarded` and the handler at the place `caught`, and where it ends. -/
structure TryParts (code : List Point) (c guarded caught : Site) (pc : Nat)
    (body handler : List Stmt) (target done : Nat) : Prop where
  installs : Placed code pc [⟨c.shape, .pushHandler target⟩]
  inside : Placed code (pc + 1) (pointsAll guarded (pc + 1) body)
  closes : Placed code (pc + 1 + sizes guarded.extent body)
    (Site.closePoints (guarded.afterAll body) guarded)
  removes : Placed code (pc + 1 + sizes guarded.extent body +
    (Site.closePoints (guarded.afterAll body) guarded).length)
    [⟨guarded.shape, .popHandler⟩, ⟨c.shape, .jump done⟩]
  begins : pc + 1 + sizes guarded.extent body +
    (Site.closePoints (guarded.afterAll body) guarded).length + 1 + 1 = target
  inside' : Placed code target (pointsAll caught target handler)
  closes' : Placed code (target + sizes caught.extent handler)
    (Site.closePoints (caught.afterAll handler) c)
  ends : target + sizes caught.extent handler +
    (Site.closePoints (caught.afterAll handler) c).length = done

theorem try_parts {name : String} {body handler : List Stmt} {target : Nat}
    (begins : pc + 1 + (sizes c.extent.inner.inTry body + closeSize body) + 2 = target)
    (placed : Placed code pc ((tryCatch line body name handler).points c pc)) :
    TryParts code c (c.inner.inTry target) (c.inner.declare name .plain) pc body handler target
      (pc + (tryCatch line body name handler).size c.extent) := by
  have closed := Site.length_closePoints (c.inner.inTry target) (c.inner.inTry target) rfl rfl body
  have there : pc + 1 + sizes (c.inner.inTry target).extent body +
      (Site.closePoints ((c.inner.inTry target).afterAll body) (c.inner.inTry target)).length +
      1 + 1 = target := by
    rw [closed, ← begins, Nat.add_assoc (pc + 1)]
    rfl
  rw [points_try c pc line body name handler begins] at placed
  have closes := placed.tail.behind (length_pointsAll ..)
  have removes := closes.right
  have caught := removes.tail.tail
  rw [there] at caught
  exact
    { installs := placed.one
      inside := placed.tail.left
      closes := closes.left
      removes := (show Placed code _ ([_, _] ++ _) from removes).left
      begins := there
      inside' := caught.left
      closes' := caught.behind (length_pointsAll ..)
      ends := by
        rw [Site.length_closePoints_caught, ← begins]
        simp only [size, Nat.add_assoc, Site.extent_declare, Site.extent_inner] }

end Stmt
end FrameScript
