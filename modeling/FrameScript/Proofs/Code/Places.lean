import FrameScript.Proofs.Code.Flow

/-!
# Places of statements

Where the statements of a routine stand in its code, with the locals in scope and
the try bodies around. A statement with code begins with the shape of its place.
-/

namespace FrameScript

structure Place where
  pc : Nat
  site : Site
  stmt : Stmt

def Place.size (p : Place) : Nat := p.stmt.size p.site.extent

namespace Stmt

mutual

/-- The places of the statements inside a statement. -/
def insides (c : Site) (pc : Nat) : Stmt → List Place
  | block _ body => placesAll c.inner pc body
  | ifThen _ test body =>
    let inside := pc + test.size + 1
    ⟨inside, c.inner, body⟩ :: insides c.inner inside body
  | ifThenElse _ test body otherwise =>
    let inside := pc + test.size + 1
    let other := inside + (body.size c.extent.inner + closeSize [body]) + 1
    ⟨inside, c.inner, body⟩ :: ⟨other, c.inner, otherwise⟩ ::
      (insides c.inner inside body ++ insides c.inner other otherwise)
  | «while» _ test body =>
    let inside := pc + test.size + 1
    let exit := inside + (body.size c.extent.inLoop.inner + closeSize [body]) + 1
    let round := (c.inLoop pc exit).inner
    ⟨inside, round, body⟩ :: insides round inside body
  | forOf _ name iterable body =>
    let start := pc + iterable.size + 1
    let size := body.size ((c.extent.inner.declare 2).inLoop.declare 1) + closeSize [body]
    let exit := start + 1 + size + 2
    let round := (c.inRounds.inLoop start exit).declare name .plain
    ⟨start + 1, round, body⟩ :: insides round (start + 1) body
  | tryCatch _ body name handler =>
    let inside := pc + 1
    let target := inside + (sizes c.extent.inner.inTry body + closeSize body) + 2
    placesAll (c.inner.inTry target) inside body ++
      placesAll (c.inner.declare name .plain) target handler
  | declare _ _ _ | assign _ _ _ | «return» _ _ | throw _ _ | «break» _ | «continue» _
  | expr _ _ => []

/-- The places of statements that follow each other, and of those inside them. -/
def placesAll (c : Site) (pc : Nat) : List Stmt → List Place
  | [] => []
  | s :: rest =>
    ⟨pc, c, s⟩ :: (insides c pc s ++ placesAll (c.after s) (pc + s.size c.extent) rest)

end

theorem points_begin {code : List Point} {c : Site} {pc : Nat} (nested : c.Nested) (s : Stmt)
    (placed : Placed code pc (s.points c pc)) (some_code : s.size c.extent ≠ 0) :
    ShapeAt code pc c.shape := by
  -- Other code with the same statement goes on with the right shape.
  let other := List.replicate pc ⟨c.shape, .pop⟩ ++
    (s.points c pc ++ [⟨(c.after s).shape, .pop⟩])
  have placed' : Placed other pc (s.points c pc ++ [⟨(c.after s).shape, .pop⟩]) := by
    simp [Placed, other]
  have exit := (placed'.behind (length_points ..)).shapeAt
  obtain ⟨i, begins⟩ := points_entry nested s placed'.left exit
  cases eq : s.points c pc with
  | nil =>
    rw [← length_points c pc, eq] at some_code
    exact absurd rfl some_code
  | cons p rest =>
    rw [eq] at placed placed'
    have same := placed'.left.head.symm.trans begins
    cases same
    exact placed.shapeAt

end Stmt

/-- A place that is nested as its loop requires, and whose code stands at its position. -/
structure Place.Stands (code : List Point) (p : Place) : Prop where
  nested : p.site.Nested
  placed : Placed code p.pc (p.stmt.points p.site p.pc)

namespace Stmt

variable {code : List Point}

mutual

/-- The code of the statements inside a statement is a part of its code. -/
theorem insides_stand {c : Site} {pc : Nat} (nested : c.Nested) :
    (s : Stmt) → Placed code pc (s.points c pc) → ∀ p ∈ s.insides c pc, p.Stands code
  | block _ body, placed => placesAll_stand nested.inner body placed.left
  | ifThen _ test body, placed => by
    have parts := ifThen_parts placed
    exact List.forall_mem_cons.mpr ⟨⟨nested.inner, parts.inside⟩,
      insides_stand nested.inner body parts.inside⟩
  | ifThenElse _ test body otherwise, placed => by
    have parts := ifThenElse_parts rfl placed
    exact List.forall_mem_cons.mpr ⟨⟨nested.inner, parts.inside⟩,
      List.forall_mem_cons.mpr ⟨⟨nested.inner, parts.inside'⟩,
        List.forall_mem_append.mpr ⟨insides_stand nested.inner body parts.inside,
          insides_stand nested.inner otherwise parts.inside'⟩⟩⟩
  | «while» line test body, placed => by
    have exits : pc + («while» line test body).size c.extent =
        pc + test.size + 1 + (body.size c.extent.inLoop.inner + closeSize [body]) + 1 := by
      simp only [size, Nat.add_assoc]
    have parts := while_parts exits placed
    have round (exit : Nat) := (Site.Nested.inLoop c pc exit).inner
    exact List.forall_mem_cons.mpr ⟨⟨round _, parts.inside⟩,
      insides_stand (round _) body parts.inside⟩
  | forOf _ name iterable body, placed => by
    have parts := forOf_parts rfl rfl placed
    have round (start exit : Nat) := (Site.Nested.inLoop c.inRounds start exit).declare name .plain
    exact List.forall_mem_cons.mpr ⟨⟨round _ _, parts.inside⟩,
      insides_stand (round _ _) body parts.inside⟩
  | tryCatch _ body name handler, placed => by
    have parts := try_parts rfl placed
    exact List.forall_mem_append.mpr
      ⟨placesAll_stand (nested.inner.inTry _) body parts.inside,
        placesAll_stand (nested.inner.declare name .plain) handler parts.inside'⟩
  | declare _ _ _, _ | assign _ _ _, _ | «return» _ _, _ | throw _ _, _ | «break» _, _
  | «continue» _, _ | expr _ _, _ => nofun

theorem placesAll_stand {c : Site} {pc : Nat} (nested : c.Nested) :
    (body : List Stmt) → Placed code pc (pointsAll c pc body) →
      ∀ p ∈ placesAll c pc body, p.Stands code
  | [], _ => nofun
  | s :: rest, placed => by
    have others := placed.behind (length_points ..)
    exact List.forall_mem_cons.mpr ⟨⟨nested, placed.left⟩,
      List.forall_mem_append.mpr ⟨insides_stand nested s placed.left,
        placesAll_stand (nested.after s) rest others⟩⟩

end

end Stmt

def Routine.places (r : Routine) : List Place := Stmt.placesAll r.site 0 r.body

/-- Every statement of a routine that has code begins with the shape of its place. -/
theorem Routine.place_shape {r : Routine} {p : Place} (mem : p ∈ r.places)
    (some_code : p.size ≠ 0) : ShapeAt r.points p.pc p.site.shape := by
  obtain ⟨nested, placed⟩ := Stmt.placesAll_stand r.site_sound.nested r.body r.placed.1 p mem
  exact Stmt.points_begin nested p.stmt placed some_code

theorem ShapeAt.unique {code : List Point} {pc : Nat} {sh sh' : Shape} (h : ShapeAt code pc sh)
    (h' : ShapeAt code pc sh') : sh = sh' := by
  obtain ⟨i, listed⟩ := h
  obtain ⟨j, listed'⟩ := h'
  rw [listed] at listed'
  cases listed'
  rfl

end FrameScript
