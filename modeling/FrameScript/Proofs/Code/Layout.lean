import FrameScript.Code.Compile

/-!
# The layout of compiled code

A layout lists the instructions of a piece of code with all jump targets in
place, each with the shape that the frame has before it: what the slots above
the base are for, and which handlers the frame has installed. Positions are
found from the sizes of the parts, so no jump is emitted without its target.
-/

namespace FrameScript

/-- What a slot of the operand stack is for. -/
inductive SlotKind where
  /-- A variable or a temporary value. -/
  | plain
  /-- The position of a for-of loop, which is a number. -/
  | position
  deriving DecidableEq

structure Slot where
  name : String
  kind : SlotKind
  deriving DecidableEq

/-- An installed handler: where it goes on, and the slots that it keeps. -/
structure Catch where
  target : Nat
  slots : List SlotKind
  deriving DecidableEq

/-- What a frame looks like at a position: its slots and its handlers, the latest first. -/
structure Shape where
  slots : List SlotKind
  catches : List Catch
  deriving DecidableEq

/-- An instruction and the shape before it. -/
structure Point where
  shape : Shape
  instr : Instr
  deriving DecidableEq

namespace Shape

def push (s : Shape) : Shape := { s with slots := .plain :: s.slots }

def pushMany (s : Shape) (count : Nat) : Shape :=
  { s with slots := List.replicate count .plain ++ s.slots }

@[simp] theorem push_slots (s : Shape) : s.push.slots = .plain :: s.slots := rfl

@[simp] theorem push_catches (s : Shape) : s.push.catches = s.catches := rfl

@[simp] theorem pushMany_slots (s : Shape) (count : Nat) :
    (s.pushMany count).slots = List.replicate count .plain ++ s.slots := rfl

@[simp] theorem pushMany_catches (s : Shape) (count : Nat) :
    (s.pushMany count).catches = s.catches := rfl

@[simp] theorem pushMany_zero (s : Shape) : s.pushMany 0 = s := rfl

theorem pushMany_push (s : Shape) (count : Nat) :
    s.push.pushMany count = s.pushMany (count + 1) := by
  simp [pushMany, push, List.replicate_succ']

end Shape

/-- The slot of the latest local with a name; slots count in the order of declaration. -/
def slotIn? (name : String) : List Slot → Option Nat
  | [] => none
  | s :: earlier => if s.name = name then some earlier.length else slotIn? name earlier

/-- Where `break` and `continue` go, and what is in place there. -/
structure LoopSite where
  start : Nat
  exit : Nat
  scope : List Slot
  catches : List Catch

/-- Where a statement stands. -/
structure Site where
  /-- Whether `let` defines a global. -/
  global : Bool
  /-- The locals in scope, the latest first. -/
  scope : List Slot
  /-- The innermost loop around. -/
  loop : Option LoopSite
  /-- One handler for each try body around, the innermost first. -/
  catches : List Catch

namespace Site

def shape (c : Site) : Shape := ⟨c.scope.map (·.kind), c.catches⟩

def inner (c : Site) : Site := { c with global := false }

def declare (c : Site) (name : String) (kind : SlotKind) : Site :=
  { c with scope := ⟨name, kind⟩ :: c.scope }

def inLoop (c : Site) (start exit : Nat) : Site :=
  { c with loop := some ⟨start, exit, c.scope, c.catches⟩ }

def inTry (c : Site) (target : Nat) : Site :=
  { c with catches := ⟨target, c.shape.slots⟩ :: c.catches }

def withExit (c : Site) (exit : Nat) : Site :=
  { c with loop := c.loop.map fun l => { l with exit } }

/-- What follows a statement: a `let` in a block has declared a local. -/
def after (c : Site) : Stmt → Site
  | .declare _ name _ => if c.global then c else c.declare name .plain
  | _ => c

def afterAll (c : Site) (body : List Stmt) : Site := body.foldl after c

end Site

namespace Expr

mutual

def size : Expr → Nat
  | null | bool _ | num _ | str _ | ident _ => 1
  | list items => sizes items + 1
  | object fields => fieldSizes fields + 1
  | member e _ => e.size + 1
  | index e position => e.size + position.size + 1
  | call callee args _ => callee.size + sizes args + 1
  | unary _ operand => operand.size + 1
  | binary _ left right => left.size + right.size + 1
  | logical _ left right => left.size + 1 + right.size

def sizes : List Expr → Nat
  | [] => 0
  | e :: rest => e.size + sizes rest

def fieldSizes : List (String × Expr) → Nat
  | [] => 0
  | (_, e) :: rest => e.size + fieldSizes rest

end

def optionSize : Option Expr → Nat
  | some e => e.size
  | none => 1

end Expr

def Target.size (value : Expr) : Target → Nat
  | ident _ => value.size + 1
  | member object _ => object.size + value.size + 1
  | index object position => object.size + position.size + value.size + 1

/-- Those numbers of a site that the size of code depends on. -/
structure Extent where
  global : Bool
  locals : Nat
  catches : Nat
  /-- The locals and handlers where the innermost loop's rounds begin. -/
  loop : Option (Nat × Nat)

namespace Extent

def inner (e : Extent) : Extent := { e with global := false }

def declare (e : Extent) (count : Nat) : Extent := { e with locals := e.locals + count }

def inLoop (e : Extent) : Extent := { e with loop := some (e.locals, e.catches) }

def inTry (e : Extent) : Extent := { e with catches := e.catches + 1 }

def after (e : Extent) : Stmt → Extent
  | .declare _ _ _ => if e.global then e else e.declare 1
  | _ => e

/-- Instructions that drop what a loop's body has added. -/
def unwindSize (e : Extent) (loop : Nat × Nat) : Nat :=
  (if e.locals = loop.1 then 0 else 1) + (e.catches - loop.2)

end Extent

def Site.extent (c : Site) : Extent :=
  ⟨c.global, c.scope.length, c.catches.length,
    c.loop.map fun l => (l.scope.length, l.catches.length)⟩

namespace Stmt

def declares : Stmt → Bool
  | declare _ _ _ => true
  | _ => false

/-- Instructions that leave a scope in which these statements stand. -/
def closeSize (body : List Stmt) : Nat := if body.any declares then 1 else 0

mutual

def size (e : Extent) : Stmt → Nat
  | block _ body => sizes e.inner body + closeSize body
  | declare _ _ value => Expr.optionSize value + (if e.global then 1 else 0)
  | assign _ target value => target.size value
  | ifThen _ test body => test.size + 1 + (body.size e.inner + closeSize [body])
  | ifThenElse _ test body otherwise =>
    test.size + 1 + (body.size e.inner + closeSize [body]) + 1 +
      (otherwise.size e.inner + closeSize [otherwise])
  | «while» _ test body =>
    test.size + 1 + (body.size e.inLoop.inner + closeSize [body]) + 1
  | forOf _ _ iterable body =>
    iterable.size + 2 +
      (body.size ((e.inner.declare 2).inLoop.declare 1) + closeSize [body]) + 3
  | tryCatch _ body _ handler =>
    1 + (sizes e.inner.inTry body + closeSize body) + 2 + (sizes (e.inner.declare 1) handler + 1)
  | «return» _ value => Expr.optionSize value + 1
  | throw _ value => value.size + 1
  | «break» _ => (e.loop.map fun l => e.unwindSize l + 1).getD 0
  | «continue» _ => (e.loop.map fun l => e.unwindSize l + 1).getD 0
  | expr _ value => value.size + 1

def sizes (e : Extent) : List Stmt → Nat
  | [] => 0
  | s :: rest => s.size e + sizes (e.after s) rest

end

end Stmt

namespace Expr

def loadInstr (scope : List Slot) (name : String) : Instr :=
  match slotIn? name scope with
  | some slot => .getLocal slot
  | none => .getGlobal name

mutual

def points (scope : List Slot) (pc : Nat) (sh : Shape) : Expr → List Point
  | null => [⟨sh, .push .null⟩]
  | bool v => [⟨sh, .push (.bool v)⟩]
  | num v => [⟨sh, .push (.num v)⟩]
  | str v => [⟨sh, .push (.str v)⟩]
  | list items =>
    pointsAll scope pc sh items ++ [⟨sh.pushMany items.length, .makeList items.length⟩]
  | object fields =>
    pointsFields scope pc sh fields ++
      [⟨sh.pushMany fields.length, .makeObject (fields.map (·.1))⟩]
  | ident name => [⟨sh, loadInstr scope name⟩]
  | member e name => points scope pc sh e ++ [⟨sh.push, .getMember name⟩]
  | index e position =>
    points scope pc sh e ++ (points scope (pc + e.size) sh.push position ++
      [⟨sh.push.push, .getIndex⟩])
  | call callee args _ =>
    points scope pc sh callee ++ (pointsAll scope (pc + callee.size) sh.push args ++
      [⟨sh.push.pushMany args.length, .call args.length⟩])
  | unary op operand => points scope pc sh operand ++ [⟨sh.push, .unary op⟩]
  | binary op left right =>
    points scope pc sh left ++ (points scope (pc + left.size) sh.push right ++
      [⟨sh.push.push, .binary op⟩])
  | logical op left right =>
    points scope pc sh left ++
      (⟨sh.push, match op with
        | .and => .jumpIfFalseKeep (pc + (left.size + 1 + right.size))
        | .or => .jumpIfTrueKeep (pc + (left.size + 1 + right.size))⟩ ::
      points scope (pc + left.size + 1) sh right)

def pointsAll (scope : List Slot) (pc : Nat) (sh : Shape) : List Expr → List Point
  | [] => []
  | e :: rest => points scope pc sh e ++ pointsAll scope (pc + e.size) sh.push rest

def pointsFields (scope : List Slot) (pc : Nat) (sh : Shape) :
    List (String × Expr) → List Point
  | [] => []
  | (_, e) :: rest => points scope pc sh e ++ pointsFields scope (pc + e.size) sh.push rest

end

def optionPoints (scope : List Slot) (pc : Nat) (sh : Shape) : Option Expr → List Point
  | some e => e.points scope pc sh
  | none => [⟨sh, .push .null⟩]

end Expr

def storeInstr (scope : List Slot) (name : String) : Instr :=
  match slotIn? name scope with
  | some slot => .setLocal slot
  | none => .setGlobal name

def Target.points (c : Site) (pc : Nat) (value : Expr) : Target → List Point
  | ident name =>
    value.points c.scope pc c.shape ++ [⟨c.shape.push, storeInstr c.scope name⟩]
  | member object name =>
    object.points c.scope pc c.shape ++
      (value.points c.scope (pc + object.size) c.shape.push ++
        [⟨c.shape.push.push, .setMember name⟩])
  | index object position =>
    object.points c.scope pc c.shape ++
      (position.points c.scope (pc + object.size) c.shape.push ++
        (value.points c.scope (pc + object.size + position.size) c.shape.push.push ++
          [⟨c.shape.push.push.push, .setIndex⟩]))

namespace Site

def closePoints (inside outside : Site) : List Point :=
  if inside.scope.length = outside.scope.length then []
  else [⟨inside.shape, .popN (inside.scope.length - outside.scope.length)⟩]

def removePoints (slots : List SlotKind) : (count : Nat) → List Catch → List Point
  | 0, _ => []
  | count + 1, catches => ⟨⟨slots, catches⟩, .popHandler⟩ :: removePoints slots count catches.tail

/-- Drop what a loop's body has added. -/
def unwindPoints (c : Site) (loop : LoopSite) : List Point :=
  (if c.scope.length = loop.scope.length then []
    else [⟨c.shape, .popN (c.scope.length - loop.scope.length)⟩]) ++
  removePoints (loop.scope.map (·.kind)) (c.catches.length - loop.catches.length) c.catches

/-- Drop what a loop's body has added and go to a position. -/
def leavePoints (c : Site) (loop : LoopSite) (target : Nat) : List Point :=
  c.unwindPoints loop ++ [⟨⟨loop.scope.map (·.kind), loop.catches⟩, .jump target⟩]

/-- The names of the locals that a for-of loop keeps for itself. -/
def itemsName : String := "(for list)"

def positionName : String := "(for index)"

/-- The place from which the rounds of a for-of loop begin. -/
def inRounds (c : Site) : Site :=
  (c.inner.declare itemsName .plain).declare positionName .position

end Site

namespace Stmt

mutual

def points (c : Site) (pc : Nat) : Stmt → List Point
  | block _ body =>
    pointsAll c.inner pc body ++ Site.closePoints (c.inner.afterAll body) c
  | declare _ name value =>
    Expr.optionPoints c.scope pc c.shape value ++
      (if c.global then [⟨c.shape.push, .setGlobal name⟩] else [])
  | assign _ target value => target.points c pc value
  | ifThen _ test body =>
    let inside := pc + test.size + 1
    let done := inside + (body.size c.extent.inner + closeSize [body])
    test.points c.scope pc c.shape ++ (⟨c.shape.push, .jumpIfFalse done⟩ ::
      (points c.inner inside body ++ Site.closePoints (c.inner.after body) c))
  | ifThenElse _ test body otherwise =>
    let inside := pc + test.size + 1
    let other := inside + (body.size c.extent.inner + closeSize [body]) + 1
    let done := other + (otherwise.size c.extent.inner + closeSize [otherwise])
    test.points c.scope pc c.shape ++ (⟨c.shape.push, .jumpIfFalse other⟩ ::
      (points c.inner inside body ++ (Site.closePoints (c.inner.after body) c ++
        (⟨c.shape, .jump done⟩ ::
          (points c.inner other otherwise ++ Site.closePoints (c.inner.after otherwise) c)))))
  | «while» _ test body =>
    let inside := pc + test.size + 1
    let exit := inside + (body.size c.extent.inLoop.inner + closeSize [body]) + 1
    let round := (c.inLoop pc exit).inner
    test.points c.scope pc c.shape ++ (⟨c.shape.push, .jumpIfFalse exit⟩ ::
      (points round inside body ++ (Site.closePoints (round.after body) c ++
        [⟨c.shape, .jump pc⟩])))
  | forOf _ name iterable body =>
    let start := pc + iterable.size + 1
    let size := body.size ((c.extent.inner.declare 2).inLoop.declare 1) + closeSize [body]
    let exit := start + 1 + size + 2
    let around := c.inRounds
    let round := (around.inLoop start exit).declare name .plain
    iterable.points c.scope pc c.shape ++
      (⟨(c.inner.declare Site.itemsName .plain).shape, .push (.num (Number.zero false))⟩ ::
      ⟨around.shape, .iterNext c.scope.length (c.scope.length + 1) exit⟩ ::
      (points round (start + 1) body ++ (Site.closePoints (round.after body) round ++
        (Site.closePoints round around ++
          (⟨around.shape, .jump start⟩ :: Site.closePoints around c)))))
  | tryCatch _ body name handler =>
    let inside := pc + 1
    let target := inside + (sizes c.extent.inner.inTry body + closeSize body) + 2
    let done := target + (sizes (c.extent.inner.declare 1) handler + 1)
    let guarded := c.inner.inTry target
    let caught := c.inner.declare name .plain
    ⟨c.shape, .pushHandler target⟩ ::
      (pointsAll guarded inside body ++ (Site.closePoints (guarded.afterAll body) guarded ++
        (⟨guarded.shape, .popHandler⟩ :: ⟨c.shape, .jump done⟩ ::
          (pointsAll caught target handler ++
            Site.closePoints (caught.afterAll handler) c))))
  | «return» _ value =>
    Expr.optionPoints c.scope pc c.shape value ++ [⟨c.shape.push, .ret⟩]
  | throw _ value => value.points c.scope pc c.shape ++ [⟨c.shape.push, .throw⟩]
  | «break» _ => (c.loop.map fun loop => c.leavePoints loop loop.exit).getD []
  | «continue» _ => (c.loop.map fun loop => c.leavePoints loop loop.start).getD []
  | expr _ value => value.points c.scope pc c.shape ++ [⟨c.shape.push, .pop⟩]

def pointsAll (c : Site) (pc : Nat) : List Stmt → List Point
  | [] => []
  | s :: rest => points c pc s ++ pointsAll (c.after s) (pc + s.size c.extent) rest

end

end Stmt

namespace Expr

mutual

@[simp] theorem length_points (scope : List Slot) (pc : Nat) (sh : Shape) :
    (e : Expr) → (e.points scope pc sh).length = e.size
  | null | bool _ | num _ | str _ | ident _ => rfl
  | list items => by simp [points, size, length_pointsAll]
  | object fields => by simp [points, size, length_pointsFields]
  | member e _ => by simp [points, size, length_points]
  | index e position => by
    simp only [points, size, length_points, List.length_append, List.length_singleton]
    omega
  | call callee args _ => by
    simp only [points, size, length_points, length_pointsAll, List.length_append,
      List.length_singleton]
    omega
  | unary _ operand => by simp [points, size, length_points]
  | binary _ left right => by
    simp only [points, size, length_points, List.length_append, List.length_singleton]
    omega
  | logical _ left right => by
    simp only [points, size, length_points, List.length_append, List.length_cons]
    omega

@[simp] theorem length_pointsAll (scope : List Slot) (pc : Nat) (sh : Shape) :
    (es : List Expr) → (pointsAll scope pc sh es).length = sizes es
  | [] => rfl
  | e :: rest => by simp [pointsAll, sizes, length_points, length_pointsAll]

@[simp] theorem length_pointsFields (scope : List Slot) (pc : Nat) (sh : Shape) :
    (fields : List (String × Expr)) → (pointsFields scope pc sh fields).length = fieldSizes fields
  | [] => rfl
  | (_, e) :: rest => by simp [pointsFields, fieldSizes, length_points, length_pointsFields]

end

@[simp] theorem length_optionPoints (scope : List Slot) (pc : Nat) (sh : Shape)
    (value : Option Expr) : (optionPoints scope pc sh value).length = optionSize value := by
  cases value <;> simp [optionPoints, optionSize]

end Expr

@[simp] theorem Target.length_points (c : Site) (pc : Nat) (value : Expr) (target : Target) :
    (target.points c pc value).length = target.size value := by
  cases target <;> simp [points, size] <;> omega

namespace Site

@[simp] theorem extent_inner (c : Site) : c.inner.extent = c.extent.inner := rfl

@[simp] theorem extent_declare (c : Site) (name : String) (kind : SlotKind) :
    (c.declare name kind).extent = c.extent.declare 1 := rfl

@[simp] theorem extent_inLoop (c : Site) (start exit : Nat) :
    (c.inLoop start exit).extent = c.extent.inLoop := rfl

@[simp] theorem extent_inTry (c : Site) (target : Nat) :
    (c.inTry target).extent = c.extent.inTry := rfl

@[simp] theorem extent_inRounds (c : Site) :
    c.inRounds.extent = c.extent.inner.declare 2 := rfl

theorem after_eq (c : Site) (inside : c.global = false) (s : Stmt) :
    (c.after s).scope.length = c.scope.length + (if s.declares then 1 else 0) ∧
      (c.after s).global = false := by
  cases s <;> simp [after, inside, Stmt.declares, declare]

@[simp] theorem extent_after (c : Site) (s : Stmt) : (c.after s).extent = c.extent.after s := by
  cases s <;> try rfl
  case declare line name value =>
    simp only [after, Extent.after]
    by_cases h : c.global
    · simp [h, extent]
    · rw [if_neg h, if_neg (by simpa [extent] using h)]
      rfl

@[simp] theorem length_removePoints (slots : List SlotKind) (count : Nat) (catches : List Catch) :
    (removePoints slots count catches).length = count := by
  induction count generalizing catches with
  | zero => rfl
  | succ count ih => simp [removePoints, ih]

@[simp] theorem length_unwindPoints (c : Site) (loop : LoopSite) :
    (c.unwindPoints loop).length =
      c.extent.unwindSize (loop.scope.length, loop.catches.length) := by
  unfold unwindPoints Extent.unwindSize
  by_cases h : c.scope.length = loop.scope.length <;> simp [h, extent, Nat.add_comm]

@[simp] theorem length_leavePoints (c : Site) (loop : LoopSite) (target : Nat) :
    (c.leavePoints loop target).length =
      c.extent.unwindSize (loop.scope.length, loop.catches.length) + 1 := by
  simp [leavePoints]

theorem afterAll_eq (c : Site) (inside : c.global = false) (body : List Stmt) :
    (c.afterAll body).scope.length = c.scope.length + body.countP Stmt.declares ∧
      (c.afterAll body).global = false := by
  induction body generalizing c with
  | nil => exact ⟨rfl, inside⟩
  | cons s rest ih =>
    obtain ⟨first, still⟩ := c.after_eq inside s
    obtain ⟨others, global⟩ := ih (c.after s) still
    refine ⟨?_, global⟩
    rw [List.countP_cons]
    change ((c.after s).afterAll rest).scope.length = _
    omega

theorem length_closePoints (c outside : Site) (inside : c.global = false)
    (same : c.scope.length = outside.scope.length) (body : List Stmt) :
    (closePoints (c.afterAll body) outside).length = Stmt.closeSize body := by
  have grown := (c.afterAll_eq inside body).1
  unfold closePoints Stmt.closeSize
  by_cases h : body.any Stmt.declares
  · have : body.countP Stmt.declares ≠ 0 := by
      simpa [List.countP_eq_zero] using h
    rw [if_neg (by omega), if_pos h]
    rfl
  · have : body.countP Stmt.declares = 0 := by
      simpa [List.countP_eq_zero] using h
    rw [if_pos (by omega), if_neg h]
    rfl

theorem length_closePoints_after (c outside : Site) (inside : c.global = false)
    (same : c.scope.length = outside.scope.length) (s : Stmt) :
    (closePoints (c.after s) outside).length = Stmt.closeSize [s] :=
  length_closePoints c outside inside same [s]

theorem length_closePoints_declare (c outside : Site) (same : c.scope.length = outside.scope.length)
    (name : String) (kind : SlotKind) : (closePoints (c.declare name kind) outside).length = 1 := by
  have : (c.declare name kind).scope.length = c.scope.length + 1 := rfl
  rw [closePoints, if_neg (by omega)]
  rfl

/-- A for-of loop drops what it iterates over and its position. -/
theorem length_closePoints_inRounds (c : Site) : (closePoints c.inRounds c).length = 1 := by
  have : c.inRounds.scope.length = c.scope.length + 2 := rfl
  rw [closePoints, if_neg (by omega)]
  rfl

/-- The scope of a handler has at least the caught value. -/
theorem length_closePoints_caught (c : Site) (name : String) (handler : List Stmt) :
    (closePoints ((c.inner.declare name .plain).afterAll handler) c).length = 1 := by
  have grown := ((c.inner.declare name .plain).afterAll_eq rfl handler).1
  have : (c.inner.declare name .plain).scope.length = c.scope.length + 1 := rfl
  rw [closePoints, if_neg (by omega)]
  rfl

end Site

namespace Stmt

mutual

@[simp] theorem length_points (c : Site) (pc : Nat) :
    (s : Stmt) → (s.points c pc).length = s.size c.extent
  | block _ body => by
    simp [points, size, length_pointsAll, Site.length_closePoints c.inner c rfl rfl]
  | declare _ name value => by
    simp only [points, size, List.length_append, Expr.length_optionPoints]
    by_cases h : c.global <;> simp [h, Site.extent]
  | assign _ target value => by simp [points, size]
  | ifThen _ test body => by
    simp only [points, size, List.length_append, List.length_cons, Expr.length_points,
      length_points, Site.length_closePoints_after c.inner c rfl rfl, Site.extent_inner]
    omega
  | ifThenElse _ test body otherwise => by
    simp only [points, size, List.length_append, List.length_cons, Expr.length_points,
      length_points, Site.length_closePoints_after c.inner c rfl rfl, Site.extent_inner]
    omega
  | «while» _ test body => by
    have closed (start exit : Nat) :
        (Site.closePoints ((c.inLoop start exit).inner.after body) c).length = closeSize [body] :=
      Site.length_closePoints_after _ _ rfl rfl body
    simp only [points, size, List.length_append, List.length_cons, Expr.length_points,
      length_points, closed, Site.extent_inner, Site.extent_inLoop, List.length_nil]
    omega
  | forOf _ name iterable body => by
    have dropped := Site.length_closePoints_inRounds c
    have closed (start exit : Nat) := Site.length_closePoints_declare
      (c.inRounds.inLoop start exit) c.inRounds rfl name .plain
    simp only [points, size, List.length_append, List.length_cons, Expr.length_points,
      length_points, Site.length_closePoints_after ((c.inRounds.inLoop _ _).declare name .plain) _
        rfl rfl, Site.extent_inRounds, Site.extent_inLoop, Site.extent_declare, dropped, closed]
    omega
  | tryCatch _ body name handler => by
    have dropped := Site.length_closePoints_caught c name handler
    simp only [points, size, List.length_append, List.length_cons, length_pointsAll,
      Site.length_closePoints (c.inner.inTry _) _ rfl rfl, Site.extent_inner, Site.extent_inTry,
      Site.extent_declare, dropped]
    omega
  | «return» _ value => by simp [points, size]
  | throw _ value => by simp [points, size]
  | «break» _ => by
    cases h : c.loop <;> simp [points, size, Site.extent, h]
  | «continue» _ => by
    cases h : c.loop <;> simp [points, size, Site.extent, h]
  | expr _ value => by simp [points, size]

@[simp] theorem length_pointsAll (c : Site) (pc : Nat) :
    (body : List Stmt) → (pointsAll c pc body).length = sizes c.extent body
  | [] => rfl
  | s :: rest => by simp [pointsAll, sizes, length_points, length_pointsAll]

end

end Stmt

end FrameScript
