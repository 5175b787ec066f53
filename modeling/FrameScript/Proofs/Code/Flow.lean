import FrameScript.Proofs.Code.Parts
import FrameScript.Proofs.Code.Routine
import FrameScript.Proofs.Script.Names

/-!
# Flow of shapes

Every instruction of a layout finds the slots that it takes. Wherever it can go
on, the layout has the shape that the instruction leaves. Where it can raise an
error, the slots that the innermost handler keeps are still there.
-/

namespace FrameScript

open Script (Unbracketed)

def ShapeAt (code : List Point) (pc : Nat) (sh : Shape) : Prop := ∃ i, code[pc]? = some ⟨sh, i⟩

/-- The innermost handler of the frame keeps slots that are in place. -/
def Guards (catches : List Catch) (slots : List SlotKind) : Prop :=
  ∀ c ∈ catches.head?, c.slots <:+ slots

theorem Guards.push {catches : List Catch} {slots : List SlotKind} (h : Guards catches slots)
    (k : SlotKind) : Guards catches (k :: slots) :=
  fun c mem => (h c mem).trans (List.suffix_cons k slots)

def Value.IsLiteral : Value → Prop
  | .null | .bool _ | .num _ | .str _ => True
  | _ => False

/-- An instruction of the layout fits the shape before it and the shapes that follow. -/
def Point.Flows (code : List Point) (pc : Nat) : Point → Prop
  | ⟨⟨slots, catches⟩, i⟩ =>
    let next (slots : List SlotKind) := ShapeAt code (pc + 1) ⟨slots, catches⟩
    match i with
    | .push v => v.IsLiteral ∧
      (next (.plain :: slots) ∨ (∃ x, v = .num x) ∧ next (.position :: slots))
    | .pop => ∃ k rest, slots = k :: rest ∧ next rest
    | .popN n => n ≤ slots.length ∧ next (slots.drop n)
    | .getLocal slot => slot < slots.length ∧ next (.plain :: slots)
    | .setLocal slot => ∃ k rest, slots = k :: rest ∧ rest.reverse[slot]? = some .plain ∧ next rest
    | .getGlobal _ => Guards catches slots ∧ next (.plain :: slots)
    | .setGlobal _ => ∃ k rest, slots = k :: rest ∧ next rest
    | .makeList n => n ≤ slots.length ∧ next (.plain :: slots.drop n)
    | .makeObject keys => keys.length ≤ slots.length ∧ next (.plain :: slots.drop keys.length)
    | .getMember _ | .unary _ =>
      ∃ k rest, slots = k :: rest ∧ Guards catches rest ∧ next (.plain :: rest)
    | .getIndex | .binary _ =>
      ∃ k l rest, slots = k :: l :: rest ∧ Guards catches rest ∧ next (.plain :: rest)
    | .setMember _ => ∃ k l rest, slots = k :: l :: rest ∧ Guards catches rest ∧ next rest
    | .setIndex => ∃ k l m rest, slots = k :: l :: m :: rest ∧ Guards catches rest ∧ next rest
    | .jump target => ShapeAt code target ⟨slots, catches⟩
    | .jumpIfFalse target =>
      ∃ k rest, slots = k :: rest ∧ next rest ∧ ShapeAt code target ⟨rest, catches⟩
    | .jumpIfFalseKeep target | .jumpIfTrueKeep target =>
      ∃ k rest, slots = k :: rest ∧ next rest ∧ ShapeAt code target ⟨slots, catches⟩
    | .call argc => argc < slots.length ∧ Guards catches (slots.drop (argc + 1)) ∧
      next (.plain :: slots.drop (argc + 1))
    | .ret => ∃ k rest, slots = k :: rest
    | .iterNext list index exit => list < slots.length ∧
      slots.reverse[index]? = some .position ∧ Guards catches slots ∧ next (.plain :: slots) ∧
      ShapeAt code exit ⟨slots, catches⟩
    | .pushHandler target => ShapeAt code (pc + 1) ⟨slots, ⟨target, slots⟩ :: catches⟩ ∧
      ShapeAt code target ⟨.plain :: slots, catches⟩
    | .popHandler => ∃ c outer, catches = c :: outer ∧ ShapeAt code (pc + 1) ⟨slots, outer⟩
    | .throw => ∃ k rest, slots = k :: rest ∧ Guards catches rest

theorem Placed.shapeAt {code rest : List Point} {p : Point} {pc : Nat}
    (h : Placed code pc (p :: rest)) : ShapeAt code pc p.shape := ⟨p.instr, h.head⟩

def Flowing (code : List Point) (pc : Nat) (part : List Point) : Prop :=
  ∀ (i : Nat) (p : Point), part[i]? = some p → p.Flows code (pc + i)

namespace Flowing

variable {code first second : List Point} {p : Point} {pc n : Nat}

theorem nil (code : List Point) (pc : Nat) : Flowing code pc [] := by
  intro i p h
  simp at h

theorem cons (h : p.Flows code pc) (k : Flowing code (pc + 1) first) :
    Flowing code pc (p :: first) := by
  intro i q eq
  cases i with
  | zero =>
    cases eq
    exact h
  | succ i =>
    have := k i q (by simpa using eq)
    rwa [Nat.add_assoc, Nat.add_comm 1 i] at this

theorem single (h : p.Flows code pc) : Flowing code pc [p] := cons h (nil code (pc + 1))

theorem append (h : Flowing code pc first) (k : Flowing code (pc + first.length) second) :
    Flowing code pc (first ++ second) := by
  induction first generalizing pc with
  | nil => simpa using k
  | cons q rest ih =>
    refine cons (h 0 q rfl) (ih ?_ ?_)
    · intro i p eq
      have := h (i + 1) p (by simpa using eq)
      rwa [Nat.add_comm i 1, ← Nat.add_assoc] at this
    · rwa [List.length_cons, Nat.add_comm rest.length 1, ← Nat.add_assoc] at k

theorem join (h : Flowing code pc first) (size : first.length = n)
    (k : Flowing code (pc + n) second) : Flowing code pc (first ++ second) :=
  h.append (size ▸ k)

end Flowing

theorem slotIn?_lt {name : String} {scope : List Slot} {slot : Nat}
    (h : slotIn? name scope = some slot) : slot < scope.length := by
  induction scope with
  | nil => cases h
  | cons s earlier ih =>
    rw [slotIn?] at h
    split at h
    · cases h
      simp
    · have := ih h
      simp only [List.length_cons]
      omega

theorem slotIn?_kind {name : String} {scope : List Slot} {slot : Nat}
    (h : slotIn? name scope = some slot) :
    ∃ s ∈ scope, s.name = name ∧ (scope.map (·.kind)).reverse[slot]? = some s.kind := by
  induction scope with
  | nil => cases h
  | cons s earlier ih =>
    rw [slotIn?] at h
    split at h
    · rename_i same
      cases h
      exact ⟨s, List.mem_cons_self, same, by simp⟩
    · obtain ⟨t, mem, same, kind⟩ := ih h
      refine ⟨t, List.mem_cons_of_mem s mem, same, ?_⟩
      have bound := slotIn?_lt h
      rw [List.map_cons, List.reverse_cons, List.getElem?_append_left (by simpa using bound)]
      exact kind

theorem positionName_bracketed : ¬ Unbracketed Site.positionName := by
  unfold Unbracketed
  decide

namespace Expr

mutual

theorem points_head (scope : List Slot) (pc : Nat) (sh : Shape) :
    (e : Expr) → ∃ i rest, e.points scope pc sh = ⟨sh, i⟩ :: rest
  | null | bool _ | num _ | str _ | ident _ => ⟨_, _, rfl⟩
  | list items => by
    rcases pointsAll_head scope pc sh items with rfl | ⟨i, rest, eq⟩
    · exact ⟨_, _, rfl⟩
    · exact ⟨_, _, by rw [points, eq]; rfl⟩
  | object fields => by
    rcases pointsFields_head scope pc sh fields with rfl | ⟨i, rest, eq⟩
    · exact ⟨_, _, rfl⟩
    · exact ⟨_, _, by rw [points, eq]; rfl⟩
  | member e _ => by
    obtain ⟨i, rest, eq⟩ := points_head scope pc sh e
    exact ⟨_, _, by rw [points, eq]; rfl⟩
  | index e _ => by
    obtain ⟨i, rest, eq⟩ := points_head scope pc sh e
    exact ⟨_, _, by rw [points, eq]; rfl⟩
  | call callee _ _ => by
    obtain ⟨i, rest, eq⟩ := points_head scope pc sh callee
    exact ⟨_, _, by rw [points, eq]; rfl⟩
  | unary _ operand => by
    obtain ⟨i, rest, eq⟩ := points_head scope pc sh operand
    exact ⟨_, _, by rw [points, eq]; rfl⟩
  | binary _ left _ => by
    obtain ⟨i, rest, eq⟩ := points_head scope pc sh left
    exact ⟨_, _, by rw [points, eq]; rfl⟩
  | logical op left _ => by
    obtain ⟨i, rest, eq⟩ := points_head scope pc sh left
    cases op <;> exact ⟨_, _, by rw [points, eq]; rfl⟩

theorem pointsAll_head (scope : List Slot) (pc : Nat) (sh : Shape) :
    (es : List Expr) → es = [] ∨ ∃ i rest, pointsAll scope pc sh es = ⟨sh, i⟩ :: rest
  | [] => .inl rfl
  | e :: _ => by
    obtain ⟨i, rest, eq⟩ := points_head scope pc sh e
    exact .inr ⟨_, _, by rw [pointsAll, eq]; rfl⟩

theorem pointsFields_head (scope : List Slot) (pc : Nat) (sh : Shape) :
    (fields : List (String × Expr)) →
      fields = [] ∨ ∃ i rest, pointsFields scope pc sh fields = ⟨sh, i⟩ :: rest
  | [] => .inl rfl
  | (_, e) :: _ => by
    obtain ⟨i, rest, eq⟩ := points_head scope pc sh e
    exact .inr ⟨_, _, by rw [pointsFields, eq]; rfl⟩

end

theorem points_entry {code : List Point} {scope : List Slot} {pc : Nat} {sh : Shape} (e : Expr)
    (placed : Placed code pc (e.points scope pc sh)) : ShapeAt code pc sh := by
  obtain ⟨i, rest, eq⟩ := points_head scope pc sh e
  rw [eq] at placed
  exact placed.shapeAt

mutual

theorem points_flowing {code : List Point} {scope : List Slot} {pc : Nat} {sh : Shape}
    (guard : Guards sh.catches sh.slots) (low : scope.length ≤ sh.slots.length) :
    (e : Expr) → Placed code pc (e.points scope pc sh) → ShapeAt code (pc + e.size) sh.push →
      Flowing code pc (e.points scope pc sh)
  | null, _, exit | bool _, _, exit | num _, _, exit | str _, _, exit =>
    .single ⟨trivial, .inl exit⟩
  | list items, placed, exit => by
    have made := placed.behind (length_pointsAll ..)
    refine (pointsAll_flowing guard low items placed.left made.shapeAt).join
      (length_pointsAll ..) (.single ?_)
    exact ⟨by simp, by simpa [size, Shape.push, Nat.add_assoc] using exit⟩
  | object fields, placed, exit => by
    have made := placed.behind (length_pointsFields ..)
    refine (pointsFields_flowing guard low fields placed.left made.shapeAt).join
      (length_pointsFields ..) (.single ?_)
    exact ⟨by simp, by simpa [size, Shape.push, Nat.add_assoc] using exit⟩
  | ident name, placed, exit => by
    refine .single ?_
    unfold loadInstr
    cases found : slotIn? name scope with
    | none => exact ⟨guard, exit⟩
    | some slot => exact ⟨Nat.lt_of_lt_of_le (slotIn?_lt found) low, exit⟩
  | member e _, placed, exit | unary _ e, placed, exit => by
    have last := placed.behind (length_points ..)
    exact (points_flowing guard low e placed.left last.shapeAt).join (length_points ..)
      (.single ⟨_, _, rfl, guard, exit⟩)
  | index left right, placed, exit | binary _ left right, placed, exit => by
    have second := placed.behind (length_points ..)
    have last := second.behind (length_points ..)
    have first := points_flowing guard low left placed.left (points_entry right second.left)
    have other := points_flowing (guard.push _) (Nat.le_succ_of_le low) right second.left
      last.shapeAt
    refine first.join (length_points ..) (other.join (length_points ..) (.single ?_))
    exact ⟨_, _, _, rfl, guard, by simpa [size, Shape.push, Nat.add_assoc] using exit⟩
  | call callee args _, placed, exit => by
    have second := placed.behind (length_points ..)
    have last := second.behind (length_pointsAll ..)
    have entry : ShapeAt code (pc + callee.size) sh.push := by
      rcases pointsAll_head scope (pc + callee.size) sh.push args with rfl | ⟨i, rest, eq⟩
      · exact last.shapeAt
      · have begun := second.left
        rw [eq] at begun
        exact begun.shapeAt
    have first := points_flowing guard low callee placed.left entry
    have others := pointsAll_flowing (guard.push _) (Nat.le_succ_of_le low) args second.left
      last.shapeAt
    refine first.join (length_points ..) (others.join (length_pointsAll ..) (.single ?_))
    have dropped : (List.replicate args.length SlotKind.plain ++ .plain :: sh.slots).drop
        (args.length + 1) = sh.slots := by
      rw [← List.drop_drop]
      simp
    refine ⟨by simp, ?_, ?_⟩
    · simpa [dropped] using guard
    · simpa [dropped, size, Shape.push, Nat.add_assoc] using exit
  | logical op left right, placed, exit => by
    have second := placed.behind (length_points ..)
    have other := points_entry right second.tail
    have ends : ShapeAt code (pc + left.size + 1 + right.size) sh.push := by
      simpa [size, Nat.add_assoc] using exit
    refine (points_flowing guard low left placed.left second.shapeAt).join (length_points ..)
      (.cons ?_ (points_flowing guard low right second.tail ends))
    cases op with
    | and => exact ⟨_, _, rfl, other, exit⟩
    | or => exact ⟨_, _, rfl, other, exit⟩

theorem pointsAll_flowing {code : List Point} {scope : List Slot} {pc : Nat} {sh : Shape}
    (guard : Guards sh.catches sh.slots) (low : scope.length ≤ sh.slots.length) :
    (es : List Expr) → Placed code pc (pointsAll scope pc sh es) →
      ShapeAt code (pc + sizes es) (sh.pushMany es.length) →
      Flowing code pc (pointsAll scope pc sh es)
  | [], _, _ => .nil code pc
  | e :: rest, placed, exit => by
    have second := placed.behind (length_points ..)
    have ends : ShapeAt code (pc + e.size + sizes rest) (sh.push.pushMany rest.length) := by
      simpa [sizes, Shape.pushMany_push, Nat.add_assoc] using exit
    have entry : ShapeAt code (pc + e.size) sh.push := by
      rcases pointsAll_head scope (pc + e.size) sh.push rest with rfl | ⟨i, others, eq⟩
      · exact ends
      · rw [eq] at second
        exact second.shapeAt
    exact (points_flowing guard low e placed.left entry).join (length_points ..)
      (pointsAll_flowing (guard.push _) (Nat.le_succ_of_le low) rest second ends)

theorem pointsFields_flowing {code : List Point} {scope : List Slot} {pc : Nat} {sh : Shape}
    (guard : Guards sh.catches sh.slots) (low : scope.length ≤ sh.slots.length) :
    (fields : List (String × Expr)) → Placed code pc (pointsFields scope pc sh fields) →
      ShapeAt code (pc + fieldSizes fields) (sh.pushMany fields.length) →
      Flowing code pc (pointsFields scope pc sh fields)
  | [], _, _ => .nil code pc
  | (_, e) :: rest, placed, exit => by
    have second := placed.behind (length_points ..)
    have ends : ShapeAt code (pc + e.size + fieldSizes rest) (sh.push.pushMany rest.length) := by
      simpa [fieldSizes, Shape.pushMany_push, Nat.add_assoc] using exit
    have entry : ShapeAt code (pc + e.size) sh.push := by
      rcases pointsFields_head scope (pc + e.size) sh.push rest with rfl | ⟨i, others, eq⟩
      · exact ends
      · rw [eq] at second
        exact second.shapeAt
    exact (points_flowing guard low e placed.left entry).join (length_points ..)
      (pointsFields_flowing (guard.push _) (Nat.le_succ_of_le low) rest second ends)

end

end Expr

namespace Site

/-- What holds of every place in a body: positions have their hidden name, the innermost
handler keeps a part of the slots, and the loop around begins and ends as it should. -/
structure Sound (code : List Point) (c : Site) : Prop where
  nested : c.Nested
  hidden : ∀ s ∈ c.scope, s.kind = .position → s.name = positionName
  guard : Guards c.catches c.shape.slots
  start : ∀ l, c.loop = some l → ShapeAt code l.start ⟨l.scope.map (·.kind), l.catches⟩
  exit : ∀ l, c.loop = some l → ShapeAt code l.exit ⟨l.scope.map (·.kind), l.catches⟩

namespace Sound

variable {code : List Point} {c : Site}

theorem inner (h : c.Sound code) : c.inner.Sound code :=
  ⟨h.nested.inner, h.hidden, h.guard, h.start, h.exit⟩

theorem declare (h : c.Sound code) (name : String) (kind : SlotKind)
    (ok : kind = .position → name = positionName) : (c.declare name kind).Sound code where
  nested := h.nested.declare name kind
  hidden := by
    intro s mem eq
    rcases List.mem_cons.mp mem with rfl | mem
    · exact ok eq
    · exact h.hidden s mem eq
  guard := h.guard.push kind
  start := h.start
  exit := h.exit

theorem inTry (h : c.Sound code) (target : Nat) : (c.inTry target).Sound code where
  nested := h.nested.inTry target
  hidden := h.hidden
  guard := by
    intro k mem
    cases mem
    exact List.suffix_refl _
  start := h.start
  exit := h.exit

theorem inLoop (h : c.Sound code) {start exit : Nat} (begins : ShapeAt code start c.shape)
    (ends : ShapeAt code exit c.shape) : (c.inLoop start exit).Sound code where
  nested := Nested.inLoop c start exit
  hidden := h.hidden
  guard := h.guard
  start := by
    intro l eq
    cases eq
    exact begins
  exit := by
    intro l eq
    cases eq
    exact ends

theorem after (h : c.Sound code) (s : Stmt) : (c.after s).Sound code := by
  cases s <;> try exact h
  case declare line name value =>
    rw [Site.after]
    split
    · exact h
    · exact h.declare name .plain nofun

end Sound

theorem scope_after (c : Site) (s : Stmt) : c.scope <:+ (c.after s).scope := by
  cases s <;> try exact List.suffix_refl _
  case declare line name value =>
    rw [after]
    split
    · exact List.suffix_refl _
    · exact List.suffix_cons _ _

theorem scope_afterAll (c : Site) (body : List Stmt) : c.scope <:+ (c.afterAll body).scope := by
  induction body generalizing c with
  | nil => exact List.suffix_refl _
  | cons s rest ih => exact (c.scope_after s).trans (ih (c.after s))

theorem catches_afterAll (c : Site) (body : List Stmt) :
    (c.afterAll body).catches = c.catches := by
  induction body generalizing c with
  | nil => rfl
  | cons s rest ih => exact (ih (c.after s)).trans (c.after_catches s)

theorem drop_kinds {inside outside : List Slot} (h : outside <:+ inside) :
    (inside.map (·.kind)).drop (inside.length - outside.length) = outside.map (·.kind) := by
  obtain ⟨added, rfl⟩ := h
  simp

section

variable {code : List Point} {pc : Nat} {inside outside : Site}

theorem closePoints_entry (grown : outside.scope <:+ inside.scope)
    (catches : inside.catches = outside.catches)
    (placed : Placed code pc (closePoints inside outside))
    (exit : ShapeAt code (pc + (closePoints inside outside).length) outside.shape) :
    ShapeAt code pc inside.shape := by
  unfold closePoints at placed exit
  split at placed
  · rename_i same
    rw [if_pos same] at exit
    rw [shape, catches, ← grown.eq_of_length same.symm]
    exact exit
  · exact placed.shapeAt

theorem closePoints_flowing (grown : outside.scope <:+ inside.scope)
    (catches : inside.catches = outside.catches)
    (exit : ShapeAt code (pc + (closePoints inside outside).length) outside.shape) :
    Flowing code pc (closePoints inside outside) := by
  unfold closePoints at exit ⊢
  split
  · exact .nil code pc
  · rename_i same
    rw [if_neg same] at exit
    refine .single ⟨?_, ?_⟩
    · simp
    · simp only [drop_kinds grown, catches]
      exact exit

/-- The end of a scope: its statements stop at the shape inside it, and the locals are
dropped. -/
theorem scope_exit (inside outside : Site) {done : Nat} (scope : outside.scope <:+ inside.scope)
    (catches : inside.catches = outside.catches) (body : List Stmt)
    (placed : Placed code pc (closePoints (inside.afterAll body) outside))
    (ends : pc + (closePoints (inside.afterAll body) outside).length = done)
    (exit : ShapeAt code done outside.shape) :
    ShapeAt code pc (inside.afterAll body).shape ∧
      Flowing code pc (closePoints (inside.afterAll body) outside) := by
  subst ends
  have grown := scope.trans (inside.scope_afterAll body)
  have same := (inside.catches_afterAll body).trans catches
  exact ⟨closePoints_entry grown same placed exit, closePoints_flowing grown same exit⟩

theorem removePoints_entry {slots : List SlotKind} {count : Nat} {catches : List Catch}
    (placed : Placed code pc (removePoints slots count catches))
    (exit : ShapeAt code (pc + count) ⟨slots, catches.drop count⟩) :
    ShapeAt code pc ⟨slots, catches⟩ := by
  cases count with
  | zero => exact exit
  | succ count => exact placed.shapeAt

theorem removePoints_flowing {slots : List SlotKind} {count : Nat} {catches : List Catch}
    (enough : count ≤ catches.length) (placed : Placed code pc (removePoints slots count catches))
    (exit : ShapeAt code (pc + count) ⟨slots, catches.drop count⟩) :
    Flowing code pc (removePoints slots count catches) := by
  induction count generalizing pc catches with
  | zero => exact .nil code pc
  | succ count ih =>
    cases catches with
    | nil => simp at enough
    | cons c outer =>
      have ends : ShapeAt code (pc + 1 + count) ⟨slots, outer.drop count⟩ := by
        rwa [Nat.add_assoc, Nat.add_comm 1 count]
      exact .cons ⟨c, outer, rfl, removePoints_entry placed.tail ends⟩
        (ih (by simpa using enough) placed.tail ends)

/-- What a loop's body has added, up to the locals and then up to the handlers. -/
theorem unwindPoints_split {c : Site} {loop : LoopSite} (catches : loop.catches <:+ c.catches)
    (placed : Placed code pc (c.unwindPoints loop))
    (exit : ShapeAt code (pc + (c.unwindPoints loop).length)
      ⟨loop.scope.map (·.kind), loop.catches⟩) :
    ∃ middle, middle = pc + (if c.scope.length = loop.scope.length then 0 else 1) ∧
      Placed code middle (removePoints (loop.scope.map (·.kind))
        (c.catches.length - loop.catches.length) c.catches) ∧
      ShapeAt code (middle + (c.catches.length - loop.catches.length))
        ⟨loop.scope.map (·.kind), c.catches.drop (c.catches.length - loop.catches.length)⟩ := by
  have kept : c.catches.drop (c.catches.length - loop.catches.length) = loop.catches := by
    obtain ⟨added, eq⟩ := catches
    simp [← eq]
  refine ⟨_, rfl, ?_, ?_⟩
  · have removed := placed.right
    by_cases same : c.scope.length = loop.scope.length
    · simpa [same] using removed
    · simpa [same] using removed
  · rw [kept]
    by_cases same : c.scope.length = loop.scope.length
    · simpa [unwindPoints, same] using exit
    · simpa [unwindPoints, same, Nat.add_assoc, Nat.add_comm, Nat.add_left_comm] using exit

theorem unwindPoints_entry {c : Site} {loop : LoopSite} (scope : loop.scope <:+ c.scope)
    (catches : loop.catches <:+ c.catches) (placed : Placed code pc (c.unwindPoints loop))
    (exit : ShapeAt code (pc + (c.unwindPoints loop).length)
      ⟨loop.scope.map (·.kind), loop.catches⟩) : ShapeAt code pc c.shape := by
  obtain ⟨middle, eq, removed, ends⟩ := unwindPoints_split catches placed exit
  have entry := removePoints_entry removed ends
  by_cases same : c.scope.length = loop.scope.length
  · rw [if_pos same] at eq
    subst eq
    rw [shape, ← scope.eq_of_length same.symm]
    exact entry
  · have first := placed.left
    rw [if_neg same] at first
    exact first.shapeAt

theorem unwindPoints_flowing {c : Site} {loop : LoopSite} (scope : loop.scope <:+ c.scope)
    (catches : loop.catches <:+ c.catches) (placed : Placed code pc (c.unwindPoints loop))
    (exit : ShapeAt code (pc + (c.unwindPoints loop).length)
      ⟨loop.scope.map (·.kind), loop.catches⟩) : Flowing code pc (c.unwindPoints loop) := by
  obtain ⟨middle, eq, removed, ends⟩ := unwindPoints_split catches placed exit
  have entry := removePoints_entry removed ends
  have flowing := removePoints_flowing (Nat.sub_le _ _) removed ends
  unfold unwindPoints
  by_cases same : c.scope.length = loop.scope.length
  · rw [if_pos same] at eq ⊢
    subst eq
    exact flowing
  · rw [if_neg same] at eq ⊢
    subst eq
    refine .append (.single ⟨by simp, ?_⟩) flowing
    simp only [drop_kinds scope]
    exact entry

theorem leavePoints_entry {c : Site} {loop : LoopSite} {target : Nat}
    (scope : loop.scope <:+ c.scope) (catches : loop.catches <:+ c.catches)
    (placed : Placed code pc (c.leavePoints loop target)) : ShapeAt code pc c.shape :=
  unwindPoints_entry scope catches placed.left placed.right.shapeAt

/-- A jump out of a loop's body reaches the slots and handlers of the loop. -/
theorem leavePoints_flowing {c : Site} {loop : LoopSite} {target : Nat}
    (scope : loop.scope <:+ c.scope) (catches : loop.catches <:+ c.catches)
    (placed : Placed code pc (c.leavePoints loop target))
    (there : ShapeAt code target ⟨loop.scope.map (·.kind), loop.catches⟩) :
    Flowing code pc (c.leavePoints loop target) :=
  .append (unwindPoints_flowing scope catches placed.left placed.right.shapeAt) (.single there)

end

theorem Sound.leave_flowing {code : List Point} {c : Site} {pc : Nat} {target : LoopSite → Nat}
    (sound : c.Sound code)
    (there : ∀ l, c.loop = some l → ShapeAt code (target l) ⟨l.scope.map (·.kind), l.catches⟩)
    (placed : Placed code pc ((c.loop.map fun l => c.leavePoints l (target l)).getD [])) :
    Flowing code pc ((c.loop.map fun l => c.leavePoints l (target l)).getD []) := by
  cases site : c.loop with
  | none => exact .nil code pc
  | some loop =>
    simp only [site, Option.map_some, Option.getD_some] at placed ⊢
    have within := sound.nested loop site
    exact leavePoints_flowing within.1 within.2 placed (there loop site)

end Site

namespace Expr

theorem optionPoints_entry {code : List Point} {scope : List Slot} {pc : Nat} {sh : Shape}
    (value : Option Expr) (placed : Placed code pc (optionPoints scope pc sh value)) :
    ShapeAt code pc sh := by
  cases value with
  | none => exact placed.shapeAt
  | some e => exact points_entry e placed

theorem optionPoints_flowing {code : List Point} {scope : List Slot} {pc : Nat} {sh : Shape}
    (guard : Guards sh.catches sh.slots) (low : scope.length ≤ sh.slots.length)
    (value : Option Expr) (placed : Placed code pc (optionPoints scope pc sh value))
    (exit : ShapeAt code (pc + optionSize value) sh.push) :
    Flowing code pc (optionPoints scope pc sh value) := by
  cases value with
  | none => exact .single ⟨trivial, .inl exit⟩
  | some e => exact points_flowing guard low e placed exit

end Expr

namespace Site

theorem low (c : Site) : c.scope.length ≤ c.shape.slots.length := by simp [shape]

end Site

namespace Target

theorem points_entry {code : List Point} {c : Site} {pc : Nat} {value : Expr} (t : Target)
    (placed : Placed code pc (t.points c pc value)) : ShapeAt code pc c.shape := by
  cases t with
  | ident name => exact Expr.points_entry value placed.left
  | member object name => exact Expr.points_entry object placed.left
  | index object position => exact Expr.points_entry object placed.left

theorem points_flowing {code : List Point} {c : Site} {pc : Nat} {value : Expr}
    (sound : c.Sound code) (t : Target) (uses : t.Uses Unbracketed)
    (placed : Placed code pc (t.points c pc value))
    (exit : ShapeAt code (pc + t.size value) c.shape) :
    Flowing code pc (t.points c pc value) := by
  cases t with
  | ident name =>
    have last := placed.behind (Expr.length_points ..)
    refine (Expr.points_flowing sound.guard c.low value placed.left last.shapeAt).join
      (Expr.length_points ..) (.single ?_)
    unfold storeInstr
    cases found : slotIn? name c.scope with
    | none => exact ⟨_, _, rfl, exit⟩
    | some slot =>
      obtain ⟨s, mem, same, kind⟩ := slotIn?_kind found
      refine ⟨_, _, rfl, ?_, exit⟩
      cases plain : s.kind with
      | plain => rw [← plain]; exact kind
      | position =>
        have hidden := sound.hidden s mem plain
        rw [same] at hidden
        subst hidden
        exact absurd uses positionName_bracketed
  | member object name =>
    have second := placed.behind (Expr.length_points ..)
    have last := second.behind (Expr.length_points ..)
    have exit' : ShapeAt code (pc + object.size + value.size + 1) c.shape := by
      simpa [size, Nat.add_assoc] using exit
    have objects := Expr.points_flowing sound.guard c.low object placed.left
      (Expr.points_entry value second.left)
    have values := Expr.points_flowing (sound.guard.push _) (Nat.le_succ_of_le c.low) value
      second.left last.shapeAt
    exact objects.join (Expr.length_points ..) (values.join (Expr.length_points ..)
      (.single ⟨_, _, _, rfl, sound.guard, exit'⟩))
  | index object position =>
    have second := placed.behind (Expr.length_points ..)
    have third := second.behind (Expr.length_points ..)
    have last := third.behind (Expr.length_points ..)
    have exit' : ShapeAt code (pc + object.size + position.size + value.size + 1) c.shape := by
      simpa [size, Nat.add_assoc] using exit
    have objects := Expr.points_flowing sound.guard c.low object placed.left
      (Expr.points_entry position second.left)
    have positions := Expr.points_flowing (sound.guard.push _) (Nat.le_succ_of_le c.low) position
      second.left (Expr.points_entry value third.left)
    have values := Expr.points_flowing ((sound.guard.push _).push _)
      (Nat.le_succ_of_le (Nat.le_succ_of_le c.low)) value third.left last.shapeAt
    exact objects.join (Expr.length_points ..) (positions.join (Expr.length_points ..)
      (values.join (Expr.length_points ..) (.single ⟨_, _, _, _, rfl, sound.guard, exit'⟩)))

end Target

namespace Stmt

mutual

theorem points_entry {code : List Point} {c : Site} {pc : Nat} (nested : c.Nested) :
    (s : Stmt) → Placed code pc (s.points c pc) →
      ShapeAt code (pc + s.size c.extent) (c.after s).shape → ShapeAt code pc c.shape
  | block _ body, placed, exit => by
    have parts := block_parts placed
    obtain ⟨leaves, -⟩ := Site.scope_exit c.inner c (List.suffix_refl _) rfl body parts.closes
      parts.ends exit
    change ShapeAt code pc c.inner.shape
    exact pointsAll_entry nested.inner body parts.inside leaves
  | declare _ _ value, placed, _ => Expr.optionPoints_entry value placed.left
  | assign _ target _, placed, _ => target.points_entry placed
  | ifThen _ test _, placed, _ => Expr.points_entry test placed.left
  | ifThenElse _ test _ _, placed, _ => Expr.points_entry test placed.left
  | «while» _ test _, placed, _ => Expr.points_entry test placed.left
  | forOf _ _ iterable _, placed, _ => Expr.points_entry iterable placed.left
  | tryCatch _ _ _ _, placed, _ => placed.shapeAt
  | «return» _ value, placed, _ => Expr.optionPoints_entry value placed.left
  | throw _ value, placed, _ => Expr.points_entry value placed.left
  | «break» _, placed, exit | «continue» _, placed, exit => by
    cases site : c.loop with
    | none =>
      change ShapeAt code _ c.shape at exit
      simpa [size, Site.extent, site] using exit
    | some loop =>
      simp only [points, site, Option.map_some, Option.getD_some] at placed
      exact Site.leavePoints_entry (nested loop site).1 (nested loop site).2 placed
  | expr _ value, placed, _ => Expr.points_entry value placed.left

theorem pointsAll_entry {code : List Point} {c : Site} {pc : Nat} (nested : c.Nested) :
    (body : List Stmt) → Placed code pc (pointsAll c pc body) →
      ShapeAt code (pc + sizes c.extent body) (c.afterAll body).shape → ShapeAt code pc c.shape
  | [], _, exit => exit
  | s :: rest, placed, exit => by
    have others := placed.behind (length_points ..)
    refine points_entry nested s placed.left (pointsAll_entry (nested.after s) rest others ?_)
    change ShapeAt code _ ((c.after s).afterAll rest).shape at exit
    simpa [sizes, Nat.add_assoc] using exit

end

mutual

/-- Every instruction of a statement flows, if the shape after the statement is right. The parts
are followed from the last one back, since each has to leave the shape that the next one has. -/
theorem points_flowing {code : List Point} {c : Site} {pc : Nat} (sound : c.Sound code) :
    (s : Stmt) → s.Uses Unbracketed → Placed code pc (s.points c pc) →
      ShapeAt code (pc + s.size c.extent) (c.after s).shape → Flowing code pc (s.points c pc)
  | block _ body, uses, placed, exit => by
    have parts := block_parts placed
    obtain ⟨leaves, closes⟩ := Site.scope_exit c.inner c (List.suffix_refl _) rfl body parts.closes
      parts.ends exit
    exact (pointsAll_flowing sound.inner body uses parts.inside leaves).join
      (length_pointsAll ..) closes
  | declare _ name value, uses, placed, exit => by
    by_cases top : c.global
    · simp only [points, top, if_true] at placed ⊢
      have last := placed.behind (Expr.length_optionPoints ..)
      refine .append (Expr.optionPoints_flowing sound.guard c.low value placed.left
        last.shapeAt) (.single ⟨_, _, rfl, ?_⟩)
      simpa [Site.after, size, top, Site.extent, Nat.add_assoc] using exit
    · simp only [points, if_neg top, List.append_nil] at placed ⊢
      refine Expr.optionPoints_flowing sound.guard c.low value placed ?_
      change ShapeAt code _ (c.declare name .plain).shape
      simpa [Site.after, size, top, Site.extent] using exit
  | assign _ target _, uses, placed, exit => target.points_flowing sound uses.1 placed exit
  | ifThen _ test body, uses, placed, exit => by
    have parts := ifThen_parts placed
    obtain ⟨leaves, closes⟩ := Site.scope_exit c.inner c (List.suffix_refl _) rfl [body]
      parts.closes parts.ends exit
    have entry := points_entry sound.nested.inner body parts.inside leaves
    have tests := Expr.points_flowing sound.guard c.low test parts.tests parts.jumps.shapeAt
    have inside := points_flowing sound.inner body uses.2 parts.inside leaves
    rw [points_ifThen]
    exact tests.join (Expr.length_points ..)
      (.cons ⟨_, _, rfl, entry, exit⟩ (inside.join (length_points ..) closes))
  | ifThenElse _ test body otherwise, uses, placed, exit => by
    obtain ⟨other, begins⟩ : ∃ other, pc + test.size + 1 +
        (body.size c.extent.inner + closeSize [body]) + 1 = other := ⟨_, rfl⟩
    have parts := ifThenElse_parts begins placed
    obtain ⟨leaves, (closes : Flowing code _ (Site.closePoints (c.inner.after body) c))⟩ :=
      Site.scope_exit c.inner c (List.suffix_refl _) rfl [body] parts.closes rfl
        parts.leaves.shapeAt
    obtain ⟨leaves', closes'⟩ := Site.scope_exit c.inner c (List.suffix_refl _) rfl [otherwise]
      parts.closes' parts.ends exit
    have entry := points_entry sound.nested.inner body parts.inside leaves
    have entry' := points_entry sound.nested.inner otherwise parts.inside' leaves'
    have tests := Expr.points_flowing sound.guard c.low test parts.tests parts.jumps.shapeAt
    have inside := points_flowing sound.inner body uses.2.1 parts.inside leaves
    have inside' := points_flowing sound.inner otherwise uses.2.2 parts.inside' leaves'
    have second := inside'.join (length_points ..) closes'
    rw [points_ifThenElse c pc _ test body otherwise begins]
    refine tests.join (Expr.length_points ..) (.cons ⟨_, _, rfl, entry, entry'⟩
      (inside.join (length_points ..) (closes.append (.cons exit ?_))))
    rw [parts.begins]
    exact second
  | «while» _ test body, uses, placed, exit => by
    obtain ⟨stop, exits⟩ : ∃ stop, pc + («while» _ test body).size c.extent = stop := ⟨_, rfl⟩
    have parts := while_parts exits placed
    rw [exits] at exit
    have starts := Expr.points_entry test parts.tests
    have round := (sound.inLoop starts exit).inner
    obtain ⟨leaves, closes⟩ := Site.scope_exit (c.inLoop pc stop).inner c (List.suffix_refl _) rfl
      [body] parts.closes rfl parts.back.shapeAt
    have entry := points_entry round.nested body parts.inside leaves
    have tests := Expr.points_flowing sound.guard c.low test parts.tests parts.jumps.shapeAt
    have inside := points_flowing round body uses.2 parts.inside leaves
    rw [points_while c pc _ test body exits]
    exact tests.join (Expr.length_points ..) (.cons ⟨_, _, rfl, entry, exit⟩
      (inside.join (length_points ..) (closes.append (.single starts))))
  | forOf _ name iterable body, uses, placed, exit => by
    obtain ⟨start, begins⟩ : ∃ start, pc + iterable.size + 1 = start := ⟨_, rfl⟩
    obtain ⟨stop, exits⟩ : ∃ stop, start + 1 + (body.size ((c.extent.inner.declare
        2).inLoop.declare 1) + closeSize [body]) + 2 = stop := ⟨_, rfl⟩
    have parts := forOf_parts begins exits placed
    rw [← parts.ends] at exit
    have grown : c.scope <:+ c.inRounds.scope :=
      (List.suffix_cons _ _).trans (List.suffix_cons _ _)
    have item : c.inRounds.scope <:+ ((c.inRounds.inLoop start stop).declare name .plain).scope :=
      List.suffix_cons _ _
    have stops := Site.closePoints_entry grown rfl parts.leaves exit
    have starts : ShapeAt code start c.inRounds.shape := parts.takes.shapeAt
    have around : c.inRounds.Sound code :=
      (sound.inner.declare Site.itemsName .plain nofun).declare Site.positionName .position
        fun _ => rfl
    have round : ((c.inRounds.inLoop start stop).declare name .plain).Sound code :=
      (around.inLoop starts stops).declare name .plain nofun
    obtain ⟨leaves, closes⟩ := Site.scope_exit _ _ (List.suffix_refl _) rfl [body] parts.closes
      rfl (Site.closePoints_entry item rfl parts.drops parts.back.shapeAt)
    have entry := points_entry round.nested body parts.inside leaves
    have iterates := Expr.points_flowing sound.guard c.low iterable parts.iterates
      parts.sets.shapeAt
    have inside := points_flowing round body uses.2 parts.inside leaves
    have drops := Site.closePoints_flowing item rfl parts.back.shapeAt
    have last := Site.closePoints_flowing grown rfl exit
    have takes : Point.Flows code start
        ⟨c.inRounds.shape, .iterNext c.scope.length (c.scope.length + 1) stop⟩ := by
      refine ⟨?_, ?_, around.guard, entry, stops⟩
      · have slots : c.inRounds.shape.slots.length = c.scope.length + 2 := by
          simp [Site.shape, Site.inRounds, Site.inner, Site.declare]
        change c.scope.length < c.inRounds.shape.slots.length
        omega
      · simp [Site.inRounds, Site.inner, Site.declare]
    rw [points_forOf c pc _ name iterable body begins exits]
    refine iterates.join (Expr.length_points ..) (.cons ⟨trivial, .inr ⟨⟨_, rfl⟩, ?_⟩⟩ ?_)
    · rw [begins]
      exact starts
    · rw [begins]
      exact .cons takes (inside.join (length_points ..)
        (closes.append (drops.append (.cons starts (by rw [parts.exits]; exact last)))))
  | tryCatch _ body name handler, uses, placed, exit => by
    obtain ⟨target, begins⟩ : ∃ target, pc + 1 + (sizes c.extent.inner.inTry body +
        closeSize body) + 2 = target := ⟨_, rfl⟩
    have parts := try_parts begins placed
    have grown : c.scope <:+ (c.inner.declare name .plain).scope := List.suffix_cons _ _
    have guarded := sound.inner.inTry target
    have caught := sound.inner.declare name .plain nofun
    obtain ⟨leaves, closes⟩ := Site.scope_exit _ _ (List.suffix_refl _) rfl body parts.closes
      rfl parts.removes.shapeAt
    obtain ⟨leaves', closes'⟩ := Site.scope_exit _ _ grown rfl handler parts.closes'
      parts.ends exit
    have entry := pointsAll_entry guarded.nested body parts.inside leaves
    have entry' := pointsAll_entry caught.nested handler parts.inside' leaves'
    have inside := pointsAll_flowing guarded body uses.1 parts.inside leaves
    have inside' := pointsAll_flowing caught handler uses.2 parts.inside' leaves'
    have handles := inside'.join (length_pointsAll ..) closes'
    rw [points_try c pc _ body name handler begins]
    refine .cons ⟨entry, entry'⟩ (inside.join (length_pointsAll ..) (closes.append
      (.cons ⟨_, _, rfl, parts.removes.tail.shapeAt⟩ (.cons exit ?_))))
    rw [parts.begins]
    exact handles
  | «return» _ value, _, placed, _ => by
    have last := placed.behind (Expr.length_optionPoints ..)
    exact .append (Expr.optionPoints_flowing sound.guard c.low value placed.left last.shapeAt)
      (.single ⟨_, _, rfl⟩)
  | throw _ value, _, placed, _ => by
    have last := placed.behind (Expr.length_points ..)
    exact .append (Expr.points_flowing sound.guard c.low value placed.left last.shapeAt)
      (.single ⟨_, _, rfl, sound.guard⟩)
  | «break» _, _, placed, _ => sound.leave_flowing sound.exit placed
  | «continue» _, _, placed, _ => sound.leave_flowing sound.start placed
  | expr _ value, _, placed, exit => by
    have last := placed.behind (Expr.length_points ..)
    exact (Expr.points_flowing sound.guard c.low value placed.left last.shapeAt).join
      (Expr.length_points ..) (.single ⟨_, _, rfl, exit⟩)

theorem pointsAll_flowing {code : List Point} {c : Site} {pc : Nat} (sound : c.Sound code) :
    (body : List Stmt) → AllUse Unbracketed body → Placed code pc (pointsAll c pc body) →
      ShapeAt code (pc + sizes c.extent body) (c.afterAll body).shape →
      Flowing code pc (pointsAll c pc body)
  | [], _, _, _ => .nil code pc
  | s :: rest, uses, placed, exit => by
    have others := placed.behind (length_points ..)
    have ends : ShapeAt code (pc + s.size c.extent + sizes (c.after s).extent rest)
        ((c.after s).afterAll rest).shape := by
      change ShapeAt code _ ((c.after s).afterAll rest).shape at exit
      simpa [sizes, Nat.add_assoc] using exit
    have entry := pointsAll_entry (sound.after s).nested rest others ends
    exact (points_flowing sound s uses.1 placed.left entry).join (length_points ..)
      (pointsAll_flowing (sound.after s) rest uses.2 others ends)

end

end Stmt

namespace Routine

theorem placed (r : Routine) : Placed r.points 0 (Stmt.pointsAll r.site 0 r.body) ∧
    Placed r.points (Stmt.sizes r.site.extent r.body)
      [⟨r.ending.shape, .push .null⟩, ⟨r.ending.shape.push, .ret⟩] := by
  have whole : Placed r.points 0 r.points := List.prefix_refl _
  have ending := whole.behind (Stmt.length_pointsAll ..)
  rw [Nat.zero_add] at ending
  exact ⟨whole.left, ending⟩

theorem site_sound (r : Routine) : r.site.Sound r.points where
  nested := nofun
  hidden := by
    intro s mem eq
    obtain ⟨p, -, rfl⟩ := List.mem_map.mp mem
    cases eq
  guard := nofun
  start := nofun
  exit := nofun

theorem entry (r : Routine) : ShapeAt r.points 0 r.site.shape := by
  obtain ⟨body, ending⟩ := r.placed
  refine Stmt.pointsAll_entry r.site_sound.nested r.body body ?_
  rw [Nat.zero_add]
  exact ending.shapeAt

/-- Every instruction of a routine flows. -/
theorem flows (r : Routine) (uses : Stmt.AllUse Unbracketed r.body) :
    Flowing r.points 0 r.points := by
  obtain ⟨body, ending⟩ := r.placed
  have leaves : ShapeAt r.points (0 + Stmt.sizes r.site.extent r.body) r.ending.shape := by
    rw [Nat.zero_add]
    exact ending.shapeAt
  refine (Stmt.pointsAll_flowing r.site_sound r.body uses body leaves).join
    (Stmt.length_pointsAll ..) ?_
  rw [Nat.zero_add]
  exact .cons ⟨trivial, .inl ending.tail.shapeAt⟩ (.single ⟨_, _, rfl⟩)

end Routine

end FrameScript
