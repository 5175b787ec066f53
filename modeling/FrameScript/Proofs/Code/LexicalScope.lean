import FrameScript.Proofs.Code.Scoping
import FrameScript.Proofs.Script.Derivation

/-!
# Lexical scope

The builder looks a name up in the locals that it holds. At every place of the text these are the
declarations whose blocks are still open, the latest first, and hidden ones that have no name of the
language; so the slot is the one of the declaration that the use refers to, and the same code comes
of other names.
-/

namespace FrameScript

open Script (Unbracketed)
open Builder (slotOf?)

variable {past events more : List ScopeEvent} {e : ScopeEvent} {i j k depth : Nat} {x : String}
  {l : Local}

theorem count_concat (events : List ScopeEvent) (e e' : ScopeEvent) :
    (events ++ [e]).count e' = events.count e' + if e = e' then 1 else 0 := by
  simp [List.count_singleton]

theorem StillOpen.nil : StillOpen [] := by
  intro front before
  simp [List.prefix_nil.mp before]

theorem stillOpen_concat : StillOpen (events ++ [e]) ↔ StillOpen events ∧
    (events ++ [e]).count .closes ≤ (events ++ [e]).count .opens := by
  constructor
  · intro h
    exact ⟨fun front before => h front (before.trans (List.prefix_append ..)), h _ List.prefix_rfl⟩
  · rintro ⟨h, whole⟩ front before
    rcases List.prefix_concat_iff.mp before with rfl | before
    · exact whole
    · exact h front before

/-- Only a closing end of a block can close one. -/
theorem StillOpen.concat (h : StillOpen events) (other : e ≠ .closes) :
    StillOpen (events ++ [e]) := by
  refine stillOpen_concat.mpr ⟨h, ?_⟩
  have inside := h events List.prefix_rfl
  rw [count_concat, count_concat, if_neg other]
  omega

theorem prefix_cases {front : List ScopeEvent} (before : front <+: events ++ more) :
    front <+: events ∨ ∃ rest, front = events ++ rest ∧ rest <+: more := by
  rcases List.prefix_or_prefix_of_prefix before (List.prefix_append events more) with
    first | ⟨rest, rfl⟩
  · exact .inl first
  · exact .inr ⟨rest, rfl, (List.prefix_append_right_inj events).mp before⟩

/-- As many blocks are closed as are opened, and none that has been open before. -/
structure Balanced (events : List ScopeEvent) : Prop where
  inside : StillOpen events
  level : events.count .closes = events.count .opens

namespace Balanced

theorem nil : Balanced [] := ⟨.nil, rfl⟩

theorem append (h : Balanced events) (k : Balanced more) : Balanced (events ++ more) := by
  refine ⟨fun front before => ?_, ?_⟩
  · rcases prefix_cases before with first | ⟨rest, rfl, second⟩
    · exact h.inside front first
    · have behind := k.inside rest second
      rw [List.count_append, List.count_append, h.level]
      omega
  · rw [List.count_append, List.count_append, h.level, k.level]

theorem behind (h : Balanced events) (still_open : StillOpen past) :
    StillOpen (past ++ events) := by
  intro front before
  rcases prefix_cases before with first | ⟨rest, rfl, second⟩
  · exact still_open front first
  · have whole := still_open past List.prefix_rfl
    have behind := h.inside rest second
    rw [List.count_append, List.count_append]
    omega

theorem name (other : e ≠ .opens ∧ e ≠ .closes) : Balanced [e] :=
  ⟨(StillOpen.nil.concat other.2 : StillOpen ([] ++ [e])), by simp [other]⟩

theorem block (h : Balanced events) : Balanced (inBlock events) := by
  have first : StillOpen ([] ++ [.opens]) := StillOpen.nil.concat (by decide)
  have opened : StillOpen ([.opens] ++ events) := h.behind first
  have level : (inBlock events).count .closes = (inBlock events).count .opens := by
    simp [inBlock, h.level]
  exact ⟨stillOpen_concat.mpr ⟨opened, level.le⟩, level⟩

theorem uses (used : ∀ e ∈ events, ∃ x, e = .uses x) : Balanced events := by
  induction events with
  | nil => exact nil
  | cons e rest ih =>
    obtain ⟨⟨x, rfl⟩, others⟩ := List.forall_mem_cons.mp used
    exact (name (e := .uses x) (by simp)).append (ih others)

end Balanced

mutual

theorem Expr.scopeEvents_uses : (e : Expr) → ∀ v ∈ e.scopeEvents, ∃ x, v = .uses x
  | .null | .bool _ | .num _ | .str _ => by simp [scopeEvents]
  | .list items => itemsScopeEvents_uses items
  | .object fields => fieldsScopeEvents_uses fields
  | .ident name => by simp [scopeEvents]
  | .member e _ | .unary _ e => e.scopeEvents_uses
  | .index e position =>
    List.forall_mem_append.mpr ⟨e.scopeEvents_uses, position.scopeEvents_uses⟩
  | .call callee args _ =>
    List.forall_mem_append.mpr ⟨callee.scopeEvents_uses, itemsScopeEvents_uses args⟩
  | .binary _ left right | .logical _ left right =>
    List.forall_mem_append.mpr ⟨left.scopeEvents_uses, right.scopeEvents_uses⟩

theorem Expr.itemsScopeEvents_uses :
    (items : List Expr) → ∀ v ∈ itemsScopeEvents items, ∃ x, v = .uses x
  | [] => by simp [itemsScopeEvents]
  | e :: rest => List.forall_mem_append.mpr ⟨e.scopeEvents_uses, itemsScopeEvents_uses rest⟩

theorem Expr.fieldsScopeEvents_uses :
    (fields : List (String × Expr)) → ∀ v ∈ fieldsScopeEvents fields, ∃ x, v = .uses x
  | [] => by simp [fieldsScopeEvents]
  | (_, e) :: rest => List.forall_mem_append.mpr ⟨e.scopeEvents_uses, fieldsScopeEvents_uses rest⟩

end

theorem Expr.optionScopeEvents_uses (value : Option Expr) :
    ∀ v ∈ optionScopeEvents value, ∃ x, v = .uses x := by
  cases value with
  | none => simp [optionScopeEvents]
  | some e => exact e.scopeEvents_uses

theorem Target.scopeEvents_uses (target : Target) : ∀ v ∈ target.scopeEvents, ∃ x, v = .uses x := by
  cases target with
  | ident name => simp [scopeEvents]
  | member e _ => exact e.scopeEvents_uses
  | index e position =>
    exact List.forall_mem_append.mpr ⟨e.scopeEvents_uses, position.scopeEvents_uses⟩

mutual

theorem Stmt.scopeEvents_balanced : (s : Stmt) → Balanced s.scopeEvents
  | .block _ body => (bodyScopeEvents_balanced body).block
  | .declare _ name value =>
    (Balanced.uses (Expr.optionScopeEvents_uses value)).append (.name (by simp))
  | .assign _ target value =>
    (Balanced.uses target.scopeEvents_uses).append (.uses value.scopeEvents_uses)
  | .ifThen _ test body | .while _ test body =>
    (Balanced.uses test.scopeEvents_uses).append body.scopeEvents_balanced.block
  | .ifThenElse _ test body otherwise =>
    (Balanced.uses test.scopeEvents_uses).append
      (body.scopeEvents_balanced.block.append otherwise.scopeEvents_balanced.block)
  | .forOf _ name iterable body =>
    ((Balanced.uses iterable.scopeEvents_uses).append
      ((Balanced.name (e := .declares name) (by simp)).append
        body.scopeEvents_balanced.block).block).block
  | .tryCatch _ body name handler =>
    (bodyScopeEvents_balanced body).block.append
      ((Balanced.name (e := .declares name) (by simp)).append
        (bodyScopeEvents_balanced handler)).block
  | .return _ value => Balanced.uses (Expr.optionScopeEvents_uses value)
  | .throw _ value | .expr _ value => Balanced.uses value.scopeEvents_uses
  | .break _ | .continue _ => .nil

theorem Stmt.bodyScopeEvents_balanced : (body : List Stmt) → Balanced (bodyScopeEvents body)
  | [] => .nil
  | s :: rest => s.scopeEvents_balanced.append (bodyScopeEvents_balanced rest)

end

/-- Behind the text, the block of the local that is declared at a place is still open. Its depth is
the number of the blocks around it. -/
structure InSight (past : List ScopeEvent) (i : Nat) (l : Local) : Prop where
  declared : past[i]? = some (.declares l.name)
  enclosed : StillOpen (past.drop (i + 1))
  positive : 0 < l.depth
  level : l.depth + (past.take i).count .closes = (past.take i).count .opens

namespace InSight

theorem lt (h : InSight past i l) : i < past.length := by
  obtain ⟨inside, -⟩ := List.getElem?_eq_some_iff.mp h.declared
  exact inside

theorem count (h : InSight past i l) :
    past.count .opens + (past.drop (i + 1)).count .closes =
      l.depth + past.count .closes + (past.drop (i + 1)).count .opens := by
  obtain ⟨inside, declared⟩ := List.getElem?_eq_some_iff.mp h.declared
  have parts : past = past.take i ++ .declares l.name :: past.drop (i + 1) := by
    rw [← declared, List.getElem_cons_drop, List.take_append_drop]
  have split (e : ScopeEvent) (other : e ≠ .declares l.name) :
      past.count e = (past.take i).count e + (past.drop (i + 1)).count e := by
    conv_lhs => rw [parts]
    rw [List.count_append, List.count_cons_of_ne (Ne.symm other)]
  have closes := split .closes (by simp)
  have opens := split .opens (by simp)
  have own := h.level
  omega

theorem since (h : InSight past i l) (later : i < k) : InSight (past.take k) i l where
  declared := by rw [List.getElem?_take_of_lt later, h.declared]
  enclosed := by
    intro front before
    rw [List.drop_take] at before
    exact h.enclosed front (before.trans (List.take_prefix ..))
  positive := h.positive
  level := by
    rw [List.take_take, Nat.min_eq_left later.le]
    exact h.level

theorem of_local (declared : past[i]? = some (.declares x))
    (enclosed : StillOpen (past.drop (i + 1))) (positive : IsLocal past i) :
    InSight past i ⟨x, (past.take i).count .opens - (past.take i).count .closes⟩ where
  declared := declared
  enclosed := enclosed
  positive := Nat.sub_pos_of_lt positive
  level := Nat.sub_add_cancel (Nat.le_of_lt positive)

theorem isLocal (h : InSight past i l) (later : i < k) : IsLocal past k := by
  have since := h.since later
  have inside := since.enclosed _ List.prefix_rfl
  have count := since.count
  have positive := h.positive
  unfold IsLocal
  omega

end InSight

/-- One more event: what has been in sight still is, unless its block is closed. -/
theorem inSight_concat : InSight (past ++ [e]) i l ↔
    InSight past i l ∧ StillOpen (past.drop (i + 1) ++ [e]) ∨
      i = past.length ∧ e = .declares l.name ∧ 0 < l.depth ∧
        l.depth + past.count .closes = past.count .opens := by
  rcases Nat.lt_trichotomy i past.length with before | rfl | behind
  · have drop : (past ++ [e]).drop (i + 1) = past.drop (i + 1) ++ [e] :=
      List.drop_append_of_le_length before
    have take : (past ++ [e]).take i = past.take i := List.take_append_of_le_length before.le
    have get : (past ++ [e])[i]? = past[i]? := List.getElem?_append_left before
    constructor
    · rintro ⟨declared, enclosed, positive, level⟩
      rw [get] at declared
      rw [drop] at enclosed
      rw [take] at level
      exact .inl ⟨⟨declared, (stillOpen_concat.mp enclosed).1, positive, level⟩, enclosed⟩
    · rintro (⟨⟨declared, -, positive, level⟩, enclosed⟩ | ⟨same, -⟩)
      · exact ⟨get.trans declared, drop ▸ enclosed, positive, take ▸ level⟩
      · omega
  · constructor
    · rintro ⟨declared, -, positive, level⟩
      rw [List.getElem?_concat_length, Option.some.injEq] at declared
      rw [List.take_left'] at level
      · exact .inr ⟨rfl, declared, positive, level⟩
      · rfl
    · rintro (⟨h, -⟩ | ⟨-, rfl, positive, level⟩)
      · exact absurd h.lt (Nat.lt_irrefl _)
      · refine ⟨List.getElem?_concat_length, ?_, positive, ?_⟩
        · rw [List.drop_of_length_le (by simp)]
          exact .nil
        · rwa [List.take_left' rfl]
  · refine iff_of_false (fun h => ?_) ?_
    · have inside := h.lt
      rw [List.length_append, List.length_singleton] at inside
      omega
    · rintro (⟨h, -⟩ | ⟨same, -⟩)
      · exact absurd h.lt (by omega)
      · omega

theorem inSight_kept (other : e ≠ .closes) (silent : ∀ name, e ≠ .declares name) :
    InSight (past ++ [e]) i l ↔ InSight past i l := by
  rw [inSight_concat]
  constructor
  · rintro (⟨visible, -⟩ | ⟨-, declares, -⟩)
    · exact visible
    · exact absurd declares (silent l.name)
  · intro visible
    exact .inl ⟨visible, visible.enclosed.concat other⟩

/-- A local that the builder holds, with the place of its declaration in the text; a hidden one has
none. -/
structure Held where
  place : Option Nat
  entry : Local

/-- Behind the text, locals are held for what is in sight and for hidden slots, the latest first. -/
structure Tracks (past : List ScopeEvent) (depth : Nat) (held : List Held) : Prop where
  level : depth + past.count .closes = past.count .opens
  deep : ∀ s ∈ held, s.entry.depth ≤ depth
  nested : held.Pairwise fun s r => r.entry.depth ≤ s.entry.depth
  ordered : held.Pairwise fun s r => ∀ i ∈ s.place, ∀ k ∈ r.place, k < i
  hidden : ∀ s ∈ held, s.place = none → ¬ Unbracketed s.entry.name
  inSight : ∀ i l, ⟨some i, l⟩ ∈ held ↔ InSight past i l

namespace Tracks

variable {held : List Held}

theorem nil : Tracks [] 0 [] where
  level := rfl
  deep := by simp
  nested := .nil
  ordered := .nil
  hidden := by simp
  inSight := by
    intro i l
    refine iff_of_false (by simp) fun h => ?_
    cases h.declared

theorem uses_iff : Tracks (past ++ [.uses x]) depth held ↔ Tracks past depth held := by
  constructor
  · intro h
    exact { h with
      level := by simpa using h.level
      inSight := fun i l => (h.inSight i l).trans (inSight_kept (by simp) (by simp)) }
  · intro h
    exact { h with
      level := by simpa using h.level
      inSight := fun i l => (h.inSight i l).trans (inSight_kept (by simp) (by simp)).symm }

theorem append_uses (used : ∀ e ∈ events, ∃ x, e = .uses x) :
    Tracks (past ++ events) depth held ↔ Tracks past depth held := by
  induction events generalizing past with
  | nil => rw [List.append_nil]
  | cons e rest ih =>
    obtain ⟨⟨x, rfl⟩, others⟩ := List.forall_mem_cons.mp used
    rw [List.append_cons, ih others, uses_iff]

theorem opens (h : Tracks past depth held) : Tracks (past ++ [.opens]) (depth + 1) held :=
  { h with
    level := by
      have level := h.level
      rw [count_concat, count_concat, if_neg (by simp), if_pos rfl]
      omega
    deep := fun s mem => Nat.le_succ_of_le (h.deep s mem)
    inSight := fun i l => (h.inSight i l).trans (inSight_kept (by simp) (by simp)).symm }

theorem declaresGlobal (h : Tracks past 0 held) : Tracks (past ++ [.declares x]) 0 held :=
  { h with
    level := by simpa using h.level
    inSight := by
      intro i l
      rw [h.inSight, inSight_concat]
      constructor
      · intro visible
        exact .inl ⟨visible, visible.enclosed.concat (by simp)⟩
      · rintro (⟨visible, -⟩ | ⟨-, -, positive, level⟩)
        · exact visible
        · have outside := h.level
          omega }

theorem declares (h : Tracks past depth held) (inside : 0 < depth) :
    Tracks (past ++ [.declares x]) depth (⟨some past.length, x, depth⟩ :: held) where
  level := by simpa using h.level
  deep := List.forall_mem_cons.mpr ⟨Nat.le_refl depth, h.deep⟩
  nested := List.pairwise_cons.mpr ⟨h.deep, h.nested⟩
  ordered := by
    refine List.pairwise_cons.mpr ⟨?_, h.ordered⟩
    rintro ⟨place, entry⟩ mem i own k other
    cases own
    cases other
    exact ((h.inSight k entry).mp mem).lt
  hidden := List.forall_mem_cons.mpr ⟨nofun, h.hidden⟩
  inSight := by
    intro i l
    rw [List.mem_cons, h.inSight, inSight_concat]
    constructor
    · rintro (same | visible)
      · cases same
        exact .inr ⟨rfl, rfl, inside, h.level⟩
      · exact .inl ⟨visible, visible.enclosed.concat (by simp)⟩
    · rintro (⟨visible, -⟩ | ⟨rfl, same, -, level⟩)
      · exact .inr visible
      · left
        have own := h.level
        have depths : l.depth = depth := by omega
        obtain ⟨name, _⟩ := l
        cases same
        cases depths
        rfl

theorem hides (h : Tracks past depth held) (bracketed : ¬ Unbracketed x) :
    Tracks past depth (⟨none, x, depth⟩ :: held) :=
  { h with
    deep := List.forall_mem_cons.mpr ⟨Nat.le_refl depth, h.deep⟩
    nested := List.pairwise_cons.mpr ⟨h.deep, h.nested⟩
    ordered := List.pairwise_cons.mpr ⟨by simp, h.ordered⟩
    hidden := List.forall_mem_cons.mpr ⟨fun _ => bracketed, h.hidden⟩
    inSight := fun i l => by simp [h.inSight] }

end Tracks

/-- Where depths fall, what is deeper than a bound is dropped. -/
theorem mem_dropWhile_deeper {held : List Held} {bound : Nat}
    (nested : held.Pairwise fun s r => r.entry.depth ≤ s.entry.depth) (s : Held) :
    s ∈ held.dropWhile (fun s => bound < s.entry.depth) ↔ s ∈ held ∧ s.entry.depth ≤ bound := by
  induction held with
  | nil => simp
  | cons r rest ih =>
    obtain ⟨first, others⟩ := List.pairwise_cons.mp nested
    rw [List.dropWhile_cons]
    by_cases deeper : bound < r.entry.depth
    · rw [if_pos (by simpa using deeper), ih others, List.mem_cons]
      constructor
      · rintro ⟨mem, within⟩
        exact ⟨.inr mem, within⟩
      · rintro ⟨rfl | mem, within⟩
        · omega
        · exact ⟨mem, within⟩
    · rw [if_neg (by simpa using deeper)]
      refine (and_iff_left_of_imp fun mem => ?_).symm
      rcases List.mem_cons.mp mem with rfl | mem
      · omega
      · exact (first s mem).trans (by omega)

namespace Tracks

variable {held : List Held}

theorem closes (h : Tracks past depth held) (inside : 0 < depth) :
    Tracks (past ++ [.closes]) (depth - 1)
      (held.dropWhile fun s => depth - 1 < s.entry.depth) where
  level := by
    have level := h.level
    rw [count_concat, count_concat, if_pos rfl, if_neg (by simp)]
    omega
  deep := fun s mem => ((mem_dropWhile_deeper h.nested s).mp mem).2
  nested := h.nested.sublist (List.dropWhile_sublist _)
  ordered := h.ordered.sublist (List.dropWhile_sublist _)
  hidden := fun s mem => h.hidden s ((mem_dropWhile_deeper h.nested s).mp mem).1
  inSight := by
    intro i l
    rw [mem_dropWhile_deeper h.nested, h.inSight, inSight_concat]
    constructor
    · rintro ⟨visible, within⟩
      have count := visible.count
      have level := h.level
      have within : l.depth ≤ depth - 1 := within
      refine .inl ⟨visible, stillOpen_concat.mpr ⟨visible.enclosed, ?_⟩⟩
      rw [count_concat, count_concat, if_pos rfl, if_neg (by simp)]
      omega
    · rintro (⟨visible, enclosed⟩ | ⟨-, same, -⟩)
      · have count := visible.count
        have level := h.level
        have whole := (stillOpen_concat.mp enclosed).2
        rw [count_concat, count_concat, if_pos rfl, if_neg (by simp)] at whole
        refine ⟨visible, ?_⟩
        change l.depth ≤ depth - 1
        omega
      · cases same

end Tracks

theorem slotOf?_of_apart {ls : List Local} (apart : ∀ l ∈ ls, l.name ≠ x) (earlier : List Local) :
    slotOf? x (ls ++ earlier) = slotOf? x earlier := by
  induction ls with
  | nil => rfl
  | cons l rest ih =>
    obtain ⟨first, others⟩ := List.forall_mem_cons.mp apart
    rw [List.cons_append, slotOf?, if_neg first, ih others]

theorem slotOf?_of_mem {ls : List Local} (found : ∃ l ∈ ls, l.name = x) {earlier other : List Local}
    (same : earlier.length = other.length) :
    slotOf? x (ls ++ earlier) = slotOf? x (ls ++ other) := by
  induction ls with
  | nil => simp at found
  | cons l rest ih =>
    rw [List.cons_append, List.cons_append, slotOf?, slotOf?]
    by_cases first : l.name = x
    · rw [if_pos first, if_pos first, List.length_append, List.length_append, same]
    · rw [if_neg first, if_neg first]
      simp only [List.mem_cons, exists_eq_or_imp, first, false_or] at found
      exact ih found

section

variable {later earlier : List Local} {old new : String} {d : Nat}

/-- The slot of the latest local of its name, when that gets another name. -/
theorem slotOf?_renamed (shown : ∀ l ∈ later, l.name ≠ old) (fresh : ∀ l ∈ later, l.name ≠ new) :
    slotOf? old (later ++ ⟨old, d⟩ :: earlier) = slotOf? new (later ++ ⟨new, d⟩ :: earlier) := by
  rw [slotOf?_of_apart shown, slotOf?_of_apart fresh, slotOf?, slotOf?, if_pos rfl, if_pos rfl]

theorem slotOf?_kept (used : x ≠ new) (hidden : x = old → ∃ l ∈ later, l.name = old) :
    slotOf? x (later ++ ⟨old, d⟩ :: earlier) = slotOf? x (later ++ ⟨new, d⟩ :: earlier) := by
  by_cases found : ∃ l ∈ later, l.name = x
  · exact slotOf?_of_mem found rfl
  · have apart : ∀ l ∈ later, l.name ≠ x := fun l mem same => found ⟨l, mem, same⟩
    have other : old ≠ x := by
      rintro rfl
      exact found (hidden rfl)
    rw [slotOf?_of_apart apart, slotOf?_of_apart apart, slotOf?, slotOf?, if_neg other,
      if_neg (Ne.symm used)]

end

/-- A local of a text, and a name for it that does not occur there. -/
structure Renames (text : List ScopeEvent) (j : Nat) (old new : String) : Prop where
  declared : text[j]? = some (.declares old)
  isLocal : IsLocal text j
  fresh : Fresh new text
  word : Unbracketed old
  word' : Unbracketed new

/-- No name is used where the local is declared. -/
theorem Renames.elsewhere {text : List ScopeEvent} {old new : String}
    (r : Renames text j old new) (ahead : past ++ [.uses x] <+: text) : past.length ≠ j := by
  obtain ⟨rest, rfl⟩ := ahead
  intro same
  have declared := r.declared
  rw [← same, List.append_assoc, List.getElem?_append_right (Nat.le_refl _)] at declared
  simp at declared

def Held.renamed (ρ : Nat → String → String) (s : Held) : Local :=
  match s.place with
  | some i => ⟨ρ i s.entry.name, s.entry.depth⟩
  | none => s.entry

@[simp] theorem Held.depth_renamed (ρ : Nat → String → String) (s : Held) :
    (s.renamed ρ).depth = s.entry.depth := by
  unfold renamed
  split <;> rfl

section

variable {text : List ScopeEvent} {old new : String} {held : List Held}

theorem otherName_declares (declared : text[i]? = some (.declares x)) (other : i ≠ j) :
    otherName text j new i x = x := by
  refine if_neg ?_
  rintro (same | ⟨uses, -⟩)
  · exact other same
  · rw [declared] at uses
    cases uses

section

variable (h : Tracks past depth held) (ahead : past ++ more <+: text)

include h ahead

theorem Tracks.declared (mem : ⟨some i, l⟩ ∈ held) : text[i]? = some (.declares l.name) := by
  obtain ⟨rest, rfl⟩ := ahead
  have visible := (h.inSight i l).mp mem
  rw [List.append_assoc, List.getElem?_append_left visible.lt]
  exact visible.declared

theorem Tracks.renamed_of_ne {s : Held} (mem : s ∈ held) (other : s.place ≠ some j) :
    s.renamed (otherName text j new) = s.entry := by
  obtain ⟨place, entry⟩ := s
  cases place with
  | none => rfl
  | some i =>
    have same : otherName text j new i entry.name = entry.name :=
      otherName_declares (h.declared ahead mem) fun same => other (by rw [same])
    simp only [Held.renamed, same]

end

section

variable (r : Renames text j old new) (h : Tracks past depth held)

include r h

theorem Tracks.fresh (ahead : past ++ more <+: text) : ∀ s ∈ held, s.entry.name ≠ new := by
  rintro ⟨place, entry⟩ mem rfl
  cases place with
  | none => exact h.hidden _ mem rfl r.word'
  | some i => exact r.fresh.1 (List.mem_of_getElem? (h.declared ahead mem))

/-- Of the locals that are held only the one from `j` gets another name. -/
theorem Tracks.map_renamed (ahead : past ++ more <+: text) {later earlier : List Held}
    (order : held = later ++ ⟨some j, l⟩ :: earlier) :
    held.map Held.entry = later.map Held.entry ++ ⟨old, l.depth⟩ :: earlier.map Held.entry ∧
      held.map (Held.renamed (otherName text j new)) =
        later.map Held.entry ++ ⟨new, l.depth⟩ :: earlier.map Held.entry := by
  subst order
  obtain ⟨-, behind, across⟩ := List.pairwise_append.mp h.ordered
  have called : l.name = old := by
    simpa using (h.declared ahead (by simp)).symm.trans r.declared
  have own : l = ⟨old, l.depth⟩ := by rw [← called]
  have first : ∀ s ∈ later, s.renamed (otherName text j new) = s.entry := by
    intro s mem
    refine h.renamed_of_ne ahead (List.mem_append_left _ mem) fun place => ?_
    exact absurd (across s mem _ List.mem_cons_self j place j rfl) (Nat.lt_irrefl j)
  have others : ∀ s ∈ earlier, s.renamed (otherName text j new) = s.entry := by
    intro s mem
    refine h.renamed_of_ne ahead (by simp [mem]) fun place => ?_
    exact absurd ((List.pairwise_cons.mp behind).1 s mem j rfl j place) (Nat.lt_irrefl j)
  have moved : Held.renamed (otherName text j new) ⟨some j, l⟩ = ⟨new, l.depth⟩ := by
    simp [Held.renamed, otherName]
  constructor
  · rw [List.map_append, List.map_cons, ← own]
  · rw [List.map_append, List.map_cons, moved, List.map_congr_left first,
      List.map_congr_left others]

variable (ahead : past ++ [.uses x] <+: text)

include ahead

/-- What a use refers to is held. -/
theorem Tracks.held_of_refers (refers : Refers text x past.length j) :
    x = old ∧ ∃ l, ⟨some j, l⟩ ∈ held := by
  obtain ⟨rest, rfl⟩ := ahead
  obtain ⟨-, declared, before, enclosed, -⟩ := refers
  have same : x = old := by simpa using declared.symm.trans r.declared
  have isLocal := r.isLocal
  rw [List.append_assoc] at isLocal declared enclosed
  rw [IsLocal, List.take_append_of_le_length before.le] at isLocal
  rw [List.getElem?_append_left before] at declared
  rw [Encloses, List.take_left' rfl] at enclosed
  exact ⟨same, _, (h.inSight j _).mpr (.of_local declared enclosed isLocal)⟩

/-- A use refers to the declaration at `j` if no local of its name is held that has been declared
later. -/
theorem Tracks.refers_iff {later earlier : List Held}
    (order : held = later ++ ⟨some j, l⟩ :: earlier) :
    Refers text x past.length j ↔ x = old ∧ ∀ s ∈ later, s.entry.name ≠ old := by
  obtain ⟨rest, rfl⟩ := ahead
  subst order
  have visible := (h.inSight j l).mp (by simp)
  have get {i : Nat} (before : i < past.length) : (past ++ [.uses x] ++ rest)[i]? = past[i]? := by
    rw [List.append_assoc, List.getElem?_append_left before]
  have encloses (i : Nat) :
      Encloses (past ++ [.uses x] ++ rest) i past.length ↔ StillOpen (past.drop (i + 1)) := by
    rw [Encloses, List.append_assoc, List.take_left' rfl]
  obtain ⟨-, behind, across⟩ := List.pairwise_append.mp h.ordered
  constructor
  · rintro ⟨-, declared, -, -, latest⟩
    refine ⟨by simpa using declared.symm.trans r.declared, ?_⟩
    rintro ⟨place, entry⟩ mem rfl
    cases place with
    | none => exact h.hidden _ (by simp [mem]) rfl r.word
    | some k =>
      have shadows := (h.inSight k entry).mp (by simp [mem])
      have order : j < k := across _ mem _ List.mem_cons_self k rfl j rfl
      refine latest k shadows.lt order ?_ ((encloses k).mpr shadows.enclosed)
      rw [get shadows.lt, shadows.declared, ← r.declared, declared]
  · rintro ⟨rfl, apart⟩
    refine ⟨by simp, r.declared, visible.lt, (encloses j).mpr visible.enclosed, ?_⟩
    intro k before order declared enclosed
    rw [get before] at declared
    rw [encloses] at enclosed
    have mem := (h.inSight k _).mpr (.of_local declared enclosed (visible.isLocal order))
    rcases List.mem_append.mp mem with first | mem
    · exact apart _ first rfl
    · rcases List.mem_cons.mp mem with same | mem
      · cases same
        exact absurd order (Nat.lt_irrefl _)
      · exact absurd ((List.pairwise_cons.mp behind).1 _ mem j rfl k rfl) (by omega)

/-- The same slot is found for the name of the renamed text. -/
theorem Tracks.resolve : slotOf? x (held.map Held.entry) =
    slotOf? (otherName text j new past.length x)
      (held.map (Held.renamed (otherName text j new))) := by
  have elsewhere := r.elsewhere ahead
  by_cases mem : ∃ l, ⟨some j, l⟩ ∈ held
  · obtain ⟨l, mem⟩ := mem
    obtain ⟨later, earlier, order⟩ := List.append_of_mem mem
    have refers := h.refers_iff r ahead order
    obtain ⟨plain, moved⟩ := h.map_renamed r ahead order
    rw [plain, moved]
    by_cases refer : Refers text x past.length j
    · obtain ⟨rfl, shown⟩ := refers.mp refer
      rw [show otherName text j new past.length x = new from if_pos (.inr refer)]
      refine slotOf?_renamed (List.forall_mem_map.mpr shown) (List.forall_mem_map.mpr ?_)
      intro s inside
      exact h.fresh r ahead s (order ▸ List.mem_append_left _ inside)
    · have used : x ≠ new := by
        rintro rfl
        exact r.fresh.2 (ahead.subset (by simp))
      rw [show otherName text j new past.length x = x from if_neg (not_or.mpr ⟨elsewhere, refer⟩)]
      refine slotOf?_kept used fun same => ?_
      by_contra shown
      refine refer (refers.mpr ⟨same, fun s inside called => shown ?_⟩)
      exact ⟨s.entry, List.mem_map_of_mem inside, called⟩
  · have unmoved : held.map (Held.renamed (otherName text j new)) = held.map Held.entry := by
      refine List.map_congr_left fun s inside => h.renamed_of_ne ahead inside fun place => mem ?_
      obtain ⟨_, l⟩ := s
      cases place
      exact ⟨l, inside⟩
    have same : otherName text j new past.length x = x :=
      if_neg (not_or.mpr ⟨elsewhere, fun refer => mem (h.held_of_refers r ahead refer).2⟩)
    rw [unmoved, same]

end

end

end FrameScript
