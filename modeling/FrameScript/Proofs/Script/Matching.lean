import FrameScript.Proofs.Script.Derivation

/-!
# What the matcher finds

A match by ordered choice, without the fuel and the record of attempts: a pattern finds a place
where it ends and new nodes, or it finds nothing. That nothing is found is derived too, since
later choices, repetitions and rejections depend on it. Every answer of the matcher is found in
this sense, and no two answers are.
-/

namespace FrameScript
namespace Script

/-- Where a match ended, and the nodes that it has added, in the order of the source. -/
structure Found where
  cursor : Cursor
  nodes : List Node

namespace Found

def nothing (c : Cursor) : Found := ⟨c, []⟩

def before (f g : Found) : Found := ⟨g.cursor, f.nodes ++ g.nodes⟩

/-- The progress of a match that began with these nodes, the latest first. -/
def onto (f : Found) (nodes : List Node) : Progress := ⟨f.cursor, f.nodes.reverse ++ nodes⟩

@[simp] theorem onto_nothing (c : Cursor) (nodes : List Node) :
    (nothing c).onto nodes = ⟨c, nodes⟩ := rfl

@[simp] theorem onto_before (f g : Found) (nodes : List Node) :
    (f.before g).onto nodes = g.onto (f.onto nodes).nodes := by
  simp [before, onto]

end Found

/-- The nodes that are added for a rule: none where inner rules are hidden. -/
def Spacing.shown (s : Spacing) (r : Rule) (here : Cursor) (inside : Found) : List Node :=
  if s = .atomic then []
  else [.mk r here (inside.cursor.position - here.position) inside.nodes]

/-- What a task finds at a cursor. -/
inductive Finds : Spacing → Task → Cursor → Option Found → Prop
  | text {s chars c} : Finds s (.once (.text chars)) c ((c.dropText? chars).map .nothing)
  | char {s charClass c} :
    Finds s (.once (.char charClass)) c ((c.dropClass? charClass).map .nothing)
  | start {s c} : Finds s (.once .start) c (if c.position = 0 then some (.nothing c) else none)
  | finish {s c} : Finds s (.once .finish) c (if c.rest.isEmpty then some (.nothing c) else none)
  | rule {s r c found} (inside : Finds (r.spacing.getD s) (.once r.pattern) c found) :
    Finds s (.once (.rule r)) c (found.map fun f => ⟨f.cursor, s.shown r c f⟩)
  | seq {s first second c f found} (h : Finds s (.once first) c (some f))
    (k : Finds s (.once second) (s.skip f.cursor) found) :
    Finds s (.once (.seq first second)) c (found.map f.before)
  | stuck {s first second c} (h : Finds s (.once first) c none) :
    Finds s (.once (.seq first second)) c none
  | first {s first second c f} (h : Finds s (.once first) c (some f)) :
    Finds s (.once (.alt first second)) c (some f)
  | second {s first second c found} (h : Finds s (.once first) c none)
    (k : Finds s (.once second) c found) : Finds s (.once (.alt first second)) c found
  | present {s body c f} (h : Finds s (.once body) c (some f)) :
    Finds s (.once (.opt body)) c (some f)
  | absent {s body c} (h : Finds s (.once body) c none) :
    Finds s (.once (.opt body)) c (some (.nothing c))
  | many {s body c f found} (h : Finds s (.once body) c (some f))
    (k : Finds s (.again body) f.cursor found) :
    Finds s (.once (.many body)) c (found.map f.before)
  | never {s body c} (h : Finds s (.once body) c none) :
    Finds s (.once (.many body)) c (some (.nothing c))
  | refused {s body c f} (h : Finds s (.once body) c (some f)) :
    Finds s (.once (.reject body)) c none
  | allowed {s body c} (h : Finds s (.once body) c none) :
    Finds s (.once (.reject body)) c (some (.nothing c))
  | more {s body c f found} (h : Finds s (.once body) (s.skip c) (some f))
    (k : Finds s (.again body) f.cursor found) : Finds s (.again body) c (found.map f.before)
  | enough {s body c} (h : Finds s (.once body) (s.skip c) none) :
    Finds s (.again body) c (some (.nothing c))

theorem Finds.rule_fails {s : Spacing} {r : Rule} {c : Cursor}
    (inside : Finds (r.spacing.getD s) (.once r.pattern) c none) :
    Finds s (.once (.rule r)) c none := by
  have found := Finds.rule inside
  exact found

theorem Finds.second_fails {s : Spacing} {first second : Pattern} {c : Cursor} {f : Found}
    (h : Finds s (.once first) c (some f))
    (k : Finds s (.once second) (s.skip f.cursor) none) :
    Finds s (.once (.seq first second)) c none := by
  have found := Finds.seq h k
  exact found

theorem Finds.both {s : Spacing} {first second : Pattern} {c : Cursor} {f g : Found}
    (h : Finds s (.once first) c (some f))
    (k : Finds s (.once second) (s.skip f.cursor) (some g)) :
    Finds s (.once (.seq first second)) c (some (f.before g)) :=
  Finds.seq h k

section

variable {s : Spacing} {first second body : Pattern} {c : Cursor} {f : Found}

theorem Finds.of_finish (h : Finds s (.once .finish) c (some f)) :
    c.rest = [] ∧ f = .nothing c := by
  generalize same : some f = found at h
  cases h with
  | finish =>
    split at same
    · rename_i empty
      exact ⟨List.isEmpty_iff.mp empty, Option.some.inj same⟩
    · cases same

theorem Finds.of_rule {r : Rule} (h : Finds s (.once (.rule r)) c (some f)) :
    ∃ g, Finds (r.spacing.getD s) (.once r.pattern) c (some g) ∧ f = ⟨g.cursor, s.shown r c g⟩ := by
  generalize same : some f = found at h
  cases h with
  | rule inside =>
    obtain ⟨g, rfl, rfl⟩ := Option.map_eq_some_iff.mp same.symm
    exact ⟨g, inside, rfl⟩

theorem Finds.of_seq (h : Finds s (.once (.seq first second)) c (some f)) :
    ∃ g g', Finds s (.once first) c (some g) ∧
      Finds s (.once second) (s.skip g.cursor) (some g') ∧ f = g.before g' := by
  generalize same : some f = found at h
  cases h with
  | seq h k =>
    obtain ⟨g', rfl, rfl⟩ := Option.map_eq_some_iff.mp same.symm
    exact ⟨_, g', h, k, rfl⟩
  | stuck => cases same

theorem Finds.of_alt (h : Finds s (.once (.alt first second)) c (some f)) :
    Finds s (.once first) c (some f) ∨
      Finds s (.once first) c none ∧ Finds s (.once second) c (some f) := by
  cases h with
  | first h => exact .inl h
  | second h k => exact .inr ⟨h, k⟩

theorem Finds.of_opt (h : Finds s (.once (.opt body)) c (some f)) :
    Finds s (.once body) c (some f) ∨ Finds s (.once body) c none ∧ f = .nothing c := by
  cases h with
  | present h => exact .inl h
  | absent h => exact .inr ⟨h, rfl⟩

theorem Finds.of_many (h : Finds s (.once (.many body)) c (some f)) :
    (∃ g g', Finds s (.once body) c (some g) ∧ Finds s (.again body) g.cursor (some g') ∧
      f = g.before g') ∨ Finds s (.once body) c none ∧ f = .nothing c := by
  generalize same : some f = found at h
  cases h with
  | many h k =>
    obtain ⟨g', rfl, rfl⟩ := Option.map_eq_some_iff.mp same.symm
    exact .inl ⟨_, g', h, k, rfl⟩
  | never h =>
    cases same
    exact .inr ⟨h, rfl⟩

theorem Finds.of_again (h : Finds s (.again body) c (some f)) :
    (∃ g g', Finds s (.once body) (s.skip c) (some g) ∧ Finds s (.again body) g.cursor (some g') ∧
      f = g.before g') ∨ Finds s (.once body) (s.skip c) none ∧ f = .nothing c := by
  generalize same : some f = found at h
  cases h with
  | more h k =>
    obtain ⟨g', rfl, rfl⟩ := Option.map_eq_some_iff.mp same.symm
    exact .inl ⟨_, g', h, k, rfl⟩
  | enough h =>
    cases same
    exact .inr ⟨h, rfl⟩

/-- What holds where no repetition comes, and before a repetition where it holds behind it. -/
@[elab_as_elim]
theorem Finds.again_induction {motive : Cursor → Found → Prop}
    (last : ∀ c, Finds s (.once body) (s.skip c) none → motive c (.nothing c))
    (more : ∀ c g g', Finds s (.once body) (s.skip c) (some g) → motive g.cursor g' →
      motive c (g.before g')) (h : Finds s (.again body) c (some f)) : motive c f := by
  suffices all : ∀ {task : Task} {c : Cursor} {found : Option Found}, Finds s task c found →
      task = .again body → ∀ f, found = some f → motive c f from all h rfl f rfl
  clear h
  intro task c found h
  induction h with
  | @more s body' c g found first _ _ ih =>
    intro repeats f same
    obtain ⟨g', rfl, rfl⟩ := Option.map_eq_some_iff.mp same
    cases repeats
    exact more c g g' first (ih last more rfl g' rfl)
  | enough none_here =>
    intro repeats f same
    cases same
    cases repeats
    exact last _ none_here
  | _ =>
    intro repeats
    cases repeats

theorem Finds.of_reject (h : Finds s (.once (.reject body)) c (some f)) :
    Finds s (.once body) c none ∧ f = .nothing c := by
  cases h with
  | allowed h => exact ⟨h, rfl⟩

end

/-- A task finds one thing at a cursor. -/
theorem Finds.unique {s : Spacing} {task : Task} {c : Cursor} {found other : Option Found}
    (h : Finds s task c found) (k : Finds s task c other) : found = other := by
  induction h generalizing other with
  | text | char | start | finish => cases k; rfl
  | rule _ ih =>
    cases k with
    | rule inside => rw [ih inside]
  | seq _ _ ih ih' =>
    cases k with
    | seq h' k' =>
      cases ih h'
      rw [ih' k']
    | stuck h' => cases ih h'
  | stuck _ ih =>
    cases k with
    | seq h' k' => cases ih h'
    | stuck h' => rfl
  | first _ ih =>
    cases k with
    | first h' => exact ih h'
    | second h' k' => cases ih h'
  | second _ _ ih ih' =>
    cases k with
    | first h' => cases ih h'
    | second h' k' => exact ih' k'
  | present _ ih =>
    cases k with
    | present h' => exact ih h'
    | absent h' => cases ih h'
  | absent _ ih =>
    cases k with
    | present h' => cases ih h'
    | absent h' => rfl
  | many _ _ ih ih' =>
    cases k with
    | many h' k' =>
      cases ih h'
      rw [ih' k']
    | never h' => cases ih h'
  | never _ ih =>
    cases k with
    | many h' k' => cases ih h'
    | never h' => rfl
  | refused _ ih =>
    cases k with
    | refused h' => rfl
    | allowed h' => cases ih h'
  | allowed _ ih =>
    cases k with
    | refused h' => cases ih h'
    | allowed h' => rfl
  | more _ _ ih ih' =>
    cases k with
    | more h' k' =>
      cases ih h'
      rw [ih' k']
    | enough h' => cases ih h'
  | enough _ ih =>
    cases k with
    | more h' k' => cases ih h'
    | enough h' => rfl

/-- The progress that the matcher returns for what has been found. -/
def Found.progress (found : Option Found) (nodes : List Node) : Option Progress :=
  found.map fun f => f.onto nodes

theorem Found.progress_before (f : Found) (found : Option Found) (nodes : List Node) :
    progress (found.map f.before) nodes = progress found (f.onto nodes).nodes := by
  cases found <;> simp [progress]

/-- What the matcher answers is found. -/
theorem run_finds (fuel : Nat) :
    (∀ mode pattern here attempts attempts' next,
      run fuel mode pattern here attempts = some (attempts', next) →
        ∃ found, Finds mode.spacing (.once pattern) here.cursor found ∧
          next = Found.progress found here.nodes) ∧
    (∀ mode body here attempts attempts' next,
      repeatMore fuel mode body here attempts = some (attempts', next) →
        ∃ found, Finds mode.spacing (.again body) here.cursor found ∧
          next = Found.progress found here.nodes) := by
  induction fuel with
  | zero => exact ⟨by simp [run], by simp [repeatMore]⟩
  | succ fuel ih =>
    obtain ⟨runs, repeats⟩ := ih
    have matched {mode pattern here attempts attempts' next}
        (h : run fuel mode pattern here attempts = some (attempts', some next)) :
        ∃ f, Finds mode.spacing (.once pattern) here.cursor (some f) ∧
          next = f.onto here.nodes := by
      obtain ⟨found, finds, same⟩ := runs _ _ _ _ _ _ h
      cases found with
      | none => cases same
      | some f => exact ⟨f, finds, Option.some.inj same⟩
    have fails {mode pattern here attempts attempts'}
        (h : run fuel mode pattern here attempts = some (attempts', none)) :
        Finds mode.spacing (.once pattern) here.cursor none := by
      obtain ⟨found, finds, same⟩ := runs _ _ _ _ _ _ h
      cases found with
      | none => exact finds
      | some f => cases same
    constructor
    · intro mode pattern here attempts attempts' next h
      rw [run.eq_def] at h
      cases pattern with
      | text chars =>
        cases h
        refine ⟨_, .text, ?_⟩
        rw [Found.progress, Option.map_map]
        rfl
      | char charClass =>
        cases h
        refine ⟨_, .char, ?_⟩
        rw [Found.progress, Option.map_map]
        rfl
      | start =>
        cases h
        refine ⟨_, .start, ?_⟩
        split <;> rfl
      | finish =>
        cases h
        refine ⟨_, .finish, ?_⟩
        split <;> rfl
      | rule r =>
        dsimp only at h
        split at h
        · rename_i a inside eq
          obtain ⟨f, finds, rfl⟩ := matched eq
          cases h
          refine ⟨_, .rule finds, ?_⟩
          simp only [Found.progress, Option.map_some, Found.onto, Spacing.shown]
          split <;> simp
        · rename_i a eq
          cases h
          exact ⟨_, .rule (fails eq), rfl⟩
        · cases h
      | seq first second =>
        dsimp only at h
        split at h
        · rename_i a middle eq
          obtain ⟨f, finds, rfl⟩ := matched eq
          obtain ⟨found, finds', rfl⟩ := runs _ _ _ _ _ _ h
          exact ⟨_, .seq finds finds', (Found.progress_before f found here.nodes).symm⟩
        · rename_i stopped failed
          cases next with
          | none => exact ⟨none, .stuck (fails h), rfl⟩
          | some next => exact absurd h (failed _ _)
      | alt first second =>
        dsimp only at h
        split at h
        · rename_i a eq
          obtain ⟨found, finds, same⟩ := runs _ _ _ _ _ _ h
          exact ⟨found, .second (fails eq) finds, same⟩
        · rename_i decided succeeded
          cases next with
          | none => exact absurd h (succeeded _)
          | some next =>
            obtain ⟨f, finds, rfl⟩ := matched h
            exact ⟨some f, .first finds, rfl⟩
      | opt body =>
        dsimp only at h
        split at h
        · rename_i a eq
          cases h
          exact ⟨_, .absent (fails eq), rfl⟩
        · rename_i decided succeeded
          cases next with
          | none => exact absurd h (succeeded _)
          | some next =>
            obtain ⟨f, finds, rfl⟩ := matched h
            exact ⟨some f, .present finds, rfl⟩
      | many body =>
        dsimp only at h
        split at h
        · rename_i a middle eq
          obtain ⟨f, finds, rfl⟩ := matched eq
          obtain ⟨found, finds', rfl⟩ := repeats _ _ _ _ _ _ h
          exact ⟨_, .many finds finds', (Found.progress_before f found here.nodes).symm⟩
        · rename_i a eq
          cases h
          exact ⟨_, .never (fails eq), rfl⟩
        · cases h
      | reject body =>
        dsimp only at h
        split at h
        · rename_i a middle eq
          obtain ⟨f, finds, -⟩ := matched eq
          cases h
          exact ⟨none, .refused finds, rfl⟩
        · rename_i a eq
          have failed := fails eq
          cases h
          exact ⟨_, .allowed failed, rfl⟩
        · cases h
    · intro mode body here attempts attempts' next h
      rw [repeatMore.eq_def] at h
      dsimp only at h
      split at h
      · rename_i a middle eq
        obtain ⟨f, finds, rfl⟩ := matched eq
        obtain ⟨found, finds', rfl⟩ := repeats _ _ _ _ _ _ h
        exact ⟨_, .more finds finds', (Found.progress_before f found here.nodes).symm⟩
      · rename_i a eq
        cases h
        exact ⟨_, .enough (fails eq), rfl⟩
      · cases h

end Script
end FrameScript
