import FrameScript.Proofs.Script.Derivation

/-!
# Positions in sources

The cursors of the matcher stand in the source: they have its characters from their position
on, and the line is one more than the newlines before that. Blanks and comments between the
parts of a sequence are skipped before a part is tried, so the nodes of a tree begin at
characters of their own, except for the whole program and the inside of a string.
-/

namespace FrameScript
namespace Script

/-- The line of a position, counted from one. -/
def lineAt (source : List Char) (position : Nat) : Nat := (source.take position).count '\n' + 1

namespace Cursor

/-- The cursor stands at its position of a source. -/
structure In (c : Cursor) (source : List Char) : Prop where
  rest : c.rest = source.drop c.position
  line : c.line = lineAt source c.position

/-- Neither a blank nor a comment comes next. -/
structure Settled (c : Cursor) : Prop where
  blank : ∀ ch ∈ c.rest.head?, isBlank ch = false
  comment : dropComment? c = none

variable {source : List Char} {c next : Cursor}

theorem start_in (source : List Char) : (Cursor.start source).In source := ⟨rfl, rfl⟩

theorem In.advance (h : c.In source) {ch : Char} {rest : List Char} (comes : c.rest = ch :: rest) :
    (c.advance ch rest).In source := by
  have split : source.drop c.position = ch :: rest := h.rest.symm.trans comes
  have char : source[c.position]? = some ch := by
    rw [← List.head?_drop, split, List.head?_cons]
  constructor
  · change rest = source.drop (c.position + 1)
    rw [← List.tail_drop, split, List.tail_cons]
  · change (if ch = '\n' then c.line + 1 else c.line) = lineAt source (c.position + 1)
    rw [lineAt, List.take_add_one, char, h.line, lineAt, List.count_append]
    by_cases newline : ch = '\n'
    · simp [newline]
    · simp [newline]

theorem In.dropText? {chars : List Char} (h : c.In source)
    (dropped : c.dropText? chars = some next) : next.In source := by
  induction chars generalizing c with
  | nil =>
    cases dropped
    exact h
  | cons x xs ih =>
    rw [Cursor.dropText?] at dropped
    split at dropped
    · rename_i y rest comes
      split at dropped
      · exact ih (h.advance comes) dropped
      · cases dropped
    · cases dropped

theorem In.dropClass? {charClass : CharClass} (h : c.In source)
    (dropped : c.dropClass? charClass = some next) : next.In source := by
  rw [Cursor.dropClass?] at dropped
  split at dropped
  · rename_i y rest comes
    split at dropped
    · cases dropped
      exact h.advance comes
    · cases dropped
  · cases dropped

/-- A cursor further on in the same source. -/
structure Later (c next : Cursor) : Prop where
  stands : ∀ source, c.In source → next.In source
  shorter : next.rest.length ≤ c.rest.length

theorem Later.refl (c : Cursor) : Later c c := ⟨fun _ h => h, Nat.le_refl _⟩

theorem Later.trans {middle : Cursor} (h : Later c middle) (k : Later middle next) :
    Later c next :=
  ⟨fun source stands => k.stands source (h.stands source stands), Nat.le_trans k.shorter h.shorter⟩

theorem later_advance {ch : Char} {rest : List Char} (comes : c.rest = ch :: rest) :
    Later c (c.advance ch rest) := by
  constructor
  · intro source stands
    exact stands.advance comes
  · rw [comes]
    exact Nat.le_succ rest.length

theorem later_endOfLineComment {rest : List Char} (comes : c.rest = rest) :
    Later c (endOfLineComment c rest) := by
  induction rest generalizing c with
  | nil => exact .refl c
  | cons y rest ih =>
    rw [endOfLineComment]
    split
    · exact .refl c
    · have behind : (c.advance y rest).rest = rest := rfl
      exact (later_advance comes).trans (ih behind)

theorem later_endOfBlockComment? {rest : List Char} (comes : c.rest = rest)
    (ends : endOfBlockComment? c rest = some next) : Later c next := by
  induction rest generalizing c with
  | nil => cases ends
  | cons y rest ih =>
    rw [endOfBlockComment?.eq_def] at ends
    split at ends
    · cases ends
    · rename_i inside eq
      cases eq
      cases ends
      have star : (c.advance '*' ('/' :: inside)).rest = '/' :: inside := rfl
      exact (later_advance comes).trans (later_advance star)
    · rename_i eq
      cases eq
      have behind : (c.advance y rest).rest = rest := rfl
      exact (later_advance comes).trans (ih behind ends)

theorem later_dropComment? (dropped : dropComment? c = some next) :
    Later c next ∧ next.rest.length < c.rest.length := by
  unfold dropComment? at dropped
  split at dropped
  · rename_i rest comes
    cases dropped
    have first := later_advance comes
    have slash : (c.advance '/' ('/' :: rest)).rest = '/' :: rest := rfl
    have inside : ((c.advance '/' ('/' :: rest)).advance '/' rest).rest = rest := rfl
    have more := (later_advance slash).trans (later_endOfLineComment inside)
    refine ⟨first.trans more, ?_⟩
    rw [comes]
    exact Nat.lt_succ_of_le more.shorter
  · rename_i rest comes
    have first := later_advance comes
    have star : (c.advance '/' ('*' :: rest)).rest = '*' :: rest := rfl
    have inside : ((c.advance '/' ('*' :: rest)).advance '*' rest).rest = rest := rfl
    have more := (later_advance star).trans (later_endOfBlockComment? inside dropped)
    refine ⟨first.trans more, ?_⟩
    rw [comes]
    exact Nat.lt_succ_of_le more.shorter
  · cases dropped

theorem skipLayoutWith_settles {fuel : Nat} (enough : c.rest.length < fuel) :
    Later c (skipLayoutWith fuel c) ∧ (skipLayoutWith fuel c).Settled := by
  induction fuel generalizing c with
  | zero => exact absurd enough (Nat.not_lt_zero _)
  | succ fuel ih =>
    unfold skipLayoutWith
    split
    · rename_i y rest comes
      split
      · have fewer : (c.advance y rest).rest.length < fuel := by
          rw [comes] at enough
          exact Nat.lt_of_succ_lt_succ enough
        obtain ⟨later, settled⟩ := ih fewer
        exact ⟨(later_advance comes).trans later, settled⟩
      · rename_i black
        split
        · rename_i behind dropped
          obtain ⟨later, fewer⟩ := later_dropComment? dropped
          obtain ⟨later', settled⟩ := ih (Nat.lt_of_lt_of_le fewer (Nat.le_of_lt_succ enough))
          exact ⟨later.trans later', settled⟩
        · rename_i none_left
          refine ⟨.refl c, ?_, none_left⟩
          intro ch mem
          rw [comes] at mem
          cases mem
          simpa using black
    · rename_i ends
      refine ⟨.refl c, ?_, ?_⟩
      · intro ch mem
        rw [ends] at mem
        cases mem
      · simp [dropComment?, ends]

theorem In.skipLayout (h : c.In source) : (skipLayout c).In source :=
  (skipLayoutWith_settles (Nat.lt_succ_self _)).1.stands source h

theorem skipLayout_settled (c : Cursor) : (skipLayout c).Settled :=
  (skipLayoutWith_settles (Nat.lt_succ_self _)).2

end Cursor

theorem Spacing.skip_in {source : List Char} {c : Cursor} (h : c.In source) (s : Spacing) :
    (s.skip c).In source := by
  unfold Spacing.skip
  split
  · exact h.skipLayout
  · exact h

theorem Spacing.skip_settled {s : Spacing} (spaced : s = .spaced) (c : Cursor) :
    (s.skip c).Settled := by
  rw [Spacing.skip, if_pos spaced]
  exact Cursor.skipLayout_settled c

def Node.start : Node → Cursor
  | .mk _ start _ _ => start

/-- The nodes of a tree stand in the source. Those that are neither the program nor the inside of
a string begin with a character of their own, and the arguments of a call with a bracket. -/
inductive Node.Placed (source : List Char) : Node → Prop
  | mk {r start length nodes} (stands : start.In source)
    (settled : r ≠ .program → r ≠ .stringContent → start.Settled)
    (opens : r = .callSuffix → start.rest.head? = some '(')
    (inside : ∀ n ∈ nodes, n.Placed source) : (Node.mk r start length nodes).Placed source

/-- No rule inside the pattern but the inside of a string. -/
def Pattern.Plain : Pattern → Prop
  | .rule r => r = .stringContent
  | .text _ | .char _ | .start | .finish => True
  | .seq first second | .alt first second => first.Plain ∧ second.Plain
  | .opt body | .many body | .reject body => body.Plain

def Task.Plain : Task → Prop
  | once p | again p => p.Plain

theorem spacing_getD_spaced {r : Rule} {s : Spacing} (h : r.spacing.getD s = .spaced) :
    s = .spaced := by
  cases r <;> first | exact h | cases h

/-- What is matched without blanks in between, but not hidden, is a string. -/
theorem spacing_getD_joined {r : Rule} {s : Spacing} (h : r.spacing.getD s = .joined) :
    r = .string ∨ s = .joined ∧ r ≠ .stringContent := by
  cases r <;> first | exact .inl rfl | exact .inr ⟨h, by decide⟩ | cases h

theorem string_plain : (Rule.pattern .string).Plain := ⟨trivial, rfl, trivial⟩

theorem Derives.bracket {s : Spacing} {here next : Progress}
    (h : Derives s (.once (Rule.pattern .callSuffix)) here next) :
    here.cursor.rest.head? = some '(' := by
  cases h with
  | seq first _ =>
    cases first with
    | text dropped =>
      have chars : "(".toList = ['('] := rfl
      rw [chars, Cursor.dropText?] at dropped
      split at dropped
      · rename_i y rest comes
        split at dropped
        · rename_i same
          rw [comes, ← same]
          rfl
        · cases dropped
      · cases dropped

theorem Derives.placed {source : List Char} {s : Spacing} {task : Task} {here next : Progress}
    (h : Derives s task here next) (stands : here.cursor.In source)
    (begins : ∀ p, task = .once p → s = .spaced → here.cursor.Settled)
    (plain : s = .joined → task.Plain) (old : ∀ n ∈ here.nodes, n.Placed source) :
    next.cursor.In source ∧ ∀ n ∈ next.nodes, n.Placed source := by
  induction h with
  | text dropped => exact ⟨stands.dropText? dropped, old⟩
  | char dropped => exact ⟨stands.dropClass? dropped, old⟩
  | start | finish | absent | never | reject | enough => exact ⟨stands, old⟩
  | @rule s r here next inside ih =>
    have settled : s = .spaced → here.cursor.Settled := begins _ rfl
    obtain ⟨ends, nodes⟩ := ih stands (fun _ _ spaced => settled (spacing_getD_spaced spaced)) (by
      intro joined
      rcases spacing_getD_joined joined with rfl | ⟨outside, other⟩
      · exact string_plain
      · exact absurd (plain outside) other) (by simp)
    refine ⟨ends, ?_⟩
    intro n mem
    simp only [Spacing.added] at mem
    split at mem
    · exact old n mem
    · rename_i shown
      rcases List.mem_cons.mp mem with rfl | mem
      · refine .mk stands ?_ ?_ (by simpa using nodes)
        · intro _ content
          cases s with
          | spaced => exact settled rfl
          | joined => exact absurd (plain rfl) content
          | atomic => exact absurd rfl shown
        · intro suffix
          subst suffix
          exact inside.bracket
      · exact old n mem
  | @seq s first second here middle next _ _ ih ih' =>
    obtain ⟨stands', nodes⟩ :=
      ih stands (fun _ _ => begins _ rfl) (fun joined => (plain joined).1) old
    exact ih' (Spacing.skip_in stands' s) (fun _ _ spaced => Spacing.skip_settled spaced _)
      (fun joined => (plain joined).2) nodes
  | first _ ih =>
    exact ih stands (fun _ _ => begins _ rfl) (fun joined => (plain joined).1) old
  | second _ ih =>
    exact ih stands (fun _ _ => begins _ rfl) (fun joined => (plain joined).2) old
  | present _ ih => exact ih stands (fun _ _ => begins _ rfl) plain old
  | many _ _ ih ih' =>
    obtain ⟨stands', nodes⟩ := ih stands (fun _ _ => begins _ rfl) plain old
    exact ih' stands' (fun _ again => by cases again) plain nodes
  | @more s body here middle next _ _ ih ih' =>
    obtain ⟨stands', nodes⟩ := ih (Spacing.skip_in stands s)
      (fun _ _ spaced => Spacing.skip_settled spaced _) plain old
    exact ih' stands' (fun _ again => by cases again) plain nodes

/-- The tree of a source stands in it. -/
theorem matchRule_placed {source : List Char} {attempts : Attempts} {root : Node}
    (h : matchRule .program source = (attempts, some root)) : root.Placed source := by
  unfold matchRule at h
  dsimp only at h
  split at h
  · rename_i progress eq
    simp only [Prod.mk.injEq] at h
    obtain ⟨-, root_eq⟩ := h
    have derived := (run_derives _).1 _ _ _ _ _ _ eq
    cases derived with
    | rule inside =>
      cases inside with
      | seq first second =>
        cases first with
        | start =>
          -- Behind the start of the input blanks are skipped, so the rest begins as it has to.
          obtain ⟨-, nodes⟩ := second.placed (Cursor.start_in source).skipLayout
            (fun _ _ _ => Cursor.skipLayout_settled _) (fun joined => by cases joined) (by simp)
          cases root_eq
          exact .mk (Cursor.start_in source) (fun other => absurd rfl other)
            (fun other => by cases other) (by simpa using nodes)
  · simp at h
  · simp at h

end Script
end FrameScript
