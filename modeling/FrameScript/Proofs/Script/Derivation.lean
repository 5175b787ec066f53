import FrameScript.Script.Matcher

/-!
# Derivations of matches

A successful match is derived by rules that forget the fuel, the record of
attempts and what was tried in vain. A tree that the matcher builds is
well-formed: an identifier is a word, and the target of an assignment begins
with an identifier.
-/

namespace FrameScript
namespace Script

/-- What is matched: a pattern, or further repetitions of one. -/
inductive Task where
  | once (p : Pattern)
  | again (p : Pattern)

def Spacing.skip (s : Spacing) (c : Cursor) : Cursor := if s = .spaced then skipLayout c else c

/-- The node that a rule adds, where inner rules are not hidden. -/
def Spacing.added (s : Spacing) (r : Rule) (here inside : Progress) : List Node :=
  if s = .atomic then here.nodes
  else .mk r here.cursor (inside.cursor.position - here.cursor.position) inside.nodes.reverse ::
    here.nodes

/-- How a task can take a match from one progress to another. -/
inductive Derives : Spacing → Task → Progress → Progress → Prop
  | text {s chars here c} (h : here.cursor.dropText? chars = some c) :
    Derives s (.once (.text chars)) here ⟨c, here.nodes⟩
  | char {s charClass here c} (h : here.cursor.dropClass? charClass = some c) :
    Derives s (.once (.char charClass)) here ⟨c, here.nodes⟩
  | start {s here} : Derives s (.once .start) here here
  | finish {s here} : Derives s (.once .finish) here here
  | rule {s r here next}
    (inside : Derives (r.spacing.getD s) (.once r.pattern) ⟨here.cursor, []⟩ next) :
    Derives s (.once (.rule r)) here ⟨next.cursor, s.added r here next⟩
  | seq {s first second here middle next} (h : Derives s (.once first) here middle)
    (k : Derives s (.once second) ⟨s.skip middle.cursor, middle.nodes⟩ next) :
    Derives s (.once (.seq first second)) here next
  | first {s first second here next} (h : Derives s (.once first) here next) :
    Derives s (.once (.alt first second)) here next
  | second {s first second here next} (h : Derives s (.once second) here next) :
    Derives s (.once (.alt first second)) here next
  | present {s body here next} (h : Derives s (.once body) here next) :
    Derives s (.once (.opt body)) here next
  | absent {s body here} : Derives s (.once (.opt body)) here here
  | never {s body here} : Derives s (.once (.many body)) here here
  | many {s body here middle next} (h : Derives s (.once body) here middle)
    (k : Derives s (.again body) middle next) : Derives s (.once (.many body)) here next
  | reject {s body here} : Derives s (.once (.reject body)) here here
  | enough {s body here} : Derives s (.again body) here here
  | more {s body here middle next}
    (h : Derives s (.once body) ⟨s.skip here.cursor, here.nodes⟩ middle)
    (k : Derives s (.again body) middle next) : Derives s (.again body) here next

theorem run_derives (fuel : Nat) :
    (∀ mode pattern here attempts attempts' next,
      run fuel mode pattern here attempts = some (attempts', some next) →
        Derives mode.spacing (.once pattern) here next) ∧
    (∀ mode body here attempts attempts' next,
      repeatMore fuel mode body here attempts = some (attempts', some next) →
        Derives mode.spacing (.again body) here next) := by
  induction fuel with
  | zero => exact ⟨by simp [run], by simp [repeatMore]⟩
  | succ fuel ih =>
    obtain ⟨runs, repeats⟩ := ih
    constructor
    · intro mode pattern here attempts attempts' next h
      rw [run.eq_def] at h
      cases pattern with
      | text chars =>
        simp only [Option.some.injEq, Prod.mk.injEq, Option.map_eq_some_iff] at h
        obtain ⟨-, c, dropped, rfl⟩ := h
        exact .text dropped
      | char charClass =>
        simp only [Option.some.injEq, Prod.mk.injEq, Option.map_eq_some_iff] at h
        obtain ⟨-, c, dropped, rfl⟩ := h
        exact .char dropped
      | start =>
        simp only [Option.some.injEq, Prod.mk.injEq, Option.ite_none_right_eq_some] at h
        obtain ⟨-, -, rfl⟩ := h
        exact .start
      | finish =>
        simp only [Option.some.injEq, Prod.mk.injEq, Option.ite_none_right_eq_some] at h
        obtain ⟨-, -, rfl⟩ := h
        exact .finish
      | rule r =>
        dsimp only at h
        split at h
        · rename_i a inside eq
          simp only [Option.some.injEq, Prod.mk.injEq] at h
          obtain ⟨-, rfl⟩ := h
          exact .rule (runs _ _ _ _ _ _ eq)
        · simp at h
        · cases h
      | seq first second =>
        dsimp only at h
        split at h
        · rename_i a middle eq
          exact .seq (runs _ _ _ _ _ _ eq) (runs _ _ _ _ _ _ h)
        · rename_i stopped failed
          exact absurd h (failed _ _)
      | alt first second =>
        dsimp only at h
        split at h
        · exact .second (runs _ _ _ _ _ _ h)
        · exact .first (runs _ _ _ _ _ _ h)
      | opt body =>
        dsimp only at h
        split at h
        · simp only [Option.some.injEq, Prod.mk.injEq] at h
          obtain ⟨-, rfl⟩ := h
          exact .absent
        · exact .present (runs _ _ _ _ _ _ h)
      | many body =>
        dsimp only at h
        split at h
        · rename_i a middle eq
          exact .many (runs _ _ _ _ _ _ eq) (repeats _ _ _ _ _ _ h)
        · simp only [Option.some.injEq, Prod.mk.injEq] at h
          obtain ⟨-, rfl⟩ := h
          exact .never
        · cases h
      | reject body =>
        dsimp only at h
        split at h
        · simp at h
        · simp only [Option.some.injEq, Prod.mk.injEq] at h
          obtain ⟨-, rfl⟩ := h
          exact .reject
        · cases h
    · intro mode body here attempts attempts' next h
      rw [repeatMore.eq_def] at h
      dsimp only at h
      split at h
      · rename_i a middle eq
        exact .more (runs _ _ _ _ _ _ eq) (repeats _ _ _ _ _ _ h)
      · simp only [Option.some.injEq, Prod.mk.injEq] at h
        obtain ⟨-, rfl⟩ := h
        exact .enough
      · cases h

def isWordChar (c : Char) : Bool := c.isAlphanum || c = '_'

/-- Without blanks, the pattern takes only characters of words. -/
def Pattern.Wordy : Pattern → Prop
  | .text chars => ∀ c ∈ chars, isWordChar c
  | .char charClass => ∀ c, charClass.holds c → isWordChar c
  | .start | .finish | .reject _ => True
  | .rule _ => False
  | .seq first second | .alt first second => first.Wordy ∧ second.Wordy
  | .opt body | .many body => body.Wordy

def Task.Wordy : Task → Prop
  | once p | again p => p.Wordy

/-- The characters between two cursors are those of words. -/
def Cursor.Spells (c next : Cursor) : Prop :=
  ∃ taken, c.rest = taken ++ next.rest ∧ next.position = c.position + taken.length ∧
    ∀ x ∈ taken, isWordChar x

theorem Cursor.Spells.refl (c : Cursor) : c.Spells c := ⟨[], rfl, rfl, by simp⟩

theorem Cursor.Spells.trans {a b c : Cursor} (h : a.Spells b) (k : b.Spells c) : a.Spells c := by
  obtain ⟨first, rest, position, words⟩ := h
  obtain ⟨second, rest', position', words'⟩ := k
  refine ⟨first ++ second, ?_, ?_, ?_⟩
  · rw [rest, rest', List.append_assoc]
  · rw [position', position, List.length_append, Nat.add_assoc]
  · intro x mem
    rcases List.mem_append.mp mem with mem | mem
    · exact words x mem
    · exact words' x mem

theorem Cursor.spells_advance (c : Cursor) {x : Char} {rest : List Char}
    (h : c.rest = x :: rest) (word : isWordChar x) : c.Spells (c.advance x rest) :=
  ⟨[x], h, rfl, by simpa using word⟩

theorem Cursor.dropText?_spells {chars : List Char} (words : ∀ x ∈ chars, isWordChar x)
    {c next : Cursor} (h : c.dropText? chars = some next) : c.Spells next := by
  induction chars generalizing c with
  | nil =>
    simp only [dropText?, Option.some.injEq] at h
    subst h
    exact .refl c
  | cons x xs ih =>
    rw [dropText?] at h
    split at h
    · rename_i y rest eq
      split at h
      · rename_i same
        subst same
        have first := c.spells_advance eq (words x List.mem_cons_self)
        exact first.trans (ih (fun z mem => words z (List.mem_cons_of_mem x mem)) h)
      · cases h
    · cases h

theorem Cursor.dropClass?_spells {charClass : CharClass}
    (words : ∀ x, charClass.holds x → isWordChar x) {c next : Cursor}
    (h : c.dropClass? charClass = some next) : c.Spells next := by
  rw [dropClass?] at h
  split at h
  · rename_i y rest eq
    simp only [Option.ite_none_right_eq_some, Option.some.injEq] at h
    obtain ⟨holds, rfl⟩ := h
    exact c.spells_advance eq (words y holds)
  · cases h

/-- Where no blanks are skipped, a pattern of words matches words only. -/
theorem Derives.spells {s : Spacing} {task : Task} {here next : Progress}
    (h : Derives s task here next) (joined : s ≠ .spaced) (words : task.Wordy) :
    here.cursor.Spells next.cursor := by
  induction h with
  | text dropped => exact Cursor.dropText?_spells words dropped
  | char dropped => exact Cursor.dropClass?_spells words dropped
  | start | finish | absent | never | reject | enough => exact .refl _
  | rule => exact words.elim
  | seq _ _ ih ih' =>
    have second := ih' joined words.2
    simp only [Spacing.skip, if_neg joined] at second
    exact (ih joined words.1).trans second
  | first _ ih => exact ih joined words.1
  | second _ ih => exact ih joined words.2
  | present _ ih => exact ih joined words
  | many _ _ ih ih' => exact (ih joined words).trans (ih' joined words)
  | more _ _ ih ih' =>
    have first := ih joined words
    simp only [Spacing.skip, if_neg joined] at first
    exact first.trans (ih' joined words)

def Unbracketed (name : String) : Prop := '(' ∉ name.toList

/-- The rule that an assignment and its target begin with. -/
def Rule.first? : Rule → Option Rule
  | assignStmt => some assignTarget
  | assignTarget => some identifier
  | _ => none

/-- Identifiers are words, and assignments and targets begin as they should. -/
inductive Node.WellFormed : Node → Prop
  | mk {r start length nodes}
    (word : r = .identifier → Unbracketed (Node.mk r start length nodes).text)
    (first : ∀ q, r.first? = some q → ∀ n ∈ nodes.head?, n.rule = q)
    (inside : ∀ n ∈ nodes, n.WellFormed) : (Node.mk r start length nodes).WellFormed

theorem Derives.nodes_suffix {s : Spacing} {task : Task} {here next : Progress}
    (h : Derives s task here next) : here.nodes <:+ next.nodes := by
  induction h with
  | text | char | start | finish | absent | never | reject | enough => exact List.suffix_refl _
  | rule =>
    rw [Spacing.added]
    split
    · exact List.suffix_refl _
    · exact List.suffix_cons _ _
  | seq _ _ ih ih' | many _ _ ih ih' | more _ _ ih ih' => exact ih.trans ih'
  | first _ ih | second _ ih | present _ ih => exact ih

theorem identifier_wordy : (Rule.pattern .identifier).Wordy := by
  have lower : isWordChar '_' := by decide
  refine ⟨trivial, ⟨?_, ?_⟩, ⟨?_, ?_⟩⟩
  · intro c holds
    simp only [CharClass.holds] at holds
    simp [isWordChar, Char.isAlphanum, holds]
  · intro c mem
    simp at mem
    simpa [mem] using lower
  · intro c holds
    simp only [CharClass.holds] at holds
    simp [isWordChar, holds]
  · intro c mem
    simp at mem
    simpa [mem] using lower

theorem identifier_unbracketed {here next : Progress}
    (h : Derives .atomic (.once (Rule.pattern .identifier)) here next) (nodes : List Node) :
    Unbracketed (Node.mk .identifier here.cursor
      (next.cursor.position - here.cursor.position) nodes).text := by
  obtain ⟨taken, rest, position, words⟩ := h.spells (by decide) identifier_wordy
  intro mem
  simp only [Node.text, String.toList_ofList] at mem
  rw [rest, position, Nat.add_sub_cancel_left, List.take_left'] at mem
  · exact absurd (words _ mem) (by decide)
  · rfl

theorem Derives.atomic_nodes {s : Spacing} {task : Task} {here next : Progress}
    (h : Derives s task here next) (atomic : s = .atomic) : next.nodes = here.nodes := by
  induction h with
  | text | char | start | finish | absent | never | reject | enough => rfl
  | rule => exact if_pos atomic
  | seq _ _ ih ih' | many _ _ ih ih' | more _ _ ih ih' => exact (ih' atomic).trans (ih atomic)
  | first _ ih | second _ ih | present _ ih => exact ih atomic

theorem Derives.head_rule {s : Spacing} {q : Rule} {rest : Pattern} {here : Cursor}
    {next : Progress} (h : Derives s (.once (.seq (.rule q) rest)) ⟨here, []⟩ next) :
    ∀ n ∈ next.nodes.reverse.head?, n.rule = q := by
  intro n mem
  by_cases atomic : s = .atomic
  · rw [h.atomic_nodes atomic] at mem
    cases mem
  · cases h with
    | seq first rest =>
      cases first with
      | rule inside =>
        obtain ⟨more, nodes⟩ := rest.nodes_suffix
        simp only [Spacing.added, if_neg atomic] at nodes
        rw [← nodes, List.reverse_append] at mem
        simp only [List.reverse_cons, List.reverse_nil, List.nil_append, List.singleton_append,
          List.head?_cons, Option.mem_def, Option.some.injEq] at mem
        rw [← mem]
        rfl

theorem Rule.first?_pattern {r q : Rule} (h : r.first? = some q) :
    ∃ rest, r.pattern = .seq (.rule q) rest := by
  cases r <;> cases h
  · exact ⟨_, rfl⟩
  · exact ⟨_, rfl⟩

theorem Derives.wellFormed {s : Spacing} {task : Task} {here next : Progress}
    (h : Derives s task here next) (old : ∀ n ∈ here.nodes, n.WellFormed) :
    ∀ n ∈ next.nodes, n.WellFormed := by
  induction h with
  | text | char | start | finish | absent | never | reject | enough => exact old
  | @rule s r here next inside ih =>
    have nodes := ih (by simp)
    intro n mem
    simp only [Spacing.added] at mem
    split at mem
    · exact old n mem
    · rcases List.mem_cons.mp mem with rfl | mem
      · refine .mk ?_ ?_ (by simpa using nodes)
        · intro eq
          subst eq
          exact identifier_unbracketed inside _
        · intro q first
          obtain ⟨rest, pattern⟩ := Rule.first?_pattern first
          rw [pattern] at inside
          exact inside.head_rule
      · exact old n mem
  | seq _ _ ih ih' | many _ _ ih ih' | more _ _ ih ih' => exact ih' (ih old)
  | first _ ih | second _ ih | present _ ih => exact ih old

/-- The tree of a source is well-formed. -/
theorem matchRule_wellFormed {r : Rule} {source : List Char} {attempts : Attempts} {n : Node}
    (h : matchRule r source = (attempts, some n)) : n.WellFormed := by
  unfold matchRule at h
  dsimp only at h
  split at h
  · rename_i progress eq
    simp only [Prod.mk.injEq] at h
    have derived := (run_derives _).1 _ _ _ _ _ _ eq
    exact derived.wellFormed (by simp) n (List.mem_of_mem_head? h.2)
  · simp at h
  · simp at h

end Script
end FrameScript
