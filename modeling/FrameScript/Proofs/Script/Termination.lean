import FrameScript.Proofs.Script.Matching
import FrameScript.Proofs.Script.Positions

/-!
# The matcher comes to an end

A repeated pattern takes at least one character each time, and no rule comes back to itself
before a character has been taken. So the fuel of the matcher is always enough, and every pattern
of the grammar finds something or nothing at every cursor.
-/

namespace FrameScript
namespace Script

/-- The rule can match without taking a character. -/
def Rule.nullable : Rule → Bool
  | endOfInput | program | stringContent => true
  | _ => false

def Pattern.nullable : Pattern → Bool
  | text chars => chars.isEmpty
  | char _ => false
  | start | finish | opt _ | many _ | reject _ => true
  | rule r => r.nullable
  | seq first second => first.nullable && second.nullable
  | alt first second => first.nullable || second.nullable

theorem Rule.nullable_pattern (r : Rule) : r.pattern.nullable = r.nullable := by
  cases r <;> rfl

def Task.nullable : Task → Bool
  | once p => p.nullable
  | again _ => true

variable {s : Spacing} {c next : Cursor}

theorem Spacing.skip_shorter (s : Spacing) (c : Cursor) :
    (s.skip c).rest.length ≤ c.rest.length := by
  unfold Spacing.skip
  split
  · exact (Cursor.skipLayoutWith_settles (Nat.lt_succ_self _)).1.shorter
  · exact Nat.le_refl _

theorem Cursor.dropText?_length {chars : List Char} (dropped : c.dropText? chars = some next) :
    next.rest.length + chars.length = c.rest.length := by
  induction chars generalizing c with
  | nil =>
    cases dropped
    rfl
  | cons x xs ih =>
    rw [dropText?] at dropped
    split at dropped
    · rename_i y rest comes
      split at dropped
      · have behind := ih dropped
        rw [comes, List.length_cons, List.length_cons, ← Nat.add_assoc, behind]
        rfl
      · cases dropped
    · cases dropped

theorem Cursor.dropClass?_length {charClass : CharClass}
    (dropped : c.dropClass? charClass = some next) :
    next.rest.length + 1 = c.rest.length := by
  rw [dropClass?] at dropped
  split at dropped
  · rename_i y rest comes
    split at dropped
    · cases dropped
      rw [comes]
      rfl
    · cases dropped
  · cases dropped

theorem Finds.shorter {task : Task} {found : Option Found} (h : Finds s task c found) :
    ∀ f, found = some f → f.cursor.rest.length ≤ c.rest.length ∧
      (task.nullable = false → f.cursor.rest.length < c.rest.length) := by
  induction h with
  | text =>
    intro f same
    obtain ⟨next, dropped, rfl⟩ := Option.map_eq_some_iff.mp same
    have length := Cursor.dropText?_length dropped
    refine ⟨by simp only [Found.nothing]; omega, fun some_char => ?_⟩
    have filled := List.length_pos_iff.mpr (List.isEmpty_eq_false_iff.mp some_char)
    simp only [Found.nothing]
    omega
  | char =>
    intro f same
    obtain ⟨next, dropped, rfl⟩ := Option.map_eq_some_iff.mp same
    have length := Cursor.dropClass?_length dropped
    simp only [Found.nothing]
    omega
  | start | finish =>
    intro f same
    split at same <;> cases same
    exact ⟨Nat.le_refl _, fun never => by cases never⟩
  | @rule s r c found _ ih =>
    intro f same
    obtain ⟨g, rfl, rfl⟩ := Option.map_eq_some_iff.mp same
    obtain ⟨less, strict⟩ := ih g rfl
    exact ⟨less, fun some_char => strict (r.nullable_pattern.trans some_char)⟩
  | @seq s first second c g found _ _ ih ih' =>
    intro f same
    obtain ⟨g', rfl, rfl⟩ := Option.map_eq_some_iff.mp same
    obtain ⟨less, strict⟩ := ih g rfl
    obtain ⟨less', strict'⟩ := ih' g' rfl
    have skipped := s.skip_shorter g.cursor
    simp only [Found.before]
    refine ⟨by omega, fun some_char => ?_⟩
    rcases Bool.and_eq_false_iff.mp some_char with first_char | second_char
    · have := strict first_char
      omega
    · have := strict' second_char
      omega
  | first _ ih =>
    intro f same
    obtain ⟨less, strict⟩ := ih f same
    exact ⟨less, fun some_char => strict (Bool.or_eq_false_iff.mp some_char).1⟩
  | second _ _ _ ih =>
    intro f same
    obtain ⟨less, strict⟩ := ih f same
    exact ⟨less, fun some_char => strict (Bool.or_eq_false_iff.mp some_char).2⟩
  | present _ ih =>
    intro f same
    exact ⟨(ih f same).1, fun never => by cases never⟩
  | @many s body c g found _ _ ih ih' =>
    intro f same
    obtain ⟨g', rfl, rfl⟩ := Option.map_eq_some_iff.mp same
    exact ⟨Nat.le_trans (ih' g' rfl).1 (ih g rfl).1, fun never => by cases never⟩
  | @more s body c g found _ _ ih ih' =>
    intro f same
    obtain ⟨g', rfl, rfl⟩ := Option.map_eq_some_iff.mp same
    have skipped := s.skip_shorter c
    exact ⟨Nat.le_trans (ih' g' rfl).1 (Nat.le_trans (ih g rfl).1 skipped),
      fun never => by cases never⟩
  | absent | never | allowed | enough =>
    intro f same
    cases same
    exact ⟨Nat.le_refl _, fun never => by cases never⟩
  | stuck | refused =>
    intro f same
    cases same

/-- How deep patterns are entered before a character is taken, if that is known for rules. -/
def Pattern.rankBy (rank : Rule → Nat) : Pattern → Nat
  | text _ | char _ | start | finish => 1
  | rule r => rank r + 1
  | seq first second =>
    max (first.rankBy rank) (if first.nullable then second.rankBy rank else 0) + 1
  | alt first second => max (first.rankBy rank) (second.rankBy rank) + 1
  | opt body | many body | reject body => body.rankBy rank + 1

/-- The depth of a rule, if rules are opened so many times. -/
def Rule.rankWithin : (rounds : Nat) → Rule → Nat
  | 0, _ => 0
  | rounds + 1, r => r.pattern.rankBy (rankWithin rounds)

/-- The depth of a rule. No rule leads through more than twenty others to a character. -/
def Rule.rank (r : Rule) : Nat := r.rankWithin 20

def Pattern.rank (p : Pattern) : Nat := p.rankBy Rule.rank

/-- What is repeated takes characters, and no part is deeper than the fuel of a character. -/
def Pattern.grounded : Pattern → Bool
  | text _ | char _ | start | finish | rule _ => true
  | seq first second =>
    first.grounded && second.grounded && decide (second.rank ≤ depthPerChar)
  | alt first second => first.grounded && second.grounded
  | opt body | reject body => body.grounded
  | many body => body.grounded && !body.nullable

/-- The grammar is not left-recursive. -/
theorem Rule.grounded_pattern (r : Rule) :
    r.pattern.grounded = true ∧ r.pattern.rank ≤ r.rank ∧ r.rank < depthPerChar := by
  cases r <;> decide +kernel

/-- The fuel that a pattern needs at a cursor. -/
def Pattern.need (p : Pattern) (c : Cursor) : Nat := c.rest.length * depthPerChar + p.rank

theorem Pattern.need_le {p q : Pattern} (shallow : p.rank ≤ q.rank)
    (less : next.rest.length ≤ c.rest.length) : p.need next ≤ q.need c :=
  Nat.add_le_add (Nat.mul_le_mul_right depthPerChar less) shallow

/-- Behind a character a pattern needs less fuel than any other one did before. -/
theorem Pattern.need_succ_le {p q : Pattern} (shallow : p.rank ≤ depthPerChar)
    (positive : 0 < q.rank) (less : next.rest.length < c.rest.length) :
    p.need next + 1 ≤ q.need c := by
  have more := Nat.mul_le_mul_right depthPerChar (Nat.succ_le_of_lt less)
  rw [Nat.succ_mul] at more
  unfold need
  omega

theorem Pattern.need_lt (p : Pattern) (less : next.rest.length < c.rest.length) :
    p.need next < p.need c :=
  Nat.add_lt_add_right (Nat.mul_lt_mul_of_pos_right less (by decide)) p.rank

theorem Pattern.need_inside {p q : Pattern} {fuel : Nat} (deeper : p.rank < q.rank)
    (enough : q.need c ≤ fuel + 1) : p.need c ≤ fuel :=
  Nat.le_of_lt_succ (Nat.lt_of_lt_of_le (Nat.add_lt_add_left deeper _) enough)

/-- With the fuel that it needs, a match comes to an end. -/
theorem run_ends (fuel : Nat) :
    (∀ mode (p : Pattern) here attempts, p.grounded → p.need here.cursor ≤ fuel →
      run fuel mode p here attempts ≠ none) ∧
    (∀ mode (body : Pattern) here attempts, body.grounded → body.nullable = false →
      body.need here.cursor + 1 ≤ fuel → repeatMore fuel mode body here attempts ≠ none) := by
  induction fuel with
  | zero =>
    refine ⟨fun mode p here attempts _ enough => ?_, fun mode body here attempts _ _ enough => ?_⟩
    · cases p <;> simp [Pattern.need, Pattern.rank, Pattern.rankBy] at enough
    · exact absurd enough (Nat.not_succ_le_zero _)
  | succ fuel ih =>
    obtain ⟨runs, repeats⟩ := ih
    -- What has been matched leaves no more characters, and fewer if it takes some.
    have shorter {mode p here attempts attempts' next}
        (h : run fuel mode p here attempts = some (attempts', some next)) :
        next.cursor.rest.length ≤ here.cursor.rest.length ∧
          (p.nullable = false → next.cursor.rest.length < here.cursor.rest.length) := by
      obtain ⟨found, finds, same⟩ := (run_finds fuel).1 _ _ _ _ _ _ h
      cases found with
      | none => cases same
      | some f =>
        cases same
        exact finds.shorter f rfl
    constructor
    · intro mode p here attempts grounded enough
      rw [run.eq_def]
      cases p with
      | text | char | start | finish => simp
      | rule r =>
        obtain ⟨below, shallow, -⟩ := r.grounded_pattern
        have deeper : r.pattern.rank < (Pattern.rule r).rank := Nat.lt_succ_of_le shallow
        have inside : r.pattern.need here.cursor ≤ fuel := Pattern.need_inside deeper enough
        dsimp only
        split
        · simp
        · simp
        · rename_i ended
          exact absurd ended (runs _ _ _ _ below inside)
      | seq first second =>
        simp only [Pattern.grounded, Bool.and_eq_true, decide_eq_true_eq] at grounded
        obtain ⟨⟨first_grounded, second_grounded⟩, shallow⟩ := grounded
        have own : (Pattern.seq first second).rank =
            max first.rank (if first.nullable then second.rank else 0) + 1 := rfl
        have inside : first.need here.cursor ≤ fuel :=
          Pattern.need_inside (Nat.lt_succ_of_le (Nat.le_max_left _ _)) enough
        dsimp only
        split
        · rename_i next matched
          obtain ⟨less, strict⟩ := shorter matched
          have skipped := mode.spacing.skip_shorter next.cursor
          refine runs _ _ _ _ second_grounded ?_
          have behind : second.need (mode.spacing.skip next.cursor) + 1 ≤
              (Pattern.seq first second).need here.cursor := by
            cases nullable : first.nullable with
            | false =>
              exact Pattern.need_succ_le shallow (Nat.succ_pos _)
                (Nat.lt_of_le_of_lt skipped (strict nullable))
            | true =>
              have deeper : second.rank < (Pattern.seq first second).rank := by
                rw [own, nullable, if_pos rfl]
                exact Nat.lt_succ_of_le (Nat.le_max_right _ _)
              exact Nat.lt_of_lt_of_le (Nat.add_lt_add_left deeper _)
                (Pattern.need_le (Nat.le_refl _) (Nat.le_trans skipped less))
          exact Nat.le_of_succ_le_succ (Nat.le_trans behind enough)
        · rename_i ended _
          exact runs _ _ _ _ first_grounded inside
      | alt first second =>
        simp only [Pattern.grounded, Bool.and_eq_true] at grounded
        obtain ⟨first_grounded, second_grounded⟩ := grounded
        dsimp only
        split
        · exact runs _ _ _ _ second_grounded
            (Pattern.need_inside (Nat.lt_succ_of_le (Nat.le_max_right _ _)) enough)
        · exact runs _ _ _ _ first_grounded
            (Pattern.need_inside (Nat.lt_succ_of_le (Nat.le_max_left _ _)) enough)
      | opt body =>
        have inside : body.need here.cursor ≤ fuel :=
          Pattern.need_inside (Nat.lt_succ_self _) enough
        dsimp only
        split
        · simp
        · exact runs _ _ _ _ grounded inside
      | many body =>
        simp only [Pattern.grounded, Bool.and_eq_true, Bool.not_eq_true'] at grounded
        obtain ⟨body_grounded, some_char⟩ := grounded
        have inside : body.need here.cursor ≤ fuel :=
          Pattern.need_inside (Nat.lt_succ_self _) enough
        dsimp only
        split
        · rename_i next matched
          exact repeats _ _ _ _ body_grounded some_char
            (Nat.le_trans (body.need_lt ((shorter matched).2 some_char)) inside)
        · simp
        · rename_i ended
          exact absurd ended (runs _ _ _ _ body_grounded inside)
      | reject body =>
        have inside : body.need here.cursor ≤ fuel :=
          Pattern.need_inside (Nat.lt_succ_self _) enough
        dsimp only
        split
        · simp
        · simp
        · rename_i ended
          exact absurd ended (runs _ _ _ _ grounded inside)
    · intro mode body here attempts grounded some_char enough
      rw [repeatMore.eq_def]
      have skipped := mode.spacing.skip_shorter here.cursor
      have inside : body.need (mode.spacing.skip here.cursor) ≤ fuel :=
        Nat.le_trans (Pattern.need_le (Nat.le_refl _) skipped) (Nat.le_of_succ_le_succ enough)
      dsimp only
      split
      · rename_i next matched
        exact repeats _ _ _ _ grounded some_char
          (Nat.le_trans (body.need_lt ((shorter matched).2 some_char)) inside)
      · simp
      · rename_i ended
        exact absurd ended (runs _ _ _ _ grounded inside)

theorem exists_finds (s : Spacing) {p : Pattern} (grounded : p.grounded) (c : Cursor) :
    ∃ found, Finds s (.once p) c found := by
  have ends := (run_ends (p.need c)).1 ⟨s, false⟩ p ⟨c, []⟩ .none grounded (Nat.le_refl _)
  obtain ⟨⟨attempts, next⟩, runs⟩ := Option.ne_none_iff_exists'.mp ends
  obtain ⟨found, finds, -⟩ := (run_finds _).1 _ _ _ _ _ _ runs
  exact ⟨found, finds⟩

/-- A rule that is matched at the start of a source has fuel enough, and its node is the one that
is found. -/
theorem matchRule_finds (r : Rule) (source : List Char) :
    ∃ found, Finds .spaced (.once (.rule r)) (.start source) found ∧
      (matchRule r source).2 = found.bind fun f => f.nodes.reverse.head? := by
  obtain ⟨-, -, shallow⟩ := r.grounded_pattern
  have enough : (Pattern.rule r).need (.start source) ≤ (source.length + 2) * depthPerChar := by
    have own : (Pattern.rule r).rank = r.rank + 1 := rfl
    have rest : (Cursor.start source).rest.length = source.length := rfl
    rw [Pattern.need, own, rest, Nat.add_mul]
    omega
  have ends := (run_ends _).1 ⟨.spaced, false⟩ (.rule r) ⟨.start source, []⟩ .none rfl enough
  obtain ⟨⟨attempts, next⟩, runs⟩ := Option.ne_none_iff_exists'.mp ends
  obtain ⟨found, finds, same⟩ := (run_finds _).1 _ _ _ _ _ _ runs
  refine ⟨found, finds, ?_⟩
  rw [matchRule, runs, same]
  cases found with
  | none => rfl
  | some f => simp [Found.progress, Found.onto]

end Script
end FrameScript
