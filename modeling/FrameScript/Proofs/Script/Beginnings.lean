import FrameScript.Proofs.Script.Termination

/-!
# How matches begin

A pattern that takes characters fails where the next character is none that it begins with. What
patterns begin with is computed from the grammar.
-/

namespace FrameScript
namespace Script

/-- Whether what the pattern takes can begin with a character, if that is known for rules. -/
def Pattern.beginsBy (rules : Rule → Char → Bool) (ch : Char) : Pattern → Bool
  | text chars => chars.head? == some ch
  | char charClass => charClass.holds ch
  | start | finish | reject _ => false
  | rule r => rules r ch
  | seq first second =>
    first.beginsBy rules ch || (first.nullable && second.beginsBy rules ch)
  | alt first second => first.beginsBy rules ch || second.beginsBy rules ch
  | opt body | many body => body.beginsBy rules ch

/-- The same for a rule, if rules are opened so many times; any character may begin what is
deeper. -/
def Rule.beginsWithin : (rounds : Nat) → Rule → Char → Bool
  | 0, _, _ => true
  | rounds + 1, r, ch => r.pattern.beginsBy (beginsWithin rounds) ch

/-- A pattern can take something that begins with a character. -/
def Pattern.begins (p : Pattern) (ch : Char) : Bool := p.beginsBy (Rule.beginsWithin 20) ch

def Task.beginsBy (rules : Rule → Char → Bool) (ch : Char) : Task → Bool
  | once p | again p => p.beginsBy rules ch

variable {s : Spacing} {c : Cursor}

theorem Cursor.Settled.skip (settled : c.Settled) : skipLayout c = c := by
  unfold skipLayout skipLayoutWith
  split
  · rename_i y rest comes
    have black : isBlank y = false := settled.blank y (by rw [comes]; rfl)
    rw [black, if_neg Bool.false_ne_true, settled.comment]
  · rfl

theorem Spacing.skip_of_settled (s : Spacing) (settled : c.Settled) : s.skip c = c := by
  unfold Spacing.skip
  split
  · exact settled.skip
  · rfl

theorem Finds.begins {rules : Rule → Char → Bool} {ch : Char} {task : Task} {found : Option Found}
    (known : ∀ r s' c' f, Finds s' (.once (.rule r)) c' (some f) → c'.Settled →
      c'.rest.head? = some ch → f.cursor = c' ∨ rules r ch = true)
    (h : Finds s task c found) (settled : c.Settled) (next : c.rest.head? = some ch) :
    ∀ f, found = some f → f.cursor = c ∨ task.beginsBy rules ch = true := by
  induction h with
  | @text s chars c =>
    intro f same
    obtain ⟨behind, dropped, rfl⟩ := Option.map_eq_some_iff.mp same
    cases chars with
    | nil =>
      cases dropped
      exact .inl rfl
    | cons x xs =>
      rw [Cursor.dropText?] at dropped
      split at dropped
      · rename_i y rest comes
        rw [comes] at next
        cases next
        split at dropped
        · rename_i equal
          exact .inr (by simp [Task.beginsBy, Pattern.beginsBy, equal])
        · cases dropped
      · cases dropped
  | @char s charClass c =>
    intro f same
    obtain ⟨behind, dropped, rfl⟩ := Option.map_eq_some_iff.mp same
    rw [Cursor.dropClass?] at dropped
    split at dropped
    · rename_i y rest comes
      rw [comes] at next
      cases next
      split at dropped
      · rename_i holds
        exact .inr holds
      · cases dropped
    · cases dropped
  | start | finish =>
    intro f same
    split at same <;> cases same
    exact .inl rfl
  | rule inside _ =>
    intro f same
    obtain ⟨g, rfl, rfl⟩ := Option.map_eq_some_iff.mp same
    exact known _ _ _ _ (.rule inside) settled next
  | @seq s first second c g found h _ ih ih' =>
    intro f same
    obtain ⟨g', rfl, rfl⟩ := Option.map_eq_some_iff.mp same
    rcases ih settled next g rfl with stays | begins
    · -- The first part takes nothing, so the second one begins here.
      have nullable : first.nullable = true := by
        cases some_char : first.nullable with
        | true => rfl
        | false =>
          have less := (h.shorter g rfl).2 some_char
          rw [stays] at less
          exact absurd less (Nat.lt_irrefl _)
      have here : s.skip g.cursor = c := by rw [stays, s.skip_of_settled settled]
      rw [here] at ih'
      refine (ih' settled next g' rfl).imp_right fun begins => ?_
      have second_begins : second.beginsBy rules ch = true := begins
      simp [Task.beginsBy, Pattern.beginsBy, nullable, second_begins]
    · have first_begins : first.beginsBy rules ch = true := begins
      exact .inr (by simp [Task.beginsBy, Pattern.beginsBy, first_begins])
  | @first s first second c f _ ih =>
    intro f same
    refine (ih settled next f same).imp_right fun begins => ?_
    have first_begins : first.beginsBy rules ch = true := begins
    simp [Task.beginsBy, Pattern.beginsBy, first_begins]
  | @second s first second c found _ _ _ ih =>
    intro f same
    refine (ih settled next f same).imp_right fun begins => ?_
    have second_begins : second.beginsBy rules ch = true := begins
    simp [Task.beginsBy, Pattern.beginsBy, second_begins]
  | present _ ih => exact ih settled next
  | @many s body c g found _ _ ih ih' =>
    intro f same
    obtain ⟨g', rfl, rfl⟩ := Option.map_eq_some_iff.mp same
    rcases ih settled next g rfl with stays | begins
    · rw [stays] at ih'
      exact ih' settled next g' rfl
    · exact .inr begins
  | @more s body c g found _ _ ih ih' =>
    intro f same
    obtain ⟨g', rfl, rfl⟩ := Option.map_eq_some_iff.mp same
    rw [s.skip_of_settled settled] at ih
    rcases ih settled next g rfl with stays | begins
    · rw [stays] at ih'
      exact ih' settled next g' rfl
    · exact .inr begins
  | absent | never | allowed | enough =>
    intro f same
    cases same
    exact .inl rfl
  | stuck | refused =>
    intro f same
    cases same

/-- Rules begin with what has been computed. -/
theorem Rule.begins_within (rounds : Nat) {ch : Char} (r : Rule) (s : Spacing) (c : Cursor)
    (f : Found) (h : Finds s (.once (.rule r)) c (some f)) (settled : c.Settled)
    (next : c.rest.head? = some ch) : f.cursor = c ∨ r.beginsWithin rounds ch = true := by
  induction rounds generalizing r s c f with
  | zero => exact .inr rfl
  | succ rounds ih =>
    generalize same : some f = found at h
    cases h with
    | rule inside =>
      obtain ⟨g, rfl, rfl⟩ := Option.map_eq_some_iff.mp same.symm
      exact inside.begins ih settled next g rfl

/-- A pattern that takes characters fails where it cannot begin, and at the end. -/
theorem fails_of_begins {p : Pattern} (grounded : p.grounded) (taking : p.nullable = false)
    (s : Spacing) (settled : c.Settled) (other : ∀ ch ∈ c.rest.head?, p.begins ch = false) :
    Finds s (.once p) c none := by
  obtain ⟨found, finds⟩ := exists_finds s grounded c
  cases found with
  | none => exact finds
  | some f =>
    have less := (finds.shorter f rfl).2 taking
    cases comes : c.rest.head? with
    | none =>
      rw [List.head?_eq_none_iff.mp comes] at less
      exact absurd less (Nat.not_lt_zero _)
    | some ch =>
      rcases finds.begins (Rule.begins_within 20) settled comes f rfl with stays | begins
      · rw [stays] at less
        exact absurd less (Nat.lt_irrefl _)
      · have never := other ch comes
        rw [Pattern.begins, show p.beginsBy (Rule.beginsWithin 20) ch = true from begins] at never
        cases never

end Script
end FrameScript
