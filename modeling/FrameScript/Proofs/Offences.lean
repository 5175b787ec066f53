/-!
# Results and offences

What succeeds has succeeded in each of its steps. A result may be an error for each of several
offences in what it is computed from. It reports them if it is an error just if there is one, and
then the first.
-/

namespace FrameScript

section Success

variable {ε α β : Type} {x : Except ε α} {r : β}

theorem bind_ok {f : α → Except ε β} (h : x.bind f = .ok r) : ∃ a, x = .ok a ∧ f a = .ok r := by
  cases x with
  | error e => cases h
  | ok a => exact ⟨a, rfl, h⟩

theorem map_ok {f : α → β} (h : x.map f = .ok r) : ∃ a, x = .ok a ∧ f a = r := by
  cases x with
  | error e => cases h
  | ok a => exact ⟨a, rfl, Except.ok.inj h⟩

end Success

/-- A result that is an error just if there is an offence, and then the first one. -/
def Reports {ε α : Type} (result : Except ε α) (offences : List ε) : Prop :=
  ∀ e, result = .error e ↔ offences.head? = some e

namespace Reports

variable {ε α β : Type} {x : Except ε α} {f : α → Except ε β} {first others : List ε}

theorem ok (a : α) : Reports (.ok a : Except ε α) [] := by
  intro e
  simp

theorem error (e : ε) : Reports (.error e : Except ε α) [e] := by
  intro e'
  simp

theorem clean {a : α} (h : Reports (.ok a) first) : first = [] := by
  rw [← List.head?_eq_none_iff, Option.eq_none_iff_forall_ne_some]
  intro e reported
  cases (h e).mpr reported

/-- What comes later is only reached if there is no offence before it. -/
theorem bind (h : Reports x first) (next : ∀ a, x = .ok a → Reports (f a) others) :
    Reports (x.bind f) (first ++ others) := by
  intro e
  cases x with
  | error e' =>
    have reported := (h e').mp rfl
    simp [Except.bind, reported]
  | ok a =>
    rw [h.clean, List.nil_append]
    exact next a rfl e

theorem map (h : Reports x first) (g : α → β) : Reports (x.bind fun a => .ok (g a)) first := by
  have := h.bind fun a _ => ok (g a)
  rwa [List.append_nil] at this

theorem isOk_iff (h : Reports x first) : (∃ a, x = .ok a) ↔ first = [] := by
  cases x with
  | error e =>
    have reported := (h e).mp rfl
    refine iff_of_false (by simp) ?_
    rintro rfl
    cases reported
  | ok a => exact iff_of_true ⟨a, rfl⟩ h.clean

end Reports
end FrameScript
