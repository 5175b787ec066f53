import FrameScript.Proofs.Script.Lexemes

/-!
# Shapes of trees

The rules of the nodes below a node follow the pattern of its rule, so that a tree has the shape
that the grammar gives it. For every rule the shape is stated as what stands below.
-/

namespace FrameScript
namespace Script

variable {s : Spacing} {c : Cursor} {f : Found}

/-- The pattern adds nodes of these rules. -/
def Pattern.Produces : Pattern → List Rule → Prop
  | text _, rules | char _, rules | start, rules | finish, rules | reject _, rules => rules = []
  | rule r, rules => rules = [r]
  | seq first second, rules =>
    ∃ a b, first.Produces a ∧ second.Produces b ∧ rules = a ++ b
  | alt first second, rules => first.Produces rules ∨ second.Produces rules
  | opt body, rules => rules = [] ∨ body.Produces rules
  | many body, rules => ∃ parts : List (List Rule), (∀ a ∈ parts, body.Produces a) ∧
      rules = parts.flatten

/-- The tree has the shape that the grammar gives it, and its numerals write numbers. -/
inductive Node.Grammatical : Node → Prop
  | mk {r : Rule} {start : Cursor} {length : Nat} {nodes : List Node}
    (leaf : r.spacing = some .atomic → nodes = [])
    (shape : r.spacing ≠ some .atomic → r.pattern.Produces (nodes.map Node.rule))
    (value : r = .number → ∃ x, Number.ofText? (Node.mk r start length nodes).text = some x)
    (inside : ∀ n ∈ nodes, n.Grammatical) : (Node.mk r start length nodes).Grammatical

/-- Matching adds nodes of this kind. -/
theorem Finds.grammatical {task : Task} {found : Option Found} (h : Finds s task c found)
    (shown : s ≠ .atomic) : ∀ f, found = some f →
      task.pattern.Produces (f.nodes.map Node.rule) ∧ ∀ n ∈ f.nodes, n.Grammatical := by
  induction h with
  | text | char =>
    intro f same
    obtain ⟨next, -, rfl⟩ := Option.map_eq_some_iff.mp same
    exact ⟨rfl, by simp [Found.nothing]⟩
  | start | finish =>
    intro f same
    split at same <;> cases same
    exact ⟨rfl, by simp [Found.nothing]⟩
  | @rule s r c found inner ih =>
    intro f same
    obtain ⟨g, rfl, rfl⟩ := Option.map_eq_some_iff.mp same
    simp only [Spacing.shown, if_neg shown, Task.pattern, List.map_cons, List.map_nil,
      List.mem_singleton, forall_eq]
    refine ⟨rfl, ?_⟩
    by_cases atomic : r.spacing = some .atomic
    · have leaf : g.nodes = [] := inner.hidden (by rw [atomic]; rfl) g rfl
      refine .mk (fun _ => leaf) (fun other => absurd atomic other) ?_ (by simp [leaf])
      rintro rfl
      obtain ⟨t, k, comes, takes, same⟩ := (Finds.rule inner).token atomic
      have ends : g.cursor = c.after t := congrArg Found.cursor same
      rw [ends, Node.text_after _ comes]
      exact takes.numeral.value
    · have own : r.spacing.getD s ≠ .atomic := by
        cases spacing : r.spacing with
        | none => exact shown
        | some inner =>
          rintro rfl
          exact atomic spacing
      obtain ⟨shape, inside⟩ := ih own g rfl
      refine .mk (fun other => absurd other atomic) (fun _ => shape) ?_ inside
      rintro rfl
      exact absurd rfl atomic
  | seq _ _ ih ih' =>
    intro f same
    obtain ⟨g, rfl, rfl⟩ := Option.map_eq_some_iff.mp same
    obtain ⟨shape, nodes⟩ := ih shown _ rfl
    obtain ⟨shape', nodes'⟩ := ih' shown g rfl
    exact ⟨⟨_, _, shape, shape', List.map_append⟩, List.forall_mem_append.mpr ⟨nodes, nodes'⟩⟩
  | many _ _ ih ih' | more _ _ ih ih' =>
    intro f same
    obtain ⟨g, rfl, rfl⟩ := Option.map_eq_some_iff.mp same
    obtain ⟨shape, nodes⟩ := ih shown _ rfl
    obtain ⟨⟨parts, shapes, whole⟩, nodes'⟩ := ih' shown g rfl
    refine ⟨⟨_ :: parts, List.forall_mem_cons.mpr ⟨shape, shapes⟩, ?_⟩,
      List.forall_mem_append.mpr ⟨nodes, nodes'⟩⟩
    rw [Found.before, List.map_append, whole, List.flatten_cons]
  | first _ ih =>
    intro f same
    exact (ih shown f same).imp_left .inl
  | second _ _ _ ih =>
    intro f same
    exact (ih shown f same).imp_left .inr
  | present _ ih =>
    intro f same
    exact (ih shown f same).imp_left .inr
  | absent =>
    intro f same
    cases same
    exact ⟨.inl rfl, by simp [Found.nothing]⟩
  | never | enough =>
    intro f same
    cases same
    exact ⟨⟨[], by simp, rfl⟩, by simp [Found.nothing]⟩
  | allowed =>
    intro f same
    cases same
    exact ⟨rfl, by simp [Found.nothing]⟩
  | stuck | refused =>
    intro f same
    cases same

namespace Node.Grammatical

variable {r : Rule} {start : Cursor} {length : Nat} {nodes : List Node}

theorem produces (h : (Node.mk r start length nodes).Grammatical)
    (shown : r.spacing ≠ some .atomic) : r.pattern.Produces (nodes.map Node.rule) := by
  cases h with
  | mk _ shape _ _ => exact shape shown

theorem all (h : (Node.mk r start length nodes).Grammatical) : ∀ n ∈ nodes, n.Grammatical := by
  cases h with
  | mk _ _ _ inside => exact inside

theorem number (h : (Node.mk .number start length nodes).Grammatical) :
    ∃ x, Number.ofText? (Node.mk .number start length nodes).text = some x := by
  cases h with
  | mk _ _ value _ => exact value rfl

end Node.Grammatical

theorem Pattern.produces_choice (rules : List Rule) {made : List Rule} (nonempty : rules ≠ [])
    (h : (Pattern.choice (rules.map .rule)).Produces made) : ∃ r ∈ rules, made = [r] := by
  induction rules with
  | nil => exact absurd rfl nonempty
  | cons r rest ih =>
    cases rest with
    | nil => exact ⟨r, List.mem_cons_self, h⟩
    | cons q rest =>
      rcases h with first | others
      · exact ⟨r, List.mem_cons_self, first⟩
      · obtain ⟨q, mem, same⟩ := ih (by simp) others
        exact ⟨q, List.mem_cons_of_mem r mem, same⟩

end Script
end FrameScript
