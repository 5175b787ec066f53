import FrameScript.Proofs.Offences
import FrameScript.Proofs.Script.Relayout

/-!
# What reading refuses

A tree that the grammar makes of a source has the shape that reading expects, so that a script is
built of it unless a function repeats a parameter. The functions with their names and parameters are
read off the tree here without building anything.
-/

namespace FrameScript
namespace Script

namespace Node

/-- The function declarations below a program, in the order of the source. -/
def declarations (program : Node) : List Node :=
  program.children.filter fun n => n.rule = .functionDecl

def declaredName (f : Node) : String :=
  ((f.children.find? fun n => n.rule = .identifier).map Node.text).getD ""

def parameters (f : Node) : List String :=
  (f.children.filter fun n => n.rule = .paramList).flatMap fun list => list.children.map Node.text

end Node

/-- The name is the first one that is equal to an earlier one. -/
def FirstRepeat (p : String) (names : List String) : Prop :=
  ∃ earlier later, names = earlier ++ p :: later ∧ earlier.Nodup ∧ p ∈ earlier

theorem firstRepeated?_eq_none_iff {names seen : List String} :
    firstRepeated? names seen = none ↔ names.Nodup ∧ ∀ x ∈ names, x ∉ seen := by
  induction names generalizing seen with
  | nil => simp [firstRepeated?]
  | cons x rest ih =>
    rw [firstRepeated?, List.nodup_cons, List.forall_mem_cons]
    by_cases known : x ∈ seen
    · simp [known]
    · rw [if_neg known, ih]
      simp only [List.mem_cons, not_or, forall_and]
      constructor
      · rintro ⟨distinct, others, fresh⟩
        exact ⟨⟨fun mem => others x mem rfl, distinct⟩, known, fresh⟩
      · rintro ⟨⟨single, distinct⟩, -, fresh⟩
        refine ⟨distinct, ?_, fresh⟩
        rintro y mem rfl
        exact single mem

/-- With names seen before, a name may also be equal to one of these. -/
theorem firstRepeated?_eq_some_iff {p : String} {names seen : List String} :
    firstRepeated? names seen = some p ↔ ∃ earlier later, names = earlier ++ p :: later ∧
      (earlier.Nodup ∧ ∀ x ∈ earlier, x ∉ seen) ∧ (p ∈ earlier ∨ p ∈ seen) := by
  induction names generalizing seen with
  | nil => simp [firstRepeated?]
  | cons x rest ih =>
    rw [firstRepeated?]
    by_cases known : x ∈ seen
    · rw [if_pos known]
      constructor
      · intro same
        cases same
        exact ⟨[], rest, rfl, by simp, .inr known⟩
      · rintro ⟨earlier, later, whole, ⟨-, fresh⟩, -⟩
        cases earlier with
        | nil => cases whole; rfl
        | cons y earlier =>
          cases whole
          exact absurd known (fresh x (by simp))
    · rw [if_neg known, ih]
      constructor
      · rintro ⟨earlier, later, rfl, ⟨distinct, fresh⟩, again⟩
        simp only [List.mem_cons, not_or] at fresh again
        have single : x ∉ earlier := fun mem => (fresh x mem).1 rfl
        refine ⟨x :: earlier, later, rfl, ⟨List.nodup_cons.mpr ⟨single, distinct⟩, ?_⟩, ?_⟩
        · exact List.forall_mem_cons.mpr ⟨known, fun y mem => (fresh y mem).2⟩
        · rw [List.mem_cons, or_right_comm]
          tauto
      · rintro ⟨earlier, later, whole, ⟨distinct, fresh⟩, again⟩
        cases earlier with
        | nil =>
          cases whole
          exact absurd (again.resolve_left (by simp)) known
        | cons y earlier =>
          cases whole
          obtain ⟨single, distinct⟩ := List.nodup_cons.mp distinct
          refine ⟨earlier, later, rfl, ⟨distinct, fun y mem => ?_⟩, ?_⟩
          · have other : y ≠ x := by
              rintro rfl
              exact single mem
            simp [other, fresh y (List.mem_cons_of_mem x mem)]
          · simp only [List.mem_cons] at again ⊢
            tauto

theorem firstRepeated?_iff {p : String} {names : List String} :
    firstRepeated? names [] = some p ↔ FirstRepeat p names := by
  simp [firstRepeated?_eq_some_iff, FirstRepeat]

theorem nodup_iff_firstRepeated? {names : List String} :
    names.Nodup ↔ firstRepeated? names [] = none := by
  simp [firstRepeated?_eq_none_iff]

/-- The error for a function that repeats a parameter. -/
def Node.refusal? (f : Node) : Option ParseError :=
  (firstRepeated? f.parameters []).map fun p => .duplicateParameter p f.declaredName f.line

/-- The errors for the functions among the nodes below a program. -/
def refusals (nodes : List Node) : List ParseError :=
  (nodes.filter fun n => n.rule = .functionDecl).filterMap Node.refusal?

variable {n : Node} {nodes : List Node}

theorem buildFunction_reports (g : n.Grammatical) (rule : n.rule = .functionDecl) :
    Reports (buildFunction n) n.refusal?.toList := by
  obtain ⟨r, start, length, nodes⟩ := n
  obtain rfl : r = .functionDecl := rule
  have shape : (∃ name body, nodes = [name, body] ∧ name.rule = .identifier ∧
      body.rule = .block) ∨ ∃ name params body, nodes = [name, params, body] ∧
      name.rule = .identifier ∧ params.rule = .paramList ∧ body.rule = .block := by
    simpa [Rule.pattern, Pattern.Produces, Pattern.concat, Pattern.lit, List.map_eq_cons_iff]
      using g.produces (by decide)
  rcases shape with ⟨name, body, rfl, rule, rule'⟩ | ⟨name, params, body, rfl, rule, rule', rule''⟩
  · obtain ⟨b, built, -⟩ := (g.all body (by simp)).runs.body rule'
    have no_parameters : (Node.mk .functionDecl start length [name, body]).parameters = [] := by
      simp [Node.parameters, Node.children, rule, rule']
    obtain ⟨r, _, _, statements⟩ := body
    obtain rfl : r = .block := rule'
    rw [Node.refusal?, no_parameters, buildFunction, show buildBody statements = .ok b from built]
    · exact Reports.ok _
    · simp
  · obtain ⟨b, built, -⟩ := (g.all body (by simp)).runs.body rule''
    have own : (Node.mk .functionDecl start length [name, params, body]).parameters =
        params.children.map Node.text := by
      simp [Node.parameters, Node.children, rule, rule', rule'']
    have called : (Node.mk .functionDecl start length [name, params, body]).declaredName =
        name.text := by
      simp [Node.declaredName, Node.children, rule]
    obtain ⟨_, _, _, statements⟩ := body
    obtain ⟨r, _, _, names⟩ := params
    obtain rfl : r = .paramList := rule'
    rw [Node.refusal?, own, called, buildFunction, show buildBody statements = .ok b from built,
      Node.children]
    cases firstRepeated? (names.map Node.text) [] with
    | none => exact Reports.ok _
    | some p => exact Reports.error _

theorem buildProgram_reports
    (all : ∀ n ∈ nodes, n.Grammatical ∧ n.rule ∈ [Rule.functionDecl, .statement, .endOfInput]) :
    Reports (buildProgram nodes) (refusals nodes) := by
  induction nodes with
  | nil => exact Reports.ok _
  | cons n rest ih =>
    obtain ⟨⟨g, rule⟩, others⟩ := List.forall_mem_cons.mp all
    have ih := ih others
    simp only [List.mem_cons, List.not_mem_nil, or_false] at rule
    rw [buildProgram]
    rcases rule with rule | rule | rule
    · have unfolded : refusals (n :: rest) = n.refusal?.toList ++ refusals rest := by
        cases refused : n.refusal? <;> simp [refusals, rule, refused]
      rw [unfolded, rule]
      apply Reports.bind
      · exact buildFunction_reports g rule
      · intro f _
        exact ih.map _
    · obtain ⟨s, built, -⟩ := g.runs.stmt (by rw [rule]; rfl)
      have skip : refusals (n :: rest) = refusals rest := by simp [refusals, rule]
      rw [skip, rule]
      dsimp only
      rw [built]
      exact ih.map _
    · have skip : refusals (n :: rest) = refusals rest := by simp [refusals, rule]
      rw [skip, rule]
      exact ih

variable {source : String} {program : Node}

theorem parse_reports (tree : (matchRule .program source.toList).2 = some program) :
    Reports (parse source) (program.declarations.filterMap Node.refusal?) := by
  obtain ⟨f, whole, children⟩ := whole_of_tree (Prod.ext rfl tree)
  have reports := buildProgram_reports whole.grammatical
  rw [← children] at reports
  unfold parse
  dsimp only
  rw [show matchRule .program source.toList = (_, some program) from Prod.ext rfl tree]
  exact reports

/-- A source that the grammar accepts is read, unless a function repeats a parameter. Then reading
ends with an error that names the first such function, its line, and its first parameter that is
equal to an earlier one. -/
theorem parse_exact (tree : (matchRule .program source.toList).2 = some program) :
    ((∃ script, parse source = .ok script) ↔ ∀ f ∈ program.declarations, f.parameters.Nodup) ∧
      ∀ e, parse source = .error e ↔ ∃ before f after p,
        program.declarations = before ++ f :: after ∧ (∀ g ∈ before, g.parameters.Nodup) ∧
          FirstRepeat p f.parameters ∧ e = .duplicateParameter p f.declaredName f.line := by
  have reports := parse_reports tree
  have sound (f : Node) : f.refusal? = none ↔ f.parameters.Nodup := by
    rw [Node.refusal?, Option.map_eq_none_iff, nodup_iff_firstRepeated?]
  have refused (f : Node) (e : ParseError) : f.refusal? = some e ↔
      ∃ p, FirstRepeat p f.parameters ∧ e = .duplicateParameter p f.declaredName f.line := by
    simp only [Node.refusal?, Option.map_eq_some_iff, firstRepeated?_iff, @eq_comm _ e]
  constructor
  · rw [reports.isOk_iff, List.filterMap_eq_nil_iff]
    simp only [sound]
  · intro e
    rw [reports e, List.head?_filterMap, List.findSome?_eq_some_iff]
    simp only [sound, refused]
    constructor
    · rintro ⟨before, f, after, whole, ⟨p, first, rfl⟩, distinct⟩
      exact ⟨before, f, after, p, whole, distinct, first, rfl⟩
    · rintro ⟨before, f, after, p, whole, distinct, first, rfl⟩
      exact ⟨before, f, after, whole, ⟨p, first, rfl⟩, distinct⟩

/-- The second parameter is repeated before the first one is. -/
theorem parse_exact_repeated : ∃ program,
    (matchRule .program "let k\nfunction f(a, b, b, a) \x7b\x7d".toList).2 = some program ∧
      parse "let k\nfunction f(a, b, b, a) \x7b\x7d" = .error (.duplicateParameter "b" "f" 2) := by
  have read : (matchRule .program "let k\nfunction f(a, b, b, a) \x7b\x7d".toList).2.map
      (fun program => program.declarations.map fun f => (f.declaredName, f.parameters, f.line)) =
      some [("f", ["a", "b", "b", "a"], 2)] := by
    decide +kernel
  obtain ⟨program, tree, declared⟩ := Option.map_eq_some_iff.mp read
  obtain ⟨f, _, listed, same, rest⟩ := List.map_eq_cons_iff.mp declared
  obtain rfl := List.map_eq_nil_iff.mp rest
  obtain ⟨called, names, line⟩ : f.declaredName = "f" ∧ f.parameters = ["a", "b", "b", "a"] ∧
      f.line = 2 := by
    simpa using same
  have first : FirstRepeat "b" f.parameters := ⟨["a", "b"], ["a"], names, by decide, by simp⟩
  refine ⟨program, tree, ((parse_exact tree).2 _).mpr ⟨[], f, [], "b", listed, ?_, first, ?_⟩⟩
  · simp
  · rw [called, line]

end Script
end FrameScript
