import FrameScript.Proofs.Code.Enclosure
import FrameScript.Proofs.Offences

/-!
# What compilation refuses

The offences of a script are listed from its text alone: a function that repeats
a name, and each `break` and `continue` that no loop of its routine encloses, in
the order of the source. Compilation succeeds just if there are none, and reports
the first one otherwise.
-/

namespace FrameScript

namespace Stmt

mutual

/-- The jumps out of no loop in a statement; `inLoop` tells whether a loop is around it. -/
def offences (inLoop : Bool) : Stmt → List CompileError
  | block _ body => offencesAll inLoop body
  | ifThen _ _ body => body.offences inLoop
  | ifThenElse _ _ body otherwise => body.offences inLoop ++ otherwise.offences inLoop
  | «while» _ _ body | forOf _ _ _ body => body.offences true
  | tryCatch _ body _ handler => offencesAll inLoop body ++ offencesAll inLoop handler
  | «break» line => if inLoop then [] else [.breakOutsideLoop line]
  | «continue» line => if inLoop then [] else [.continueOutsideLoop line]
  | declare _ _ _ | assign _ _ _ | «return» _ _ | throw _ _ | expr _ _ => []

def offencesAll (inLoop : Bool) : List Stmt → List CompileError
  | [] => []
  | s :: rest => s.offences inLoop ++ offencesAll inLoop rest

end

mutual

/-- No offence is found just if every jump is enclosed. -/
theorem offences_eq_nil {inLoop : Bool} :
    (s : Stmt) → (s.offences inLoop = [] ↔ s.Enclosed (inLoop = true))
  | block _ body => offencesAll_eq_nil body
  | ifThen _ _ body => offences_eq_nil body
  | ifThenElse _ _ body otherwise => by
    rw [offences, List.append_eq_nil_iff, offences_eq_nil body, offences_eq_nil otherwise, Enclosed]
  | «while» _ _ body | forOf _ _ _ body => by
    rw [offences, offences_eq_nil body, Enclosed, eq_self]
  | tryCatch _ body _ handler => by
    rw [offences, List.append_eq_nil_iff, offencesAll_eq_nil body, offencesAll_eq_nil handler,
      Enclosed]
  | «break» _ | «continue» _ => by cases inLoop <;> simp [offences, Enclosed]
  | declare _ _ _ | assign _ _ _ | «return» _ _ | throw _ _ | expr _ _ => by
    simp [offences, Enclosed]

theorem offencesAll_eq_nil {inLoop : Bool} :
    (body : List Stmt) → (offencesAll inLoop body = [] ↔ AllEnclosed (inLoop = true) body)
  | [] => by simp [offencesAll, AllEnclosed]
  | s :: rest => by
    rw [offencesAll, List.append_eq_nil_iff, offences_eq_nil s, offencesAll_eq_nil rest,
      AllEnclosed]

end

end Stmt

/-- The offences of functions after functions with the names in `seen`: for each one
that its name is taken, then those in its body. -/
def declarationOffences (seen : List String) : List FunctionDecl → List CompileError
  | [] => []
  | f :: rest =>
    (if f.name ∈ seen then [.duplicateFunction f.name f.line] else []) ++
      (Stmt.offencesAll false f.body ++ declarationOffences (f.name :: seen) rest)

/-- The offences of a script: those of its functions, then those of its top level. -/
def Script.offences (script : Script) : List CompileError :=
  declarationOffences [] script.functions ++ Stmt.offencesAll false script.body

theorem declarationOffences_eq_nil (seen : List String) (functions : List FunctionDecl) :
    declarationOffences seen functions = [] ↔
      (functions.map (·.name)).Nodup ∧ (∀ f ∈ functions, f.name ∉ seen) ∧
        ∀ f ∈ functions, Stmt.AllEnclosed False f.body := by
  induction functions generalizing seen with
  | nil => simp [declarationOffences]
  | cons f rest ih =>
    have own : (if f.name ∈ seen then [CompileError.duplicateFunction f.name f.line] else []) = [] ↔
        f.name ∉ seen := by simp
    have body : Stmt.offencesAll false f.body = [] ↔ _ := Stmt.offencesAll_eq_nil f.body
    rw [Bool.false_eq_true] at body
    rw [declarationOffences, List.append_eq_nil_iff, List.append_eq_nil_iff, own, body, ih,
      List.map_cons, List.nodup_cons, List.forall_mem_cons, List.forall_mem_cons]
    simp only [List.mem_map, List.mem_cons, not_or, not_exists, not_and]
    constructor
    · rintro ⟨fresh, enclosed, distinct, others, all⟩
      exact ⟨⟨fun g mem => (others g mem).1, distinct⟩,
        ⟨fresh, fun g mem => (others g mem).2⟩, enclosed, all⟩
    · rintro ⟨⟨single, distinct⟩, ⟨fresh, others⟩, enclosed, all⟩
      exact ⟨fresh, enclosed, distinct, fun g mem => ⟨single g mem, others g mem⟩, all⟩

namespace Builder

theorem outside_or_in_loop {b : Builder} {inLoop : Bool} (around : inLoop = true ↔ b.nesting ≠ 0) :
    (b.loops = [] ∧ inLoop = false) ∨
      ∃ loop outer, b.loops = loop :: outer ∧ inLoop = true := by
  cases loops : b.loops with
  | nil => exact .inl ⟨rfl, by simpa [nesting, loops] using around⟩
  | cons loop outer => exact .inr ⟨loop, outer, rfl, around.mpr (by simp [nesting, loops])⟩

mutual

/-- A statement reports its first offence, given the loops around it. -/
theorem stmt_reports (b : Builder) (inLoop : Bool) (around : inLoop = true ↔ b.nesting ≠ 0) :
    (s : Stmt) → Reports (b.stmt s) (s.offences inLoop)
  | .block line body => by
    apply Reports.map
    apply stmts_reports
    simpa using around
  | .declare line name value => Reports.ok _
  | .assign line target value => Reports.ok _
  | .ifThen line test body => by
    apply Reports.map
    apply stmt_reports
    simpa using around
  | .ifThenElse line test body otherwise => by
    apply Reports.bind
    · apply stmt_reports
      simpa using around
    · intro mid compiled
      have same := (stmt_enclosed body compiled).2
      apply Reports.map
      apply stmt_reports
      simpa [same] using around
  | .while line test body => by
    apply Reports.map
    apply stmt_reports
    simp
  | .forOf line name iterable body => by
    apply Reports.map
    apply stmt_reports
    simp
  | .tryCatch line body name handler => by
    apply Reports.bind
    · apply stmts_reports
      simpa using around
    · intro mid compiled
      have same := (stmts_enclosed body compiled).2
      apply Reports.map
      apply stmts_reports
      simpa [same] using around
  | .return line value => Reports.ok _
  | .throw line value => Reports.ok _
  | .break line => by
    rw [Stmt.offences, stmt]
    rcases outside_or_in_loop around with ⟨loops, outside⟩ | ⟨loop, outer, loops, inside⟩
    · rw [loops, outside]
      exact Reports.error _
    · rw [loops, inside]
      exact Reports.ok _
  | .continue line => by
    rw [Stmt.offences, stmt]
    rcases outside_or_in_loop around with ⟨loops, outside⟩ | ⟨loop, outer, loops, inside⟩
    · rw [loops, outside]
      exact Reports.error _
    · rw [loops, inside]
      exact Reports.ok _
  | .expr line value => Reports.ok _

theorem stmts_reports (b : Builder) (inLoop : Bool) (around : inLoop = true ↔ b.nesting ≠ 0) :
    (body : List Stmt) → Reports (b.stmts body) (Stmt.offencesAll inLoop body)
  | [] => Reports.ok _
  | s :: rest => by
    apply Reports.bind
    · exact stmt_reports b inLoop around s
    · intro mid compiled
      have same := (stmt_enclosed s compiled).2
      apply stmts_reports
      rw [same]
      exact around

end

end Builder

theorem compileFunction_reports (source : String) (f : FunctionDecl) :
    Reports (compileFunction source f) (Stmt.offencesAll false f.body) := by
  apply Reports.map
  apply Builder.stmts_reports
  rw [Builder.nesting, (Builder.params_locals f.params (Builder.new 1 f.line)).2.2.2.1]
  simp [Builder.new]

theorem compileFunctions_reports (source : String) (seen : List String)
    (functions : List FunctionDecl) :
    Reports (compileFunctions source seen functions) (declarationOffences seen functions) := by
  induction functions generalizing seen with
  | nil => exact Reports.ok _
  | cons f rest ih =>
    rw [compileFunctions, declarationOffences]
    split
    · intro e
      simp
    · rw [List.nil_append]
      apply Reports.bind
      · exact compileFunction_reports source f
      · intro chunk _
        exact (ih (f.name :: seen)).map _

theorem compile_reports (source : String) (script : Script) :
    Reports (compile source script) script.offences := by
  apply Reports.bind
  · exact compileFunctions_reports source [] script.functions
  · intro functions _
    apply Reports.map
    apply Builder.stmts_reports
    simp [Builder.nesting, Builder.new]

/-- A script compiles just if its functions have different names and every `break` and
`continue` of a routine lies in a loop of that routine; otherwise compilation ends with the
script's first offence. -/
theorem compile_exact (source : String) (script : Script) :
    ((∃ compiled, compile source script = .ok compiled) ↔
      (script.functions.map (·.name)).Nodup ∧
        (∀ f ∈ script.functions, Stmt.AllEnclosed False f.body) ∧
        Stmt.AllEnclosed False script.body) ∧
      ∀ e, compile source script = .error e ↔ script.offences.head? = some e := by
  have reports := compile_reports source script
  constructor
  · have body : Stmt.offencesAll false script.body = [] ↔ _ := Stmt.offencesAll_eq_nil script.body
    rw [Bool.false_eq_true] at body
    rw [reports.isOk_iff, Script.offences, List.append_eq_nil_iff, declarationOffences_eq_nil, body]
    simp [and_assoc]
  · exact reports

example :
    (Script.mk
      [⟨"f", [], [.while 2 (.bool true) (.break 3), .continue 4], 1⟩, ⟨"f", [], [.break 6], 5⟩]
      [.break 7]).offences =
      [.continueOutsideLoop 4, .duplicateFunction "f" 5, .breakOutsideLoop 6,
        .breakOutsideLoop 7] := by
  decide

end FrameScript
