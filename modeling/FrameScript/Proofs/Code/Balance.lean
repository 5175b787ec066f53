import FrameScript.Proofs.Code.Holes
import FrameScript.Proofs.Code.Routine

/-!
# Compiling a statement is balanced

Whatever state a compiler reaches in a script, a statement that compiles leaves depth, handlers and
loops as they were, and of the jumps that it emits without a target all but the recorded breaks have
got their target by one patch. At the end of a routine no loop is open, so nothing waits.
-/

namespace FrameScript

open BuildEvent

namespace Builder

/-- The statements that are compiled inside a statement, each list with the builder that it begins
with, as far as the statement compiles. -/
def inside (b : Builder) : Stmt → List (Builder × List Stmt)
  | .block line body => [((b.atLine line).openScope, body)]
  | .ifThen line test body =>
    [((((b.atLine line).expr test).emit (.jumpIfFalse 0)).openScope, [body])]
  | .ifThenElse line test body otherwise =>
    let b := (b.atLine line).expr test
    let first := (b.emit (.jumpIfFalse 0)).openScope
    (first, [body]) :: (first.stmt body).toOption.toList.map fun c =>
      (((c.closeScope.emit (.jump 0)).patch b.here).openScope, [otherwise])
  | .while line test body =>
    let b := b.atLine line
    [((((b.expr test).emit (.jumpIfFalse 0)).openLoop b.here).openScope, [body])]
  | .forOf line name iterable body =>
    let b := b.atLine line
    let list := (b.openScope.expr iterable).locals.length
    let index := (b.listed iterable).locals.length
    let b := b.placed iterable
    let turn := (b.emit (.iterNext list index 0)).openLoop b.here
    [((turn.openScope.declare name).openScope, [body])]
  | .tryCatch line body name handler =>
    let b := b.atLine line
    let first := (b.emit (.pushHandler 0)).enterTry.openScope
    (first, body) :: (first.stmts body).toOption.toList.map fun c =>
      ((((c.closeScope.emit .popHandler).leaveTry.emit (.jump 0)).patch b.here).openScope.declare
        name, handler)
  | _ => []

end Builder

/-- Compiling a script reaches statements with a builder. -/
inductive Reached (script : Script) : Builder → List Stmt → Prop where
  | main : Reached script (.new 0 1) script.body
  | function {f : FunctionDecl} (declared : f ∈ script.functions) :
    Reached script (f.params.foldl (fun b p => b.declare p) (.new 1 f.line)) f.body
  | next {b b' : Builder} {s : Stmt} {rest : List Stmt} (reached : Reached script b (s :: rest))
    (compiled : b.stmt s = .ok b') : Reached script b' rest
  | inside {b b' : Builder} {s : Stmt} {body rest : List Stmt}
    (reached : Reached script b (s :: rest)) (begins : (b', body) ∈ b.inside s) :
    Reached script b' body

namespace Builder

/-- Between the builders, where these events have happened, nothing is left but the breaks that
have been recorded in the innermost loop. -/
structure Balances (b : Builder) (events : List BuildEvent) (breaks : List Nat) (next : Builder) :
    Prop where
  depth : next.depth = b.depth
  handlers : next.handlers = b.handlers
  loops : next.loops = noted breaks b.loops
  outside : b.loops = [] → breaks = []
  lines : next.lines.size = next.code.size
  /-- No subtraction goes below zero. -/
  natural : ∀ total less, .minus total less ∈ events → less ≤ total
  /-- A jump is emitted without its target, or goes back. -/
  known : ∀ p t, b.here ≤ p → next.targetAt? p = some t →
    p ∈ holes events ∨ .back p t ∈ events ∧ t ≤ p
  fresh : ∀ p ∈ holes events, b.here ≤ p ∧ p < next.here
  distinct : (holes events).Nodup
  /-- A hole that is no recorded break is patched once, and that is its target. -/
  filled : ∀ p ∈ holes events, p ∉ breaks → ∃ target, (patches events).filter (·.1 = p) =
    [(p, target)] ∧ next.targetAt? p = some target ∧ target ≤ next.here
  /-- A recorded break is a hole that has not been patched. -/
  waiting : ∀ p ∈ breaks, p ∈ holes events ∧ (patches events).filter (·.1 = p) = [] ∧
    next.targetAt? p = some 0
  /-- Nothing else is patched. -/
  only : ∀ e ∈ patches events, e.1 ∈ holes events

theorem filter_of_nodup {l : List (Nat × Nat)} (distinct : (l.map (·.1)).Nodup) {e : Nat × Nat}
    (mem : e ∈ l) : l.filter (·.1 = e.1) = [e] := by
  induction l with
  | nil => cases mem
  | cons first rest ih =>
    obtain ⟨apart, distinct⟩ := List.nodup_cons.mp distinct
    rcases List.mem_cons.mp mem with rfl | mem
    · have others : rest.filter (·.1 = e.1) = [] := by
        rw [List.filter_eq_nil_iff]
        intro e' mem' same
        exact apart (List.mem_map.mpr ⟨e', mem', of_decide_eq_true same⟩)
      rw [List.filter_cons_of_pos (by simp), others]
    · have ne : first.1 ≠ e.1 := fun same => apart (List.mem_map.mpr ⟨e, mem, same.symm⟩)
      rw [List.filter_cons_of_neg (by simp [ne])]
      exact ih distinct mem

/-- What is settled but for the breaks is balanced. -/
theorem balanced_of_runs {b next : Builder} (sound : b.Sound) {events : List BuildEvent}
    {breaks : List Nat} {added : List Local}
    (h : Journal.Runs ⟨b, []⟩ breaks breaks added ⟨next, events⟩) :
    Balances b events breaks next := by
  obtain ⟨happened, same, settles⟩ := h.settles
  obtain rfl : events = happened := same
  have distinct : ((patches events).map (·.1) ++ breaks).Nodup :=
    settles.once.nodup_iff.mp settles.distinct
  obtain ⟨first, -, apart⟩ := List.nodup_append.mp distinct
  exact
    { depth := h.depth
      handlers := h.handlers
      loops := h.loops
      outside := h.outside
      lines := (h.sound sound).lines
      natural := settles.natural
      known := settles.known
      fresh := settles.fresh
      distinct := settles.distinct
      filled := by
        intro p mem unfilled
        have patched := (List.mem_append.mp (settles.once.mem_iff.mp mem)).resolve_right unfilled
        obtain ⟨e, made, rfl⟩ := List.mem_map.mp patched
        exact ⟨e.2, filter_of_nodup first made, settles.final e made⟩
      waiting := by
        intro p mem
        refine ⟨settles.once.mem_iff.mpr (List.mem_append_right _ mem), ?_, settles.still p mem⟩
        rw [List.filter_eq_nil_iff]
        intro e mem' same
        exact apart e.1 (List.mem_map_of_mem mem') p mem (of_decide_eq_true same)
      only := fun e mem => settles.once.mem_iff.mpr
        (List.mem_append_left _ (List.mem_map_of_mem mem)) }

theorem Sound.next {b next : Builder} (sound : b.Sound) {k : Journal} {waiting breaks : List Nat}
    {added : List Local} (h : Journal.Runs ⟨b, []⟩ waiting breaks added k)
    (same : k.builder = next) : next.Sound := same ▸ h.sound sound

theorem mem_toOption {x : Except CompileError Builder} {b : Builder} :
    b ∈ x.toOption.toList ↔ x = .ok b := by
  cases x <;> simp [Except.toOption, eq_comm]

open Journal

/-- The statements inside a statement begin with sound builders. -/
theorem inside_sound {b b' : Builder} (sound : b.Sound) {s : Stmt} {body : List Stmt}
    (begins : (b', body) ∈ b.inside s) : b'.Sound := by
  cases s with
  | declare | assign | «return» | throw | «break» | «continue» | expr => cases begins
  | block line statements =>
    obtain ⟨rfl, rfl⟩ := Prod.mk.inj (List.mem_singleton.mp begins)
    exact (sound.next ((Runs.refl ⟨b, []⟩).atLine line) rfl).openScope
  | ifThen line test branch =>
    obtain ⟨rfl, rfl⟩ := Prod.mk.inj (List.mem_singleton.mp begins)
    exact (sound.next (tested_runs ⟨b, []⟩ line test) (by simp)).openScope
  | ifThenElse line test branch otherwise =>
    have jumped := tested_runs ⟨b, []⟩ line test
    have stood := jumped.sound sound
    rcases List.mem_cons.mp begins with same | later
    · obtain ⟨rfl, rfl⟩ := Prod.mk.inj same
      exact (sound.next jumped (by simp)).openScope
    · obtain ⟨c, compiled, same⟩ := List.mem_map.mp later
      obtain ⟨rfl, rfl⟩ := Prod.mk.inj same
      have compiled := mem_toOption.mp compiled
      obtain ⟨events, journal⟩ := stmt_ok (j := ((((⟨b, []⟩ : Journal).on (·.atLine line)).expr
        test).hole (.jumpIfFalse 0)).on (·.openScope)) (by simpa using compiled)
      obtain ⟨breaks, inside⟩ := stmt_runs stood.openScope branch journal
      exact (sound.next (jumped.cross (inside.scope stood.shallow)) (by simp)).openScope
  | «while» line test statement =>
    obtain ⟨rfl, rfl⟩ := Prod.mk.inj (List.mem_singleton.mp begins)
    have jumped := tested_runs ⟨b, []⟩ line test
    exact ((sound.next jumped (by simp)).openLoop (by simpa using jumped.here_le)).openScope
  | forOf line name iterable statement =>
    obtain ⟨rfl, rfl⟩ := Prod.mk.inj (List.mem_singleton.mp begins)
    have begun := (sound.next ((Runs.refl ⟨b, []⟩).atLine line) rfl).openScope
    obtain ⟨added, jumped⟩ := placed_runs ⟨(b.atLine line).openScope, []⟩ iterable
      ((b.atLine line).openScope.expr iterable).locals.length
      ((b.atLine line).listed iterable).locals.length
    have stood : (((b.atLine line).placed iterable).emit (.iterNext
        ((b.atLine line).openScope.expr iterable).locals.length
        ((b.atLine line).listed iterable).locals.length 0)).Sound :=
      begun.next jumped (by simp [placed, listed, Site.itemsName, Site.positionName])
    exact ((stood.openLoop (by simp)).openScope.declare name).openScope
  | tryCatch line statements name handler =>
    have jumped := ((Runs.refl ⟨b, []⟩).atLine line).hole (i := .pushHandler 0) rfl
    have held := (jumped.sound sound).enterTry
    rcases List.mem_cons.mp begins with same | later
    · obtain ⟨rfl, rfl⟩ := Prod.mk.inj same
      exact held.openScope
    · obtain ⟨c, compiled, same⟩ := List.mem_map.mp later
      obtain ⟨rfl, rfl⟩ := Prod.mk.inj same
      obtain ⟨events, journal⟩ := stmts_ok (j := ((((⟨b, []⟩ : Journal).on (·.atLine line)).hole
        (.pushHandler 0)).on (·.enterTry)).on (·.openScope)) (mem_toOption.mp compiled)
      obtain ⟨breaks, added, inside⟩ := stmts_runs held.openScope statements journal
      have met := jumped.cross ((inside.scope held.shallow).emit (i := .popHandler) rfl).guarded
      exact ((sound.next met rfl).openScope).declare name

theorem params_sound {b : Builder} (sound : b.Sound) (params : List String) :
    (params.foldl (fun b p => b.declare p) b).Sound := by
  induction params generalizing b with
  | nil => exact sound
  | cons p rest ih => exact ih (sound.declare p)

end Builder

open Builder Journal

theorem Reached.sound {script : Script} {b : Builder} {body : List Stmt}
    (reached : Reached script b body) : b.Sound := by
  induction reached with
  | main => exact .new 0 1
  | function declared => exact params_sound (.new 1 _) _
  | next reached compiled ih =>
    obtain ⟨events, journal⟩ := Journal.stmt_ok (j := ⟨_, []⟩) compiled
    obtain ⟨breaks, runs⟩ := Journal.stmt_runs (j := ⟨_, []⟩) ih _ journal
    exact runs.sound ih
  | inside reached begins ih => exact inside_sound ih begins

theorem chunk_reached {source : String} {script : Script} {compiled : CompiledScript}
    (h : compile source script = .ok compiled) : ∀ chunk ∈ compiled.chunks,
    ∃ b body next name arity, Reached script b body ∧ b.here = 0 ∧ b.loops = [] ∧
      b.stmts body = .ok next ∧ chunk = next.finish name source arity := by
  obtain ⟨functions, declared, h⟩ := bind_ok h
  obtain ⟨next, body, h⟩ := bind_ok h
  cases h
  intro chunk mem
  rcases List.mem_cons.mp mem with rfl | mem
  · exact ⟨_, _, _, _, _, .main, rfl, rfl, body, rfl⟩
  · obtain ⟨i, low, rfl⟩ := List.getElem_of_mem mem
    obtain ⟨same, each⟩ := List.forall₂_iff_get.mp (compileFunctions_each declared)
    have low' : i < script.functions.length := same ▸ low
    obtain ⟨next, body, finished⟩ := bind_ok (each i low' low)
    obtain ⟨-, -, code, loops, -⟩ := params_locals (script.functions.get ⟨i, low'⟩).params
      (.new 1 (script.functions.get ⟨i, low'⟩).line)
    refine ⟨_, _, _, _, _, .function (List.getElem_mem low'), ?_, loops, body,
      (Except.ok.inj finished).symm⟩
    exact congrArg Array.size code

/-- A jump of a finished chunk stays inside its code. -/
theorem finish_target {b next : Builder} {events : List BuildEvent} (empty : b.here = 0)
    (balanced : Balances b events [] next) (name source : String) (arity : Nat) :
    ∀ i ∈ (next.finish name source arity).code, ∀ t, i.target? = some t →
      t < (next.finish name source arity).code.size := by
  intro i mem t target
  have size : (next.finish name source arity).code.size = next.here + 2 := by
    simp [finish, Builder.emit, here]
  rw [size]
  have emitted : i ∈ next.code ∨ i = .push .null ∨ i = .ret := by
    simpa [finish, Builder.emit, or_assoc] using mem
  rcases emitted with mem | rfl | rfl
  · obtain ⟨p, inside, rfl⟩ := Array.getElem_of_mem mem
    have found : next.targetAt? p = some t := by
      rw [targetAt?, Array.getElem?_eq_getElem inside]
      exact target
    have le : t ≤ next.here := by
      rcases balanced.known p t (by omega) found with hole | ⟨-, back⟩
      · obtain ⟨t', -, final, le⟩ := balanced.filled p hole (by simp)
        rw [found] at final
        cases final
        exact le
      · exact Nat.le_trans back (Nat.le_of_lt inside)
    omega
  · cases target
  · cases target

/-- Compiling is balanced: a statement that is reached and compiles leaves what is around it as it
was but for its own local and the breaks that it records, subtracts nothing from less, and fills
each of its holes once but for those breaks; and in the chunks of a script nothing waits and every
jump stays inside the code. -/
theorem compile_balanced (source : String) (script : Script) :
    (∀ b s rest next, Reached script b (s :: rest) → b.stmt s = .ok next →
      ∃ events breaks, (⟨b, []⟩ : Journal).stmt s = .ok ⟨next, events⟩ ∧
        Balances b events breaks next ∧ next.locals = s.declared b.depth ++ b.locals) ∧
    ∀ compiled, compile source script = .ok compiled → ∀ chunk ∈ compiled.chunks,
      (∃ b body next events, Reached script b body ∧
        (⟨b, []⟩ : Journal).stmts body = .ok ⟨next, events⟩ ∧ Balances b events [] next ∧
        ∃ name arity, chunk = next.finish name source arity) ∧
      ∀ i ∈ chunk.code, ∀ t, i.target? = some t → t < chunk.code.size := by
  constructor
  · intro b s rest next reached compiled
    obtain ⟨events, journal⟩ := stmt_ok (j := ⟨b, []⟩) compiled
    obtain ⟨breaks, runs⟩ := stmt_runs (j := ⟨b, []⟩) reached.sound s journal
    exact ⟨events, breaks, journal, balanced_of_runs reached.sound runs, runs.locals⟩
  · intro compiled h chunk mem
    obtain ⟨b, body, next, name, arity, reached, empty, loops, built, rfl⟩ :=
      chunk_reached h chunk mem
    obtain ⟨events, journal⟩ := stmts_ok (j := ⟨b, []⟩) built
    obtain ⟨breaks, added, runs⟩ := stmts_runs (j := ⟨b, []⟩) reached.sound body journal
    obtain rfl : breaks = [] := runs.outside loops
    have balanced := balanced_of_runs reached.sound runs
    exact ⟨⟨b, body, next, events, reached, journal, balanced, name, arity, rfl⟩,
      finish_target empty balanced name source arity⟩

/-- A loop with a `break` in it, which its end patches, and an `and`. -/
theorem compile_balanced_loop : ∃ next events breaks compiled,
    (Builder.new 0 1).stmt (.while 1 (.logical .and (.ident "on") (.ident "x"))
      (.ifThen 1 (.ident "x") (.break 1))) = .ok next ∧
    patches events = [(1, 3), (5, 7), (3, 8), (6, 8)] ∧
    Balances (.new 0 1) events breaks next ∧
    compile "" ⟨[], [.while 1 (.logical .and (.ident "on") (.ident "x"))
      (.ifThen 1 (.ident "x") (.break 1))]⟩ = .ok compiled ∧
    ∀ i ∈ compiled.main.code, ∀ t, i.target? = some t → t < compiled.main.code.size := by
  obtain ⟨next, built⟩ : ∃ next, (Builder.new 0 1).stmt (.while 1
    (.logical .and (.ident "on") (.ident "x")) (.ifThen 1 (.ident "x") (.break 1))) =
      .ok next := ⟨_, rfl⟩
  obtain ⟨compiled, whole⟩ : ∃ compiled, compile "" ⟨[], [.while 1
    (.logical .and (.ident "on") (.ident "x")) (.ifThen 1 (.ident "x") (.break 1))]⟩ =
      .ok compiled := ⟨_, rfl⟩
  obtain ⟨statements, chunks⟩ := compile_balanced "" ⟨[], [.while 1
    (.logical .and (.ident "on") (.ident "x")) (.ifThen 1 (.ident "x") (.break 1))]⟩
  obtain ⟨events, breaks, journal, balanced, -⟩ := statements _ _ [] next .main built
  refine ⟨next, events, breaks, compiled, built, ?_, balanced, whole,
    (chunks compiled whole compiled.main List.mem_cons_self).2⟩
  cases journal
  rfl

end FrameScript
