import FrameScript.Proofs.Semantics.Scopes

/-!
# Statements on the machine

The code of a statement comes to where its execution ends, whether that is behind the
statement, an end of a loop, the caller or a handler. A loop is followed round by
round, and each round takes at least one step.
-/

namespace FrameScript

open Script (Unbracketed)

namespace Setting

variable {s : Setting} {code : List Point} {call : Callable} {n k : Nat} {marks : Marks}
  {c next : Site} {pc done : Nat} {locals : Locals} {vs : List Value} {scene : Scene}
  {t : Situation}

theorem mirrorsOuter_self (mirrors : Mirrors marks c.scope locals vs) :
    MirrorsOuter marks c.scope locals vs := by
  have kept := mirrors.toOuter (List.suffix_refl _)
  rwa [rtake_of_length_le vs (Nat.le_of_eq mirrors.length_values)] at kept

/-- What follows an expression is executed, unless something is thrown. -/
theorem withValue_shown {α : Type} {x : Eval α} {f : α → Exec}
    {P : α → Scene → Situation → Prop} (mirrors : Mirrors marks c.scope locals vs)
    (first : (x scene).Shown n t ((s.guarded c.catches).Yields vs P))
    (rest : ∀ a scene' u, t.Comes u → P a scene' u →
      (f a scene').Shown n u (s.Reaches marks c next done)) :
    (Exec.withValue x locals f scene).Shown n t (s.Reaches marks c next done) := by
  refine first.bind fun r scene' u comes yields => ?_
  cases r with
  | ok a => exact rest a scene' u comes yields
  | error v => exact ⟨u, .refl u, vs, mirrorsOuter_self mirrors, yields⟩

theorem withExpr_shown (carries : s.Carries code call n) (mirrors : Mirrors marks c.scope locals vs)
    {f : Value → Exec} (e : Expr) (uses : e.Uses Unbracketed)
    (placed : Placed code pc (e.points c.scope pc c.shape))
    (good : ((s.guarded c.catches).situation pc vs scene).Good s.limit)
    (rest : ∀ v scene', ((s.guarded c.catches).situation (pc + e.size) (v :: vs) scene').Good
      s.limit → (f v scene').Shown (n + 1)
        ((s.guarded c.catches).situation (pc + e.size) (v :: vs) scene')
        (s.Reaches marks c next done)) :
    (Exec.withValue (e.eval call locals) locals f scene).Shown (n + 1)
      ((s.guarded c.catches).situation pc vs scene) (s.Reaches marks c next done) := by
  refine withValue_shown mirrors
    (Expr.eval_shown (carries.executes c.catches) mirrors [] scene e uses placed good) ?_
  rintro v scene' u comes rfl
  exact rest v scene' (comes.good good)

theorem stop_normal (mirrors : Mirrors marks c.scope locals vs)
    (comes : t.Comes ((s.guarded c.catches).situation done vs scene)) :
    (Exec.stop .normal locals scene).Shown n t (s.Reaches marks c c done) :=
  ⟨_, comes, marks, vs, mirrors.rtake_marks [], mirrors, rfl⟩

theorem evalOption_shown (carries : s.Carries code call n)
    (mirrors : Mirrors marks c.scope locals vs)
    (value : Option Expr) (uses : Expr.OptionUses Unbracketed value)
    (placed : Placed code pc (Expr.optionPoints c.scope pc c.shape value))
    (good : ((s.guarded c.catches).situation pc vs scene).Good s.limit) :
    (Expr.evalOption call locals value scene).Shown (n + 1)
      ((s.guarded c.catches).situation pc vs scene)
      ((s.guarded c.catches).Evaluated vs (pc + Expr.optionSize value) vs) := by
  cases value with
  | none => exact ⟨_, moves ((carries.executes c.catches).instr placed) rfl, rfl⟩
  | some e =>
    exact Expr.eval_shown (carries.executes c.catches) mirrors [] scene e uses placed good

theorem store_shown (carries : s.Carries code call n) (mirrors : Mirrors marks c.scope locals vs)
    {name : String} (word : Unbracketed name) {sh : Shape} (v : Value)
    (placed : Placed code pc [⟨sh, storeInstr c.scope name⟩]) :
    (locals.store name v scene).Shown k ((s.guarded c.catches).situation pc (v :: vs) scene)
      (s.Reaches marks c c (pc + 1)) := by
  have fetched := (carries.executes c.catches).instr placed
  cases found : slotIn? name c.scope with
  | none =>
    simp only [storeInstr, found] at fetched
    simp only [Locals.store, mirrors.get?_none found]
    exact stop_normal mirrors (moves fetched rfl)
  | some slot =>
    obtain ⟨w, known, held⟩ := mirrors.get?_some word found
    simp only [storeInstr, found] at fetched
    simp only [Locals.store, known]
    have low : slot < vs.length := by
      simpa using (List.getElem?_eq_some_iff.mp held).1
    exact stop_normal (mirrors.set word found v) (moves fetched (if_pos low))

theorem assign_shown (carries : s.Carries code call n) (mirrors : Mirrors marks c.scope locals vs)
    (value : Expr) (target : Target) (uses : target.Uses Unbracketed)
    (uses' : value.Uses Unbracketed) (placed : Placed code pc (target.points c pc value))
    (good : ((s.guarded c.catches).situation pc vs scene).Good s.limit) :
    (target.exec call locals value scene).Shown (n + 1)
      ((s.guarded c.catches).situation pc vs scene)
      (s.Reaches marks c c (pc + target.size value)) := by
  have ex := carries.executes c.catches
  cases target with
  | ident name =>
    have last := placed.behind (Expr.length_points ..)
    exact withExpr_shown carries mirrors value uses' placed.left good fun v scene' _ =>
      store_shown carries mirrors uses v last
  | member object name =>
    have second := placed.behind (Expr.length_points ..)
    have last := second.behind (Expr.length_points ..)
    refine withValue_shown (P := fun _ scene t => t = (s.guarded c.catches).situation
      (pc + object.size + value.size + 1) vs scene) mirrors ?_ ?_
    · refine bind_shown (Expr.eval_shown ex mirrors [] scene object uses placed.left good) ?_
      rintro v scene' u comes rfl
      have good' := comes.good good
      refine bind_shown (Expr.eval_shown ex mirrors [v] scene' value uses' second.left good') ?_
      rintro w scene'' u comes' rfl
      exact writing_shown [] (ex.instr last) rfl
    · rintro v scene' u comes rfl
      simpa [Target.size, Nat.add_assoc] using stop_normal mirrors (.refl _)
  | index object position =>
    have second := placed.behind (Expr.length_points ..)
    have third := second.behind (Expr.length_points ..)
    have last := third.behind (Expr.length_points ..)
    refine withValue_shown (P := fun _ scene t => t = (s.guarded c.catches).situation
      (pc + object.size + position.size + value.size + 1) vs scene) mirrors ?_ ?_
    · refine bind_shown (Expr.eval_shown ex mirrors [] scene object uses.1 placed.left good) ?_
      rintro v scene₁ u comes rfl
      have good₁ := comes.good good
      refine bind_shown (Expr.eval_shown ex mirrors [v] scene₁ position uses.2 second.left
        good₁) ?_
      rintro i scene₂ u comes₁ rfl
      have good₂ := comes₁.good good₁
      refine bind_shown (Expr.eval_shown ex mirrors [i, v] scene₂ value uses' third.left good₂) ?_
      rintro w scene₃ u comes₂ rfl
      exact writing_shown [] (ex.instr last) rfl
    · rintro v scene' u comes rfl
      simpa [Target.size, Nat.add_assoc] using stop_normal mirrors (.refl _)

theorem Raised.caught {catches : List Catch} {target : Nat} {slots : List SlotKind} {v : Value}
    (size : slots.length = vs.length)
    (h : (s.guarded (⟨target, slots⟩ :: catches)).Raised vs v scene t) :
    t = (s.guarded catches).situation target (v :: vs) scene := by
  obtain ⟨pc, above, upper, rfl⟩ := h
  have depth : (above ++ s.frames pc).length = above.length + (s.callers.length + 1) := by
    simp [frames]
  have reached : ¬ (s.callers.length + 1 = 0 ∨
      (above ++ s.frames pc).length < s.callers.length + 1) := by
    omega
  have kept : (above ++ s.frames pc).drop ((above ++ s.frames pc).length -
      (s.callers.length + 1)) = s.frames pc := by
    rw [depth, Nat.add_sub_cancel, List.drop_left]
  have installed : (s.guarded (⟨target, slots⟩ :: catches)).handlers =
      s.handler target vs :: (s.guarded catches).handlers := by
    simp [guarded, handlersOf, handler, size]
  have place : (s.handler target vs).stackLength = (s.stack vs).length :=
    (s.length_stack vs).symm
  change (⟨(Machine.running (above ++ s.frames pc) (upper ++ s.stack vs)
    (s.guarded (⟨target, slots⟩ :: catches)).handlers s.traceback s.limit).throwValue scene.env v,
    scene.calls⟩ : Situation) = _
  rw [installed, Machine.throwValue_cons reached, place, pile_take_below, pile_push]
  change (⟨⟨Machine.jump ⟨(above ++ s.frames pc).drop ((above ++ s.frames pc).length -
    (s.callers.length + 1)), _, _, _, _, _⟩ _, _, _⟩, _⟩ : Situation) = _
  rw [kept]
  rfl

theorem installs_next (carries : s.Carries code call n) (mirrors : Mirrors marks c.scope locals vs)
    {sh : Shape} {target : Nat} {rest : List Point}
    (placed : Placed code pc (⟨sh, .pushHandler target⟩ :: rest)) :
    ((s.guarded c.catches).situation pc vs scene).next =
      (s.guarded (c.inTry target).catches).situation (pc + 1) vs scene := by
  have installed : (s.guarded (c.inTry target).catches).handlers =
      (s.guarded c.catches).handler target vs :: (s.guarded c.catches).handlers := by
    simp [guarded, handlersOf, Setting.handler, Site.inTry, Site.shape, mirrors.length_values]
  have inside : s.guarded (c.inTry target).catches = { s.guarded c.catches with
      handlers := (s.guarded c.catches).handler target vs :: (s.guarded c.catches).handlers } := by
    rw [← installed]
    rfl
  rw [next_situation ((carries.executes c.catches).instr placed) rfl (by simp), inside]
  rfl

theorem removes_comes (carries : s.Carries code call n) {sh sh' : Shape} {target : Nat}
    {rest : List Point} (placed : Placed code pc (⟨sh, .popHandler⟩ :: ⟨sh', .jump done⟩ :: rest)) :
    ((s.guarded (c.inTry target).catches).situation pc vs scene).Comes
      ((s.guarded c.catches).situation done vs scene) := by
  refine .step rfl ?_
  have next : ((s.guarded (c.inTry target).catches).situation pc vs scene).next = _ :=
    next_situation ((carries.executes (c.inTry target).catches).instr placed) rfl (by simp)
  rw [next]
  exact moves ((carries.executes c.catches).instr placed.tail) rfl

/-- What the body throws goes to the handler, which finds the locals around the statement. -/
theorem Raised.caught_inTry {target : Nat} {v : Value}
    (mirrors : MirrorsOuter marks (c.inTry target).scope locals vs)
    (all : marks.length = c.scope.length) (short : locals.length ≤ marks.shown)
    (h : (s.guarded (c.inTry target).catches).Raised vs v scene t) :
    Mirrors marks c.scope locals vs ∧
      t = (s.guarded c.catches).situation target (v :: vs) scene := by
  have mirrored := MirrorsOuter.mirrors mirrors all
  rw [rtake_of_length_le locals short] at mirrored
  exact ⟨mirrored, h.caught (by simp [Site.shape, mirrored.length_values])⟩

/-- After a round: another one from the loop's start, unless the body has left the loop. -/
theorem afterRound_shown {start exit back : Nat} {o : Site} {outer : Marks}
    (within : c.Inside o) (nested : o.Nested) (same : List.rtake marks o.scope.length = outer)
    (jumps : ∀ vs scene, ((s.guarded c.catches).situation back vs scene).Comes
      ((s.guarded c.catches).situation start vs scene)) {again : Locals → Exec}
    (again_shown : ∀ locals vs scene, Mirrors marks c.scope locals vs →
      t.Comes ((s.guarded c.catches).situation start vs scene) →
      (again locals scene).Shown k ((s.guarded c.catches).situation start vs scene)
        (s.Leaves outer o c exit))
    (all : marks.length = c.scope.length) (shown : marks.shown = outer.shown)
    {r : Completion × Locals}
    (h : s.Leaves marks (c.inLoop start exit) (c.inLoop start exit) back r scene t) :
    (Exec.afterRound again r.1 r.2 scene).Shown k t (s.Leaves outer o c exit) := by
  obtain ⟨reached, short⟩ := h
  obtain ⟨completion, locals⟩ := r
  have marked : List.rtake marks c.scope.length = marks :=
    rtake_of_length_le marks (Nat.le_of_eq all)
  have kept : locals.rtake marks.shown = locals := rtake_of_length_le locals short
  cases completion with
  | normal =>
    obtain ⟨m, vs, eq, mirrors, rfl⟩ := reached
    have whole : m = marks := by
      rw [← eq]
      exact (rtake_of_length_le m (Nat.le_of_eq mirrors.length_marks)).symm
    subst whole
    have comes := jumps vs scene
    exact (again_shown locals vs scene mirrors comes).after comes
  | continued =>
    obtain ⟨l, vs, loop, mirrors, rfl⟩ := reached
    cases loop
    have mirrored := MirrorsOuter.mirrors mirrors all
    rw [kept] at mirrored
    exact again_shown locals vs scene mirrored (.refl _)
  | broke =>
    obtain ⟨l, vs, loop, mirrors, rfl⟩ := reached
    cases loop
    have mirrored := MirrorsOuter.mirrors mirrors all
    rw [kept] at mirrored
    exact ⟨_, .refl _, ⟨marks, vs, same, mirrored, by rw [within.catches]⟩, shown ▸ short⟩
  | returned v => exact ⟨t, .refl t, reached, shown ▸ short⟩
  | thrown v =>
    obtain ⟨vs, mirrors, raised⟩ := reached
    have there : s.Reaches marks c c exit (.thrown v, locals) scene t := ⟨vs, mirrors, raised⟩
    exact ⟨t, .refl t, there.outer within nested same, shown ▸ short⟩

theorem whileLoop_shown {exit tested back : Nat} {test : Locals → Eval Value}
    {body : Locals → Exec} (nested : c.Nested)
    (test_shown : ∀ locals vs scene, Mirrors marks c.scope locals vs →
      ((s.guarded c.catches).situation pc vs scene).Good s.limit →
      (test locals scene).Shown n ((s.guarded c.catches).situation pc vs scene)
        ((s.guarded c.catches).Evaluated vs tested vs))
    (jump : s.chunk.code[tested]? = some (.jumpIfFalse exit))
    (body_shown : ∀ locals vs scene, Mirrors marks c.scope locals vs →
      ((s.guarded c.catches).situation (tested + 1) vs scene).Good s.limit →
      (body locals scene).Shown n ((s.guarded c.catches).situation (tested + 1) vs scene)
        (s.Leaves marks (c.inLoop pc exit) (c.inLoop pc exit) back))
    (jumps : ∀ vs scene, ((s.guarded c.catches).situation back vs scene).Comes
      ((s.guarded c.catches).situation pc vs scene))
    (rounds : Nat) (fewer : rounds ≤ n) (mirrors : Mirrors marks c.scope locals vs)
    (good : ((s.guarded c.catches).situation pc vs scene).Good s.limit) :
    (Exec.whileLoop test body rounds locals scene).Shown rounds
      ((s.guarded c.catches).situation pc vs scene) (s.Leaves marks c c exit) := by
  induction rounds generalizing locals vs scene with
  | zero => trivial
  | succ rounds ih =>
    have marked : List.rtake marks c.scope.length = marks := mirrors.rtake_marks []
    have short := Nat.le_of_eq mirrors.length_locals
    refine ((test_shown locals vs scene mirrors good).fewer fewer).bind ?_
    rintro (v | v) scene' u comes tested'
    · exact ⟨u, .refl u, ⟨vs, mirrorsOuter_self mirrors, tested'⟩, short⟩
    subst tested'
    cases truthy : v.isTruthy with
    | false =>
      simp only [truthy, Bool.false_eq_true, if_false]
      have leaves : ((s.guarded c.catches).situation tested (v :: vs) scene').Comes
          ((s.guarded c.catches).situation exit vs scene') :=
        moves jump (by simp only [Instr.effect, truthy]; rfl)
      exact ⟨_, leaves, ⟨marks, vs, marked, mirrors, rfl⟩, short⟩
    | true =>
      simp only [truthy, if_pos]
      have enters : ((s.guarded c.catches).situation tested (v :: vs) scene').next =
          (s.guarded c.catches).situation (tested + 1) vs scene' :=
        next_goes jump (by simp only [Instr.effect, truthy]; rfl)
      have good' := (comes.good good).next rfl
      -- The round begins with this step, so what follows may be one round shorter.
      refine Ending.Shown.later ?_ rfl
      rw [enters] at good' ⊢
      have round := (body_shown locals vs scene' mirrors good').fewer (Nat.le_of_succ_le fewer)
      refine round.bind fun r scene'' w comes' leaves => ?_
      refine afterRound_shown (.refl c) nested marked jumps ?_ mirrors.length_marks rfl leaves
      intro locals vs scene mirrors comes''
      exact ih (Nat.le_of_succ_le fewer) mirrors ((comes'.trans comes'').good good')

/-- The rounds of a for-of loop. What it iterates over and its position are in two hidden
slots above those of the place. -/
theorem forLoop_shown {start exit back : Nat} {items : Value} {body : Value → Locals → Exec}
    (nested : c.Nested)
    (round : s.chunk.code[start]? =
      some (.iterNext c.scope.length (c.scope.length + 1) exit))
    (body_shown : ∀ item marks locals vs scene, Mirrors marks c.inRounds.scope locals vs →
      ((s.guarded c.catches).situation (start + 1) (item :: vs) scene).Good s.limit →
      (body item locals scene).Shown n
        ((s.guarded c.catches).situation (start + 1) (item :: vs) scene)
        (s.Leaves marks (c.inRounds.inLoop start exit) (c.inRounds.inLoop start exit) back))
    (jumps : ∀ vs scene, ((s.guarded c.catches).situation back vs scene).Comes
      ((s.guarded c.catches).situation start vs scene))
    (rounds : Nat) (fewer : rounds ≤ n) (position : Number)
    (mirrors : Mirrors marks c.scope locals vs)
    (good : ((s.guarded c.catches).situation start (.num position :: items :: vs) scene).Good
      s.limit) :
    (Exec.forLoop items body rounds position locals scene).Shown rounds
      ((s.guarded c.catches).situation start (.num position :: items :: vs) scene)
      (s.Leaves marks c c.inRounds exit) := by
  induction rounds generalizing locals vs scene position with
  | zero => trivial
  | succ rounds ih =>
    have does (env : Env) : Instr.effect env (start + 1) (.num position :: items :: vs)
        (.iterNext c.scope.length (c.scope.length + 1) exit) =
        some (.round env (start + 1) (c.scope.length + 1) exit (.num position :: items :: vs) items
          position) := by
      simp [Instr.effect, ← mirrors.length_values]
    have within : c.inRounds.Inside c :=
      ⟨(List.suffix_cons _ _).trans (List.suffix_cons _ _), rfl, rfl⟩
    have outer (position : Value) :
        List.rtake (some position :: some items :: marks) c.scope.length = marks :=
      mirrors.rtake_marks [some position, some items]
    have short := Nat.le_of_eq mirrors.length_locals
    unfold Exec.forLoop
    cases items with
    | list r =>
      cases found : (scene.env.heap.list r)[position.toWord]? with
      | none =>
        simp only [found]
        have ends : ((s.guarded c.catches).situation start (.num position :: .list r :: vs)
            scene).Comes ((s.guarded c.catches).situation exit (.num position :: .list r :: vs)
              scene) :=
          moves round (by rw [does]; simp only [Effect.round, found])
        exact ⟨_, ends, ⟨_, _, outer _, mirrors.inRounds (.list r) (.num position), rfl⟩, short⟩
      | some item =>
        simp only [found]
        generalize next : Number.ofNat (position.toWord + 1) = position'
        have enters : ((s.guarded c.catches).situation start (.num position :: .list r :: vs)
            scene).next = (s.guarded c.catches).situation (start + 1)
              (item :: .num position' :: .list r :: vs) scene :=
          next_goes round (by
            rw [does]
            simp [Effect.round, found, next, ← mirrors.length_values])
        have good' := good.next rfl
        refine Ending.Shown.later ?_ rfl
        rw [enters] at good' ⊢
        have around := mirrors.inRounds (.list r) (.num position')
        refine ((body_shown item _ locals _ scene around good').fewer
          (Nat.le_of_succ_le fewer)).bind fun r' scene' w comes leaves => ?_
        refine afterRound_shown within nested (outer _) jumps ?_ around.length_marks (by simp)
          leaves
        intro locals vs' scene' mirrored comes'
        obtain ⟨rest, rfl, kept⟩ := mirrored.of_inRounds
        exact ih (Nat.le_of_succ_le fewer) position' kept ((comes.trans comes').good good')
    | _ =>
      obtain ⟨t, comes, raised⟩ : ∃ t, ((s.guarded c.catches).situation start _ scene).Comes t ∧
          (s.guarded c.catches).Raised vs _ scene t :=
        raises [.num position, _] round (by rw [does]; rfl)
      exact ⟨t, comes, ⟨vs, mirrorsOuter_self mirrors, raised⟩, short⟩

theorem test_comes (carries : s.Carries code call n) {sh : Shape} {target : Nat} {rest : List Point}
    (placed : Placed code pc (⟨sh, .jumpIfFalse target⟩ :: rest)) (v : Value) :
    ((s.guarded c.catches).situation pc (v :: vs) scene).Comes
      ((s.guarded c.catches).situation (if v.isTruthy then pc + 1 else target) vs scene) :=
  moves ((carries.executes c.catches).instr placed) rfl

theorem block_shown (carries : s.Carries code call n) {inside : Site} {mid : Nat}
    {body : Locals → Exec} (within : inside.Inside c) (nested : c.Nested)
    (mirrors : Mirrors marks c.scope locals vs) (grown : c.scope <:+ next.scope)
    (placed : Placed code mid (Site.closePoints next c))
    (ends : mid + (Site.closePoints next c).length = done)
    (h : (body locals scene).Shown k t (s.Reaches marks inside next mid)) :
    (Exec.inScope body locals scene).Shown k t (s.Leaves marks c c done) := by
  subst ends
  refine inScope_shown within nested ?_ mirrors.length_locals grown ?_ h
  · exact mirrors.rtake_marks []
  · intro vs scene all
    exact (carries.executes c.catches).closePoints_comes placed all scene

/-- A block that is left by a jump behind it. -/
theorem Leaves.jump (carries : s.Carries code call n) {mid : Nat} {sh : Shape}
    (placed : Placed code mid [⟨sh, .jump done⟩]) {r : Completion × Locals}
    (h : s.Leaves marks c c mid r scene t) :
    ∃ u, t.Comes u ∧ s.Leaves marks c c done r scene u := by
  obtain ⟨reached, short⟩ := h
  obtain ⟨completion, locals⟩ := r
  cases completion with
  | normal =>
    obtain ⟨m, vs, kept, mirrors, rfl⟩ := reached
    exact ⟨_, moves ((carries.executes c.catches).instr placed) rfl,
      ⟨m, vs, kept, mirrors, rfl⟩, short⟩
  | broke | continued | returned v | thrown v => exact ⟨t, .refl t, reached, short⟩

theorem inRounds_closes (carries : s.Carries code call n) {r : Completion × Locals}
    (placed : Placed code pc (Site.closePoints c.inRounds c))
    (ends : pc + (Site.closePoints c.inRounds c).length = done)
    (all : marks.length = c.scope.length) (h : s.Leaves marks c c.inRounds pc r scene t) :
    ∃ u, t.Comes u ∧ s.Reaches marks c c done r scene u := by
  subst ends
  obtain ⟨reached, short⟩ := h
  obtain ⟨completion, locals⟩ := r
  cases completion with
  | normal =>
    obtain ⟨m, vs, kept, mirrors, rfl⟩ := reached
    have grown : c.scope <:+ c.inRounds.scope :=
      (List.suffix_cons _ _).trans (List.suffix_cons _ _)
    have mirrored := ((mirrors.toOuter grown).remark (Nat.le_refl _) kept).mirrors all
    rw [rtake_of_length_le locals short] at mirrored
    have drops := (carries.executes c.catches).closePoints_comes placed mirrors.length_values scene
    exact ⟨_, drops, marks, _, rtake_of_length_le marks (Nat.le_of_eq all), mirrored, rfl⟩
  | broke | continued | returned v | thrown v => exact ⟨t, .refl t, reached⟩

end Setting

namespace Stmt

open Setting

theorem inside_inner (c : Site) : c.inner.Inside c := ⟨List.suffix_refl _, rfl, rfl⟩

mutual

/-- The code of a statement comes to where its execution ends. -/
theorem exec_shown {s : Setting} {code : List Point} {call : Callable} {n : Nat}
    (carries : s.Carries code call n) {c : Site} {marks : Marks} {pc : Nat} {locals : Locals}
    {vs : List Value} {scene : Scene} (nested : c.Nested)
    (mirrors : Mirrors marks c.scope locals vs) :
    (st : Stmt) → st.Uses Unbracketed → st.Enclosed (c.loop.isSome = true) →
      Placed code pc (st.points c pc) →
      ((s.guarded c.catches).situation pc vs scene).Good s.limit →
      (st.exec call (n + 1) c.global locals scene).Shown (n + 1)
        ((s.guarded c.catches).situation pc vs scene)
        (s.Reaches marks c (c.after st) (pc + st.size c.extent))
  | block _ body, uses, enclosed, placed, good => by
    have parts := block_parts placed
    have executed := execAll_shown carries nested.inner mirrors body uses enclosed parts.inside good
    exact (block_shown carries (inside_inner c) nested mirrors (c.inner.scope_afterAll body)
      parts.closes parts.ends executed).mono fun r scene t leaves => leaves.1
  | declare line name value, uses, _, placed, good => by
    have last := placed.behind (Expr.length_optionPoints ..)
    refine withValue_shown mirrors (evalOption_shown carries mirrors value uses placed.left good) ?_
    rintro v scene' u comes rfl
    by_cases top : c.global = true
    · have size : (Stmt.declare line name value).size c.extent = Expr.optionSize value + 1 := by
        simp [Stmt.size, Site.extent, top]
      have stays : c.after (.declare line name value) = c := if_pos top
      rw [if_pos top] at last
      rw [size, stays, if_pos top, ← Nat.add_assoc]
      exact stop_normal mirrors (moves ((carries.executes c.catches).instr last) rfl)
    · have size : (Stmt.declare line name value).size c.extent = Expr.optionSize value := by
        simp [Stmt.size, Site.extent, top]
      have grows : c.after (.declare line name value) = c.declare name .plain := if_neg top
      rw [size, grows, if_neg top]
      exact ⟨_, .refl _, none :: marks, v :: vs, mirrors.rtake_marks [none],
        .shown name .plain v mirrors, rfl⟩
  | assign _ target value, uses, _, placed, good =>
    assign_shown carries mirrors value target uses.1 uses.2 placed good
  | ifThen _ test body, uses, enclosed, placed, good => by
    have parts := ifThen_parts placed
    refine withExpr_shown carries mirrors test uses.1 parts.tests good fun v scene' tested => ?_
    have goes : ((s.guarded c.catches).situation _ (v :: vs) scene').Comes _ :=
      test_comes carries parts.jumps v
    have entered := goes.good tested
    refine Ending.Shown.after ?_ goes
    cases truthy : v.isTruthy with
    | false => exact stop_normal mirrors (.refl _)
    | true =>
      rw [truthy] at entered
      have executed := exec_shown carries nested.inner mirrors body uses.2 enclosed parts.inside
        entered
      exact (block_shown carries (inside_inner c) nested mirrors (c.inner.scope_after body)
        parts.closes parts.ends executed).mono fun r scene t leaves => leaves.1
  | ifThenElse _ test body otherwise, uses, enclosed, placed, good => by
    have parts := ifThenElse_parts rfl placed
    refine withExpr_shown carries mirrors test uses.1 parts.tests good fun v scene' tested => ?_
    have goes : ((s.guarded c.catches).situation _ (v :: vs) scene').Comes _ :=
      test_comes carries parts.jumps v
    have entered := goes.good tested
    refine Ending.Shown.after ?_ goes
    cases truthy : v.isTruthy with
    | false =>
      rw [truthy] at entered
      have executed := exec_shown carries nested.inner mirrors otherwise uses.2.2 enclosed.2
        parts.inside' entered
      exact (block_shown carries (inside_inner c) nested mirrors (c.inner.scope_after otherwise)
        parts.closes' parts.ends executed).mono fun r scene t leaves => leaves.1
    | true =>
      rw [truthy] at entered
      have executed := exec_shown carries nested.inner mirrors body uses.2.1 enclosed.1
        parts.inside entered
      have left := block_shown carries (inside_inner c) nested mirrors (c.inner.scope_after body)
        parts.closes rfl executed
      exact (left.further fun r scene t leaves => leaves.jump carries parts.leaves).mono
        fun r scene t leaves => leaves.1
  | «while» line test body, uses, enclosed, placed, good => by
    obtain ⟨exit, exits⟩ : ∃ exit, pc + («while» line test body).size c.extent = exit := ⟨_, rfl⟩
    have parts := while_parts exits placed
    rw [exits]
    have round := Site.Nested.inLoop c pc exit
    refine (whileLoop_shown (s := s) nested ?_ ((carries.executes c.catches).instr parts.jumps) ?_
      (fun vs scene => moves ((carries.executes c.catches).instr parts.back) rfl) (n + 1)
      (Nat.le_refl _) mirrors good).mono fun r scene t leaves => leaves.1
    · intro locals vs scene mirrors good
      exact Expr.eval_shown (carries.executes c.catches) mirrors [] scene test uses.1 parts.tests
        good
    · intro locals vs scene mirrors good
      have executed := exec_shown carries round.inner mirrors body uses.2
        (Enclosed.mono (fun _ => rfl) body enclosed) parts.inside good
      exact block_shown carries (inside_inner _) round mirrors
        ((c.inLoop pc exit).inner.scope_after body) parts.closes rfl executed
  | forOf line name iterable body, uses, enclosed, placed, good => by
    obtain ⟨start, begins⟩ : ∃ start, pc + iterable.size + 1 = start := ⟨_, rfl⟩
    obtain ⟨exit, exits⟩ : ∃ exit, start + 1 + (body.size ((c.extent.inner.declare
        2).inLoop.declare 1) + closeSize [body]) + 2 = exit := ⟨_, rfl⟩
    have parts := forOf_parts begins exits placed
    have round := Site.Nested.inLoop c.inRounds start exit
    refine withExpr_shown carries mirrors iterable uses.1 parts.iterates good
      fun v scene' iterated => ?_
    have enters : ((s.guarded c.catches).situation _ (v :: vs) scene').Comes _ :=
      moves ((carries.executes c.catches).instr parts.sets) rfl
    rw [begins] at enters
    refine Ending.Shown.after ?_ enters
    refine (forLoop_shown (s := s) nested ((carries.executes c.catches).instr parts.takes) ?_
      (fun vs scene => moves ((carries.executes c.catches).instr parts.back) rfl) (n + 1)
      (Nat.le_refl _) (Number.zero false) mirrors (enters.good iterated)).further
        fun r scene t leaves => inRounds_closes carries parts.leaves parts.ends
          mirrors.length_marks leaves
    intro item marks' locals' vs' scene'' mirrors' good'
    have executed := exec_shown carries (round.declare name .plain)
      (.shown name .plain item mirrors') body uses.2 (Enclosed.mono (fun _ => rfl) body enclosed)
      parts.inside good'
    have within : ((c.inRounds.inLoop start exit).declare name .plain).Inside
        (c.inRounds.inLoop start exit) := ⟨List.suffix_cons _ _, rfl, rfl⟩
    have item_grown := Site.scope_after ((c.inRounds.inLoop start exit).declare name .plain) body
    refine inScope_shown within round ?_ mirrors'.length_locals (within.scope.trans item_grown) ?_
      executed
    · exact mirrors'.rtake_marks [none]
    · intro vs scene all
      -- First the body's own locals are dropped, and then the item.
      have drops := (carries.executes c.catches).closePoints_comes parts.closes all scene
      have kept :
          (vs.rtake ((c.inRounds.inLoop start exit).declare name .plain).scope.length).length
          = ((c.inRounds.inLoop start exit).declare name .plain).scope.length := by
        rw [length_rtake, all]
        exact Nat.min_eq_left item_grown.length_le
      have drops' := (carries.executes c.catches).closePoints_comes parts.drops kept scene
      have both : (vs.rtake ((c.inRounds.inLoop start exit).declare name .plain).scope.length).rtake
          c.inRounds.scope.length = vs.rtake c.inRounds.scope.length :=
        rtake_rtake vs (Nat.le_succ _)
      rw [both] at drops'
      exact drops.trans drops'
  | tryCatch line body name handler, uses, enclosed, placed, good => by
    obtain ⟨target, begins⟩ : ∃ target, pc + 1 + (sizes c.extent.inner.inTry body +
        closeSize body) + 2 = target := ⟨_, rfl⟩
    have parts := try_parts begins placed
    have good' := good.next rfl
    refine Ending.Shown.after ?_ (.one rfl)
    rw [installs_next carries mirrors parts.installs] at good' ⊢
    have guarded := nested.inTry target
    have executed := execAll_shown carries guarded.inner mirrors body uses.1 enclosed.1
      parts.inside good'
    have left := block_shown carries (inside_inner (c.inTry target)) guarded mirrors
      ((c.inTry target).inner.scope_afterAll body) parts.closes rfl executed
    refine left.bind ?_
    rintro ⟨completion, locals'⟩ scene' u comes ⟨reached, short⟩
    cases completion with
    | thrown v =>
      obtain ⟨vs', mirrors', raised⟩ := reached
      obtain ⟨mirrored, rfl⟩ := raised.caught_inTry mirrors' mirrors.length_marks short
      have executed := execAll_shown carries (nested.inner.declare name .plain)
        (.shown name .plain v mirrored) handler uses.2 enclosed.2 parts.inside'
          (comes.good good')
      have within : (c.inner.declare name .plain).Inside c := ⟨List.suffix_cons _ _, rfl, rfl⟩
      have grown := within.scope.trans (Site.scope_afterAll _ handler)
      refine (inScope_shown within nested (mirrors.rtake_marks [none]) mirrored.length_locals grown
        (fun vs scene all => ?_) executed).mono fun r scene t leaves => leaves.1
      have drops := (carries.executes c.catches).closePoints_comes parts.closes' all scene
      rwa [parts.ends] at drops
    | normal =>
      obtain ⟨marks', vs', kept, mirrors', rfl⟩ := reached
      exact ⟨_, removes_comes carries parts.removes, marks', vs', kept, mirrors', rfl⟩
    | broke | continued | returned v => exact ⟨u, .refl u, reached⟩
  | «return» _ value, uses, _, placed, good => by
    have last := placed.behind (Expr.length_optionPoints ..)
    refine withValue_shown mirrors (evalOption_shown carries mirrors value uses placed.left good) ?_
    rintro v scene' u comes rfl
    have next : ((s.guarded c.catches).situation (pc + Expr.optionSize value) (v :: vs)
        scene').next = _ :=
      next_situation ((carries.executes c.catches).instr last) rfl (by simp)
    refine ⟨_, .one rfl, ?_⟩
    rw [next, Effect.apply, carries.keptHandlers]
    rfl
  | throw _ value, uses, _, placed, good => by
    have last := placed.behind (Expr.length_points ..)
    refine withExpr_shown carries mirrors value uses placed.left good fun v scene' _ => ?_
    obtain ⟨t, comes', raised⟩ : ∃ t, ((s.guarded c.catches).situation (pc + value.size) (v :: vs)
        scene').Comes t ∧ (s.guarded c.catches).Raised vs v scene' t :=
      raises [] ((carries.executes c.catches).instr last) rfl
    exact ⟨t, comes', vs, mirrorsOuter_self mirrors, raised⟩
  | «break» _, _, enclosed, placed, _ | «continue» _, _, enclosed, placed, _ => by
    obtain ⟨loop, site⟩ := Option.isSome_iff_exists.mp enclosed
    simp only [points, site, Option.map_some, Option.getD_some] at placed
    have within := nested loop site
    exact ⟨_, carries.leavePoints_comes within.2 placed mirrors.length_values scene, loop, _, site,
      mirrors.toOuter within.1, rfl⟩
  | expr _ value, uses, _, placed, good => by
    have last := placed.behind (Expr.length_points ..)
    exact withExpr_shown carries mirrors value uses placed.left good fun v scene' _ =>
      stop_normal mirrors (moves ((carries.executes c.catches).instr last) rfl)

theorem execAll_shown {s : Setting} {code : List Point} {call : Callable} {n : Nat}
    (carries : s.Carries code call n) {c : Site} {marks : Marks} {pc : Nat} {locals : Locals}
    {vs : List Value} {scene : Scene} (nested : c.Nested)
    (mirrors : Mirrors marks c.scope locals vs) :
    (body : List Stmt) → AllUse Unbracketed body → AllEnclosed (c.loop.isSome = true) body →
      Placed code pc (pointsAll c pc body) →
      ((s.guarded c.catches).situation pc vs scene).Good s.limit →
      (execAll call (n + 1) c.global body locals scene).Shown (n + 1)
        ((s.guarded c.catches).situation pc vs scene)
        (s.Reaches marks c (c.afterAll body) (pc + sizes c.extent body))
  | [], _, _, _, _ => stop_normal mirrors (.refl _)
  | st :: rest, uses, enclosed, placed, good => by
    have others := placed.behind (length_points ..)
    have within : (c.after st).Inside c := ⟨c.scope_after st, c.after_catches st, c.after_loop st⟩
    refine (exec_shown carries nested mirrors st uses.1 enclosed.1 placed.left good).bind ?_
    rintro ⟨completion, locals'⟩ scene' u comes reached
    cases completion with
    | normal =>
      obtain ⟨m, vs', kept, mirrors', rfl⟩ := reached
      have good' := comes.good good
      have enclosed' := enclosed.2
      rw [← c.after_loop st] at enclosed'
      rw [← c.after_catches st] at good' ⊢
      have executed := execAll_shown carries (nested.after st) mirrors' rest uses.2 enclosed' others
        good'
      rw [c.after_global st] at executed
      simp only [sizes, ← Nat.add_assoc]
      rw [Site.extent_after] at executed
      exact executed.mono fun r scene t reached => reached.outer within nested kept
    | broke | continued | returned v | thrown v => exact ⟨u, .refl u, reached⟩

end

end Stmt

end FrameScript
