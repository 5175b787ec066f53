import FrameScript.Proofs.Code.LexicalScope

/-!
# Renaming locals

Builders that differ in the names of their locals alone stay so while one of them compiles code and
the other one compiles the renamed code, since both find the same slots. The chunks are the same in
the end: nothing of the names is left in them.
-/

namespace FrameScript

open Script (Unbracketed)

namespace Builder

def withLocals (locals : List Local) (b : Builder) : Builder := { b with locals }

/-- An operation that leaves the locals, and of which only their number matters. -/
structure Neutral (op : Builder → Builder) : Prop where
  locals (b : Builder) : (op b).locals = b.locals
  depth (b : Builder) : (op b).depth = b.depth
  other (b : Builder) (locals : List Local) (same : locals.length = b.locals.length) :
    op (b.withLocals locals) = (op b).withLocals locals

namespace Neutral

theorem comp {op next : Builder → Builder} (h : Neutral op) (k : Neutral next) :
    Neutral fun b => next (op b) where
  locals b := (k.locals _).trans (h.locals b)
  depth b := (k.depth _).trans (h.depth b)
  other b locals same := by
    have same' : locals.length = (op b).locals.length := by rw [same, h.locals]
    rw [h.other b locals same, k.other _ locals same']

theorem id : Neutral fun b => b := ⟨fun _ => rfl, fun _ => rfl, fun _ _ _ => rfl⟩

theorem emit (i : Instr) : Neutral (emit i) := ⟨fun _ => rfl, fun _ => rfl, fun _ _ _ => rfl⟩

theorem atLine (line : Nat) : Neutral (atLine line) :=
  ⟨fun _ => rfl, fun _ => rfl, fun _ _ _ => rfl⟩

theorem patch (position : Nat) : Neutral (patch position) :=
  ⟨fun _ => rfl, fun _ => rfl, fun _ _ _ => rfl⟩

theorem handlers (f : Nat → Nat) : Neutral fun b => { b with handlers := f b.handlers } :=
  ⟨fun _ => rfl, fun _ => rfl, fun _ _ _ => rfl⟩

theorem openLoop (start : Nat) : Neutral (openLoop start) where
  locals _ := rfl
  depth _ := rfl
  other b locals same := by simp [Builder.openLoop, withLocals, same]

theorem patches (jumps : List Nat) :
    Neutral fun b => jumps.foldl (fun b jump => b.patch jump) b := by
  induction jumps with
  | nil => exact id
  | cons jump rest ih => exact (patch jump).comp ih

theorem closeLoop : Neutral closeLoop where
  locals b := by
    unfold Builder.closeLoop
    split
    · rfl
    · rw [(patches _).locals]
  depth b := by
    unfold Builder.closeLoop
    split
    · rfl
    · rw [(patches _).depth]
  other b locals same := by
    unfold Builder.closeLoop
    rw [show (b.withLocals locals).loops = b.loops from rfl]
    split
    · rfl
    · exact (patches _).other { b with loops := _ } locals same

theorem emitTimes (n : Nat) (i : Instr) : Neutral (emitTimes n i) := by
  induction n with
  | zero => exact id
  | succ n ih => exact (emit i).comp ih

theorem unwindTo (loop : Loop) : Neutral (unwindTo loop) where
  locals b := by
    unfold Builder.unwindTo
    dsimp only
    rw [(emitTimes _ _).locals]
    split <;> rfl
  depth b := by
    unfold Builder.unwindTo
    dsimp only
    rw [(emitTimes _ _).depth]
    split <;> rfl
  other b locals same := by
    unfold Builder.unwindTo
    dsimp only
    rw [show (b.withLocals locals).locals.length = b.locals.length from same]
    split
    · exact (emitTimes _ _).other b locals same
    · exact (emitTimes _ _).other (b.emit _) locals same

theorem recordBreak (jump : Nat) : Neutral (recordBreak jump) where
  locals b := by
    unfold Builder.recordBreak
    split <;> rfl
  depth b := by
    unfold Builder.recordBreak
    split <;> rfl
  other b locals same := by
    unfold Builder.recordBreak
    rw [show (b.withLocals locals).loops = b.loops from rfl]
    split <;> rfl

end Neutral

theorem closeScope_eq {b : Builder} {kept : List Local}
    (left : b.locals.dropWhile (fun l => b.depth - 1 < l.depth) = kept) :
    b.closeScope =
      if b.locals.length - kept.length = 0 then { b with depth := b.depth - 1, locals := kept }
      else ({ b with depth := b.depth - 1, locals := kept } : Builder).emit
        (.popN (b.locals.length - kept.length)) := by
  subst left
  rfl

theorem slotOf?_isSome {ls : List Local} {l : Local} (mem : l ∈ ls) :
    (slotOf? l.name ls).isSome = true := by
  induction ls with
  | nil => cases mem
  | cons first rest ih =>
    rw [slotOf?]
    by_cases same : first.name = l.name
    · rw [if_pos same]
      rfl
    · rw [if_neg same]
      rcases List.mem_cons.mp mem with rfl | mem
      · exact absurd rfl same
      · exact ih mem

/-- Behind the text, the second builder has other names for the locals. -/
def Twin (ρ : Nat → String → String) (past : List ScopeEvent) (b b' : Builder) : Prop :=
  ∃ held, Tracks past b.depth held ∧ b.locals = held.map Held.entry ∧
    b' = b.withLocals (held.map (Held.renamed ρ))

namespace Twin

variable {ρ : Nat → String → String} {past events : List ScopeEvent} {b b' c c' : Builder}
  {x : String}

theorem neutral {op : Builder → Builder} (t : Twin ρ past b b') (h : Neutral op) :
    Twin ρ past (op b) (op b') := by
  obtain ⟨held, tracks, locals, rfl⟩ := t
  refine ⟨held, ?_, ?_, ?_⟩
  · rwa [h.depth]
  · rw [h.locals, locals]
  · rw [h.other _ _ (by rw [locals, List.length_map, List.length_map])]

theorem here (t : Twin ρ past b b') : b'.here = b.here := by
  obtain ⟨held, -, -, rfl⟩ := t
  rfl

/-- What depends on a place that both have passed. -/
theorem neutralAt {op : Nat → Builder → Builder} (t : Twin ρ past b b') (h : ∀ n, Neutral (op n))
    (twin : Twin ρ events c c') : Twin ρ past (op c.here b) (op c'.here b') := by
  rw [twin.here]
  exact t.neutral (h _)

theorem emit (t : Twin ρ past b b') {i i' : Instr} (same : i = i') :
    Twin ρ past (b.emit i) (b'.emit i') := by
  subst same
  exact t.neutral (.emit i)

theorem depth (t : Twin ρ past b b') : b'.depth = b.depth := by
  obtain ⟨held, -, -, rfl⟩ := t
  rfl

theorem line (t : Twin ρ past b b') : b'.line = b.line := by
  obtain ⟨held, -, -, rfl⟩ := t
  rfl

theorem loops (t : Twin ρ past b b') : b'.loops = b.loops := by
  obtain ⟨held, -, -, rfl⟩ := t
  rfl

theorem slots (t : Twin ρ past b b') : b'.locals.length = b.locals.length := by
  obtain ⟨held, -, locals, rfl⟩ := t
  simp [withLocals, locals]

theorem finish (t : Twin ρ past b b') (name source : String) (arity : Nat) :
    b'.finish name source arity = b.finish name source arity := by
  obtain ⟨held, -, -, rfl⟩ := t
  rfl

theorem append_uses (used : ∀ e ∈ events, ∃ x, e = .uses x) :
    Twin ρ (past ++ events) b b' ↔ Twin ρ past b b' := by
  simp only [Twin, Tracks.append_uses used]

theorem openScope (t : Twin ρ past b b') : Twin ρ (past ++ [.opens]) b.openScope b'.openScope := by
  obtain ⟨held, tracks, locals, rfl⟩ := t
  exact ⟨held, tracks.opens, locals, rfl⟩

theorem closeScope (t : Twin ρ past b b') (inside : 0 < b.depth) :
    Twin ρ (past ++ [.closes]) b.closeScope b'.closeScope := by
  obtain ⟨held, tracks, locals, rfl⟩ := t
  have kept (f : Held → Local) (same : ∀ s, (f s).depth = s.entry.depth) :
      (held.map f).dropWhile (fun l => b.depth - 1 < l.depth) =
        (held.dropWhile fun s => b.depth - 1 < s.entry.depth).map f := by
    simp [List.dropWhile_map, Function.comp_def, same]
  have own := closeScope_eq (locals ▸ kept Held.entry fun _ => rfl)
  have other := closeScope_eq (b := b.withLocals (held.map (Held.renamed ρ)))
    (kept (Held.renamed ρ) (Held.depth_renamed ρ))
  refine ⟨held.dropWhile fun s => b.depth - 1 < s.entry.depth, ?_, ?_, ?_⟩
  · have closed := tracks.closes inside
    rw [own]
    split
    · exact closed
    · exact closed
  · rw [own]
    split <;> rfl
  · rw [other, own]
    simp only [withLocals, locals, List.length_map]
    split <;> rfl

theorem declare (t : Twin ρ past b b') (inside : 0 < b.depth) {n : Nat} (place : n = past.length) :
    Twin ρ (past ++ [.declares x]) (b.declare x) (b'.declare (ρ n x)) := by
  subst place
  obtain ⟨held, tracks, locals, rfl⟩ := t
  refine ⟨⟨some past.length, x, b.depth⟩ :: held, tracks.declares inside, ?_, rfl⟩
  simp [Builder.declare, locals]

theorem hide (t : Twin ρ past b b') (bracketed : ¬ Unbracketed x) :
    Twin ρ past (b.declare x) (b'.declare x) := by
  obtain ⟨held, tracks, locals, rfl⟩ := t
  refine ⟨⟨none, x, b.depth⟩ :: held, tracks.hides bracketed, ?_, rfl⟩
  simp [Builder.declare, locals]

theorem declareGlobal (t : Twin ρ past b b') (outside : b.depth = 0) :
    Twin ρ (past ++ [.declares x]) b b' := by
  obtain ⟨held, tracks, locals, rfl⟩ := t
  rw [outside] at tracks
  refine ⟨held, ?_, locals, rfl⟩
  rw [outside]
  exact tracks.declaresGlobal

theorem level (t : Twin ρ past b b') : b.depth + past.count .closes = past.count .opens := by
  obtain ⟨held, tracks, -⟩ := t
  exact tracks.level

theorem leaves (t : Twin ρ past b b') (balanced : Balanced events)
    (u : Twin ρ (past ++ [.opens] ++ events) c c') :
    Twin ρ (past ++ inBlock events) c.closeScope c'.closeScope := by
  have inside : 0 < c.depth := by
    have before := t.level
    have behind := u.level
    have level := balanced.level
    rw [List.count_append, count_concat, if_neg (by simp), List.count_append, count_concat,
      if_pos rfl] at behind
    omega
  have closed := u.closeScope inside
  rwa [List.append_assoc, List.append_assoc] at closed

end Twin

end Builder

section

variable {past events more text : List ScopeEvent}

theorem ahead_first (ahead : past ++ (events ++ more) <+: text) : past ++ events <+: text :=
  (List.append_assoc past events more ▸ List.prefix_append (past ++ events) more).trans ahead

theorem ahead_second (ahead : past ++ (events ++ more) <+: text) :
    past ++ events ++ more <+: text :=
  (List.append_assoc past events more).symm ▸ ahead

theorem ahead_inBlock (ahead : past ++ inBlock events <+: text) :
    past ++ [.opens] ++ events <+: text :=
  have opened : past ++ [.opens] ++ (events ++ [.closes]) <+: text := by simpa [inBlock] using ahead
  ahead_first opened

end

namespace Builder

namespace Twin

variable {past text : List ScopeEvent} {b b' : Builder} {j : Nat} {old new x : String}

section

variable (t : Twin (otherName text j new) past b b') (r : Renames text j old new)
  (ahead : past ++ [.uses x] <+: text)

include t r ahead

theorem resolve : b'.resolve (otherName text j new past.length x) = b.resolve x := by
  obtain ⟨held, tracks, locals, rfl⟩ := t
  rw [Builder.resolve, Builder.resolve, locals, tracks.resolve r ahead]
  rfl

theorem same_of_global (missing : b.resolve x = none) :
    otherName text j new past.length x = x := by
  obtain ⟨held, tracks, locals, rfl⟩ := t
  refine if_neg ?_
  rintro (same | refers)
  · exact r.elsewhere ahead same
  · obtain ⟨rfl, l, mem⟩ := tracks.held_of_refers r ahead refers
    have called : l.name = x := by simpa using (tracks.declared ahead mem).symm.trans r.declared
    have found := slotOf?_isSome (List.mem_map_of_mem (f := Held.entry) mem)
    rw [← locals, show (Held.entry ⟨some j, l⟩).name = x from called] at found
    rw [Builder.resolve] at missing
    rw [missing] at found
    cases found

theorem resolves : (∃ slot, b.resolve x = some slot ∧
      b'.resolve (otherName text j new past.length x) = some slot) ∨
    b.resolve x = none ∧ b'.resolve (otherName text j new past.length x) = none ∧
      otherName text j new past.length x = x := by
  have same := t.resolve r ahead
  cases found : b.resolve x with
  | some slot => exact .inl ⟨slot, rfl, same.trans found⟩
  | none => exact .inr ⟨rfl, same.trans found, t.same_of_global r ahead found⟩

theorem load : Twin (otherName text j new) (past ++ [.uses x]) (b.load x)
    (b'.load (otherName text j new past.length x)) := by
  refine (append_uses (by simp)).mpr ?_
  rw [Builder.load, Builder.load]
  rcases t.resolves r ahead with ⟨slot, own, other⟩ | ⟨own, other, same⟩
  · rw [own, other]
    exact t.emit rfl
  · rw [own, other, same]
    exact t.emit rfl

theorem store : Twin (otherName text j new) (past ++ [.uses x]) (b.store x)
    (b'.store (otherName text j new past.length x)) := by
  refine (append_uses (by simp)).mpr ?_
  rw [Builder.store, Builder.store]
  rcases t.resolves r ahead with ⟨slot, own, other⟩ | ⟨own, other, same⟩
  · rw [own, other]
    exact t.emit rfl
  · rw [own, other, same]
    exact t.emit rfl

end

end Twin

theorem length_itemsMapNames (ρ : Nat → String → String) (n : Nat) (items : List Expr) :
    (Expr.itemsMapNames ρ n items).length = items.length := by
  induction items generalizing n with
  | nil => rfl
  | cons e rest ih => rw [Expr.itemsMapNames, List.length_cons, ih, List.length_cons]

theorem keys_fieldsMapNames (ρ : Nat → String → String) (n : Nat)
    (fields : List (String × Expr)) :
    (Expr.fieldsMapNames ρ n fields).map (·.1) = fields.map (·.1) := by
  induction fields generalizing n with
  | nil => rfl
  | cons field rest ih => rw [Expr.fieldsMapNames, List.map_cons, ih, List.map_cons]

section

variable {text : List ScopeEvent} {j : Nat} {old new : String}

mutual

theorem expr_twin (r : Renames text j old new) {past : List ScopeEvent} {b b' : Builder}
    (t : Twin (otherName text j new) past b b') :
    (e : Expr) → past ++ e.scopeEvents <+: text →
      Twin (otherName text j new) (past ++ e.scopeEvents) (b.expr e)
        (b'.expr (e.mapNames (otherName text j new) past.length))
  | .null, _ | .bool _, _ | .num _, _ | .str _, _ =>
    (Twin.append_uses (by simp [Expr.scopeEvents])).mpr (t.emit rfl)
  | .list items, ahead => by
    rw [Expr.mapNames, expr, expr, length_itemsMapNames]
    exact (exprs_twin r t items ahead).emit rfl
  | .object fields, ahead => by
    rw [Expr.mapNames, expr, expr, keys_fieldsMapNames]
    exact (fields_twin r t fields ahead).emit rfl
  | .ident name, ahead => t.load r ahead
  | .member e _, ahead => (expr_twin r t e ahead).emit rfl
  | .unary _ e, ahead => (expr_twin r t e ahead).emit rfl
  | .index e position, ahead => by
    have second := expr_twin r (expr_twin r t e (ahead_first ahead)) position (ahead_second ahead)
    rw [List.append_assoc, List.length_append] at second
    exact second.emit rfl
  | .call callee args line, ahead => by
    have second := exprs_twin r (expr_twin r t callee (ahead_first ahead)) args (ahead_second ahead)
    rw [List.append_assoc, List.length_append] at second
    rw [Expr.mapNames, expr, expr, length_itemsMapNames, second.line]
    exact second.neutral (((Neutral.atLine line).comp (.emit _)).comp (.atLine _))
  | .binary _ left right, ahead => by
    have second := expr_twin r (expr_twin r t left (ahead_first ahead)) right (ahead_second ahead)
    rw [List.append_assoc, List.length_append] at second
    exact second.emit rfl
  | .logical op left right, ahead => by
    have first := expr_twin r t left (ahead_first ahead)
    have second (jump : Instr) :=
      expr_twin r (first.neutral (.emit jump)) right (ahead_second ahead)
    rw [List.append_assoc, List.length_append] at second
    cases op with
    | and => exact (second (.jumpIfFalseKeep 0)).neutralAt .patch first
    | or => exact (second (.jumpIfTrueKeep 0)).neutralAt .patch first

theorem exprs_twin (r : Renames text j old new) {past : List ScopeEvent} {b b' : Builder}
    (t : Twin (otherName text j new) past b b') :
    (items : List Expr) → past ++ Expr.itemsScopeEvents items <+: text →
      Twin (otherName text j new) (past ++ Expr.itemsScopeEvents items) (b.exprs items)
        (b'.exprs (Expr.itemsMapNames (otherName text j new) past.length items))
  | [], _ => (Twin.append_uses (by simp [Expr.itemsScopeEvents])).mpr t
  | e :: rest, ahead => by
    have second := exprs_twin r (expr_twin r t e (ahead_first ahead)) rest (ahead_second ahead)
    rwa [List.append_assoc, List.length_append] at second

theorem fields_twin (r : Renames text j old new) {past : List ScopeEvent} {b b' : Builder}
    (t : Twin (otherName text j new) past b b') :
    (fields : List (String × Expr)) → past ++ Expr.fieldsScopeEvents fields <+: text →
      Twin (otherName text j new) (past ++ Expr.fieldsScopeEvents fields) (b.fields fields)
        (b'.fields (Expr.fieldsMapNames (otherName text j new) past.length fields))
  | [], _ => (Twin.append_uses (by simp [Expr.fieldsScopeEvents])).mpr t
  | (_, e) :: rest, ahead => by
    have second := fields_twin r (expr_twin r t e (ahead_first ahead)) rest (ahead_second ahead)
    rwa [List.append_assoc, List.length_append] at second

end

variable (r : Renames text j old new) {past : List ScopeEvent} {b b' : Builder}
  (t : Twin (otherName text j new) past b b')

include r t

theorem exprOrNull_twin (value : Option Expr)
    (ahead : past ++ Expr.optionScopeEvents value <+: text) :
    Twin (otherName text j new) (past ++ Expr.optionScopeEvents value) (b.exprOrNull value)
      (b'.exprOrNull (Expr.optionMapNames (otherName text j new) past.length value)) := by
  cases value with
  | none => exact (Twin.append_uses (by simp [Expr.optionScopeEvents])).mpr (t.emit rfl)
  | some e => exact expr_twin r t e ahead

/-- The target stands before the value, and is written to after it. -/
theorem assign_twin (value : Expr) (target : Target)
    (ahead : past ++ (target.scopeEvents ++ value.scopeEvents) <+: text) :
    Twin (otherName text j new) (past ++ (target.scopeEvents ++ value.scopeEvents))
      (b.assign value target)
      (b'.assign
        (value.mapNames (otherName text j new) (past.length + target.scopeEvents.length))
        (target.mapNames (otherName text j new) past.length)) := by
  have first := ahead_first ahead
  have second := ahead_second ahead
  rw [← List.append_assoc, ← List.length_append]
  cases target with
  | ident name =>
    -- The name is looked up among the locals that were there before the value, since it adds none.
    have named := (Twin.append_uses (Target.ident name).scopeEvents_uses).mpr t
    have valued := expr_twin r named value second
    have back := (Twin.append_uses value.scopeEvents_uses).mp valued
    have back := (Twin.append_uses (Target.ident name).scopeEvents_uses).mp back
    exact (Twin.append_uses value.scopeEvents_uses).mpr (back.store r first)
  | member e property =>
    exact (expr_twin r (expr_twin r t e first) value second).emit rfl
  | index e position =>
    have placed := expr_twin r (expr_twin r t e (ahead_first first)) position (ahead_second first)
    rw [List.append_assoc, List.length_append] at placed
    exact (expr_twin r placed value second).emit rfl

end

/-- Compilations that fail alike, or end with builders that differ in names of locals alone. -/
inductive Agree (ρ : Nat → String → String) (past : List ScopeEvent) :
    Except CompileError Builder → Except CompileError Builder → Prop
  | error (e : CompileError) : Agree ρ past (.error e) (.error e)
  | ok {b b' : Builder} (t : Twin ρ past b b') : Agree ρ past (.ok b) (.ok b')

namespace Agree

variable {ρ : Nat → String → String} {past later : List ScopeEvent}
  {result result' : Except CompileError Builder}

theorem bind {f f' : Builder → Except CompileError Builder} (h : Agree ρ past result result')
    (step : ∀ c c', Twin ρ past c c' → Agree ρ later (f c) (f' c')) :
    Agree ρ later (result.bind f) (result'.bind f') := by
  cases h with
  | error e => exact .error e
  | ok t => exact step _ _ t

/-- The same comes of both, where the names of locals are left out. -/
theorem ends {α : Type} {f f' : Builder → Except CompileError α} (h : Agree ρ past result result')
    (same : ∀ b b', Twin ρ past b b' → f' b' = f b) : result'.bind f' = result.bind f := by
  cases h with
  | error e => rfl
  | ok t => exact same _ _ t

end Agree

section

variable {text : List ScopeEvent} {j : Nat} {old new : String}

/-- Outside of every block a global is declared, otherwise a local. -/
theorem Twin.binds (r : Renames text j old new) {past : List ScopeEvent} {b b' : Builder}
    {name : String} (t : Twin (otherName text j new) past b b')
    (ahead : past ++ [.declares name] <+: text) :
    Twin (otherName text j new) (past ++ [.declares name])
      (if b.depth = 0 then b.emit (.setGlobal name) else b.declare name)
      (if b'.depth = 0 then b'.emit (.setGlobal (otherName text j new past.length name))
        else b'.declare (otherName text j new past.length name)) := by
  rw [t.depth]
  by_cases outside : b.depth = 0
  · rw [if_pos outside, if_pos outside]
    have level := t.level
    obtain ⟨rest, rfl⟩ := ahead
    have elsewhere : past.length ≠ j := by
      intro same
      have isLocal := r.isLocal
      rw [IsLocal, List.append_assoc, List.take_left' same] at isLocal
      omega
    rw [otherName_declares (by simp) elsewhere]
    exact (t.declareGlobal outside).emit rfl
  · rw [if_neg outside, if_neg outside]
    exact t.declare (Nat.pos_of_ne_zero outside) rfl

mutual

theorem stmt_agrees (r : Renames text j old new) {past : List ScopeEvent} {b b' : Builder}
    (t : Twin (otherName text j new) past b b') {n : Nat} (place : n = past.length) :
    (s : Stmt) → past ++ s.scopeEvents <+: text →
      Agree (otherName text j new) (past ++ s.scopeEvents) (b.stmt s)
        (b'.stmt (s.mapNames (otherName text j new) n))
  | .block line body, ahead => by
    have opened := (t.neutral (.atLine line)).openScope
    refine (stmts_agree r opened (by simp [place]) body (ahead_inBlock ahead)).bind fun c c' u => ?_
    exact .ok (t.leaves (Stmt.bodyScopeEvents_balanced body) u)
  | .declare line name value, ahead => by
    subst place
    have valued := exprOrNull_twin r (t.neutral (.atLine line)) value (ahead_first ahead)
    have bound := valued.binds r (ahead_second ahead)
    rw [List.append_assoc, List.length_append] at bound
    exact .ok bound
  | .assign line target value, ahead => by
    subst place
    exact .ok (assign_twin r (t.neutral (.atLine line)) value target ahead)
  | .ifThen line test body, ahead => by
    subst place
    have tested := expr_twin r (t.neutral (.atLine line)) test (ahead_first ahead)
    have opened := (tested.emit (i := .jumpIfFalse 0) rfl).openScope
    refine (stmt_agrees r opened (by simp [Nat.add_assoc]) body
      (ahead_inBlock (ahead_second ahead))).bind fun c c' u => .ok ?_
    have closed := (tested.leaves body.scopeEvents_balanced u).neutralAt .patch tested
    rwa [List.append_assoc] at closed
  | .ifThenElse line test body otherwise, ahead => by
    subst place
    have tested := expr_twin r (t.neutral (.atLine line)) test (ahead_first ahead)
    have opened := (tested.emit (i := .jumpIfFalse 0) rfl).openScope
    have ahead' := ahead_second ahead
    refine (stmt_agrees r opened (by simp [Nat.add_assoc]) body
      (ahead_inBlock (ahead_first ahead'))).bind fun c c' u => ?_
    have closed := tested.leaves body.scopeEvents_balanced u
    have passed := (closed.emit (i := .jump 0) rfl).neutralAt .patch tested
    refine (stmt_agrees r passed.openScope (by simp [Nat.add_assoc]) otherwise
      (ahead_inBlock (ahead_second ahead'))).bind fun d d' v => .ok ?_
    have closed' := (passed.leaves otherwise.scopeEvents_balanced v).neutralAt .patch closed
    rwa [List.append_assoc, List.append_assoc] at closed'
  | .while line test body, ahead => by
    subst place
    have started := t.neutral (.atLine line)
    have tested := expr_twin r started test (ahead_first ahead)
    have looped := (tested.emit (i := .jumpIfFalse 0) rfl).neutralAt .openLoop started
    refine (stmt_agrees r looped.openScope (by simp [Nat.add_assoc]) body
      (ahead_inBlock (ahead_second ahead))).bind fun c c' u => .ok ?_
    have closed := tested.leaves body.scopeEvents_balanced u
    have back := closed.neutralAt (fun n => .emit (.jump n)) started
    have left := (back.neutralAt .patch tested).neutral .closeLoop
    rwa [List.append_assoc] at left
  | .forOf line name iterable body, ahead => by
    subst place
    have inside := ahead_inBlock ahead
    -- The list and the position are held in hidden slots of the outer block; the variable is
    -- declared in an inner one, which a round is, around the block of the body.
    have opened := (t.neutral (.atLine line)).openScope
    have listed := expr_twin r opened iterable (ahead_first inside)
    rw [List.length_append] at listed
    have first := (listed.hide (x := "(for list)") (by unfold Unbracketed; decide)).emit
      (i := .push (.num (Number.zero false))) rfl
    have started := first.hide (x := "(for index)") (by unfold Unbracketed; decide)
    have looped := (started.emit (congrArg₂ (Instr.iterNext · · 0) listed.slots.symm
      first.slots.symm)).neutralAt .openLoop started
    have bound := looped.openScope.declare (x := name) (Nat.succ_pos _)
      (n := past.length + 1 + iterable.scopeEvents.length + 1) (by simp; omega)
    have inside' := ahead_inBlock (ahead_second inside)
    rw [List.append_cons] at inside'
    refine (stmt_agrees r bound.openScope (by simp; omega) body
      (ahead_inBlock inside')).bind fun c c' u => .ok ?_
    have round := bound.leaves body.scopeEvents_balanced u
    rw [List.append_assoc _ [_]] at round
    have bodied := (Balanced.name (e := .declares name) (by simp)).append
      body.scopeEvents_balanced.block
    have back := (looped.leaves bodied round).neutralAt (fun n => .emit (.jump n)) started
    have left := (back.neutralAt .patch started).neutral .closeLoop
    rw [List.append_assoc _ iterable.scopeEvents] at left
    exact t.leaves ((Balanced.uses iterable.scopeEvents_uses).append bodied.block) left
  | .tryCatch line body name handler, ahead => by
    subst place
    have started := t.neutral (.atLine line)
    have guarded := (started.emit (i := .pushHandler 0) rfl).neutral (.handlers (· + 1))
    refine (stmts_agree r guarded.openScope (by simp) body
      (ahead_inBlock (ahead_first ahead))).bind fun c c' u => ?_
    have closed := started.leaves (Stmt.bodyScopeEvents_balanced body) u
    have freed := (closed.emit (i := .popHandler) rfl).neutral (.handlers (· - 1))
    have passed := (freed.emit (i := .jump 0) rfl).neutralAt .patch started
    have caught := passed.openScope.declare (x := name) (Nat.succ_pos _)
      (n := past.length + ((Stmt.bodyScopeEvents body).length + 2) + 1) (by simp [Nat.add_assoc])
    have inside := ahead_inBlock (ahead_second ahead)
    rw [List.append_cons] at inside
    refine (stmts_agree r caught (by simp [Nat.add_assoc]) handler inside).bind
      fun d d' v => .ok ?_
    rw [List.append_assoc _ [_]] at v
    have handled := (Balanced.name (e := .declares name) (by simp)).append
      (Stmt.bodyScopeEvents_balanced handler)
    have closed' := (passed.leaves handled v).neutralAt .patch freed
    rwa [List.append_assoc] at closed'
  | .return line value, ahead => by
    subst place
    exact .ok ((exprOrNull_twin r (t.neutral (.atLine line)) value ahead).emit rfl)
  | .throw line value, ahead | .expr line value, ahead => by
    subst place
    exact .ok ((expr_twin r (t.neutral (.atLine line)) value ahead).emit rfl)
  | .break line, ahead => by
    rw [Stmt.mapNames, stmt, stmt, t.loops, Stmt.scopeEvents, List.append_nil]
    cases b.loops with
    | nil => exact .error _
    | cons loop outer =>
      have unwound := (t.neutral (.atLine line)).neutral (.unwindTo loop)
      exact .ok ((unwound.emit (i := .jump 0) rfl).neutralAt .recordBreak unwound)
  | .continue line, ahead => by
    rw [Stmt.mapNames, stmt, stmt, t.loops, Stmt.scopeEvents, List.append_nil]
    cases b.loops with
    | nil => exact .error _
    | cons loop outer =>
      have unwound := (t.neutral (.atLine line)).neutral (.unwindTo loop)
      exact .ok (unwound.emit rfl)

theorem stmts_agree (r : Renames text j old new) {past : List ScopeEvent} {b b' : Builder}
    (t : Twin (otherName text j new) past b b') {n : Nat} (place : n = past.length) :
    (body : List Stmt) → past ++ Stmt.bodyScopeEvents body <+: text →
      Agree (otherName text j new) (past ++ Stmt.bodyScopeEvents body) (b.stmts body)
        (b'.stmts (Stmt.bodyMapNames (otherName text j new) n body))
  | [], _ => by
    rw [Stmt.bodyScopeEvents, List.append_nil]
    exact .ok t
  | s :: rest, ahead => by
    refine (stmt_agrees r t place s (ahead_first ahead)).bind fun c c' u => ?_
    have others := stmts_agree r u (n := n + s.scopeEvents.length)
      (by rw [place, List.length_append]) rest (ahead_second ahead)
    rwa [List.append_assoc] at others

end

end

theorem params_twin {ρ : Nat → String → String} {past : List ScopeEvent} {b b' : Builder}
    (t : Twin ρ past b b') (inside : 0 < b.depth) {n : Nat} (place : n = past.length)
    (params : List String) :
    Twin ρ (past ++ params.map .declares) (params.foldl (fun b p => b.declare p) b)
      ((paramsMapNames ρ n params).foldl (fun b p => b.declare p) b') := by
  induction params generalizing past b b' n with
  | nil => rwa [List.map_nil, List.append_nil]
  | cons name rest ih =>
    have others := ih (t.declare (x := name) inside place) inside
      (n := n + 1) (by rw [place, List.length_append, List.length_singleton])
    rwa [List.append_assoc] at others

end Builder

theorem isLocal_of_inBlock {events : List ScopeEvent} {j : Nat} {name : String}
    (balanced : Balanced events) (declared : (inBlock events)[j]? = some (.declares name)) :
    IsLocal (inBlock events) j := by
  cases j with
  | zero => simp [inBlock] at declared
  | succ k =>
    rw [inBlock, List.getElem?_cons_succ] at declared
    have before : k < events.length := by
      by_contra behind
      rw [List.getElem?_append_right (Nat.le_of_not_lt behind)] at declared
      have last := List.mem_of_getElem? declared
      simp at last
    have opened := balanced.inside _ (List.take_prefix k events)
    rw [IsLocal, inBlock, List.take_succ_cons, List.take_append_of_le_length before.le,
      List.count_cons_self, List.count_cons_of_ne (by simp)]
    omega

theorem FunctionDecl.events_balanced (f : FunctionDecl) :
    Balanced (f.params.map .declares ++ Stmt.bodyScopeEvents f.body) := by
  refine Balanced.append ?_ (Stmt.bodyScopeEvents_balanced f.body)
  induction f.params with
  | nil => exact .nil
  | cons name rest ih => exact (Balanced.name (e := .declares name) (by simp)).append ih

theorem length_paramsMapNames (ρ : Nat → String → String) (n : Nat) (params : List String) :
    (paramsMapNames ρ n params).length = params.length := by
  induction params generalizing n with
  | nil => rfl
  | cons name rest ih => rw [paramsMapNames, List.length_cons, ih, List.length_cons]

variable {j : Nat} {old new : String}

theorem compileFunction_renamed (source : String) {f : FunctionDecl}
    (r : Renames f.scopeEvents j old new) :
    compileFunction source (f.renameLocal j new) = compileFunction source f := by
  have start : Builder.Twin (otherName f.scopeEvents j new) [.opens] (Builder.new 1 f.line)
      (Builder.new 1 f.line) := ⟨[], Tracks.nil.opens, rfl, rfl⟩
  have params := Builder.params_twin start Nat.one_pos (n := 1) rfl f.params
  have inside : [.opens] ++ f.params.map .declares ++ Stmt.bodyScopeEvents f.body <+:
      f.scopeEvents :=
    ⟨[.closes], by simp [FunctionDecl.scopeEvents, inBlock]⟩
  have agree := Builder.stmts_agree r params (n := 1 + f.params.length)
    (by simp [Nat.add_comm]) f.body inside
  refine agree.ends fun b b' t => ?_
  rw [FunctionDecl.renameLocal, FunctionDecl.mapNames, length_paramsMapNames, t.finish]

/-- Other code for the same declaration changes nothing else. -/
theorem compileFunctions_replaced {source : String} {f g : FunctionDecl} (name : g.name = f.name)
    (line : g.line = f.line) (same : compileFunction source g = compileFunction source f)
    (seen : List String) (before after : List FunctionDecl) :
    compileFunctions source seen (before ++ g :: after) =
      compileFunctions source seen (before ++ f :: after) := by
  induction before generalizing seen with
  | nil =>
    rw [List.nil_append, List.nil_append, compileFunctions, compileFunctions, name, line, same]
  | cons h rest ih =>
    rw [List.cons_append, List.cons_append, compileFunctions, compileFunctions, ih]

theorem compile_body_renamed (source : String) (functions : List FunctionDecl) {body : List Stmt}
    (r : Renames (Stmt.bodyScopeEvents body) j old new) :
    compile source ⟨functions, Stmt.renameLocal body j new⟩ = compile source ⟨functions, body⟩ := by
  have start : Builder.Twin (otherName (Stmt.bodyScopeEvents body) j new) [] (Builder.new 0 1)
      (Builder.new 0 1) := ⟨[], Tracks.nil, rfl, rfl⟩
  have agree := Builder.stmts_agree r start (n := 0) rfl body List.prefix_rfl
  rw [compile, compile]
  refine congrArg _ (funext fun chunks => agree.ends fun b b' t => ?_)
  rw [t.finish]

/-- Locals are lexically scoped. A local of a function or of top-level code gets a name that occurs
nowhere in it, together with the uses that refer to it and nothing else: what is compiled is the
same, with its lines. No name of a source has a bracket in it. -/
theorem compile_renamed (source : String) {new : String} (word : Unbracketed new) :
    (∀ (f : FunctionDecl) (j : Nat) (old : String), f.scopeEvents[j]? = some (.declares old) →
      Unbracketed old → Fresh new f.scopeEvents →
        compileFunction source (f.renameLocal j new) = compileFunction source f ∧
          (∀ before after body, compile source ⟨before ++ f.renameLocal j new :: after, body⟩ =
            compile source ⟨before ++ f :: after, body⟩) ∧
          ∀ i : Nat, (f.renameLocal j new).scopeEvents[i]? =
            f.scopeEvents[i]?.map (.mapName (otherName f.scopeEvents j new i))) ∧
      ∀ (body : List Stmt) (j : Nat) (old : String),
        (Stmt.bodyScopeEvents body)[j]? = some (.declares old) →
        IsLocal (Stmt.bodyScopeEvents body) j →
        Unbracketed old → Fresh new (Stmt.bodyScopeEvents body) →
          (∀ functions, compile source ⟨functions, Stmt.renameLocal body j new⟩ =
            compile source ⟨functions, body⟩) ∧
          ∀ i : Nat, (Stmt.bodyScopeEvents (Stmt.renameLocal body j new))[i]? =
            (Stmt.bodyScopeEvents body)[i]?.map
              (.mapName (otherName (Stmt.bodyScopeEvents body) j new i)) := by
  constructor
  · intro f j old declared word' fresh
    have isLocal := isLocal_of_inBlock f.events_balanced declared
    have same := compileFunction_renamed source ⟨declared, isLocal, fresh, word', word⟩
    refine ⟨same, fun before after body => ?_, fun i => ?_⟩
    · rw [compile, compile,
        compileFunctions_replaced (g := f.renameLocal j new) (f := f) rfl rfl same]
    · rw [FunctionDecl.renameLocal, FunctionDecl.scopeEvents_mapNames, getElem?_renameEvents,
        Nat.zero_add]
  · intro body j old declared isLocal word' fresh
    refine ⟨fun functions => ?_, fun i => ?_⟩
    · exact compile_body_renamed source functions ⟨declared, isLocal, fresh, word', word⟩
    · rw [Stmt.renameLocal, Stmt.bodyScopeEvents_mapNames, getElem?_renameEvents, Nat.zero_add]

/-- A parameter is hidden by a variable of its name, but not in the value of that; and a variable of
the top level is one of a block. -/
theorem compile_renamed_shadowed :
    compileFunction "s" ⟨"f", ["z"],
        [.declare 2 "x" (some (.ident "z")),
          .forOf 3 "y" (.ident "x") (.assign 4 (.ident "x") (.ident "y"))], 1⟩ =
      compileFunction "s" ⟨"f", ["x"],
        [.declare 2 "x" (some (.ident "x")),
          .forOf 3 "y" (.ident "x") (.assign 4 (.ident "x") (.ident "y"))], 1⟩ ∧
    compile "s" ⟨[], [.tryCatch 1 [.throw 2 (.ident "e")] "z" [.expr 3 (.ident "z")]]⟩ =
      compile "s" ⟨[], [.tryCatch 1 [.throw 2 (.ident "e")] "e" [.expr 3 (.ident "e")]]⟩ := by
  have word (name : String) (h : '(' ∉ name.toList) : Unbracketed name := h
  have renamed := compile_renamed "s" (word "z" (by decide))
  constructor
  · exact (renamed.1 ⟨"f", ["x"],
      [.declare 2 "x" (some (.ident "x")),
        .forOf 3 "y" (.ident "x") (.assign 4 (.ident "x") (.ident "y"))], 1⟩ 1 "x" (by decide)
      (word _ (by decide)) (by decide)).1
  · exact (renamed.2 [.tryCatch 1 [.throw 2 (.ident "e")] "e" [.expr 3 (.ident "e")]] 4 "e"
      (by decide) (by decide) (word _ (by decide)) (by decide)).1 []

end FrameScript
