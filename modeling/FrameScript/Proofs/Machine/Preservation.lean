import FrameScript.Proofs.Machine.Discipline

/-!
# Preservation

An instruction that flows finds the values that it takes, and its effect keeps
the discipline. So a step of a sound machine is a good one, and so is a call or
the result that resumes it.
-/

namespace FrameScript

/-- What the effect of an instruction gives to the discipline of its frame. -/
def Effect.Keeps (ok : Chunk → Prop) (code : List Point) (catches : List Catch) (env : Env)
    (pc : Nat) : Effect → Prop
  | .goes env' pc vs => (env'.Sound ok ∧ env.heap.chunks.size ≤ env'.heap.chunks.size) ∧
    (∀ v ∈ vs, v.Known env'.heap) ∧ ∃ slots, Fits slots vs ∧ ShapeAt code pc ⟨slots, catches⟩
  | .raises v vs => v.Known env.heap ∧ (∀ v ∈ vs, v.Known env.heap) ∧
    ∃ slots, Fits slots vs ∧ Guards catches slots
  | .calls args callee vs =>
    (∀ v ∈ args.reverse ++ callee :: vs, v.Known env.heap) ∧ ∃ slots, Fits slots vs ∧
      Guards catches slots ∧ ShapeAt code pc ⟨.plain :: slots, catches⟩
  | .returns v => v.Known env.heap
  | .installs target vs => (∀ v ∈ vs, v.Known env.heap) ∧ ∃ slots, Fits slots vs ∧
    ShapeAt code pc ⟨slots, ⟨target, slots⟩ :: catches⟩ ∧
    ShapeAt code target ⟨.plain :: slots, catches⟩
  | .removes vs => (∀ v ∈ vs, v.Known env.heap) ∧ ∃ c outer slots, catches = c :: outer ∧
    Fits slots vs ∧ ShapeAt code pc ⟨slots, outer⟩
  | .lost _ => True

variable {ok : Chunk → Prop} {code : List Point} {catches : List Catch} {env : Env} {pc : Nat}

theorem Fits.push {slots : List SlotKind} {vs : List Value} (fits : Fits slots vs) (v : Value) :
    Fits (.plain :: slots) (v :: vs) := .cons trivial fits

theorem Fits.uncons {k : SlotKind} {slots : List SlotKind} {vs : List Value} {h : Heap}
    (fits : Fits (k :: slots) vs) (known : ∀ v ∈ vs, v.Known h) :
    ∃ v rest, vs = v :: rest ∧ v.Known h ∧ Fits slots rest ∧ ∀ w ∈ rest, w.Known h := by
  cases fits with
  | @cons _ v _ rest _ fits =>
    obtain ⟨known', known⟩ := List.forall_mem_cons.mp known
    exact ⟨v, rest, rfl, known', fits, known⟩

theorem known_of_slot {h : Heap} {vs : List Value} (known : ∀ v ∈ vs, v.Known h) {slot : Nat}
    {v : Value} (found : vs.reverse[slot]? = some v) : v.Known h :=
  known v (List.mem_reverse.mp (List.mem_of_getElem? found))

theorem known_set {h : Heap} {vs : List Value} (known : ∀ w ∈ vs, w.Known h) {v : Value}
    (known' : v.Known h) (slot : Nat) : ∀ w ∈ (vs.reverse.set slot v).reverse, w.Known h := by
  intro w mem
  rcases List.mem_or_eq_of_mem_set (List.mem_reverse.mp mem) with mem | rfl
  · exact known w (List.mem_reverse.mp mem)
  · exact known'

theorem Fits.below {slots : List SlotKind} {vs : List Value} {h : Heap} (fits : Fits slots vs)
    (known : ∀ v ∈ vs, v.Known h) (n : Nat) :
    Fits (slots.drop n) (vs.drop n) ∧ ∀ v ∈ vs.drop n, v.Known h :=
  ⟨List.forall₂_drop n fits, fun v mem => known v (List.mem_of_mem_drop mem)⟩

theorem Fits.slot {slots : List SlotKind} {vs : List Value} (fits : Fits slots vs) {slot : Nat}
    {k : SlotKind} (found : slots.reverse[slot]? = some k) :
    ∃ v, vs.reverse[slot]? = some v ∧ k.Holds v := by
  obtain ⟨low, rfl⟩ := List.getElem?_eq_some_iff.mp found
  have low' : slot < vs.reverse.length := by
    rwa [List.length_reverse, ← fits.length_eq, ← List.length_reverse]
  have reversed : List.Forall₂ SlotKind.Holds slots.reverse vs.reverse :=
    List.rel_reverse fits
  exact ⟨_, List.getElem?_eq_getElem low', reversed.get low low'⟩

theorem Fits.set {slots : List SlotKind} {vs : List Value} (fits : Fits slots vs) {slot : Nat}
    {k : SlotKind} (found : slots.reverse[slot]? = some k) {v : Value} (holds : k.Holds v) :
    Fits slots (vs.reverse.set slot v).reverse := by
  have reversed : List.Forall₂ SlotKind.Holds slots.reverse vs.reverse :=
    List.rel_reverse fits
  obtain ⟨_, rfl⟩ := List.getElem?_eq_some_iff.mp found
  have written : List.Forall₂ SlotKind.Holds slots.reverse (vs.reverse.set slot v) := by
    rw [List.forall₂_iff_get] at reversed ⊢
    refine ⟨by simpa using reversed.1, fun i low low' => ?_⟩
    simp only [List.get_eq_getElem, List.getElem_set]
    split
    · rename_i same
      subst same
      exact holds
    · exact reversed.2 i low (by simpa using low')
  simpa using List.rel_reverse written

namespace Effect

variable {slots : List SlotKind} {vs : List Value}

theorem goes_keeps (sound : env.Sound ok) {target next : Nat}
    (known : ∀ v ∈ vs, v.Known env.heap) (fits : Fits slots vs)
    (shape : ShapeAt code target ⟨slots, catches⟩) :
    (goes env target vs).Keeps ok code catches env next :=
  ⟨⟨sound, Nat.le_refl _⟩, known, slots, fits, shape⟩

theorem value_keeps (sound : env.Sound ok) (known : ∀ v ∈ vs, v.Known env.heap)
    (fits : Fits slots vs) (guard : Guards catches slots)
    (shape : ShapeAt code pc ⟨.plain :: slots, catches⟩) {r : Except ErrorInfo Value}
    (result : ∀ v, r = .ok v → v.Known env.heap) :
    (value env pc vs r).Keeps ok code catches env pc := by
  cases r with
  | error e => exact ⟨trivial, known, slots, fits, guard⟩
  | ok v =>
    exact goes_keeps sound (List.forall_mem_cons.mpr ⟨result v rfl, known⟩) (fits.push v) shape

theorem write_keeps (sound : env.Sound ok) (known : ∀ v ∈ vs, v.Known env.heap)
    (fits : Fits slots vs) (guard : Guards catches slots)
    (shape : ShapeAt code pc ⟨slots, catches⟩) {r : Except ErrorInfo Heap}
    (result : ∀ h, r = .ok h → h.Sound ok ∧ h.chunks = env.heap.chunks) :
    (write env pc vs r).Keeps ok code catches env pc := by
  cases r with
  | error e => exact ⟨trivial, known, slots, fits, guard⟩
  | ok h =>
    obtain ⟨heap, same⟩ := result h rfl
    have grown : env.heap.chunks.size ≤ h.chunks.size := Nat.le_of_eq (congrArg _ same.symm)
    exact ⟨⟨sound.withHeap heap grown, grown⟩, fun v mem => (known v mem).mono grown, slots, fits,
      shape⟩

theorem made_keeps (sound : env.Sound ok) (known : ∀ v ∈ vs, v.Known env.heap)
    (fits : Fits slots vs) {h : Heap} (heap : h.Sound ok) (chunks : h.chunks = env.heap.chunks)
    {v : Value} (known' : v.Known h) {n target next : Nat}
    (shape : ShapeAt code target ⟨.plain :: slots.drop n, catches⟩) :
    (goes (env.withHeap h) target (v :: vs.drop n)).Keeps ok code catches env next := by
  have grown : env.heap.chunks.size ≤ h.chunks.size := Nat.le_of_eq (congrArg _ chunks.symm)
  obtain ⟨fits', below⟩ := fits.below known n
  exact ⟨⟨sound.withHeap heap grown, grown⟩,
    List.forall_mem_cons.mpr ⟨known', fun w mem => (below w mem).mono grown⟩, _, fits'.push v,
    shape⟩

end Effect

theorem round_keeps (sound : env.Sound ok) {slots : List SlotKind} {vs : List Value}
    (known : ∀ v ∈ vs, v.Known env.heap) (fits : Fits slots vs) (guard : Guards catches slots)
    {index exit : Nat} (at_index : slots.reverse[index]? = some .position)
    (next : ShapeAt code pc ⟨.plain :: slots, catches⟩)
    (shape : ShapeAt code exit ⟨slots, catches⟩) (v : Value) (x : Number) :
    (Effect.round env pc index exit vs v x).Keeps ok code catches env pc := by
  cases v with
  | list r =>
    cases found : (env.heap.list r)[x.toWord]? with
    | none =>
      simp only [Effect.round, found]
      exact Effect.goes_keeps sound known fits shape
    | some item =>
      simp only [Effect.round, found]
      have moved : Fits slots
          (vs.reverse.set index (.num (Number.ofNat (x.toWord + 1)))).reverse :=
        fits.set at_index ⟨_, rfl⟩
      have known' := sound.heap.list r _ (Array.mem_of_getElem? found)
      exact Effect.goes_keeps sound
        (List.forall_mem_cons.mpr ⟨known', known_set known (by trivial) index⟩)
        (moved.push item) next
  | _ => exact ⟨trivial, known, slots, fits, guard⟩

/-- An instruction that flows has an effect, and that keeps the discipline. -/
theorem Instr.effect_keeps (sound : env.Sound ok) {slots : List SlotKind} {vs : List Value}
    (known : ∀ v ∈ vs, v.Known env.heap) (fits : Fits slots vs) {i : Instr}
    (flows : Point.Flows code pc ⟨⟨slots, catches⟩, i⟩) :
    ∃ e, i.effect env (pc + 1) vs = some e ∧ e.Keeps ok code catches env (pc + 1) := by
  cases i with
  | push v =>
    obtain ⟨literal, shape⟩ := flows
    have known' : v.Known env.heap := by
      cases v <;> trivial
    refine ⟨_, rfl, ?_⟩
    have all := List.forall_mem_cons.mpr ⟨known', known⟩
    rcases shape with shape | ⟨number, shape⟩
    · exact Effect.goes_keeps sound all (fits.push v) shape
    · have fits' : Fits (.position :: slots) (v :: vs) := .cons number fits
      exact Effect.goes_keeps sound all fits' shape
  | pop =>
    obtain ⟨k, rest, rfl, shape⟩ := flows
    obtain ⟨v, vs, rfl, -, fits, known⟩ := fits.uncons known
    exact ⟨_, rfl, Effect.goes_keeps sound known fits shape⟩
  | popN n =>
    obtain ⟨enough, shape⟩ := flows
    rw [fits.length_eq] at enough
    obtain ⟨fits', known'⟩ := fits.below known n
    exact ⟨_, if_pos enough, Effect.goes_keeps sound known' fits' shape⟩
  | getLocal slot =>
    obtain ⟨low, shape⟩ := flows
    have low' : slot < slots.reverse.length := by simpa using low
    obtain ⟨v, found, -⟩ := fits.slot (List.getElem?_eq_getElem low')
    simp only [effect, found, Option.map_some]
    exact ⟨_, rfl, Effect.goes_keeps sound
      (List.forall_mem_cons.mpr ⟨known_of_slot known found, known⟩) (fits.push v) shape⟩
  | setLocal slot =>
    obtain ⟨k, rest, rfl, found, shape⟩ := flows
    obtain ⟨v, vs, rfl, known', fits, known⟩ := fits.uncons known
    have low : slot < vs.length := by
      rw [← fits.length_eq]
      simpa using (List.getElem?_eq_some_iff.mp found).1
    have written : Fits rest (vs.reverse.set slot v).reverse :=
      Fits.set fits found trivial
    exact ⟨_, if_pos low, Effect.goes_keeps sound (known_set known known' slot) written shape⟩
  | getGlobal name =>
    obtain ⟨guard, shape⟩ := flows
    cases found : env.globals.get? name with
    | none =>
      simp only [effect, found]
      exact ⟨_, rfl, trivial, known, slots, fits, guard⟩
    | some v =>
      simp only [effect, found]
      have known' := sound.globals _ (Table.mem_of_get? found)
      exact ⟨_, rfl, Effect.goes_keeps sound (List.forall_mem_cons.mpr ⟨known', known⟩)
        (fits.push v) shape⟩
  | setGlobal name =>
    obtain ⟨k, rest, rfl, shape⟩ := flows
    obtain ⟨v, vs, rfl, known', fits, known⟩ := fits.uncons known
    refine ⟨_, rfl, ⟨⟨sound.heap, ?_, sound.natives⟩, Nat.le_refl _⟩, known, rest, fits, shape⟩
    intro e mem
    rcases Table.mem_insert mem with rfl | mem
    · exact known'
    · exact sound.globals e mem
  | makeList n =>
    obtain ⟨enough, shape⟩ := flows
    rw [fits.length_eq] at enough
    have items : ∀ v ∈ (vs.take n).reverse.toArray, v.Known env.heap := fun v mem =>
      known v (List.mem_of_mem_take (List.mem_reverse.mp (List.mem_toArray.mp mem)))
    exact ⟨_, if_pos enough,
      Effect.made_keeps sound known fits (sound.heap.newList items) rfl (by trivial) shape⟩
  | makeObject keys =>
    obtain ⟨enough, shape⟩ := flows
    rw [fits.length_eq] at enough
    have fields : ∀ e ∈ (Table.ofList (keys.zip (vs.take keys.length).reverse)).entries,
        e.2.Known env.heap := fun e mem =>
      known e.2 (List.mem_of_mem_take (List.mem_reverse.mp
        (List.of_mem_zip (Table.mem_ofList mem)).2))
    exact ⟨_, if_pos enough,
      Effect.made_keeps sound known fits (sound.heap.newObject fields) rfl (by trivial) shape⟩
  | getMember name =>
    obtain ⟨k, rest, rfl, guard, shape⟩ := flows
    obtain ⟨v, vs, rfl, -, fits, known⟩ := fits.uncons known
    exact ⟨_, rfl, Effect.value_keeps sound known fits guard shape
      fun w eq => Value.getMember_known sound.heap eq⟩
  | setMember name =>
    obtain ⟨k, l, rest, rfl, guard, shape⟩ := flows
    obtain ⟨value, vs, rfl, known', fits, known⟩ := fits.uncons known
    obtain ⟨v, vs, rfl, -, fits, known⟩ := fits.uncons known
    exact ⟨_, rfl, Effect.write_keeps sound known fits guard shape
      fun h eq => Value.setMember_sound sound.heap known' eq⟩
  | getIndex =>
    obtain ⟨k, l, rest, rfl, guard, shape⟩ := flows
    obtain ⟨index, vs, rfl, -, fits, known⟩ := fits.uncons known
    obtain ⟨v, vs, rfl, -, fits, known⟩ := fits.uncons known
    exact ⟨_, rfl, Effect.value_keeps sound known fits guard shape
      fun w eq => Value.getIndex_known sound.heap eq⟩
  | setIndex =>
    obtain ⟨k, l, m, rest, rfl, guard, shape⟩ := flows
    obtain ⟨value, vs, rfl, known', fits, known⟩ := fits.uncons known
    obtain ⟨index, vs, rfl, -, fits, known⟩ := fits.uncons known
    obtain ⟨v, vs, rfl, -, fits, known⟩ := fits.uncons known
    exact ⟨_, rfl, Effect.write_keeps sound known fits guard shape
      fun h eq => Value.setIndex_sound sound.heap known' eq⟩
  | unary op =>
    obtain ⟨k, rest, rfl, guard, shape⟩ := flows
    obtain ⟨v, vs, rfl, -, fits, known⟩ := fits.uncons known
    exact ⟨_, rfl, Effect.value_keeps sound known fits guard shape
      fun w eq => Value.unary_known eq⟩
  | binary op =>
    obtain ⟨k, l, rest, rfl, guard, shape⟩ := flows
    obtain ⟨right, vs, rfl, -, fits, known⟩ := fits.uncons known
    obtain ⟨left, vs, rfl, -, fits, known⟩ := fits.uncons known
    cases result : Value.binary? env.heap op left right with
    | none =>
      simp only [effect, result]
      exact ⟨_, rfl, trivial⟩
    | some r =>
      simp only [effect, result]
      refine ⟨_, rfl, Effect.value_keeps sound known fits guard shape fun w eq => ?_⟩
      subst eq
      exact Value.binary?_known result
  | jump target => exact ⟨_, rfl, Effect.goes_keeps sound known fits flows⟩
  | jumpIfFalse target =>
    obtain ⟨k, rest, rfl, shape, other⟩ := flows
    obtain ⟨v, vs, rfl, -, fits, known⟩ := fits.uncons known
    refine ⟨_, rfl, ?_⟩
    cases v.isTruthy with
    | true => exact Effect.goes_keeps sound known fits shape
    | false => exact Effect.goes_keeps sound known fits other
  | jumpIfFalseKeep target =>
    obtain ⟨k, rest, rfl, shape, other⟩ := flows
    obtain ⟨v, vs, rfl, -, fits', known'⟩ := fits.uncons known
    refine ⟨_, rfl, ?_⟩
    cases v.isTruthy with
    | true => exact Effect.goes_keeps sound known' fits' shape
    | false => exact Effect.goes_keeps sound known fits other
  | jumpIfTrueKeep target =>
    obtain ⟨k, rest, rfl, shape, other⟩ := flows
    obtain ⟨v, vs, rfl, -, fits', known'⟩ := fits.uncons known
    refine ⟨_, rfl, ?_⟩
    cases v.isTruthy with
    | true => exact Effect.goes_keeps sound known fits other
    | false => exact Effect.goes_keeps sound known' fits' shape
  | call argc =>
    obtain ⟨enough, guard, shape⟩ := flows
    obtain ⟨fits', -⟩ := fits.below known (argc + 1)
    rw [fits.length_eq] at enough
    have split := List.drop_eq_getElem_cons enough
    simp only [effect, split]
    refine ⟨_, rfl, ?_, _, fits', guard, shape⟩
    rw [List.reverse_reverse, ← split, List.take_append_drop]
    exact known
  | ret =>
    obtain ⟨k, rest, rfl⟩ := flows
    obtain ⟨v, vs, rfl, known', -, -⟩ := fits.uncons known
    exact ⟨_, rfl, known'⟩
  | iterNext list index exit =>
    obtain ⟨low, at_index, guard, next, shape⟩ := flows
    have low' : list < slots.reverse.length := by simpa using low
    obtain ⟨v, found, -⟩ := fits.slot (List.getElem?_eq_getElem low')
    obtain ⟨w, found', x, rfl⟩ := fits.slot at_index
    simp only [effect, found, found']
    exact ⟨_, rfl, round_keeps sound known fits guard at_index next shape v x⟩
  | pushHandler target => exact ⟨_, rfl, known, slots, fits, flows⟩
  | popHandler =>
    obtain ⟨c, outer, rfl, shape⟩ := flows
    exact ⟨_, rfl, known, c, outer, slots, rfl, fits, shape⟩
  | throw =>
    obtain ⟨k, rest, rfl, guard⟩ := flows
    obtain ⟨v, vs, rfl, known', fits, known⟩ := fits.uncons known
    exact ⟨_, rfl, known', known, rest, fits, guard⟩

variable {layout : Chunk → List Point}

/-- Where handlers of one frame come in front of those of the callers, the frame's return
leaves the latter. -/
theorem Waits.kept {callers : List Frame} {below : List Value} {outer : List Handler}
    (waits : Waits layout callers below outer) (catches : List Catch) :
    (handlersOf callers below catches ++ outer).filter
      (fun h => h.frameDepth ≤ callers.length) = outer := by
  have own : (handlersOf callers below catches).filter
      (fun h => h.frameDepth ≤ callers.length) = [] := by
    simp [handlersOf]
  rw [List.filter_append, own, List.nil_append, List.filter_eq_self]
  exact fun h mem => decide_eq_true (waits.handlers_depth h mem)

/-- An effect that keeps the discipline of its frame makes a good step. -/
theorem Effect.apply_good (verified : ∀ c, ok c → Verified (layout c) c) (sound : env.Sound ok)
    {s : Setting} {outer : List Handler} (chunk : Verified (layout s.chunk) s.chunk)
    (lands : Lands (layout s.chunk) catches)
    (handlers : s.handlers = handlersOf s.callers s.below catches ++ outer)
    (waits : Waits layout s.callers s.below outer)
    (known : ∀ v ∈ s.callee :: s.below, v.Known env.heap) (depth : s.callers.length + 1 ≤ s.limit)
    {e : Effect} (keeps : e.Keeps ok (layout s.chunk) catches env pc) :
    (e.apply s env pc).Good layout ok s.limit := by
  have all {vs : List Value} (known' : ∀ v ∈ vs, v.Known env.heap) :
      ∀ v ∈ s.stack vs, v.Known env.heap := List.forall_mem_append.mpr ⟨known', known⟩
  cases e with
  | goes env' pc' vs =>
    obtain ⟨⟨sound', grown⟩, known', slots, fits, shape⟩ := keeps
    have known'' : ∀ v ∈ s.stack vs, v.Known env'.heap :=
      List.forall_mem_append.mpr ⟨known', fun v mem => (known v mem).mono grown⟩
    refine Machine.continues_good sound' depth known'' ?_
    rw [handlers]
    exact .frame ⟨chunk, fits, lands⟩ shape waits
  | raises v vs =>
    obtain ⟨thrown, known', slots, fits, guard⟩ := keeps
    refine Machine.throwValue_good sound depth (all known') (fun handler rest eq => ?_) thrown
    rw [handlers] at eq
    have holding : Holding layout s.chunk ⟨slots, catches⟩ vs := ⟨chunk, fits, lands⟩
    exact holding.landing guard waits eq
  | calls args callee vs =>
    obtain ⟨known', slots, fits, guard, shape⟩ := keeps
    refine Machine.callValue_good verified sound depth ?_ ?_
    · rw [handlers]
      exact .frame ⟨chunk, fits, lands⟩ shape guard waits
    · rw [Setting.stack, ← List.cons_append, ← List.append_assoc]
      exact List.forall_mem_append.mpr ⟨known', known⟩
  | returns v =>
    have kept := waits.kept catches
    rw [← handlers] at kept
    rw [apply, Setting.keptHandlers, kept]
    exact Machine.pushResult_good sound (Nat.le_of_succ_le depth)
      (List.forall_mem_cons.mp known).2 waits keeps
  | installs target vs =>
    obtain ⟨known', slots, fits, shape, landing⟩ := keeps
    refine Machine.continues_good sound depth (all known') ?_
    have installed : s.handler target vs :: s.handlers =
        handlersOf s.callers s.below (⟨target, slots⟩ :: catches) ++ outer := by
      rw [handlers, Setting.handler, ← fits.length_eq]
      rfl
    rw [installed]
    have holding : Holding layout s.chunk ⟨slots, ⟨target, slots⟩ :: catches⟩ vs :=
      ⟨chunk, fits, landing, lands⟩
    exact .frame holding shape waits
  | removes vs =>
    obtain ⟨known', c, left, slots, rfl, fits, shape⟩ := keeps
    refine Machine.continues_good sound depth (all known') ?_
    have removed : s.handlers.drop 1 = handlersOf s.callers s.below left ++ outer := by
      rw [handlers]
      rfl
    rw [removed]
    exact .frame ⟨chunk, fits, lands.2⟩ shape waits
  | lost vs => exact ⟨by simp [apply], by simp [apply], by simp [apply], by simp [apply]⟩

namespace Machine

variable {limit : Nat} {m : Machine}

theorem Sound.step (verified : ∀ c, ok c → Verified (layout c) c) (sound : env.Sound ok)
    (s : m.Sound layout limit env.heap) : (m.step env).Good layout ok limit := by
  obtain ⟨frames, stack, handlers, control, traceback, bound⟩ := m
  obtain ⟨rfl, depth, st, rfl, known, disciplined⟩ := s
  cases control with
  | running =>
    cases disciplined with
    | @frame chunk pc sh vs below callee callers outer holding shape waits =>
      let setting : Setting := ⟨chunk, callee, callers, below,
        handlersOf callers below sh.catches ++ outer, traceback, bound⟩
      obtain ⟨known', known''⟩ := List.forall_mem_append.mp known
      obtain ⟨i, fetched, flows⟩ := holding.verified.instr shape
      obtain ⟨e, does, keeps⟩ := Instr.effect_keeps sound known' holding.fits flows
      have steps := setting.step_effect fetched does
      change ((setting.machine pc vs).step env).Good layout ok bound
      rw [steps]
      have handlers : setting.handlers = handlersOf callers below sh.catches ++ outer := rfl
      have known_below : ∀ v ∈ setting.callee :: setting.below, v.Known env.heap := known''
      exact Effect.apply_good verified sound holding.verified holding.lands handlers waits
        known_below depth keeps
  | returned v | thrown v | suspended request =>
    exact ⟨by simp [Machine.step, isRunning],
      fun _ => ⟨rfl, depth, st, rfl, known, disciplined⟩, fun _ => sound,
      by simp [Machine.step, isRunning]⟩

/-- A machine stays sound while others change the heap, if that keeps its chunks. -/
theorem Sound.meanwhile {h h' : Heap} (s : m.Sound layout limit h)
    (grown : h.chunks.size ≤ h'.chunks.size) : m.Sound layout limit h' := by
  obtain ⟨st, stack, known, disciplined⟩ := s.disciplined
  exact ⟨s.bound, s.depth, st, stack, fun v mem => (known v mem).mono grown, disciplined⟩

theorem Sound.resume {h : Heap} (s : m.Sound layout limit h) {v : Value} (known' : v.Known h)
    {m' : Machine} (eq : m.resume? v = some m') : m'.Sound layout limit h := by
  obtain ⟨frames, stack, handlers, control, traceback, bound⟩ := m
  obtain ⟨rfl, depth, st, rfl, known, disciplined⟩ := s
  cases control with
  | suspended request =>
    cases eq
    cases frames with
    | nil =>
      obtain ⟨rfl, rfl⟩ := Waits.empty disciplined
      exact ⟨rfl, depth, [], rfl, by simp, rfl, rfl, rfl⟩
    | cons frame callers =>
      exact ⟨rfl, depth, v :: st, pile_push st v, List.forall_mem_cons.mpr ⟨known', known⟩,
        Waits.receive disciplined v⟩
  | running | returned _ | thrown _ => cases eq

theorem startCall_good (verified : ∀ c, ok c → Verified (layout c) c) (sound : env.Sound ok)
    (limit : Nat) {callee : Value} {args : List Value}
    (known : ∀ v ∈ callee :: args, v.Known env.heap) :
    ((new limit).startCall env callee args).Good layout ok limit := by
  obtain ⟨known', known⟩ := List.forall_mem_cons.mp known
  have start : ((new limit).startCall env callee args) =
      (running [] (args.reverse ++ [callee]) [] none limit).callValue env args.length := by
    simp [startCall, new, running, pile]
  rw [start]
  refine callValue_good verified sound (Nat.zero_le limit) .bottom ?_
  simpa [or_imp, forall_and] using ⟨known, known'⟩

end Machine

end FrameScript
