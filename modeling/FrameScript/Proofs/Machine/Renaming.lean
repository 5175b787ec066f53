import FrameScript.Proofs.Machine.Growth
import FrameScript.Proofs.Native.Renaming

/-!
# Machines on a larger heap

A machine whose references are renamed does on the larger heap what it does on the smaller one.
What it adds to the larger heap has to be at places of the renaming.
-/

namespace FrameScript

variable {e : Renaming}

def Control.rename (e : Renaming) : Control → Control
  | returned v => returned (v.rename e)
  | thrown v => thrown (v.rename e)
  | control => control

def Frame.rename (e : Renaming) (f : Frame) : Frame := { f with chunk := f.chunk.rename e }

def Machine.rename (e : Renaming) (m : Machine) : Machine :=
  { m with
    frames := m.frames.map (Frame.rename e)
    stack := m.stack.map (Value.rename e)
    control := m.control.rename e }

/-- What the machine can touch stands in what the other one can touch. -/
structure Env.StandsIn (e : Renaming) (env larger : Env) : Prop where
  globals : larger.globals = env.globals.map (Value.rename e)
  natives : larger.natives = env.natives
  context : larger.context = env.context
  world : env.world.StandsIn e larger.world

structure Stepped.StandsIn (e : Renaming) (s larger : Stepped) : Prop where
  machine : larger.machine = s.machine.rename e
  verdict : larger.verdict = s.verdict
  env : s.env.StandsIn e larger.env

theorem Env.StandsIn.withHeap {env larger : Env} (stands : env.StandsIn e larger)
    {h h' : Heap} (heap : h.StandsIn e h') : (env.withHeap h).StandsIn e (larger.withHeap h') :=
  ⟨stands.globals, stands.natives, stands.context, heap, stands.world.clock⟩

theorem Traceback.ofFrames_rename (frames : List Frame) :
    ofFrames (frames.map (Frame.rename e)) = ofFrames frames := by
  rw [ofFrames, ofFrames, List.map_map]
  rfl

namespace Machine

variable {env larger : Env} (m : Machine)

theorem rename_new (limit : Nat) : (new limit).rename e = new limit := by
  simp [new, rename, Control.rename]

theorem rename_push (v : Value) : (m.rename e).push (v.rename e) = (m.push v).rename e := by
  simp [push, rename]

theorem rename_take (n : Nat) : ({ m.rename e with stack := (m.rename e).stack.take n } : Machine) =
    ({ m with stack := m.stack.take n } : Machine).rename e := by
  simp [rename]

theorem rename_dropTop : (m.rename e).dropTop = m.dropTop.rename e := by
  simp [dropTop, rename, Array.map_pop]

theorem rename_jump (target : Nat) : (m.rename e).jump target = (m.jump target).rename e := by
  obtain ⟨frames, stack, handlers, control, traceback, limit⟩ := m
  cases frames <;> rfl

theorem rename_back? : (m.rename e).stack.back? = m.stack.back?.map (Value.rename e) := by
  simp [rename]

theorem rename_size : (m.rename e).stack.size = m.stack.size := by
  simp [rename]

theorem rename_slot (i : Nat) : (m.rename e).stack[i]? = m.stack[i]?.map (Value.rename e) := by
  simp [rename]

theorem rename_isRunning : (m.rename e).isRunning = m.isRunning := by
  obtain ⟨frames, stack, handlers, control, traceback, limit⟩ := m
  cases control <;> rfl

theorem rename_isSuspended : (m.rename e).isSuspended = m.isSuspended := by
  obtain ⟨frames, stack, handlers, control, traceback, limit⟩ := m
  cases control <;> rfl

theorem rename_callUnderflow : (m.rename e).callUnderflow = m.callUnderflow := by
  obtain ⟨frames, stack, handlers, control, traceback, limit⟩ := m
  cases frames <;> rfl

theorem rename_takeTop (count : Nat) : (m.rename e).takeTop count =
    ((m.takeTop count).1.map (Value.rename e), (m.takeTop count).2.rename e) := by
  simp [takeTop, rename]

theorem resize_map (stack : Array Value) (size : Nat) :
    resize (stack.map (Value.rename e)) size = (resize stack size).map (Value.rename e) := by
  unfold resize
  rw [Array.size_map]
  split <;> simp

variable (stands : env.StandsIn e larger)

include stands

theorem throwValue_stands (v : Value) :
    Stepped.StandsIn e (m.throwValue env v) ((m.rename e).throwValue larger (v.rename e)) := by
  obtain ⟨frames, stack, handlers, control, traceback, limit⟩ := m
  cases handlers with
  | nil =>
    refine ⟨?_, rfl, stands⟩
    simp [throwValue, rename, Control.rename, Traceback.ofFrames_rename]
  | cons handler outer =>
    simp only [throwValue, rename, List.length_map]
    split
    · exact ⟨rfl, rfl, stands⟩
    · refine ⟨?_, rfl, stands⟩
      rw [← rename_jump]
      simp [rename]

theorem throwInfo_stands (info : ErrorInfo) :
    Stepped.StandsIn e (m.throwInfo env info) ((m.rename e).throwInfo larger info) :=
  throwValue_stands m stands (.error info)

theorem pushResult_stands (v : Value) :
    Stepped.StandsIn e (m.pushResult env v) ((m.rename e).pushResult larger (v.rename e)) := by
  obtain ⟨frames, stack, handlers, control, traceback, limit⟩ := m
  cases frames with
  | nil => exact ⟨rfl, rfl, stands⟩
  | cons frame callers =>
    refine ⟨?_, rfl, stands⟩
    simp [pushResult, deliver, rename, push]

theorem pushOrThrow_stands (result : Except ErrorInfo Value) :
    Stepped.StandsIn e (m.pushOrThrow env result)
      ((m.rename e).pushOrThrow larger (result.map (Value.rename e))) := by
  cases result with
  | ok v => exact ⟨m.rename_push v, rfl, stands⟩
  | error info => exact throwInfo_stands m stands info

theorem heapOrThrow_stands {result result' : Except ErrorInfo Heap}
    (writes : Heap.Writes e result result') :
    Stepped.StandsIn e (m.heapOrThrow env result) ((m.rename e).heapOrThrow larger result') := by
  cases writes with
  | ok heap => exact ⟨rfl, rfl, stands.withHeap heap⟩
  | error info => exact throwInfo_stands m stands info

theorem leave_stands (base : Nat) (underflow : Fault) (v : Value) :
    Stepped.StandsIn e (m.leave env base underflow v)
      ((m.rename e).leave larger base underflow (v.rename e)) := by
  have left : ({ m with
      frames := m.frames.drop 1
      handlers := m.handlers.filter fun h => h.frameDepth ≤ (m.frames.drop 1).length } :
        Machine).rename e = { m.rename e with
      frames := (m.rename e).frames.drop 1
      handlers := (m.rename e).handlers.filter fun h =>
        h.frameDepth ≤ ((m.rename e).frames.drop 1).length } := by
    simp [rename]
  unfold leave
  dsimp only
  split
  · exact ⟨left.symm, rfl, stands⟩
  · have below := pushResult_stands (e := e) { m with
      frames := m.frames.drop 1
      handlers := m.handlers.filter fun h => h.frameDepth ≤ (m.frames.drop 1).length
      stack := m.stack.take (base - 1) } stands v
    convert below using 2
    simp [rename]

theorem iterate_stands (base list index exit : Nat) (badLocal : Nat → Fault) :
    Stepped.StandsIn e (m.iterate env base list index exit badLocal)
      ((m.rename e).iterate larger base list index exit badLocal) := by
  have here : larger.heap = larger.world.heap := rfl
  unfold iterate
  simp only [rename_slot]
  cases m.stack[base + list]? with
  | none => exact ⟨rfl, rfl, stands⟩
  | some v =>
    cases m.stack[base + index]? with
    | none => cases v <;> exact ⟨rfl, rfl, stands⟩
    | some w =>
      cases w with
      | num x =>
        cases v with
        | list r =>
          simp only [Option.map_some, Value.rename_list, Value.rename_num, here,
            stands.world.heap.list, Array.getElem?_map]
          cases found : (env.world.heap.list r)[x.toWord]? with
          | none =>
            have found' : (env.heap.list r)[x.toWord]? = none := found
            rw [found']
            exact ⟨m.rename_jump exit, rfl, stands⟩
          | some item =>
            have found' : (env.heap.list r)[x.toWord]? = some item := found
            rw [found']
            refine ⟨?_, rfl, stands⟩
            simp [rename]
        | _ => exact throwInfo_stands m stands _
      | _ => cases v <;> exact ⟨rfl, rfl, stands⟩

theorem enter_stands (slot : Nat) (chunk : Chunk) :
    Stepped.StandsIn e (m.enter env slot chunk)
      ((m.rename e).enter larger slot (chunk.rename e)) := by
  unfold enter
  have depth : (m.rename e).frames.length = m.frames.length := by simp [rename]
  have limit : (m.rename e).maxCallDepth = m.maxCallDepth := rfl
  rw [depth, limit]
  split
  · exact throwInfo_stands m stands _
  · have arity : (chunk.rename e).arity = chunk.arity := rfl
    rw [arity]
    split
    · exact ⟨rfl, rfl, stands⟩
    · refine ⟨?_, rfl, stands⟩
      simp only [rename, resize_map, List.map_cons]
      rfl

theorem answer_stands {reply reply' : NativeReply} (replies : reply.StandsIn e reply')
    (returns : reply'.result ≠ .endless) :
    Stepped.StandsIn e (m.answer env reply) ((m.rename e).answer larger reply') := by
  have after : (env.after reply).StandsIn e (larger.after reply') :=
    ⟨stands.globals, stands.natives, replies.context, replies.world⟩
  obtain ⟨result, context, world⟩ := reply
  obtain ⟨result', context', world'⟩ := reply'
  obtain rfl : result' = result.rename e := replies.result
  obtain rfl : context' = context := replies.context
  cases result with
  | value v => exact pushResult_stands m after v
  | throw info => exact throwInfo_stands m after info
  | endless => exact absurd rfl returns
  | suspend request =>
    simp only [answer, NativeResult.rename]
    split
    · exact ⟨rfl, rfl, after⟩
    · exact throwInfo_stands m after _

theorem callNative_stands
    (natives : ∀ name native, env.natives.get? name = some native → native.Renames)
    (slot : Nat) (name : String)
    (goes : ((m.rename e).callNative larger slot name).verdict ≠ .lost)
    (covers : e.Covers larger.heap ((m.rename e).callNative larger slot name).env.heap) :
    Stepped.StandsIn e (m.callNative env slot name)
      ((m.rename e).callNative larger slot name) := by
  have same := stands.natives
  cases found : env.natives.get? name with
  | none =>
    rw [callNative, callNative, same, found]
    exact throwInfo_stands m stands _
  | some native =>
    have found' : larger.natives.get? name = some native := same ▸ found
    have args : (m.rename e).stack.toList.drop (slot + 1) =
        (m.stack.toList.drop (slot + 1)).map (Value.rename e) := by simp [rename]
    rw [callNative_some found', args, rename_take, stands.context] at goes covers ⊢
    rw [callNative_some found]
    rw [answer_env] at covers
    have returns : (native env.context larger.world
        ((m.stack.toList.drop (slot + 1)).map (Value.rename e))).result ≠ .endless := by
      intro endless
      apply goes
      rw [answer, endless]
    exact answer_stands _ stands (natives name native found e _ _ _ _ stands.world returns covers)
      returns

theorem callValue_stands
    (natives : ∀ name native, env.natives.get? name = some native → native.Renames) (argc : Nat)
    (goes : ((m.rename e).callValue larger argc).verdict ≠ .lost)
    (covers : e.Covers larger.heap ((m.rename e).callValue larger argc).env.heap) :
    Stepped.StandsIn e (m.callValue env argc) ((m.rename e).callValue larger argc) := by
  have chunk (r : FunctionRef) : larger.heap.chunk r = (env.heap.chunk r).rename e :=
    stands.world.heap.chunk r
  unfold callValue at goes covers ⊢
  simp only [rename_size, rename_slot, rename_callUnderflow] at goes covers ⊢
  by_cases short : m.stack.size < argc + 1
  · rw [if_pos short, if_pos short]
    exact ⟨rfl, rfl, stands⟩
  · rw [if_neg short] at goes covers ⊢
    rw [if_neg short]
    cases callee : m.stack[m.stack.size - (argc + 1)]? with
    | none =>
      rw [callee] at goes
      exact absurd rfl goes
    | some v =>
      rw [callee] at goes covers
      cases v with
      | function r =>
        simp only [Option.map_some, Value.rename_function, chunk]
        exact enter_stands m stands _ _
      | native name => exact callNative_stands m stands natives _ name goes covers
      | _ => exact throwInfo_stands m stands _

theorem operand_stands {underflow : Fault} {next next' : Value → Stepped}
    (goes : ∀ v, Stepped.StandsIn e (next v) (next' (v.rename e))) :
    Stepped.StandsIn e
      (match m.stack.back? with
      | none => ⟨m, env, .fault underflow⟩
      | some v => next v)
      (match (m.rename e).stack.back? with
      | none => ⟨m.rename e, larger, .fault underflow⟩
      | some v => next' v) := by
  rw [rename_back?]
  cases m.stack.back? with
  | none => exact ⟨rfl, rfl, stands⟩
  | some v => exact goes v

/-- An instruction with renamed constants does the same on the larger heap. -/
theorem execute_stands
    (natives : ∀ name native, env.natives.get? name = some native → native.Renames)
    (function : String) (pc base : Nat) (i : Instr)
    (goes : ((m.rename e).execute larger function pc base (i.rename e)).verdict ≠ .lost)
    (covers : e.Covers larger.heap
      ((m.rename e).execute larger function pc base (i.rename e)).env.heap) :
    Stepped.StandsIn e (m.execute env function pc base i)
      ((m.rename e).execute larger function pc base (i.rename e)) := by
  have heap : env.heap.StandsIn e larger.heap := stands.world.heap
  cases i with
  | push v => exact ⟨m.rename_push v, rfl, stands⟩
  | popHandler => exact ⟨rfl, rfl, stands⟩
  | jump target => exact ⟨m.rename_jump target, rfl, stands⟩
  | call argc => exact callValue_stands m stands natives argc goes covers
  | iterNext list index exit => exact iterate_stands m stands _ _ _ _ _
  | pushHandler target =>
    refine ⟨?_, rfl, stands⟩
    simp [execute, Instr.rename, rename]
  | pop =>
    have empty : (m.rename e).stack.isEmpty = m.stack.isEmpty := by
      rw [Array.isEmpty, Array.isEmpty, rename_size]
    simp only [execute, Instr.rename, empty]
    split
    · exact ⟨rfl, rfl, stands⟩
    · exact ⟨m.rename_dropTop, rfl, stands⟩
  | popN n =>
    simp only [execute, Instr.rename, rename_size]
    split
    · exact ⟨rfl, rfl, stands⟩
    · exact ⟨m.rename_take _, rfl, stands⟩
  | getLocal slot =>
    simp only [execute, Instr.rename, rename_slot]
    cases m.stack[base + slot]? with
    | none => exact ⟨rfl, rfl, stands⟩
    | some v => exact ⟨m.rename_push v, rfl, stands⟩
  | setLocal slot =>
    refine operand_stands m stands fun v => ?_
    simp only [rename_dropTop, rename_size]
    split
    · refine ⟨?_, rfl, stands⟩
      simp [rename]
    · exact ⟨rfl, rfl, stands⟩
  | getGlobal name =>
    simp only [execute, Instr.rename, stands.globals, Table.get?_map]
    cases env.globals.get? name with
    | none => exact throwInfo_stands m stands _
    | some v => exact ⟨m.rename_push v, rfl, stands⟩
  | setGlobal name =>
    refine operand_stands m stands fun v => ?_
    refine ⟨m.rename_dropTop, rfl, ?_, stands.natives, stands.context, stands.world⟩
    simp [stands.globals]
  | makeList n =>
    simp only [execute, Instr.rename, rename_size, rename_takeTop] at covers ⊢
    by_cases few : m.stack.size < n
    · rw [if_pos few, if_pos few]
      exact ⟨rfl, rfl, stands⟩
    · rw [if_neg few] at covers ⊢
      rw [if_neg few]
      obtain ⟨made, v⟩ := heap.newList _ covers
      refine ⟨?_, rfl, stands.withHeap made⟩
      rw [v, rename_push]
  | makeObject keys =>
    have zipped (values : Array Value) :
        Table.ofList (keys.zip (values.map (Value.rename e)).toList) =
          (Table.ofList (keys.zip values.toList)).map (Value.rename e) := by
      rw [Table.map_ofList, Array.toList_map, List.zip_map_right]
      rfl
    simp only [execute, Instr.rename, rename_size, rename_takeTop, zipped] at covers ⊢
    by_cases few : m.stack.size < keys.length
    · rw [if_pos few, if_pos few]
      exact ⟨rfl, rfl, stands⟩
    · rw [if_neg few] at covers ⊢
      rw [if_neg few]
      obtain ⟨made, v⟩ := heap.newObject _ covers
      refine ⟨?_, rfl, stands.withHeap made⟩
      rw [v, rename_push]
  | getMember name =>
    refine operand_stands m stands fun v => ?_
    rw [rename_dropTop, Value.getMember_rename heap]
    exact pushOrThrow_stands _ stands _
  | setMember name =>
    refine operand_stands m stands fun value => ?_
    simp only [rename_dropTop]
    exact operand_stands _ stands fun v =>
      heapOrThrow_stands _ stands (Value.setMember_rename heap v name value)
  | getIndex =>
    refine operand_stands m stands fun index => ?_
    simp only [rename_dropTop]
    refine operand_stands _ stands fun v => ?_
    rw [Value.getIndex_rename heap]
    exact pushOrThrow_stands _ stands _
  | setIndex =>
    refine operand_stands m stands fun value => ?_
    simp only [rename_dropTop]
    exact operand_stands _ stands fun index => operand_stands _ stands fun v =>
      heapOrThrow_stands _ stands (Value.setIndex_rename heap v index value)
  | unary op =>
    refine operand_stands m stands fun v => ?_
    rw [rename_dropTop, Value.unary_rename]
    exact pushOrThrow_stands _ stands _
  | binary op =>
    simp only [execute, Instr.rename, rename_back?] at goes ⊢
    cases right : m.stack.back? with
    | none => exact ⟨rfl, rfl, stands⟩
    | some w =>
      simp only [right, Option.map_some, rename_dropTop, rename_back?] at goes ⊢
      cases left : m.dropTop.stack.back? with
      | none => exact ⟨rfl, rfl, stands⟩
      | some v =>
        simp only [left, Option.map_some] at goes ⊢
        cases found : Value.binary? larger.heap op (v.rename e) (w.rename e) with
        | none =>
          rw [found] at goes
          exact absurd rfl goes
        | some result =>
          obtain ⟨own, own_found, rfl⟩ := Value.binary?_rename heap found
          rw [own_found]
          exact pushOrThrow_stands _ stands own
  | jumpIfFalse target | jumpIfFalseKeep target | jumpIfTrueKeep target =>
    refine operand_stands m stands fun v => ⟨?_, rfl, stands⟩
    simp only [Value.isTruthy_rename, rename_dropTop, rename_jump]
    cases v.isTruthy <;> rfl
  | ret =>
    refine operand_stands m stands fun v => ?_
    rw [rename_dropTop]
    exact leave_stands _ stands _ _ v
  | throw =>
    refine operand_stands m stands fun v => ?_
    rw [rename_dropTop]
    exact throwValue_stands _ stands v

theorem step_stands
    (natives : ∀ name native, env.natives.get? name = some native → native.Renames)
    (goes : ((m.rename e).step larger).verdict ≠ .lost)
    (covers : e.Covers larger.heap ((m.rename e).step larger).env.heap) :
    Stepped.StandsIn e (m.step env) ((m.rename e).step larger) := by
  unfold step at goes covers ⊢
  rw [rename_isRunning] at goes covers ⊢
  by_cases stopped : (!m.isRunning) = true
  · rw [if_pos stopped, if_pos stopped]
    exact ⟨rfl, rfl, stands⟩
  · rw [if_neg stopped] at goes covers ⊢
    rw [if_neg stopped]
    obtain ⟨frames, stack, handlers, control, traceback, limit⟩ := m
    cases frames with
    | nil => exact ⟨rfl, rfl, stands⟩
    | cons frame callers =>
      have fetched : (frame.chunk.rename e).code[frame.pc]? =
          frame.chunk.code[frame.pc]?.map (Instr.rename e) := Array.getElem?_map
      simp only [rename, List.map_cons, Frame.rename, fetched] at goes covers ⊢
      cases at_pc : frame.chunk.code[frame.pc]? with
      | none => exact ⟨rfl, rfl, stands⟩
      | some i =>
        rw [at_pc] at goes covers
        exact execute_stands ⟨{ frame with pc := frame.pc + 1 } :: callers, stack, handlers,
          control, traceback, limit⟩ stands natives _ _ _ i goes covers

theorem startCall_stands
    (natives : ∀ name native, env.natives.get? name = some native → native.Renames)
    (callee : Value) (args : List Value)
    (goes : ((m.rename e).startCall larger (callee.rename e)
      (args.map (Value.rename e))).verdict ≠ .lost)
    (covers : e.Covers larger.heap ((m.rename e).startCall larger (callee.rename e)
      (args.map (Value.rename e))).env.heap) :
    Stepped.StandsIn e (m.startCall env callee args)
      ((m.rename e).startCall larger (callee.rename e) (args.map (Value.rename e))) := by
  have filled : ({ m.rename e with stack := (m.rename e).stack.push (callee.rename e) ++
      (args.map (Value.rename e)).toArray } : Machine) =
      ({ m with stack := m.stack.push callee ++ args.toArray } : Machine).rename e := by
    simp [rename]
  unfold startCall at goes covers ⊢
  rw [filled, List.length_map] at goes covers ⊢
  exact callValue_stands _ stands natives args.length goes covers

end Machine

theorem Renaming.Covers.mono {before before' after after' : Heap} (covers : e.Covers before after)
    (later : before.Grows before') (earlier : after'.Grows after) : e.Covers before' after' where
  lists place low high := covers.lists place (later.lists.trans low) (high.trans_le earlier.lists)
  objects place low high :=
    covers.objects place (later.objects.trans low) (high.trans_le earlier.objects)

structure Halt.StandsIn (e : Renaming) (halt larger : Halt) : Prop where
  machine : larger.machine = halt.machine.rename e
  fault : larger.fault = halt.fault
  env : halt.env.StandsIn e larger.env

namespace Machine

variable {env larger : Env} {m : Machine} {fuel : Nat} {halt' : Halt}

/-- A run on the larger heap that returns is also one on the smaller heap. -/
theorem run_stands (stands : env.StandsIn e larger) (library : env.natives = Natives.withSuspend)
    (run : (m.rename e).run fuel larger = some halt')
    (covers : e.Covers larger.heap halt'.env.heap) :
    ∃ halt, m.run fuel env = some halt ∧ halt.StandsIn e halt' := by
  induction fuel generalizing m env larger with
  | zero => cases run
  | succ fuel ih =>
    have library' : larger.natives = Natives.withSuspend := stands.natives.trans library
    have change : larger.natives.Change := library' ▸ Natives.withSuspend_change
    have renames (name : String) (native : Native) (found : env.natives.get? name = some native) :
        native.Renames := Natives.withSuspend_rename (library ▸ found)
    have grows := step_grows (m.rename e) change
    have steps := step_stands m stands renames
    rw [Machine.run] at run ⊢
    generalize (m.rename e).step larger = s' at run grows steps
    generalize m.step env = s at steps ⊢
    obtain ⟨m', larger', verdict'⟩ := s'
    obtain ⟨own, own_env, verdict⟩ := s
    cases verdict' with
    | «continue» =>
      have later : larger'.Grows halt'.env := run_grows (grows.natives ▸ change) run
      obtain ⟨machine, same, stands'⟩ := steps (by simp) (covers.mono (.refl _) later.heap)
      obtain rfl : m' = own.rename e := machine
      obtain rfl : verdict = .continue := same.symm
      have library_own : own_env.natives = Natives.withSuspend :=
        stands'.natives.symm.trans (grows.natives.trans library')
      exact ih stands' library_own run (covers.mono grows.heap (.refl _))
    | lost => cases run
    | done =>
      cases run
      obtain ⟨machine, same, stands'⟩ := steps (by simp) covers
      obtain rfl : verdict = .done := same.symm
      exact ⟨_, rfl, machine, rfl, stands'⟩
    | fault f =>
      cases run
      obtain ⟨machine, same, stands'⟩ := steps (by simp) covers
      obtain rfl : verdict = .fault f := same.symm
      exact ⟨_, rfl, machine, rfl, stands'⟩

end Machine

end FrameScript
