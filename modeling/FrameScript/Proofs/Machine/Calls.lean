import FrameScript.Proofs.Machine.Effect

/-!
# Errors, results and calls

What the machine does when an error is raised, a result arrives or something is
called, on stacks as lists.
-/

namespace FrameScript

def ErrorInfo.notRegistered (name : String) : ErrorInfo :=
  ⟨ErrorCode.notCallable, "native function '" ++ name ++ "' is not registered"⟩

def ErrorInfo.notCallable (v : Value) : ErrorInfo :=
  ⟨ErrorCode.notCallable, "attempt to call a " ++ v.typeName ++ " value"⟩

def ErrorInfo.stackOverflow (name : String) : ErrorInfo :=
  ⟨ErrorCode.stackOverflow, "stack overflow calling '" ++ name ++ "'"⟩

def ErrorInfo.notSuspendable : ErrorInfo :=
  ⟨ErrorCode.suspendOutsideContinuation, "attempt to suspend outside of a continuation"⟩

def Env.after (env : Env) (reply : NativeReply) : Env :=
  { env with context := reply.context, world := reply.world }

theorem Verdict.missing_cases (sum : Nat) (f : Fault) :
    missing sum f = .fault f ∨ missing sum f = .lost := by
  unfold missing
  split
  · exact .inl rfl
  · exact .inr rfl

theorem Verdict.missing_ne_done (sum : Nat) (f : Fault) : missing sum f ≠ .done := by
  rcases missing_cases sum f with faults | loses
  · rw [faults]
    nofun
  · rw [loses]
    nofun

namespace Machine

variable {frames : List Frame} {st : List Value} {handlers : List Handler}
  {traceback : Option Traceback} {limit : Nat} {env : Env}

theorem throwValue_nil (v : Value) :
    (running frames st [] traceback limit).throwValue env v =
      ⟨⟨[], #[], [], .thrown v, some (Traceback.ofFrames frames), limit⟩, env, .done⟩ := rfl

/-- An error goes to the frame of the innermost handler, if that is still there. -/
theorem throwValue_cons {handler : Handler} {rest : List Handler}
    (reached : ¬ (handler.frameDepth = 0 ∨ frames.length < handler.frameDepth)) (v : Value) :
    (running frames st (handler :: rest) traceback limit).throwValue env v =
      ⟨jump ⟨frames.drop (frames.length - handler.frameDepth),
        ((pile st).take handler.stackLength).push v, rest, .running, traceback, limit⟩
        handler.catchPc, env, .continue⟩ := if_neg reached

theorem throwValue_lost {handler : Handler} {rest : List Handler}
    (lost : handler.frameDepth = 0 ∨ frames.length < handler.frameDepth) (v : Value) :
    (running frames st (handler :: rest) traceback limit).throwValue env v =
      ⟨running frames st rest traceback limit, env, .fault .badHandler⟩ := if_pos lost

theorem pushResult_nil (v : Value) :
    (running [] st handlers traceback limit).pushResult env v =
      ⟨⟨[], pile st, handlers, .returned v, traceback, limit⟩, env, .done⟩ := rfl

theorem pushResult_cons (frame : Frame) (callers : List Frame) (v : Value) :
    (running (frame :: callers) st handlers traceback limit).pushResult env v =
      ⟨running (frame :: callers) (v :: st) handlers traceback limit, env, .continue⟩ := by
  simp [pushResult, deliver, running, push]

variable {args : List Value} {callee : Value}

theorem enter_full {chunk : Chunk} (full : limit ≤ frames.length) (slot : Nat) :
    (running frames st handlers traceback limit).enter env slot chunk =
      (running frames st handlers traceback limit).throwInfo env (.stackOverflow chunk.name) :=
  if_pos full

theorem enter_room {chunk : Chunk} (room : ¬ limit ≤ frames.length)
    (arity : chunk.arity < Nat.pow 2 63) :
    (running frames (args.reverse ++ callee :: st) handlers traceback limit).enter env st.length
      chunk = ⟨running (⟨chunk, 0, st.length + 1⟩ :: frames)
        ((fillArgs args chunk.arity).reverse ++ callee :: st) handlers traceback limit, env,
        .continue⟩ := by
  have words : ¬ (Nat.pow 2 63 ≤ chunk.arity ∧ Nat.pow 2 64 ≤ st.length + 1 + chunk.arity) :=
    fun beyond => Nat.not_le_of_lt arity beyond.1
  have enters : (running frames (args.reverse ++ callee :: st) handlers traceback limit).enter env
      st.length chunk = ⟨⟨⟨chunk, 0, st.length + 1⟩ :: frames,
        resize (pile (args.reverse ++ callee :: st)) (st.length + 1 + chunk.arity), handlers,
        .running, traceback, limit⟩, env, .continue⟩ := (if_neg room).trans (if_neg words)
  rw [enters, resize_pile]
  rfl

/-- The caller of a native goes on with its reply. -/
def answer (m : Machine) (env : Env) (reply : NativeReply) : Stepped :=
  match reply.result with
  | .value v => m.pushResult (env.after reply) v
  | .throw e => m.throwInfo (env.after reply) e
  | .suspend request =>
    if reply.context.suspendable then
      ⟨{ m with control := .suspended request }, env.after reply, .done⟩
    else m.throwInfo (env.after reply) .notSuspendable
  | .endless => ⟨m, env.after reply, .lost⟩

theorem callNative_missing {name : String} (missing : env.natives.get? name = none)
    (slot : Nat) :
    (running frames st handlers traceback limit).callNative env slot name =
      (running frames st handlers traceback limit).throwInfo env (.notRegistered name) := by
  rw [callNative, missing]
  rfl

theorem callNative_some {m : Machine} {name : String} {native : Native}
    (found : env.natives.get? name = some native) (slot : Nat) :
    m.callNative env slot name = ({ m with stack := m.stack.take slot }).answer env
      (native env.context env.world (m.stack.toList.drop (slot + 1))) := by
  rw [callNative, found]
  obtain ⟨globals, natives, context, world⟩ := env
  dsimp only
  generalize native context world _ = reply
  obtain ⟨result, context', world'⟩ := reply
  cases result <;> rfl

theorem callNative_found {name : String} {native : Native}
    (found : env.natives.get? name = some native) :
    (running frames (args.reverse ++ callee :: st) handlers traceback limit).callNative env
      st.length name = (running frames st handlers traceback limit).answer env
        (native env.context env.world args) := by
  have stack : (pile (args.reverse ++ callee :: st)).take st.length = pile st := by
    simpa using pile_take_below (args.reverse ++ [callee]) st
  have taken : (pile (args.reverse ++ callee :: st)).toList.drop (st.length + 1) = args := by
    simp [pile, List.drop_append]
  rw [callNative_some found]
  simp only [running, stack, taken]

/-- What a call does depends on what is called. -/
theorem callValue_running :
    (running frames (args.reverse ++ callee :: st) handlers traceback limit).callValue env
      args.length =
      let m := running frames (args.reverse ++ callee :: st) handlers traceback limit
      match callee with
      | .function r => m.enter env st.length (env.heap.chunk r)
      | .native name => m.callNative env st.length name
      | v => m.throwInfo env (.notCallable v) := by
  have size : (running frames (args.reverse ++ callee :: st) handlers traceback limit).stack.size =
      args.length + 1 + st.length := by
    simp [running]
    omega
  have some_callee : (running frames (args.reverse ++ callee :: st) handlers traceback
      limit).stack[st.length]? = some callee := pile_callee args.reverse st callee
  have position : args.length + 1 + st.length - (args.length + 1) = st.length := by omega
  have present : ¬ args.length + 1 + st.length < args.length + 1 := by omega
  simp only [callValue, size, if_neg present, position, some_callee]
  cases callee <;> rfl

end Machine
end FrameScript
