import FrameScript.Host.Queue
import FrameScript.Machine.Basic

/-!
# Error reports

Every failure that no script handles becomes a report: what failed, in which
continuation, and the traceback or, for a broken machine, the operand stack.
-/

namespace FrameScript

inductive ReportKind where
  /-- A script could not be read, parsed or compiled. -/
  | load
  /-- A script raised an error that no handler caught. -/
  | runtime
  /-- The machine is broken. -/
  | panic
  deriving DecidableEq, Repr

def ReportKind.text : ReportKind → String
  | load => "load"
  | runtime => "runtime"
  | panic => "panic"

/-- One slot of the operand stack in a report. -/
structure SlotDump where
  index : Nat
  typeName : String
  value : String
  deriving DecidableEq

namespace SlotDump

/-- The dump of a value, if its text has an end. -/
def ofValue? (h : Heap) (index : Nat) (v : Value) : Option SlotDump :=
  (v.text? h).map fun text => ⟨index, v.typeName, text⟩

/-- The dumps of a stack, the bottom first. -/
def ofStack? (h : Heap) (stack : Array Value) : Option (List SlotDump) :=
  (stack.toList.zipIdx).mapM fun (v, i) => ofValue? h i v

/-- Texts, truth values and numbers show their value. -/
def text (d : SlotDump) : String :=
  let index := toString d.index
  if d.typeName = "string" then index ++ ": string: '" ++ d.value ++ "'"
  else if d.typeName = "boolean" then index ++ ": boolean " ++ d.value
  else if d.typeName = "number" then index ++ ": number: " ++ d.value
  else index ++ ": " ++ d.typeName

end SlotDump

structure ErrorReport where
  kind : ReportKind
  code : String
  message : String
  /-- The continuation that failed, if the failure was in one. -/
  continuation : Option ContinuationId
  traceback : Option Traceback
  stackDump : List SlotDump
  deriving DecidableEq

namespace ErrorReport

def load (message : String) : ErrorReport :=
  ⟨.load, ErrorCode.loadError, message, none, none, []⟩

def runtime (e : ErrorInfo) (traceback : Option Traceback) (id : Option ContinuationId) :
    ErrorReport :=
  ⟨.runtime, e.code, e.message, id, traceback, []⟩

def panic (f : Fault) (dump : List SlotDump) (id : Option ContinuationId) : ErrorReport :=
  ⟨.panic, ErrorCode.panic, f.message, id, none, dump⟩

def text (r : ErrorReport) : String :=
  let head := "[" ++ r.kind.text ++ "] " ++ r.code ++ ": " ++ r.message
  let place := match r.continuation with
    | some id => " (in " ++ id.text ++ ")"
    | none => ""
  let trace := match r.traceback with
    | some t => if t.frames.isEmpty then "" else "\n" ++ t.text
    | none => ""
  let dump := if r.stackDump.isEmpty then ""
    else "\nstack dump:" ++ String.join (r.stackDump.map fun d => "\n\t" ++ d.text)
  head ++ place ++ trace ++ dump

end ErrorReport
end FrameScript
