import FrameScript.Code.Instr

/-!
# Building chunks

A builder holds the code so far and what is known at its end: the locals in
scope, the enclosing loops and the installed handlers. Forward jumps are
emitted without a target and patched when the target is reached.
-/

namespace FrameScript

structure Local where
  name : String
  depth : Nat
  deriving DecidableEq

structure Loop where
  /-- Where `continue` goes. -/
  start : Nat
  /-- Jumps to patch with the loop's end. -/
  breaks : List Nat
  /-- How many locals are alive where the body begins. -/
  locals : Nat
  /-- How many handlers are installed where the loop begins. -/
  handlers : Nat

structure Builder where
  code : Array Instr
  lines : Array Nat
  /-- The locals in scope, the latest first. -/
  locals : List Local
  /-- Depth of the scope; only at depth `0` does `let` define globals. -/
  depth : Nat
  /-- The enclosing loops, the innermost first. -/
  loops : List Loop
  handlers : Nat
  line : Nat

namespace Builder

def new (depth line : Nat) : Builder := ⟨#[], #[], [], depth, [], 0, line⟩

/-- The position of the next instruction. -/
def here (b : Builder) : Nat := b.code.size

def atLine (line : Nat) (b : Builder) : Builder := { b with line }

def emit (i : Instr) (b : Builder) : Builder :=
  { b with code := b.code.push i, lines := b.lines.push b.line }

def emitTimes (n : Nat) (i : Instr) (b : Builder) : Builder :=
  match n with
  | 0 => b
  | n + 1 => emitTimes n i (b.emit i)

/-- Let the jump at a position go to the present end. -/
def patch (position : Nat) (b : Builder) : Builder :=
  { b with code := b.code.modify position (Instr.withTarget b.here) }

def declare (name : String) (b : Builder) : Builder :=
  { b with locals := ⟨name, b.depth⟩ :: b.locals }

/-- The slot of the latest local with a name; slots count in the order of declaration. -/
def slotOf? (name : String) : List Local → Option Nat
  | [] => none
  | l :: earlier => if l.name = name then some earlier.length else slotOf? name earlier

def resolve (name : String) (b : Builder) : Option Nat := slotOf? name b.locals

def openScope (b : Builder) : Builder := { b with depth := b.depth + 1 }

/-- Leave a scope: its locals are dropped from the stack. -/
def closeScope (b : Builder) : Builder :=
  let depth := b.depth - 1
  let kept := b.locals.dropWhile fun l => depth < l.depth
  let dropped := b.locals.length - kept.length
  let b := { b with depth, locals := kept }
  if dropped = 0 then b else b.emit (.popN dropped)

/-- Enter a loop whose rounds begin at `start`. -/
def openLoop (start : Nat) (b : Builder) : Builder :=
  { b with loops := ⟨start, [], b.locals.length, b.handlers⟩ :: b.loops }

/-- Leave the innermost loop: its breaks go to the present end. -/
def closeLoop (b : Builder) : Builder :=
  match b.loops with
  | [] => b
  | loop :: outer => loop.breaks.foldl (fun b jump => b.patch jump) { b with loops := outer }

/-- Drop the locals and handlers that the innermost loop's body has added. -/
def unwindTo (loop : Loop) (b : Builder) : Builder :=
  let extra := b.locals.length - loop.locals
  let b := if extra = 0 then b else b.emit (.popN extra)
  b.emitTimes (b.handlers - loop.handlers) .popHandler

def recordBreak (jump : Nat) (b : Builder) : Builder :=
  match b.loops with
  | [] => b
  | loop :: outer => { b with loops := { loop with breaks := jump :: loop.breaks } :: outer }

/-- The finished chunk. Code that runs past its end returns null. -/
def finish (name source : String) (arity : Nat) (b : Builder) : Chunk :=
  let b := (b.emit (.push .null)).emit .ret
  ⟨name, source, arity, b.code, b.lines⟩

end Builder
end FrameScript
