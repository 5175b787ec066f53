import FrameScript.Clock

/-!
# Suspension queues

There is one queue for each clock. Entries are ordered by wake value and, among
equal ones, by the order in which they were filed. An entry is due once the
reading of the clock is at least its wake value.
-/

namespace FrameScript

structure ContinuationId where
  number : Nat
  deriving DecidableEq, Repr

def ContinuationId.text (id : ContinuationId) : String := "co#" ++ toString id.number

/-- How many due entries a queue releases in one tick. -/
inductive DrainPolicy where
  | allDue
  | onePerTick
  deriving DecidableEq, Repr

namespace DrainPolicy

def text : DrainPolicy → String
  | allDue => "all_due"
  | onePerTick => "one_per_tick"

/-- The policy that is written like this. -/
def ofName? (s : String) : Option DrainPolicy :=
  if s = "all_due" then some allDue
  else if s = "one_per_tick" then some onePerTick
  else none

/-- The policy that a text names; both spellings of the blank are read. -/
def ofText? (s : String) : Option DrainPolicy :=
  if s = "all_due" ∨ s = "all-due" then some allDue
  else if s = "one_per_tick" ∨ s = "one-per-tick" then some onePerTick
  else none

def unknownMessage (s : String) : String :=
  "unknown drain policy '" ++ s ++ "' (expected all_due or one_per_tick)"

end DrainPolicy

structure QueueEntry where
  wake : Number
  /-- How many entries were filed before. -/
  filed : Nat
  id : ContinuationId
  deriving DecidableEq

/-- Order of release. -/
def QueueEntry.compare (a b : QueueEntry) : Ordering :=
  (a.wake.totalCompare b.wake).then (Ord.compare a.filed b.filed)

structure SuspensionQueue where
  mode : WakeMode
  /-- The entries in the order of release. -/
  entries : List QueueEntry
  /-- How many entries were ever filed. -/
  filedCount : Nat
  deriving DecidableEq

namespace SuspensionQueue

def new (mode : WakeMode) : SuspensionQueue := ⟨mode, [], 0⟩

/-- Put an entry in its place. -/
def insertEntry (e : QueueEntry) : List QueueEntry → List QueueEntry
  | [] => [e]
  | first :: rest =>
    if (e.compare first).isLT then e :: first :: rest else first :: insertEntry e rest

/-- File a continuation under a wake value. -/
def push (q : SuspensionQueue) (wake : Number) (id : ContinuationId) : SuspensionQueue :=
  { q with
    entries := insertEntry ⟨wake, q.filedCount, id⟩ q.entries
    filedCount := q.filedCount + 1 }

def peek? (q : SuspensionQueue) : Option QueueEntry := q.entries.head?

def isDue (now : Number) (e : QueueEntry) : Bool := e.wake.atMost now

/-- Release the first entry if it is due. -/
def popDue (q : SuspensionQueue) (now : Number) : Option ContinuationId × SuspensionQueue :=
  match q.entries with
  | [] => (none, q)
  | e :: rest => if isDue now e then (some e.id, { q with entries := rest }) else (none, q)

/-- Release entries from the front while they are due: all of them, or at most one. -/
def takeDue (q : SuspensionQueue) (now : Number) (policy : DrainPolicy) :
    List ContinuationId × SuspensionQueue :=
  let due := q.entries.takeWhile (isDue now)
  let count := match policy with
    | .allDue => due.length
    | .onePerTick => min 1 due.length
  ((q.entries.take count).map (·.id), { q with entries := q.entries.drop count })

def contains (q : SuspensionQueue) (id : ContinuationId) : Bool := q.entries.any (·.id = id)

def size (q : SuspensionQueue) : Nat := q.entries.length

def isEmpty (q : SuspensionQueue) : Bool := q.entries.isEmpty

end SuspensionQueue

structure SuspensionQueues where
  frame : SuspensionQueue
  simulation : SuspensionQueue
  real : SuspensionQueue
  deriving DecidableEq

namespace SuspensionQueues

def new : SuspensionQueues := ⟨.new .frame, .new .simulation, .new .real⟩

def get (qs : SuspensionQueues) : WakeMode → SuspensionQueue
  | .frame => qs.frame
  | .simulation => qs.simulation
  | .real => qs.real

def set (qs : SuspensionQueues) (q : SuspensionQueue) : WakeMode → SuspensionQueues
  | .frame => { qs with frame := q }
  | .simulation => { qs with simulation := q }
  | .real => { qs with real := q }

def push (qs : SuspensionQueues) (mode : WakeMode) (wake : Number) (id : ContinuationId) :
    SuspensionQueues :=
  qs.set ((qs.get mode).push wake id) mode

def size (qs : SuspensionQueues) : Nat := qs.frame.size + qs.simulation.size + qs.real.size

/-- The modes whose queues hold a continuation. -/
def modesHolding (qs : SuspensionQueues) (id : ContinuationId) : List WakeMode :=
  WakeMode.all.filter fun mode => (qs.get mode).contains id

end SuspensionQueues
end FrameScript
