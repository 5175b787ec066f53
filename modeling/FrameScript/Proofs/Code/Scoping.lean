import FrameScript.Code.Compile
import Mathlib.Data.List.Infix

/-!
# Scopes in texts

Where blocks open and close, and where names are declared and used, in the order of the text: from
these events alone it is told which declaration a use refers to. It is the latest one of its name
that ends earlier and whose block is still open. A local is renamed together with what refers to it.
-/

namespace FrameScript

/-- What matters for scopes in a text. -/
inductive ScopeEvent where
  | opens
  | closes
  | declares (name : String)
  | uses (name : String)
  deriving DecidableEq

def inBlock (events : List ScopeEvent) : List ScopeEvent := .opens :: (events ++ [.closes])

@[simp] theorem length_inBlock (events : List ScopeEvent) :
    (inBlock events).length = events.length + 2 := by
  simp [inBlock]

mutual

def Expr.scopeEvents : Expr → List ScopeEvent
  | .null | .bool _ | .num _ | .str _ => []
  | .list items => itemsScopeEvents items
  | .object fields => fieldsScopeEvents fields
  | .ident name => [.uses name]
  | .member e _ => e.scopeEvents
  | .index e position => e.scopeEvents ++ position.scopeEvents
  | .call callee args _ => callee.scopeEvents ++ itemsScopeEvents args
  | .unary _ e => e.scopeEvents
  | .binary _ left right | .logical _ left right => left.scopeEvents ++ right.scopeEvents

def Expr.itemsScopeEvents : List Expr → List ScopeEvent
  | [] => []
  | e :: rest => e.scopeEvents ++ itemsScopeEvents rest

def Expr.fieldsScopeEvents : List (String × Expr) → List ScopeEvent
  | [] => []
  | (_, e) :: rest => e.scopeEvents ++ fieldsScopeEvents rest

end

def Expr.optionScopeEvents : Option Expr → List ScopeEvent
  | some e => e.scopeEvents
  | none => []

def Target.scopeEvents : Target → List ScopeEvent
  | .ident name => [.uses name]
  | .member e _ => e.scopeEvents
  | .index e position => e.scopeEvents ++ position.scopeEvents

namespace Stmt

mutual

/-- A declaration ends behind its value. Every body is a block, with braces or without; a loop over
items is one, too, and so is each of its rounds, which declares the variable. -/
def scopeEvents : Stmt → List ScopeEvent
  | block _ body => inBlock (bodyScopeEvents body)
  | declare _ name value => Expr.optionScopeEvents value ++ [.declares name]
  | assign _ target value => target.scopeEvents ++ value.scopeEvents
  | ifThen _ test body => test.scopeEvents ++ inBlock body.scopeEvents
  | ifThenElse _ test body otherwise =>
    test.scopeEvents ++ (inBlock body.scopeEvents ++ inBlock otherwise.scopeEvents)
  | «while» _ test body => test.scopeEvents ++ inBlock body.scopeEvents
  | forOf _ name iterable body =>
    inBlock (iterable.scopeEvents ++ inBlock (.declares name :: inBlock body.scopeEvents))
  | tryCatch _ body name handler =>
    inBlock (bodyScopeEvents body) ++ inBlock (.declares name :: bodyScopeEvents handler)
  | «return» _ value => Expr.optionScopeEvents value
  | throw _ value | expr _ value => value.scopeEvents
  | «break» _ | «continue» _ => []

def bodyScopeEvents : List Stmt → List ScopeEvent
  | [] => []
  | s :: rest => s.scopeEvents ++ bodyScopeEvents rest

end

end Stmt

/-- The parameters are declared in the block that the body is. -/
def FunctionDecl.scopeEvents (f : FunctionDecl) : List ScopeEvent :=
  inBlock (f.params.map .declares ++ Stmt.bodyScopeEvents f.body)

/-- No more blocks are closed than have been opened, at any place. -/
def StillOpen (events : List ScopeEvent) : Prop :=
  ∀ front, front <+: events → front.count .closes ≤ front.count .opens

instance (events : List ScopeEvent) : Decidable (StillOpen events) :=
  decidable_of_iff (∀ front ∈ events.inits, front.count .closes ≤ front.count .opens)
    (by simp [StillOpen])

/-- The block of what is declared at `j` encloses the place `i`. -/
def Encloses (events : List ScopeEvent) (j i : Nat) : Prop :=
  StillOpen ((events.take i).drop (j + 1))

instance (events : List ScopeEvent) (j i : Nat) : Decidable (Encloses events j i) :=
  inferInstanceAs (Decidable (StillOpen _))

/-- The use of a name at `i` refers to its declaration at `j`: the latest one before it whose block
encloses the use. -/
def Refers (events : List ScopeEvent) (name : String) (i j : Nat) : Prop :=
  events[i]? = some (.uses name) ∧ events[j]? = some (.declares name) ∧ j < i ∧
    Encloses events j i ∧
    ∀ k < i, j < k → events[k]? = some (.declares name) → ¬ Encloses events k i

instance (events : List ScopeEvent) (name : String) (i j : Nat) :
    Decidable (Refers events name i j) := by
  unfold Refers
  infer_instance

/-- What is declared is a local: a block is open. -/
def IsLocal (events : List ScopeEvent) (j : Nat) : Prop :=
  (events.take j).count .closes < (events.take j).count .opens

instance (events : List ScopeEvent) (j : Nat) : Decidable (IsLocal events j) :=
  inferInstanceAs (Decidable (_ < _))

def Fresh (name : String) (events : List ScopeEvent) : Prop :=
  .declares name ∉ events ∧ .uses name ∉ events

instance (name : String) (events : List ScopeEvent) : Decidable (Fresh name events) :=
  inferInstanceAs (Decidable (_ ∧ _))

mutual

/-- The expression with other names: `ρ` tells them from the places, the first of which is `n`. -/
def Expr.mapNames (ρ : Nat → String → String) (n : Nat) : Expr → Expr
  | .list items => .list (itemsMapNames ρ n items)
  | .object fields => .object (fieldsMapNames ρ n fields)
  | .ident name => .ident (ρ n name)
  | .member e property => .member (e.mapNames ρ n) property
  | .index e position => .index (e.mapNames ρ n) (position.mapNames ρ (n + e.scopeEvents.length))
  | .call callee args line =>
    .call (callee.mapNames ρ n) (itemsMapNames ρ (n + callee.scopeEvents.length) args) line
  | .unary op e => .unary op (e.mapNames ρ n)
  | .binary op left right =>
    .binary op (left.mapNames ρ n) (right.mapNames ρ (n + left.scopeEvents.length))
  | .logical op left right =>
    .logical op (left.mapNames ρ n) (right.mapNames ρ (n + left.scopeEvents.length))
  | e => e

def Expr.itemsMapNames (ρ : Nat → String → String) (n : Nat) : List Expr → List Expr
  | [] => []
  | e :: rest => e.mapNames ρ n :: itemsMapNames ρ (n + e.scopeEvents.length) rest

def Expr.fieldsMapNames (ρ : Nat → String → String) (n : Nat) :
    List (String × Expr) → List (String × Expr)
  | [] => []
  | (key, e) :: rest => (key, e.mapNames ρ n) :: fieldsMapNames ρ (n + e.scopeEvents.length) rest

end

def Expr.optionMapNames (ρ : Nat → String → String) (n : Nat) : Option Expr → Option Expr
  | some e => some (e.mapNames ρ n)
  | none => none

def Target.mapNames (ρ : Nat → String → String) (n : Nat) : Target → Target
  | .ident name => .ident (ρ n name)
  | .member e property => .member (e.mapNames ρ n) property
  | .index e position => .index (e.mapNames ρ n) (position.mapNames ρ (n + e.scopeEvents.length))

namespace Stmt

mutual

def mapNames (ρ : Nat → String → String) (n : Nat) : Stmt → Stmt
  | block line body => block line (bodyMapNames ρ (n + 1) body)
  | declare line name value =>
    declare line (ρ (n + (Expr.optionScopeEvents value).length) name)
      (Expr.optionMapNames ρ n value)
  | assign line target value =>
    assign line (target.mapNames ρ n) (value.mapNames ρ (n + target.scopeEvents.length))
  | ifThen line test body =>
    ifThen line (test.mapNames ρ n) (body.mapNames ρ (n + test.scopeEvents.length + 1))
  | ifThenElse line test body otherwise =>
    ifThenElse line (test.mapNames ρ n) (body.mapNames ρ (n + test.scopeEvents.length + 1))
      (otherwise.mapNames ρ (n + test.scopeEvents.length + (body.scopeEvents.length + 2) + 1))
  | «while» line test body =>
    «while» line (test.mapNames ρ n) (body.mapNames ρ (n + test.scopeEvents.length + 1))
  | forOf line name iterable body =>
    forOf line (ρ (n + 1 + iterable.scopeEvents.length + 1) name) (iterable.mapNames ρ (n + 1))
      (body.mapNames ρ (n + 1 + iterable.scopeEvents.length + 3))
  | tryCatch line body name handler =>
    tryCatch line (bodyMapNames ρ (n + 1) body)
      (ρ (n + ((bodyScopeEvents body).length + 2) + 1) name)
      (bodyMapNames ρ (n + ((bodyScopeEvents body).length + 2) + 2) handler)
  | «return» line value => «return» line (Expr.optionMapNames ρ n value)
  | throw line value => throw line (value.mapNames ρ n)
  | «break» line => «break» line
  | «continue» line => «continue» line
  | expr line value => expr line (value.mapNames ρ n)

def bodyMapNames (ρ : Nat → String → String) (n : Nat) : List Stmt → List Stmt
  | [] => []
  | s :: rest => s.mapNames ρ n :: bodyMapNames ρ (n + s.scopeEvents.length) rest

end

end Stmt

def paramsMapNames (ρ : Nat → String → String) (n : Nat) : List String → List String
  | [] => []
  | name :: rest => ρ n name :: paramsMapNames ρ (n + 1) rest

def FunctionDecl.mapNames (ρ : Nat → String → String) (f : FunctionDecl) : FunctionDecl :=
  { f with
    params := paramsMapNames ρ 1 f.params
    body := Stmt.bodyMapNames ρ (1 + f.params.length) f.body }

/-- Another name for what is declared at `j`, and for the uses that refer to that. -/
def otherName (events : List ScopeEvent) (j : Nat) (new : String) (i : Nat) (name : String) :
    String :=
  if i = j ∨ Refers events name i j then new else name

/-- The function with another name for one of its locals. -/
def FunctionDecl.renameLocal (f : FunctionDecl) (j : Nat) (new : String) : FunctionDecl :=
  f.mapNames (otherName f.scopeEvents j new)

/-- Top-level code with another name for one of its locals. -/
def Stmt.renameLocal (body : List Stmt) (j : Nat) (new : String) : List Stmt :=
  bodyMapNames (otherName (bodyScopeEvents body) j new) 0 body

def ScopeEvent.mapName (h : String → String) : ScopeEvent → ScopeEvent
  | declares name => declares (h name)
  | uses name => uses (h name)
  | opens => opens
  | closes => closes

/-- The events with other names; `ρ` tells them from the places, the first of which is `n`. -/
def renameEvents (ρ : Nat → String → String) (n : Nat) : List ScopeEvent → List ScopeEvent
  | [] => []
  | e :: rest => e.mapName (ρ n) :: renameEvents ρ (n + 1) rest

section

variable (ρ : Nat → String → String)

theorem renameEvents_append (n : Nat) (events more : List ScopeEvent) :
    renameEvents ρ n (events ++ more) =
      renameEvents ρ n events ++ renameEvents ρ (n + events.length) more := by
  induction events generalizing n with
  | nil => rfl
  | cons e rest ih =>
    rw [List.cons_append, renameEvents, renameEvents, ih, List.cons_append, List.length_cons,
      Nat.add_assoc, Nat.add_comm 1]

theorem renameEvents_inBlock (n : Nat) (events : List ScopeEvent) :
    renameEvents ρ n (inBlock events) = inBlock (renameEvents ρ (n + 1) events) := by
  rw [inBlock, renameEvents, renameEvents_append, renameEvents, renameEvents, ScopeEvent.mapName,
    ScopeEvent.mapName, inBlock]

theorem getElem?_renameEvents (n : Nat) (events : List ScopeEvent) (i : Nat) :
    (renameEvents ρ n events)[i]? = events[i]?.map (ScopeEvent.mapName (ρ (n + i))) := by
  induction events generalizing n i with
  | nil => rfl
  | cons e rest ih =>
    cases i with
    | zero => rfl
    | succ i =>
      rw [renameEvents, List.getElem?_cons_succ, List.getElem?_cons_succ, ih, Nat.add_assoc,
        Nat.add_comm 1]

mutual

theorem Expr.scopeEvents_mapNames (n : Nat) :
    (e : Expr) → (e.mapNames ρ n).scopeEvents = renameEvents ρ n e.scopeEvents
  | .null | .bool _ | .num _ | .str _ | .ident _ => rfl
  | .list items => itemsScopeEvents_mapNames n items
  | .object fields => fieldsScopeEvents_mapNames n fields
  | .member e _ | .unary _ e => e.scopeEvents_mapNames n
  | .index e position => by
    rw [mapNames, scopeEvents, scopeEvents, renameEvents_append, e.scopeEvents_mapNames,
      position.scopeEvents_mapNames]
  | .call callee args _ => by
    rw [mapNames, scopeEvents, scopeEvents, renameEvents_append, callee.scopeEvents_mapNames,
      itemsScopeEvents_mapNames]
  | .binary _ left right | .logical _ left right => by
    rw [mapNames, scopeEvents, scopeEvents, renameEvents_append, left.scopeEvents_mapNames,
      right.scopeEvents_mapNames]

theorem Expr.itemsScopeEvents_mapNames (n : Nat) : (items : List Expr) →
    itemsScopeEvents (itemsMapNames ρ n items) = renameEvents ρ n (itemsScopeEvents items)
  | [] => rfl
  | e :: rest => by
    rw [itemsMapNames, itemsScopeEvents, itemsScopeEvents, renameEvents_append,
      e.scopeEvents_mapNames, itemsScopeEvents_mapNames]

theorem Expr.fieldsScopeEvents_mapNames (n : Nat) : (fields : List (String × Expr)) →
    fieldsScopeEvents (fieldsMapNames ρ n fields) = renameEvents ρ n (fieldsScopeEvents fields)
  | [] => rfl
  | (_, e) :: rest => by
    rw [fieldsMapNames, fieldsScopeEvents, fieldsScopeEvents, renameEvents_append,
      e.scopeEvents_mapNames, fieldsScopeEvents_mapNames]

end

theorem Expr.optionScopeEvents_mapNames (n : Nat) (value : Option Expr) :
    optionScopeEvents (optionMapNames ρ n value) = renameEvents ρ n (optionScopeEvents value) := by
  cases value with
  | none => rfl
  | some e => exact e.scopeEvents_mapNames ρ n

theorem Target.scopeEvents_mapNames (n : Nat) (target : Target) :
    (target.mapNames ρ n).scopeEvents = renameEvents ρ n target.scopeEvents := by
  cases target with
  | ident name => rfl
  | member e _ => exact e.scopeEvents_mapNames ρ n
  | index e position =>
    rw [mapNames, scopeEvents, scopeEvents, renameEvents_append, e.scopeEvents_mapNames,
      position.scopeEvents_mapNames]

mutual

theorem Stmt.scopeEvents_mapNames (n : Nat) :
    (s : Stmt) → (s.mapNames ρ n).scopeEvents = renameEvents ρ n s.scopeEvents
  | .block _ body => by
    rw [mapNames, scopeEvents, scopeEvents, renameEvents_inBlock, bodyScopeEvents_mapNames]
  | .declare _ name value => by
    rw [mapNames, scopeEvents, scopeEvents, renameEvents_append, Expr.optionScopeEvents_mapNames]
    rfl
  | .assign _ target value => by
    rw [mapNames, scopeEvents, scopeEvents, renameEvents_append, target.scopeEvents_mapNames,
      value.scopeEvents_mapNames]
  | .ifThen _ test body | .while _ test body => by
    rw [mapNames, scopeEvents, scopeEvents, renameEvents_append, renameEvents_inBlock,
      test.scopeEvents_mapNames, body.scopeEvents_mapNames]
  | .ifThenElse _ test body otherwise => by
    rw [mapNames, scopeEvents, scopeEvents, renameEvents_append, renameEvents_append,
      renameEvents_inBlock, renameEvents_inBlock, length_inBlock, test.scopeEvents_mapNames,
      body.scopeEvents_mapNames, otherwise.scopeEvents_mapNames]
  | .forOf _ name iterable body => by
    rw [mapNames, scopeEvents, scopeEvents, renameEvents_inBlock, renameEvents_append,
      renameEvents_inBlock, renameEvents, renameEvents_inBlock, iterable.scopeEvents_mapNames,
      body.scopeEvents_mapNames]
    rfl
  | .tryCatch _ body name handler => by
    rw [mapNames, scopeEvents, scopeEvents, renameEvents_append, renameEvents_inBlock,
      renameEvents_inBlock, renameEvents, length_inBlock, bodyScopeEvents_mapNames,
      bodyScopeEvents_mapNames, ScopeEvent.mapName]
  | .return _ value => Expr.optionScopeEvents_mapNames ρ n value
  | .throw _ value | .expr _ value => value.scopeEvents_mapNames ρ n
  | .break _ | .continue _ => rfl

theorem Stmt.bodyScopeEvents_mapNames (n : Nat) : (body : List Stmt) →
    bodyScopeEvents (bodyMapNames ρ n body) = renameEvents ρ n (bodyScopeEvents body)
  | [] => rfl
  | s :: rest => by
    rw [bodyMapNames, bodyScopeEvents, bodyScopeEvents, renameEvents_append,
      s.scopeEvents_mapNames, bodyScopeEvents_mapNames]

end

theorem paramsScopeEvents_mapNames (n : Nat) (params : List String) :
    (paramsMapNames ρ n params).map .declares = renameEvents ρ n (params.map .declares) := by
  induction params generalizing n with
  | nil => rfl
  | cons name rest ih =>
    rw [paramsMapNames, List.map_cons, List.map_cons, renameEvents, ih, ScopeEvent.mapName]

theorem FunctionDecl.scopeEvents_mapNames (f : FunctionDecl) :
    (f.mapNames ρ).scopeEvents = renameEvents ρ 0 f.scopeEvents := by
  rw [mapNames, scopeEvents, scopeEvents, renameEvents_inBlock, renameEvents_append,
    paramsScopeEvents_mapNames, Stmt.bodyScopeEvents_mapNames, List.length_map]

end

end FrameScript
