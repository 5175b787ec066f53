import FrameScript.Json.Basic

/-!
# Abstract trees of scripts

A script file declares functions and has a body of statements. Statements and
calls carry the line they start on, counted from one.
-/

namespace FrameScript

inductive UnaryOp where
  | not
  | neg
  deriving DecidableEq, Repr

inductive BinaryOp where
  | add | sub | mul | div | mod
  | eq | ne | lt | lte | gt | gte
  deriving DecidableEq, Repr

inductive LogicalOp where
  | and
  | or
  deriving DecidableEq, Repr

inductive Expr where
  | null
  | bool (value : Bool)
  | num (value : Number)
  | str (value : String)
  | list (items : List Expr)
  | object (fields : List (String × Expr))
  | ident (name : String)
  | member (object : Expr) (property : String)
  | index (object : Expr) (position : Expr)
  | call (callee : Expr) (args : List Expr) (line : Nat)
  | unary (op : UnaryOp) (operand : Expr)
  | binary (op : BinaryOp) (left : Expr) (right : Expr)
  | logical (op : LogicalOp) (left : Expr) (right : Expr)
  deriving Inhabited

/-- What an assignment writes to. -/
inductive Target where
  | ident (name : String)
  | member (object : Expr) (property : String)
  | index (object : Expr) (position : Expr)

inductive Stmt where
  | block (line : Nat) (body : List Stmt)
  | declare (line : Nat) (name : String) (value : Option Expr)
  | assign (line : Nat) (target : Target) (value : Expr)
  | ifThen (line : Nat) (test : Expr) (body : Stmt)
  | ifThenElse (line : Nat) (test : Expr) (body : Stmt) (otherwise : Stmt)
  | while (line : Nat) (test : Expr) (body : Stmt)
  | forOf (line : Nat) (binding : String) (iterable : Expr) (body : Stmt)
  | tryCatch (line : Nat) (body : List Stmt) (name : String) (handler : List Stmt)
  | return (line : Nat) (value : Option Expr)
  | throw (line : Nat) (value : Expr)
  | break (line : Nat)
  | continue (line : Nat)
  | expr (line : Nat) (value : Expr)
  deriving Inhabited

def Stmt.line : Stmt → Nat
  | block n _ | declare n _ _ | assign n _ _ | ifThen n _ _ | ifThenElse n _ _ _
  | «while» n _ _ | forOf n _ _ _ | tryCatch n _ _ _ | «return» n _ | throw n _
  | «break» n | «continue» n | expr n _ => n

structure FunctionDecl where
  name : String
  params : List String
  body : List Stmt
  line : Nat

structure Script where
  functions : List FunctionDecl
  body : List Stmt

def UnaryOp.name : UnaryOp → String
  | not => "Not"
  | neg => "Neg"

def BinaryOp.name : BinaryOp → String
  | add => "Add"
  | sub => "Sub"
  | mul => "Mul"
  | div => "Div"
  | mod => "Mod"
  | eq => "Eq"
  | ne => "Ne"
  | lt => "Lt"
  | lte => "Lte"
  | gt => "Gt"
  | gte => "Gte"

def UnaryOp.all : List UnaryOp := [not, neg]

def BinaryOp.all : List BinaryOp := [add, sub, mul, div, mod, eq, ne, lt, lte, gt, gte]

def LogicalOp.name : LogicalOp → String
  | and => "And"
  | or => "Or"

def Json.tagged (tag : String) (fields : List (String × Json)) : Json :=
  .object (("t", .string tag) :: fields)

mutual

def Expr.itemsToJson : List Expr → List Json
  | [] => []
  | e :: rest => e.toJson :: itemsToJson rest

def Expr.fieldsToJson : List (String × Expr) → List Json
  | [] => []
  | (key, e) :: rest => .array [.string key, e.toJson] :: fieldsToJson rest

def Expr.toJson : Expr → Json
  | null => .tagged "LitNull" []
  | bool b => .tagged "LitBool" [("v", .bool b)]
  | num x => .tagged "LitNum" [("v", .float x)]
  | str s => .tagged "LitStr" [("v", .string s)]
  | list items => .tagged "List" [("items", .array (itemsToJson items))]
  | object fields => .tagged "Obj" [("props", .array (fieldsToJson fields))]
  | ident name => .tagged "Ident" [("name", .string name)]
  | member e name => .tagged "Member" [("object", e.toJson), ("property", .string name)]
  | index e i => .tagged "Index" [("object", e.toJson), ("index", i.toJson)]
  | call f args line => .tagged "Call"
      [("callee", f.toJson), ("args", .array (itemsToJson args)), ("line", .ofNat line)]
  | unary op e => .tagged "Unary" [("op", .string op.name), ("operand", e.toJson)]
  | binary op l r => .tagged "Binary"
      [("op", .string op.name), ("left", l.toJson), ("right", r.toJson)]
  | logical op l r => .tagged "Logical"
      [("op", .string op.name), ("left", l.toJson), ("right", r.toJson)]

end

def Expr.optionToJson : Option Expr → Json
  | some e => e.toJson
  | none => .null

def Target.toJson : Target → Json
  | ident name => .tagged "Ident" [("name", .string name)]
  | member e name => .tagged "Member" [("object", e.toJson), ("property", .string name)]
  | index e i => .tagged "Index" [("object", e.toJson), ("index", i.toJson)]

mutual

def Stmt.bodyToJson : List Stmt → List Json
  | [] => []
  | s :: rest => s.toJson :: bodyToJson rest

def Stmt.toJson : Stmt → Json
  | block line body => .tagged "Block" [("body", .array (bodyToJson body)), ("line", .ofNat line)]
  | declare line name value => .tagged "Let"
      [("name", .string name), ("init", Expr.optionToJson value), ("line", .ofNat line)]
  | assign line target value => .tagged "Assign"
      [("target", target.toJson), ("value", value.toJson), ("line", .ofNat line)]
  | ifThen line test body => .tagged "If"
      [("test", test.toJson), ("then_s", body.toJson), ("else_s", .null), ("line", .ofNat line)]
  | ifThenElse line test body otherwise => .tagged "If"
      [("test", test.toJson), ("then_s", body.toJson), ("else_s", otherwise.toJson),
        ("line", .ofNat line)]
  | «while» line test body => .tagged "While"
      [("test", test.toJson), ("body", body.toJson), ("line", .ofNat line)]
  | forOf line name iterable body => .tagged "ForOf"
      [("binding", .string name), ("iterable", iterable.toJson), ("body", body.toJson),
        ("line", .ofNat line)]
  | tryCatch line body name handler => .tagged "Try"
      [("body", .array (bodyToJson body)), ("catch_var", .string name),
        ("handler", .array (bodyToJson handler)), ("line", .ofNat line)]
  | «return» line value => .tagged "Return"
      [("value", Expr.optionToJson value), ("line", .ofNat line)]
  | throw line value => .tagged "Throw" [("value", value.toJson), ("line", .ofNat line)]
  | «break» line => .tagged "Break" [("line", .ofNat line)]
  | «continue» line => .tagged "Continue" [("line", .ofNat line)]
  | expr line value => .tagged "Expr" [("expr", value.toJson), ("line", .ofNat line)]

end

def FunctionDecl.toJson (f : FunctionDecl) : Json :=
  .object [("name", .string f.name), ("params", .strings f.params),
    ("body", .array (Stmt.bodyToJson f.body)), ("line", .ofNat f.line)]

def Script.toJson (s : Script) : Json :=
  .object [("functions", .array (s.functions.map FunctionDecl.toJson)),
    ("body", .array (Stmt.bodyToJson s.body))]

end FrameScript
