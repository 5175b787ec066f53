import FrameScript.Script.Ast
import FrameScript.Script.Mismatch

/-!
# Reading scripts

A source is matched against the grammar and the matched tree is turned into the
abstract tree. Of what the grammar accepts, only a function that repeats a
parameter is refused.
-/

namespace FrameScript
namespace Script

inductive ParseError where
  | mismatch (place : Mismatch)
  | duplicateParameter (parameter function : String) (line : Nat)
  /-- A tree that the grammar does not produce. -/
  | malformed (rule : Rule) (line : Nat)
  | notSingleExpression

namespace ParseError

def line : ParseError → Nat
  | mismatch place => place.line
  | duplicateParameter _ _ line => line
  | malformed _ line => line
  | notSingleExpression => 1

def message : ParseError → String
  | mismatch place => place.message
  | duplicateParameter parameter function _ =>
    "duplicate parameter '" ++ parameter ++ "' in function '" ++ function ++ "'"
  | malformed rule _ => "unexpected rule: " ++ rule.name
  | notSingleExpression => "source is not a single expression"

/-- The message with its line, where it does not show the line itself. -/
def describe (e : ParseError) : String :=
  match e with
  | mismatch place => place.message
  | _ => "line " ++ toString e.line ++ ": " ++ e.message

end ParseError

abbrev Parsed := Except ParseError

def malformedAt {α : Type} (n : Node) : Parsed α := .error (.malformed n.rule n.line)

def unescapeChar (c : Char) : Char :=
  if c = 'n' then '\n' else if c = 't' then '\t' else if c = 'r' then '\r' else c

/-- The characters that a string literal writes. -/
def unescape : List Char → List Char
  | [] => []
  | '\\' :: c :: rest => unescapeChar c :: unescape rest
  | c :: rest => c :: unescape rest

/-- The value of a string node, from the content inside its quotes. -/
def stringValue : List Node → String
  | content :: _ => String.ofList (unescape content.text.toList)
  | [] => ""

inductive Operator where
  | binary (op : BinaryOp)
  | logical (op : LogicalOp)

def operator? : Rule → Option Operator
  | .opOr => some (.logical .or)
  | .opAnd => some (.logical .and)
  | .opEq => some (.binary .eq)
  | .opNe => some (.binary .ne)
  | .opLt => some (.binary .lt)
  | .opLte => some (.binary .lte)
  | .opGt => some (.binary .gt)
  | .opGte => some (.binary .gte)
  | .opAdd => some (.binary .add)
  | .opSub => some (.binary .sub)
  | .opMul => some (.binary .mul)
  | .opDiv => some (.binary .div)
  | .opMod => some (.binary .mod)
  | _ => none

def Operator.apply : Operator → Expr → Expr → Expr
  | binary op, left, right => .binary op left right
  | logical op, left, right => .logical op left right

/-- Negation; a number literal takes the sign in. -/
def negate : Expr → Expr
  | .num x => .num x.neg
  | e => .unary .neg e

mutual

def buildExpr : Node → Parsed Expr
  | .mk .expression _ _ (inner :: _) => buildExpr inner
  | .mk .primary _ _ (inner :: _) => buildExpr inner
  | .mk .literal _ _ (inner :: _) => buildExpr inner
  | .mk .logicalOrExpr _ _ (first :: rest) => (buildExpr first).bind (buildChain · rest)
  | .mk .logicalAndExpr _ _ (first :: rest) => (buildExpr first).bind (buildChain · rest)
  | .mk .equalityExpr _ _ (first :: rest) => (buildExpr first).bind (buildChain · rest)
  | .mk .comparisonExpr _ _ (first :: rest) => (buildExpr first).bind (buildChain · rest)
  | .mk .additiveExpr _ _ (first :: rest) => (buildExpr first).bind (buildChain · rest)
  | .mk .multiplicativeExpr _ _ (first :: rest) => (buildExpr first).bind (buildChain · rest)
  | .mk .unaryExpr start _ parts => buildPrefixed start.line parts
  | .mk .callExpr _ _ (first :: suffixes) => (buildExpr first).bind (buildSuffixes · suffixes)
  | .mk .identifier start length parts =>
    .ok (.ident (Node.text (.mk .identifier start length parts)))
  | .mk .number start length parts =>
    let n := Node.mk .number start length parts
    match Number.ofText? n.text with
    | some x => .ok (.num x)
    | none => malformedAt n
  | .mk .boolean start length parts =>
    .ok (.bool (Node.text (.mk .boolean start length parts) == "true"))
  | .mk .nullLit _ _ _ => .ok .null
  | .mk .string _ _ parts => .ok (.str (stringValue parts))
  | .mk .arrayLit _ _ items => (buildItems items).map .list
  | .mk .objectLit _ _ properties => (buildFields properties).map .object
  | n => malformedAt n

/-- Operators and operands after a first operand; they associate to the left. -/
def buildChain (left : Expr) : List Node → Parsed Expr
  | op :: operand :: rest =>
    match operator? op.rule with
    | some o => (buildExpr operand).bind fun right => buildChain (o.apply left right) rest
    | none => malformedAt op
  | [op] => malformedAt op
  | [] => .ok left

/-- Operators before an operand; the nearest one applies first. -/
def buildPrefixed (line : Nat) : List Node → Parsed Expr
  | .mk .opNot _ _ _ :: rest => (buildPrefixed line rest).map (.unary .not)
  | .mk .opNeg _ _ _ :: rest => (buildPrefixed line rest).map negate
  | operand :: _ => buildExpr operand
  | [] => .error (.malformed .unaryExpr line)

/-- Calls, members and indices after an expression. -/
def buildSuffixes (object : Expr) : List Node → Parsed Expr
  | [] => .ok object
  | suffix :: rest => (buildSuffix object suffix).bind (buildSuffixes · rest)

def buildSuffix (object : Expr) : Node → Parsed Expr
  | .mk .callSuffix start _ [] => .ok (.call object [] start.line)
  | .mk .callSuffix start _ (.mk _ _ _ args :: _) =>
    (buildItems args).map fun args => .call object args start.line
  | .mk .memberSuffix _ _ (name :: _) => .ok (.member object name.text)
  | .mk .indexSuffix _ _ (position :: _) => (buildExpr position).map (.index object)
  | n => malformedAt n

def buildItems : List Node → Parsed (List Expr)
  | [] => .ok []
  | item :: rest => (buildExpr item).bind fun e => (buildItems rest).map (e :: ·)

def buildFields : List Node → Parsed (List (String × Expr))
  | [] => .ok []
  | .mk .property _ _ (.mk keyRule start length parts :: value :: _) :: rest =>
    let key := if keyRule = .string then stringValue parts
      else Node.text (.mk keyRule start length parts)
    (buildExpr value).bind fun e => (buildFields rest).map ((key, e) :: ·)
  | n :: _ => malformedAt n

end

/-- The target that suffixes after an object write to; all but the last only read. -/
def buildTargetFrom (object : Expr) : List Node → Parsed Target
  | [] => .error (.malformed .assignTarget 0)
  | [.mk .memberSuffix _ _ (name :: _)] => .ok (.member object name.text)
  | [.mk .indexSuffix _ _ (position :: _)] => (buildExpr position).map (.index object)
  | suffix :: rest => (buildSuffix object suffix).bind (buildTargetFrom · rest)

def buildTarget : Node → Parsed Target
  | .mk _ _ _ [name] => .ok (.ident name.text)
  | .mk _ _ _ (name :: suffix :: rest) => buildTargetFrom (.ident name.text) (suffix :: rest)
  | n => malformedAt n

def buildOption : List Node → Parsed (Option Expr)
  | value :: _ => (buildExpr value).map some
  | [] => .ok none

mutual

def buildStmt : Node → Parsed Stmt
  | .mk .statement _ _ (inner :: _) => buildStmt inner
  | .mk .block start _ body => (buildBody body).map (.block start.line)
  | .mk .declareStmt start _ (name :: value) =>
    (buildOption value).map (.declare start.line name.text)
  | .mk .assignStmt start _ (target :: value :: _) => do
    let target ← buildTarget target
    let value ← buildExpr value
    .ok (.assign start.line target value)
  | .mk .exprStmt start _ (value :: _) => (buildExpr value).map (.expr start.line)
  | .mk .returnStmt start _ value => (buildOption value).map (.return start.line)
  | .mk .ifStmt start _ [test, body] => do
    let test ← buildExpr test
    let body ← buildStmt body
    .ok (.ifThen start.line test body)
  | .mk .ifStmt start _ (test :: body :: _ :: otherwise :: _) => do
    let test ← buildExpr test
    let body ← buildStmt body
    let otherwise ← buildStmt otherwise
    .ok (.ifThenElse start.line test body otherwise)
  | .mk .whileStmt start _ (test :: body :: _) => do
    let test ← buildExpr test
    let body ← buildStmt body
    .ok (.while start.line test body)
  | .mk .forStmt start _ (name :: _ :: iterable :: body :: _) => do
    let iterable ← buildExpr iterable
    let body ← buildStmt body
    .ok (.forOf start.line name.text iterable body)
  | .mk .tryStmt start _ (.mk _ _ _ body :: name :: .mk _ _ _ handler :: _) => do
    let body ← buildBody body
    let handler ← buildBody handler
    .ok (.tryCatch start.line body name.text handler)
  | .mk .throwStmt start _ (value :: _) => (buildExpr value).map (.throw start.line)
  | .mk .breakStmt start _ _ => .ok (.break start.line)
  | .mk .continueStmt start _ _ => .ok (.continue start.line)
  | n => malformedAt n

def buildBody : List Node → Parsed (List Stmt)
  | [] => .ok []
  | s :: rest => (buildStmt s).bind fun s => (buildBody rest).map (s :: ·)

end

/-- The first text that occurs earlier in the list. -/
def firstRepeated? : List String → (seen : List String) → Option String
  | [], _ => none
  | x :: rest, seen => if x ∈ seen then some x else firstRepeated? rest (x :: seen)

def buildFunction : Node → Parsed FunctionDecl
  | .mk .functionDecl start _ (name :: .mk .paramList _ _ params :: .mk _ _ _ body :: _) =>
    let params := params.map Node.text
    match firstRepeated? params [] with
    | some p => .error (.duplicateParameter p name.text start.line)
    | none => (buildBody body).map fun body => ⟨name.text, params, body, start.line⟩
  | .mk .functionDecl start _ (name :: .mk _ _ _ body :: _) =>
    (buildBody body).map fun body => ⟨name.text, [], body, start.line⟩
  | n => malformedAt n

/-- Functions and statements in any order, each kind in the order of the source. -/
def buildProgram : List Node → Parsed Script
  | [] => .ok ⟨[], []⟩
  | n :: rest =>
    match n.rule with
    | .functionDecl => do
      let f ← buildFunction n
      let script ← buildProgram rest
      .ok { script with functions := f :: script.functions }
    | .statement => do
      let s ← buildStmt n
      let script ← buildProgram rest
      .ok { script with body := s :: script.body }
    | .endOfInput => buildProgram rest
    | _ => malformedAt n

/-- The script that a source writes. -/
def parse (source : String) : Parsed Script :=
  let chars := source.toList
  match matchRule .program chars with
  | (_, some program) => buildProgram program.children
  | (attempts, none) => .error (.mismatch ⟨chars, attempts⟩)

/-- The expression that is a source's first statement. -/
def parseExpression (source : String) : Parsed Expr := do
  let script ← parse source
  match script.body with
  | .expr _ e :: _ => .ok e
  | _ => .error .notSingleExpression

end Script
end FrameScript
