/-!
# The grammar of scripts

The grammar is data: a rule has a kind and a pattern, and patterns are ordered
choices, sequences, repetitions and rejections over texts and character
classes. Rules are listed in the order in which messages name them.

Statements that begin with a keyword come after assignments and expressions:
an identifier is never a keyword, so the earlier choices cannot take one.
-/

namespace FrameScript
namespace Script

/-- The rules that can take part in a message. -/
inductive Rule where
  | endOfInput
  | program | functionDecl | paramList
  | statement | block | declareStmt | assignStmt | assignTarget | exprStmt | returnStmt
  | ifStmt | elseKw | whileStmt | forStmt | ofKw | tryStmt | throwStmt | breakStmt
  | continueStmt
  | expression | logicalOrExpr | logicalAndExpr | equalityExpr | comparisonExpr
  | additiveExpr | multiplicativeExpr | unaryExpr | callExpr
  | callSuffix | memberSuffix | indexSuffix | argList
  | primary | literal | arrayLit | objectLit | property
  | opOr | opAnd | opEq | opNe | opLte | opGte | opLt | opGt | opAdd | opSub
  | opMul | opDiv | opMod | opNot | opNeg
  | number | string | stringContent | boolean | nullLit | keyword | identifier
  deriving DecidableEq, Repr

namespace Rule

/-- Every rule, in the order of messages. -/
def all : List Rule :=
  [endOfInput, program, functionDecl, paramList, statement, block, declareStmt, assignStmt,
    assignTarget, exprStmt, returnStmt, ifStmt, elseKw, whileStmt, forStmt, ofKw, tryStmt,
    throwStmt, breakStmt, continueStmt, expression, logicalOrExpr, logicalAndExpr,
    equalityExpr, comparisonExpr, additiveExpr, multiplicativeExpr, unaryExpr, callExpr,
    callSuffix, memberSuffix, indexSuffix, argList, primary, literal, arrayLit, objectLit,
    property, opOr, opAnd, opEq, opNe, opLte, opGte, opLt, opGt, opAdd, opSub, opMul, opDiv,
    opMod, opNot, opNeg, number, string, stringContent, boolean, nullLit, keyword, identifier]

def name : Rule → String
  | endOfInput => "EOI"
  | program => "program"
  | functionDecl => "function_decl"
  | paramList => "param_list"
  | statement => "statement"
  | block => "block"
  | declareStmt => "declare_stmt"
  | assignStmt => "assign_stmt"
  | assignTarget => "assign_target"
  | exprStmt => "expr_stmt"
  | returnStmt => "return_stmt"
  | ifStmt => "if_stmt"
  | elseKw => "else_kw"
  | whileStmt => "while_stmt"
  | forStmt => "for_stmt"
  | ofKw => "of_kw"
  | tryStmt => "try_stmt"
  | throwStmt => "throw_stmt"
  | breakStmt => "break_stmt"
  | continueStmt => "continue_stmt"
  | expression => "expression"
  | logicalOrExpr => "logical_or_expr"
  | logicalAndExpr => "logical_and_expr"
  | equalityExpr => "equality_expr"
  | comparisonExpr => "comparison_expr"
  | additiveExpr => "additive_expr"
  | multiplicativeExpr => "multiplicative_expr"
  | unaryExpr => "unary_expr"
  | callExpr => "call_expr"
  | callSuffix => "call_suffix"
  | memberSuffix => "member_suffix"
  | indexSuffix => "index_suffix"
  | argList => "arg_list"
  | primary => "primary"
  | literal => "literal"
  | arrayLit => "array_lit"
  | objectLit => "object_lit"
  | property => "property"
  | opOr => "op_or"
  | opAnd => "op_and"
  | opEq => "op_eq"
  | opNe => "op_ne"
  | opLte => "op_lte"
  | opGte => "op_gte"
  | opLt => "op_lt"
  | opGt => "op_gt"
  | opAdd => "op_add"
  | opSub => "op_sub"
  | opMul => "op_mul"
  | opDiv => "op_div"
  | opMod => "op_mod"
  | opNot => "op_not"
  | opNeg => "op_neg"
  | number => "number"
  | string => "string"
  | stringContent => "string_content"
  | boolean => "boolean"
  | nullLit => "null_lit"
  | keyword => "keyword"
  | identifier => "identifier"

end Rule

/-- How blanks and inner rules are treated below a rule: `spaced` skips blanks between
the parts of a sequence, `joined` does not, and `atomic` also hides inner rules. -/
inductive Spacing where
  | spaced
  | joined
  | atomic
  deriving DecidableEq, Repr

inductive CharClass where
  | any
  | digit
  | letter
  | alphanumeric
  deriving DecidableEq, Repr

/-- The classes of letters and digits hold ASCII characters only. -/
def CharClass.holds : CharClass → Char → Bool
  | any, _ => true
  | digit, c => c.isDigit
  | letter, c => c.isAlpha
  | alphanumeric, c => c.isAlphanum

inductive Pattern where
  /-- These characters. -/
  | text (chars : List Char)
  /-- One character of a class. -/
  | char (charClass : CharClass)
  /-- The start of the input. -/
  | start
  /-- The end of the input. -/
  | finish
  | rule (r : Rule)
  | seq (first second : Pattern)
  /-- The first alternative that matches. -/
  | alt (first second : Pattern)
  | opt (body : Pattern)
  /-- As often as possible. -/
  | many (body : Pattern)
  /-- Nothing, where the body does not match. -/
  | reject (body : Pattern)
  deriving DecidableEq, Repr

namespace Pattern

def lit (s : String) : Pattern := text s.toList

def concat : List Pattern → Pattern
  | [] => text []
  | [p] => p
  | p :: rest => seq p (concat rest)

def choice : List Pattern → Pattern
  | [] => reject (text [])
  | [p] => p
  | p :: rest => alt p (choice rest)

/-- Once or more often. -/
def repeated (p : Pattern) : Pattern := seq p (many p)

/-- Operands of one kind with operators of some kinds between them. -/
def chain (operand : Rule) (operators : List Rule) : Pattern :=
  seq (rule operand) (many (seq (choice (operators.map rule)) (rule operand)))

/-- One or more items with commas between them. -/
def commaList (item : Pattern) : Pattern := seq item (many (seq (lit ",") item))

/-- Items in brackets; a comma may follow the last. -/
def bracketed (opening closing : String) (item : Rule) : Pattern :=
  concat [lit opening, opt (seq (commaList (rule item)) (opt (lit ","))), lit closing]

def wordChar : Pattern := alt (char .alphanumeric) (lit "_")

/-- A word that does not go on. -/
def wholeWord (word : Pattern) : Pattern := seq word (reject wordChar)

end Pattern

open Pattern

/-- The words that no identifier can be. -/
def keywords : List String :=
  ["function", "let", "if", "else", "while", "for", "of", "try", "catch", "throw",
    "return", "break", "continue", "true", "false", "null"]

/-- How a rule treats its inside: `none` leaves it as it is outside. -/
def Rule.spacing : Rule → Option Spacing
  | elseKw | ofKw | opNot | number | stringContent | boolean | nullLit | keyword
  | identifier => some .atomic
  | string => some .joined
  | _ => none

def Rule.pattern : Rule → Pattern
  | endOfInput => finish
  | program => concat [start, many (alt (rule functionDecl) (rule statement)), rule endOfInput]
  | functionDecl => concat [lit "function", rule identifier, lit "(", opt (rule paramList),
      lit ")", rule block]
  | paramList => commaList (rule identifier)
  | statement => seq
      (choice [rule assignStmt, rule block, rule exprStmt, rule declareStmt, rule returnStmt,
        rule ifStmt, rule whileStmt, rule forStmt, rule tryStmt, rule throwStmt,
        rule breakStmt, rule continueStmt])
      (opt (lit ";"))
  | block => concat [lit "\x7b", many (rule statement), lit "\x7d"]
  | declareStmt => concat [lit "let", rule identifier, opt (seq (lit "=") (rule expression))]
  | assignStmt => concat [rule assignTarget, lit "=", reject (lit "="), rule expression]
  | assignTarget => seq (rule identifier) (many (alt (rule memberSuffix) (rule indexSuffix)))
  | exprStmt => rule expression
  | returnStmt => seq (lit "return") (opt (rule expression))
  | ifStmt => concat [lit "if", lit "(", rule expression, lit ")", rule statement,
      opt (seq (rule elseKw) (rule statement))]
  | elseKw => wholeWord (lit "else")
  | whileStmt => concat [lit "while", lit "(", rule expression, lit ")", rule statement]
  | forStmt => concat [lit "for", lit "(", lit "let", rule identifier, rule ofKw,
      rule expression, lit ")", rule statement]
  | ofKw => wholeWord (lit "of")
  | tryStmt => concat [lit "try", rule block, lit "catch", lit "(", rule identifier, lit ")",
      rule block]
  | throwStmt => seq (lit "throw") (rule expression)
  | breakStmt => lit "break"
  | continueStmt => lit "continue"
  | expression => rule logicalOrExpr
  | logicalOrExpr => chain logicalAndExpr [opOr]
  | logicalAndExpr => chain equalityExpr [opAnd]
  | equalityExpr => chain comparisonExpr [opEq, opNe]
  | comparisonExpr => chain additiveExpr [opLte, opGte, opLt, opGt]
  | additiveExpr => chain multiplicativeExpr [opAdd, opSub]
  | multiplicativeExpr => chain unaryExpr [opMul, opDiv, opMod]
  | unaryExpr => seq (many (alt (rule opNot) (rule opNeg))) (rule callExpr)
  | callExpr => seq (rule primary)
      (many (choice [rule callSuffix, rule memberSuffix, rule indexSuffix]))
  | callSuffix => concat [lit "(", opt (rule argList), lit ")"]
  | memberSuffix => seq (lit ".") (rule identifier)
  | indexSuffix => concat [lit "[", rule expression, lit "]"]
  | argList => commaList (rule expression)
  | primary => choice [rule literal, rule identifier, concat [lit "(", rule expression, lit ")"]]
  | literal => choice [rule number, rule string, rule boolean, rule nullLit, rule arrayLit,
      rule objectLit]
  | arrayLit => bracketed "[" "]" expression
  | objectLit => bracketed "\x7b" "\x7d" property
  | property => concat [alt (rule identifier) (rule string), lit ":", rule expression]
  | opOr => lit "||"
  | opAnd => lit "&&"
  | opEq => lit "=="
  | opNe => lit "!="
  | opLte => lit "<="
  | opGte => lit ">="
  | opLt => lit "<"
  | opGt => lit ">"
  | opAdd => lit "+"
  | opSub => lit "-"
  | opMul => lit "*"
  | opDiv => lit "/"
  | opMod => lit "%"
  | opNot => seq (lit "!") (reject (lit "="))
  | opNeg => lit "-"
  | number => concat [repeated (char .digit),
      opt (seq (lit ".") (repeated (char .digit))),
      opt (concat [alt (lit "e") (lit "E"), opt (alt (lit "+") (lit "-")),
        repeated (char .digit)])]
  | string => concat [lit "\"", rule stringContent, lit "\""]
  | stringContent => many (alt (seq (lit "\\") (char .any))
      (seq (reject (alt (lit "\"") (lit "\\"))) (char .any)))
  | boolean => wholeWord (alt (lit "true") (lit "false"))
  | nullLit => wholeWord (lit "null")
  | keyword => wholeWord (choice (keywords.map lit))
  | identifier => concat [reject (rule keyword), alt (char .letter) (lit "_"), many wordChar]

end Script
end FrameScript
