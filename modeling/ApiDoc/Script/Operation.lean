/-
Operators, conditions, assignments and arrow functions.
-/
import ApiDoc.Script.Access

namespace ApiDoc
namespace Script

/-! ## Operators with one operand -/

def postfixed (g : Grammar) (ctx : Context) : Parser Expr := do
  let docs := (← get).docsBefore
  let e ← accessed g ctx
  let t ← token
  if (t.isMark "++" || t.isMark "--") && !t.isOnNewLine then
    need e.isSimpleTarget
    let _ ← advance
    unseenFrom e.start docs .other
  else return e

def counted (g : Grammar) (ctx : Context) : Parser Expr := do
  let docs := (← get).docsBefore
  let t ← advance
  let e ← g.unary ctx
  need e.isSimpleTarget
  unseenFrom t.start docs .unary

def awaited (g : Grammar) (ctx : Context) : Parser Expr := do
  let docs := (← get).docsBefore
  let t ← advance
  let _ ← g.unary ctx
  unseenFrom t.start docs .unary

/-- A prefix operator with its operand.  The sign of a number belongs to the number. -/
def prefixed (g : Grammar) (ctx : Context) : Parser Expr := do
  let t ← advance
  let e ← g.unary ctx
  let isSigned := t.isMark "-" && e.isBare .number
  exprFrom t.start .unary fun text =>
    if isSigned then .literal .number text text else .other text [e.node]

def isPrefixOperator (t : Token) : Bool :=
  ["+", "-", "~", "!"].any t.isMark || ["delete", "void", "typeof"].any t.isWord

def unaryOf (g : Grammar) (ctx : Context) : Parser Expr := do
  let t ← token
  if isPrefixOperator t then prefixed g ctx
  else if t.isMark "++" || t.isMark "--" then counted g ctx
  else if ctx.isAsync && t.isWord "await" then awaited g ctx
  else postfixed g ctx

/-! ## Operators with two operands -/

def operatorLevels : List (String × Nat) := [
    ("??", 1), ("||", 2), ("&&", 3), ("|", 4), ("^", 5), ("&", 6),
    ("==", 7), ("!=", 7), ("===", 7), ("!==", 7), ("<", 8), (">", 8), ("<=", 8), (">=", 8),
    ("<<", 9), (">>", 9), (">>>", 9), ("+", 10), ("-", 10), ("*", 11), ("/", 11), ("%", 11),
    ("**", 12) ]

def level? (ctx : Context) (t : Token) : Option Nat :=
  if t.kind == .punctuation then operatorLevels.lookup t.text
  else if t.isWord "instanceof" || (t.isWord "in" && ctx.allowsIn) then some 8
  else none

/-- Whether an operator can stand between two operands.  Powers have no sign before them, and `??`
does not mix with the other logical operators. -/
def fits (op : String) (left right : Expr) : Bool :=
  match op with
  | "**" => !left.isBare .unary
  | "??" => !left.isBare .andOr && !right.isBare .andOr
  | "||" | "&&" => !left.isBare .coalesce && !right.isBare .coalesce
  | _ => true

def operationShape (op : String) : Shape :=
  match op with
  | "??" => .coalesce
  | "||" | "&&" => .andOr
  | _ => .other

/-- The operation of two operands.  `docs` is the number of comments before them. -/
def operation (docs : Nat) (op : Token) (left right : Expr) : Parser Expr := do
  need (right.shape != .privateName)
  if left.shape == .privateName then
    need (op.isWord "in")
    unseenFrom left.start docs .other
  else
    need (fits op.text left right)
    exprFrom left.start (operationShape op.text) fun text => .other text [left.node, right.node]

/-- Operands with operators that bind at least as strongly as `least` between them. -/
def binaryOf (g : Grammar) (ctx : Context) (least : Nat) : Parser Expr := do
  let docs := (← get).docsBefore
  let first ← unaryOf g ctx
  let e ← iterate (fun left => do
    let op ← token
    match level? ctx op with
    | none => return none
    | some level =>
      if level < least then return none
      else
        let _ ← advance
        let right ← g.binary ctx (if op.text == "**" then level else level + 1)
        return some (← operation docs op left right)) first
  need (e.shape != .privateName)
  return e

def conditional (g : Grammar) (ctx : Context) : Parser Expr := do
  let test ← binaryOf g ctx 0
  if ← eat "?" then
    let yes ← g.assignment ctx.withIn
    expect ":"
    let no ← g.assignment ctx
    exprFrom test.start .other fun text => .other text [test.node, yes.node, no.node]
  else return test

/-! ## Arrow functions -/

/-- What stands before the body of an arrow function. -/
structure ArrowHead where
  params : List String
  isAsync : Bool

def arrow : Parser Unit := do
  need (!(← token).isOnNewLine)
  expect "=>"

/-- One parameter without parentheses, or parameters in parentheses, and the arrow. -/
def arrowParameters (g : Grammar) (ctx : Context) : Parser (List String) := do
  let params ← do
    if ← atMark "(" then parameters g ctx else pure [← identifier ctx]
  arrow
  return params

def asyncArrowHead (g : Grammar) (ctx : Context) : Parser ArrowHead := do
  expectWord "async"
  need (!(← token).isOnNewLine)
  return { params := ← arrowParameters g { ctx with isAsync := true }, isAsync := true }

def arrowHead? (g : Grammar) (ctx : Context) : Parser (Option ArrowHead) := do
  let t ← token
  if t.isMark "(" || isName ctx t then
    match ← attempt (asyncArrowHead g ctx) with
    | some head => return some head
    | none =>
      let params ← attempt (arrowParameters g ctx)
      return params.map fun params => { params, isAsync := false }
  else return none

/-- The body of an arrow function.  An expression counts as one statement. -/
def arrowBody (g : Grammar) (ctx : Context) (isAsync : Bool) : Parser (List Code.Node) := do
  let inner := Context.ofFunction isAsync false
  if ← atMark "\x7b" then functionBody g inner
  else
    let t ← token
    let docs ← docCount
    let e ← g.assignment { inner with allowsIn := ctx.allowsIn }
    attach t docs e.node
    return [e.node]

/-! ## Assignments -/

def updateMarks : List String :=
  ["+=", "-=", "*=", "/=", "%=", "**=", "<<=", ">>=", ">>>=", "&=", "^=", "|=", "&&=", "||=",
    "??="]

def endsYield (t : Token) : Bool :=
  t.isOnNewLine || t.kind == .finish || [")", "]", "\x7d", ",", ";", ":"].any t.isMark
    || t.isWord "in" || t.isWord "of"

def yielded (g : Grammar) (ctx : Context) : Parser Expr := do
  let docs := (← get).docsBefore
  let t ← advance
  let next ← token
  if !next.isOnNewLine && (← eat "*") then
    let _ ← g.assignment ctx
  else
    unless endsYield next do
      let _ ← g.assignment ctx
  unseenFrom t.start docs .other

/-- An assignment to a target.  Comments in the target document nothing. -/
def assigned (g : Grammar) (ctx : Context) (docs : Nat) (left : Expr) (shape : Shape) :
    Parser Expr := do
  modify fun s => s.forgetFrom docs
  let _ ← advance
  let right ← g.assignment ctx
  exprFrom left.start shape fun _ => .assign left.text right.node

def assignmentOrLess (g : Grammar) (ctx : Context) : Parser Expr := do
  let s ← get
  let left ← conditional g ctx
  let op ← token
  if op.isMark "=" then
    need left.isTarget
    modify fun now => { now with openDefaults := s.openDefaults }
    assigned g ctx s.docsBefore left .defaulted
  else if updateMarks.any op.isMark then
    need left.isSimpleTarget
    assigned g ctx s.docsBefore left .other
  else return left

/-- An expression without commas. -/
def assignmentOf (g : Grammar) (ctx : Context) : Parser Expr := do
  let t ← token
  if ctx.isGenerator && t.isWord "yield" then yielded g ctx
  else
    match ← arrowHead? g ctx with
    | some head =>
      let nodes ← arrowBody g ctx head.isAsync
      exprFrom t.start .other fun _ => .function none head.params nodes
    | none => assignmentOrLess g ctx

end Script
end ApiDoc
