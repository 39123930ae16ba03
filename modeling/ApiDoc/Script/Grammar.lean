/-
What the rules of the grammar share: what an expression can become, what the place of an expression
allows, and the rules that other rules lead back to.

The rules are written against a `Grammar`, a record of rules for what is nested deeper.  A grammar for
any depth is then built from one for a smaller depth.
-/
import ApiDoc.Script.Parser

namespace ApiDoc
namespace Script

structure Context where
  /-- `in` is an operator. -/
  allowsIn : Bool := true
  allowsReturn : Bool := false
  /-- `yield` is a keyword. -/
  isGenerator : Bool := false
  /-- `await` is a keyword. -/
  isAsync : Bool := false
  deriving DecidableEq, Repr, Inhabited

def Context.withIn (ctx : Context) : Context := { ctx with allowsIn := true }

def Context.ofFunction (isAsync isGenerator : Bool) : Context :=
  { allowsReturn := true, isGenerator, isAsync }

inductive Shape where
  | name
  | member
  /-- An object or an array that can stand for a pattern. -/
  | pattern
  /-- An assignment, which can stand for a target with a default value. -/
  | defaulted
  | string
  | number
  /-- A template without substitutions. -/
  | template (text : String)
  | unary
  /-- `&&` or `||` with its operands. -/
  | andOr
  | coalesce
  /-- A private name, which only `in` can follow. -/
  | privateName
  | other
  deriving DecidableEq, Repr, Inhabited

structure Expr where
  node : Code.Node
  shape : Shape := .other
  start : Cursor
  stop : Cursor
  /-- The text inside of all parentheses. -/
  text : String
  isParenthesized : Bool := false
  deriving Repr, Inhabited

namespace Expr

def isBare (e : Expr) (shape : Shape) : Bool := e.shape == shape && !e.isParenthesized

def isSimpleTarget (e : Expr) : Bool := e.shape == .name || e.shape == .member

def isTarget (e : Expr) : Bool := e.isSimpleTarget || e.isBare .pattern

def isElement (e : Expr) : Bool := e.isTarget || e.isBare .defaulted

end Expr

def exprFrom (start : Cursor) (shape : Shape) (node : String → Code.Node) : Parser Expr := do
  let stop ← lastStop
  let text := start.textTo stop
  return { node := node text, shape, start, stop, text }

/-- An expression of no interest, in which comments document nothing.  `docs` is the number of
comments before it. -/
def unseenFrom (start : Cursor) (docs : Nat) (shape : Shape) : Parser Expr := do
  modify fun s => s.forgetFrom docs
  exprFrom start shape fun text => .other text []

structure Grammar where
  assignment : Context → Parser Expr
  unary : Context → Parser Expr
  /-- Operators that bind at least as strongly as a level. -/
  binary : Context → Nat → Parser Expr
  callee : Context → Parser Expr
  /-- The text of a declared name or pattern, and whether it is a pattern. -/
  binding : Context → Parser (String × Bool)
  statement : Context → Bool → Parser Code.Node

def Grammar.empty : Grammar :=
  { assignment := fun _ => failure
    unary := fun _ => failure
    binary := fun _ _ => failure
    callee := fun _ => failure
    binding := fun _ => failure
    statement := fun _ _ => failure }

/-! ## Names -/

def reservedWords : List String := [
    "break", "case", "catch", "class", "const", "continue", "debugger", "default", "delete", "do",
    "else", "enum", "export", "extends", "false", "finally", "for", "function", "if", "import",
    "in", "instanceof", "new", "null", "return", "super", "switch", "this", "throw", "true", "try",
    "typeof", "var", "void", "while", "with" ]

def isName (ctx : Context) (t : Token) : Bool :=
  t.kind == .name && !reservedWords.contains t.text && !(ctx.isGenerator && t.text == "yield")
    && !(ctx.isAsync && t.text == "await")

def identifier (ctx : Context) : Parser String := do
  let t ← advance
  need (isName ctx t)
  return t.text

def anyName : Parser String := do
  let t ← advance
  need (t.kind == .name)
  return t.text

/-! ## Expressions and lists of statements -/

def expression (g : Grammar) (ctx : Context) : Parser Expr := do
  let first ← g.assignment ctx
  let others ← many do
    if ← eat "," then return some (← g.assignment ctx) else return none
  match others with
  | [] => return first
  | others => exprFrom first.start .other fun text => .other text (first.node :: others.map Expr.node)

def statements (g : Grammar) (ctx : Context) : Parser (List Code.Node) := many do
  let t ← token
  if t.isMark "\x7d" || t.kind == .finish then return none
  else return some (← g.statement ctx false)

def block (g : Grammar) (ctx : Context) : Parser (List Code.Node) := do
  expect "\x7b"
  let body ← statements g ctx
  expect "\x7d"
  return body

/-- A statement that consists of a string.  At the start of a body it is no code. -/
def directive (g : Grammar) (ctx : Context) : Parser (Option Unit) := do
  if (← token).kind != .string then return none
  attempt do
    let e ← undocumented (expression g ctx)
    need (e.isBare .string)
    semicolon

def body (g : Grammar) (ctx : Context) : Parser (List Code.Node) := do
  let _ ← many (directive g ctx)
  statements g ctx

def functionBody (g : Grammar) (ctx : Context) : Parser (List Code.Node) := do
  expect "\x7b"
  let nodes ← body g ctx
  expect "\x7d"
  return nodes

/-! ## Functions -/

def bindingElement (g : Grammar) (ctx : Context) : Parser String := do
  let b ← g.binding ctx
  if ← eat "=" then
    let _ ← g.assignment ctx.withIn
  return b.1

/-- A parameter.  One that takes all remaining arguments is the last. -/
def parameter (g : Grammar) (ctx : Context) : Parser String := do
  if ← eat "..." then
    let b ← g.binding ctx
    need (← atMark ")")
    return b.1
  else bindingElement g ctx

/-- Parameters in parentheses.  Comments in them document nothing. -/
def parameters (g : Grammar) (ctx : Context) : Parser (List String) := undocumented do
  expect "("
  listUntil ")" (parameter g ctx)

def functionRest (g : Grammar) (name : Option String) (isAsync isGenerator : Bool) :
    Parser Code.Node := do
  let ctx := Context.ofFunction isAsync isGenerator
  let params ← parameters g ctx
  let nodes ← functionBody g ctx
  return .function name params nodes

def function (g : Grammar) (ctx : Context) (isAsync needsName : Bool) : Parser Code.Node := do
  expectWord "function"
  let isGenerator ← eat "*"
  let t ← token
  if t.isMark "(" then
    need (!needsName)
    functionRest g none isAsync isGenerator
  else
    let name ← identifier ctx
    functionRest g (some name) isAsync isGenerator

def atAsyncFunction : Parser Bool := do
  if ← atWord "async" then
    let next ← peek do
      let _ ← advance
      token
    return next.any fun t => t.isWord "function" && !t.isOnNewLine
  else return false

def anyFunction (g : Grammar) (ctx : Context) (needsName : Bool) : Parser Code.Node := do
  let isAsync ← eatWord "async"
  function g ctx isAsync needsName

end Script
end ApiDoc
