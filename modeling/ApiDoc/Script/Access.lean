/-
Primary expressions and what can be appended to them: accesses, calls, templates and `new`.
-/
import ApiDoc.Script.Binding

namespace ApiDoc
namespace Script

/-- An expression in parentheses.  The parentheses show only where the expression starts and ends. -/
def parenthesized (g : Grammar) (ctx : Context) : Parser Expr := do
  let t ← token
  expect "("
  let e ← expression g ctx.withIn
  expect ")"
  return { e with start := t.start, stop := ← lastStop, isParenthesized := true }

def word (node : Code.Node) : Parser Expr := do
  let t ← advance
  exprFrom t.start .other fun _ => node

def superWord : Parser Expr := do
  let t ← advance
  need ((← atMark ".") || (← atMark "[") || (← atMark "("))
  exprFrom t.start .other fun text => .other text []

def importExpression (g : Grammar) (ctx : Context) : Parser Expr := do
  let t ← token
  let docs := (← get).docsBefore
  expectWord "import"
  if ← eat "." then expectWord "meta"
  else
    expect "("
    let args ← listUntil ")" (g.assignment ctx.withIn)
    need (!args.isEmpty)
  unseenFrom t.start docs .other

/-- A function or a class as an expression.  The name of the function is for itself alone. -/
def functionExpression (g : Grammar) (ctx : Context) : Parser Expr := do
  let t ← token
  let node ← anyFunction g ctx false
  exprFrom t.start .other fun _ =>
    match node with
    | .function _ params body => .function none params body
    | node => node

def classExpression (g : Grammar) (ctx : Context) : Parser Expr := do
  let t ← token
  classRest g ctx false
  exprFrom t.start .other fun text => .other text []

def named (g : Grammar) (ctx : Context) : Parser Expr := do
  let t ← token
  if ← atAsyncFunction then functionExpression g ctx
  else if !t.isPlain then
    let name ← identifier ctx
    exprFrom t.start .name fun _ => .ident name
  else
    match t.text with
    | "this" => word .this
    | "null" => tokenLiteral .null .other
    | "true" => tokenLiteral .boolean .other
    | "false" => tokenLiteral .boolean .other
    | "function" => functionExpression g ctx
    | "class" => classExpression g ctx
    | "super" => superWord
    | "import" => importExpression g ctx
    | _ =>
      let name ← identifier ctx
      exprFrom t.start .name fun _ => .ident name

def primary (g : Grammar) (ctx : Context) : Parser Expr := do
  let t ← token
  match t.kind with
  | .name => named g ctx
  | .number => tokenLiteral .number .number
  | .string => tokenLiteral .string .string
  | .bigNumber =>
    let _ ← advance
    exprFrom t.start .other fun text => .other text []
  | .privateName =>
    let _ ← advance
    exprFrom t.start .privateName fun text => .other text []
  | .finish => failure
  | .punctuation =>
    match t.text with
    | "(" => parenthesized g ctx
    | "[" => arrayLiteral g ctx
    | "\x7b" => objectLiteral g ctx
    | "\x60" => templateLiteral g ctx
    | "/" => patternLiteral
    | "/=" => patternLiteral
    | _ => failure

def argument (g : Grammar) (ctx : Context) : Parser (Code.Node × Bool) := do
  if ← atMark "..." then return ((← spread g ctx).1, true)
  else return ((← g.assignment ctx.withIn).node, false)

def arguments (g : Grammar) (ctx : Context) : Parser (List (Code.Node × Bool)) := do
  expect "("
  listUntil ")" (argument g ctx)

def access (docs : Nat) (e : Expr) : Parser Expr := do
  if (← token).kind == .privateName then
    let _ ← advance
    unseenFrom e.start docs .member
  else
    let name ← anyName
    exprFrom e.start .member fun text => .member e.node name text

def indexing (g : Grammar) (ctx : Context) (e : Expr) : Parser Expr := do
  expect "["
  let i ← expression g ctx.withIn
  expect "]"
  exprFrom e.start .member fun text => .other text [e.node, i.node]

def call (g : Grammar) (ctx : Context) (e : Expr) : Parser Expr := do
  let args ← arguments g ctx
  exprFrom e.start .other fun text => .call e.node (args.map (·.1)) text

def tagged (g : Grammar) (ctx : Context) (docs : Nat) (e : Expr) : Parser Expr := do
  let _ ← template g ctx
  unseenFrom e.start docs .other

def conditionalAccess (g : Grammar) (ctx : Context) (docs : Nat) (e : Expr) : Parser Expr := do
  expect "?."
  let t ← token
  if t.isMark "(" then call g ctx e
  else if t.isMark "[" then indexing g ctx e
  else access docs e

/-- An expression with everything that is appended to it.  `docs` is the number of comments before
it.  As soon as one of the accesses is conditional, the whole is of no interest. -/
def appended (g : Grammar) (ctx : Context) (allowsCalls : Bool) (docs : Nat) (e : Expr) :
    Parser Expr := do
  let found ← iterate (fun (s : Expr × Bool) => do
    let (e, isConditional) := s
    let t ← token
    if t.isMark "." then
      expect "."
      return some (← access docs e, isConditional)
    else if t.isMark "[" then return some (← indexing g ctx e, isConditional)
    else if t.isMark "\x60" then
      need (!isConditional)
      return some (← tagged g ctx docs e, isConditional)
    else if allowsCalls && t.isMark "(" then return some (← call g ctx e, isConditional)
    else if allowsCalls && t.isMark "?." then
      return some (← conditionalAccess g ctx docs e, true)
    else return none) (e, false)
  if found.2 then unseenFrom e.start docs .other else return found.1

def newExpression (g : Grammar) (ctx : Context) : Parser Expr := do
  let t ← token
  expectWord "new"
  if ← eat "." then
    expectWord "target"
    exprFrom t.start .other fun text => .other text []
  else
    need !(← atWord "import")
    let callee ← g.callee ctx
    if ← atMark "(" then
      let args ← arguments g ctx
      let plain := (args.filter fun a => !a.2).map (·.1)
      exprFrom t.start .other fun text => .other text (callee.node :: plain)
    else
      need !(← atMark "?.")
      exprFrom t.start .other fun text => .other text [callee.node]

def constructed (g : Grammar) (ctx : Context) : Parser Expr := do
  if ← atWord "new" then newExpression g ctx else primary g ctx

def calleeOf (g : Grammar) (ctx : Context) : Parser Expr := do
  let docs := (← get).docsBefore
  appended g ctx false docs (← constructed g ctx)

def accessed (g : Grammar) (ctx : Context) : Parser Expr := do
  let docs := (← get).docsBefore
  appended g ctx true docs (← constructed g ctx)

end Script
end ApiDoc
