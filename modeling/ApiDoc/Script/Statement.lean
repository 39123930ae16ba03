/-
Statements.
-/
import ApiDoc.Script.Operation

namespace ApiDoc
namespace Script

def otherFrom (t : Token) (children : List Code.Node) : Parser Code.Node :=
  return .other (← textFrom t.start) children

def condition (g : Grammar) (ctx : Context) : Parser Code.Node := do
  expect "("
  let e ← expression g ctx.withIn
  expect ")"
  return e.node

/-! ## Variables -/

structure Declarator where
  name : String
  isPattern : Bool
  init : Option Code.Node

def Declarator.node (d : Declarator) : Code.Node := .var d.name d.init

def declarator (g : Grammar) (ctx : Context) : Parser Declarator := do
  let (name, isPattern) ← undocumented (g.binding ctx)
  if ← eat "=" then
    let e ← g.assignment ctx
    return { name, isPattern, init := some e.node }
  else return { name, isPattern, init := none }

def declarators (g : Grammar) (ctx : Context) : Parser (List Declarator) := do
  let first ← declarator g ctx
  let others ← many do
    if ← eat "," then return some (← declarator g ctx) else return none
  return first :: others

def areComplete (keyword : String) (ds : List Declarator) : Bool :=
  ds.all fun d => d.init.isSome || (keyword != "const" && !d.isPattern)

/-- Whether a declaration of variables starts here.  `let` can also be a name. -/
def atDeclaration : Parser Bool := do
  let t ← token
  if t.isWord "var" || t.isWord "const" then return true
  else if t.isWord "let" then
    let next ← peek do
      let _ ← advance
      token
    return next.any fun n =>
      n.isMark "[" || n.isMark "\x7b"
        || (n.kind == .name && !n.isWord "in" && !n.isWord "instanceof")
  else return false

/-- One variable is itself; several are a block. -/
def declarationNode (ds : List Declarator) : Code.Node :=
  match ds with
  | [d] => d.node
  | ds => .block (ds.map Declarator.node)

def declaration (g : Grammar) (ctx : Context) : Parser Code.Node := do
  let keyword ← advance
  let ds ← declarators g ctx
  need (areComplete keyword.text ds)
  semicolon
  return declarationNode ds

/-! ## Loops -/

def loopBody (g : Grammar) (ctx : Context) (isDoWhile : Bool) (header : List Code.Node) :
    Parser Code.Node :=
  return .loop isDoWhile header (← g.statement ctx true)

def whileLoop (g : Grammar) (ctx : Context) : Parser Code.Node := do
  expectWord "while"
  let test ← condition g ctx
  loopBody g ctx false [test]

def doLoop (g : Grammar) (ctx : Context) : Parser Code.Node := do
  expectWord "do"
  let body ← g.statement ctx true
  expectWord "while"
  let test ← condition g ctx
  let _ ← eat ";"
  return .loop true [test] body

def eachLoop (g : Grammar) (ctx : Context) : Parser Code.Node := do
  let word ← advance
  let e ← if word.text == "of" then g.assignment ctx else expression g ctx
  expect ")"
  loopBody g ctx false [e.node]

def expressionUnless (g : Grammar) (ctx : Context) (mark : String) :
    Parser (Option Code.Node) := do
  if ← atMark mark then return none else return some (← expression g ctx).node

def countingLoop (g : Grammar) (ctx : Context) : Parser Code.Node := do
  expect ";"
  let test ← expressionUnless g ctx ";"
  expect ";"
  let update ← expressionUnless g ctx ")"
  expect ")"
  loopBody g ctx false (test.toList ++ update.toList)

def atEach : Parser Bool := return (← atWord "of") || (← atWord "in")

def declaringLoop (g : Grammar) (ctx : Context) : Parser Code.Node := do
  let keyword ← advance
  let ds ← undocumented (declarators g { ctx with allowsIn := false })
  if ← atEach then eachLoop g ctx
  else
    need (areComplete keyword.text ds)
    countingLoop g ctx

def evaluatingLoop (g : Grammar) (ctx : Context) : Parser Code.Node := do
  let s ← get
  let e ← undocumented (expression g { ctx with allowsIn := false })
  if ← atEach then
    need e.isTarget
    modify fun now => { now with openDefaults := s.openDefaults }
    eachLoop g ctx
  else countingLoop g ctx

def forLoop (g : Grammar) (ctx : Context) : Parser Code.Node := do
  expectWord "for"
  if ctx.isAsync then
    let _ ← eatWord "await"
  expect "("
  let inner := ctx.withIn
  if ← atMark ";" then countingLoop g inner
  else if ← atDeclaration then declaringLoop g inner
  else evaluatingLoop g inner

/-! ## Branches and jumps -/

def branch (g : Grammar) (ctx : Context) : Parser Code.Node := do
  expectWord "if"
  let test ← condition g ctx
  let yes ← g.statement ctx true
  if ← eatWord "else" then return .branch test yes (some (← g.statement ctx true))
  else return .branch test yes none

def jump (ctx : Context) : Parser Code.Node := do
  let t ← advance
  let next ← token
  if isName ctx next && !next.isOnNewLine then
    let _ ← advance
  semicolon
  otherFrom t []

def atStatementEnd : Parser Bool := do
  let t ← token
  return t.isMark ";" || t.isMark "\x7d" || t.kind == .finish || t.isOnNewLine

def returned (g : Grammar) (ctx : Context) : Parser Code.Node := do
  need ctx.allowsReturn
  expectWord "return"
  if ← atStatementEnd then
    semicolon
    return .returned none
  else
    let e ← expression g ctx
    semicolon
    return .returned (some e.node)

def thrown (g : Grammar) (ctx : Context) : Parser Code.Node := do
  let t ← token
  expectWord "throw"
  need (!(← token).isOnNewLine)
  let e ← expression g ctx
  semicolon
  otherFrom t [e.node]

def handler (g : Grammar) (ctx : Context) : Parser (List Code.Node) := do
  if ← eat "(" then
    let _ ← undocumented (g.binding ctx)
    expect ")"
  block g ctx

def tried (g : Grammar) (ctx : Context) : Parser Code.Node := do
  let t ← token
  expectWord "try"
  let body ← block g ctx
  let caught ← do
    if ← eatWord "catch" then pure (some (← handler g ctx)) else pure none
  let finished ← do
    if ← eatWord "finally" then pure (some (← block g ctx)) else pure none
  need (caught.isSome || finished.isSome)
  otherFrom t (body ++ caught.getD [] ++ finished.getD [])

def switchCase (g : Grammar) (ctx : Context) : Parser (List Code.Node) := do
  let test ← do
    if ← eatWord "default" then pure none
    else
      expectWord "case"
      pure (some (← expression g ctx).node)
  expect ":"
  let body ← many do
    let t ← token
    if t.isMark "\x7d" || t.isWord "case" || t.isWord "default" then return none
    else return some (← g.statement ctx false)
  return test.toList ++ body

def switch (g : Grammar) (ctx : Context) : Parser Code.Node := do
  let t ← token
  expectWord "switch"
  let value ← condition g ctx
  expect "\x7b"
  let cases ← many do
    if ← atMark "\x7d" then return none else return some (← switchCase g ctx.withIn)
  expect "\x7d"
  otherFrom t (value :: cases.flatten)

def withStatement (g : Grammar) (ctx : Context) : Parser Code.Node := undocumented do
  let t ← token
  expectWord "with"
  let _ ← condition g ctx
  let _ ← g.statement ctx true
  otherFrom t []

def debugger : Parser Code.Node := do
  let t ← advance
  semicolon
  otherFrom t []

/-! ## Imports and exports -/

def sharedName : Parser Unit := do
  let t ← advance
  need (t.kind == .name || t.kind == .string)

/-- `name` or `name as name`. -/
def sharedPair : Parser Unit := do
  sharedName
  if ← eatWord "as" then sharedName

def sharedList : Parser Unit := do
  expect "\x7b"
  let _ ← listUntil "\x7d" sharedPair

def source : Parser Unit := do
  let t ← advance
  need (t.kind == .string)
  if ← eatWord "with" then
    expect "\x7b"
    let _ ← listUntil "\x7d" do
      sharedName
      expect ":"
      let value ← advance
      need (value.kind == .string)

def importedNames (ctx : Context) : Parser Unit := do
  if ← eat "*" then
    expectWord "as"
    let _ ← identifier ctx
  else sharedList

def importClause (ctx : Context) : Parser Unit := do
  if isName ctx (← token) then
    let _ ← advance
    if ← eat "," then importedNames ctx
  else importedNames ctx

def importStatement (ctx : Context) : Parser Code.Node := do
  let t ← token
  expectWord "import"
  if (← token).kind == .string then source
  else
    importClause ctx
    expectWord "from"
    source
  semicolon
  otherFrom t []

def atFunction : Parser Bool := return (← atWord "function") || (← atAsyncFunction)

def defaultExport (g : Grammar) (ctx : Context) : Parser Unit := do
  if ← atFunction then
    let _ ← anyFunction g ctx false
  else if ← atWord "class" then classRest g ctx false
  else
    let _ ← g.assignment ctx
    semicolon

def exportStatement (g : Grammar) (ctx : Context) : Parser Code.Node := undocumented do
  let t ← token
  expectWord "export"
  if ← eatWord "default" then defaultExport g ctx
  else if ← eat "*" then
    if ← eatWord "as" then sharedName
    expectWord "from"
    source
    semicolon
  else if ← atMark "\x7b" then
    sharedList
    if ← eatWord "from" then source
    semicolon
  else
    need ((← atDeclaration) || (← atFunction) || (← atWord "class"))
    let _ ← g.statement ctx false
  otherFrom t []

/-! ## All statements -/

def atLabel (ctx : Context) : Parser Bool := do
  if isName ctx (← token) then
    let next ← peek do
      let _ ← advance
      token
    return next.any fun t => t.isMark ":"
  else return false

def labeled (g : Grammar) (ctx : Context) : Parser Code.Node := do
  let t ← advance
  expect ":"
  let node ← g.statement ctx true
  otherFrom t [node]

def expressionStatement (g : Grammar) (ctx : Context) : Parser Code.Node := do
  let e ← expression g ctx
  semicolon
  return e.node

def classDeclaration (g : Grammar) (ctx : Context) : Parser Code.Node := do
  let t ← token
  classRest g ctx true
  otherFrom t []

def atImport : Parser Bool := do
  if ← atWord "import" then
    let next ← peek do
      let _ ← advance
      token
    return next.any fun t => !t.isMark "(" && !t.isMark "."
  else return false

def wordStatement (g : Grammar) (ctx : Context) (word : String) : Parser Code.Node :=
  match word with
  | "if" => branch g ctx
  | "for" => forLoop g ctx
  | "while" => whileLoop g ctx
  | "do" => doLoop g ctx
  | "break" => jump ctx
  | "continue" => jump ctx
  | "return" => returned g ctx
  | "throw" => thrown g ctx
  | "try" => tried g ctx
  | "switch" => switch g ctx
  | "with" => withStatement g ctx
  | "debugger" => debugger
  | "export" => exportStatement g ctx
  | _ => expressionStatement g ctx

/-- Whether a function starts here that is neither asynchronous nor a generator. -/
def atPlainFunction : Parser Bool := do
  let next ← peek do
    expectWord "function"
    token
  return next.any fun t => !t.isMark "*"

/-- A statement.  Where only a single one is allowed, it cannot declare a class, a name that is bound
to its block, or a function of a special kind. -/
def statementNode (g : Grammar) (ctx : Context) (isSingle : Bool) : Parser Code.Node := do
  let t ← token
  if t.isMark "\x7b" then return .block (← block g ctx)
  else if t.isMark ";" then
    expect ";"
    otherFrom t []
  else if ← atDeclaration then
    need (!isSingle || t.isWord "var")
    declaration g ctx
  else if ← atFunction then
    need (!isSingle || (← atPlainFunction))
    anyFunction g ctx true
  else if t.isWord "class" then
    need (!isSingle)
    classDeclaration g ctx
  else if ← atImport then importStatement ctx
  else if ← atLabel ctx then labeled g ctx
  else wordStatement g ctx (if t.kind == .name && t.isPlain then t.text else "")

def statementOf (g : Grammar) (ctx : Context) (isSingle : Bool) : Parser Code.Node := do
  let t ← token
  let docs ← docCount
  let node ← statementNode g ctx.withIn isSingle
  attach t docs node
  return node

end Script
end ApiDoc
