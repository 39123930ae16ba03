/-
Literals: numbers, strings, templates, patterns, arrays and objects.
-/
import ApiDoc.Script.Grammar

namespace ApiDoc
namespace Script

def tokenLiteral (kind : Code.LiteralKind) (shape : Shape) : Parser Expr := do
  let t ← advance
  exprFrom t.start shape fun text =>
    .literal kind (if kind == .number then text else t.text) text

def patternLiteral : Parser Expr := do
  let t ← token
  match pattern? t.start.rest with
  | none => failure
  | some count =>
    resume (t.start.forward count) ""
    exprFrom t.start .other fun text => .literal .pattern text text

structure TemplateParts where
  /-- Where the next piece starts, unless the template is complete. -/
  next? : Option Cursor
  text : Option (List Char) := some []
  isPlain : Bool := true
  nodes : List Code.Node := []

def templatePart (g : Grammar) (ctx : Context) (s : TemplateParts) :
    Parser (Option TemplateParts) := do
  match s.next? with
  | none => return none
  | some place =>
    match templateChunk? place.rest with
    | none => failure
    | some (chunk, count) =>
      let stop := place.forward count
      let text := s.text.bind fun a => chunk.text.map fun b => a ++ b
      resume stop ""
      if chunk.opensSubstitution then
        let e ← expression g ctx.withIn
        let t ← token
        need (t.isMark "\x7d")
        return some { next? := some t.stop, text, isPlain := false, nodes := s.nodes ++ [e.node] }
      else return some { s with next? := none, text }

def template (g : Grammar) (ctx : Context) : Parser TemplateParts := do
  let t ← token
  iterate (templatePart g ctx) { next? := some t.stop }

def templateLiteral (g : Grammar) (ctx : Context) : Parser Expr := do
  let t ← token
  let parts ← template g ctx
  match parts.text with
  | none => failure
  | some text =>
    let shape := if parts.isPlain then .template (String.ofList text) else .other
    exprFrom t.start shape fun raw => .other raw parts.nodes

/-! ## Arrays -/

structure Element where
  node : Code.Node
  comment : Option String
  /-- Whether the element can stand in a pattern. -/
  isTarget : Bool

/-- Three dots with an expression behind them, in which comments document nothing. -/
def spread (g : Grammar) (ctx : Context) : Parser (Code.Node × Expr) := do
  let t ← token
  expect "..."
  let e ← undocumented (g.assignment ctx.withIn)
  return (.other (← textFrom t.start) [], e)

def element (g : Grammar) (ctx : Context) : Parser Element := do
  let t ← token
  let comment := t.lineComment?
  if t.isMark "," then
    expect ","
    return { node := .other "," [], comment, isTarget := true }
  else
    let (node, isTarget) ← do
      if t.isMark "..." then
        let (node, e) ← spread g ctx
        pure (node, e.isTarget && (← atMark "]"))
      else
        let e ← g.assignment ctx.withIn
        pure (e.node, e.isElement)
    unless ← atMark "]" do expect ","
    return { node, comment, isTarget }

def arrayLiteral (g : Grammar) (ctx : Context) : Parser Expr := do
  let t ← token
  expect "["
  let elements ← many do
    if ← atMark "]" then return none else return some (← element g ctx)
  expect "]"
  let shape := if elements.all Element.isTarget then .pattern else .other
  exprFrom t.start shape fun raw =>
    .array (elements.map Element.node) (elements.map Element.comment) raw

/-! ## Objects -/

structure Key where
  name? : Option String
  /-- The key can stand for a variable of its name. -/
  isVariable : Bool := false

def computedName? (e : Expr) : Option String :=
  if e.isParenthesized then none
  else
    match e.shape, e.node with
    | .string, .literal _ value _ => some value
    | .number, .literal _ _ raw => some (numberKey raw)
    | .template text, _ => some text
    | _, _ => none

def key (g : Grammar) (ctx : Context) : Parser Key := do
  let t ← token
  match t.kind with
  | .name =>
    let _ ← advance
    return { name? := some t.text, isVariable := isName ctx t }
  | .string =>
    let _ ← advance
    return { name? := some t.text }
  | .number =>
    let _ ← advance
    return { name? := some (numberKey t.text) }
  | .bigNumber =>
    let _ ← advance
    return { name? := none }
  | _ =>
    expect "["
    let e ← undocumented (g.assignment ctx.withIn)
    expect "]"
    return { name? := computedName? e }

def startsKey (t : Token) : Bool :=
  t.kind == .name || t.kind == .string || t.kind == .number || t.kind == .bigNumber
    || t.kind == .privateName || t.isMark "["

def modifier (word : String) : Parser Bool := do
  let found ← attempt do
    expectWord word
    let t ← token
    if word == "async" then need (!t.isOnNewLine && (startsKey t || t.isMark "*"))
    else need (startsKey t)
  return found.isSome

structure Modifiers where
  isAsync : Bool
  isGenerator : Bool
  /-- How many parameters an accessor has: none to get a value, and one to set it. -/
  accessorArity : Option Nat

def Modifiers.any (m : Modifiers) : Bool :=
  m.isAsync || m.isGenerator || m.accessorArity.isSome

def modifiers : Parser Modifiers := do
  let isAsync ← modifier "async"
  let isGenerator ← eat "*"
  let accessorArity ← do
    if isAsync || isGenerator then pure none
    else if ← modifier "get" then pure (some 0)
    else if ← modifier "set" then pure (some 1)
    else pure none
  return { isAsync, isGenerator, accessorArity }

def Modifiers.fit (m : Modifiers) (params : List String) : Bool :=
  m.accessorArity.all (· == params.length)

def method (g : Grammar) (m : Modifiers) : Parser Code.Node := do
  if m.accessorArity.isSome then
    let next ← peek do
      expect "("
      token
    need (!next.any fun t => t.isMark "...")
  match ← functionRest g none m.isAsync m.isGenerator with
  | .function name params nodes =>
    need (m.fit params)
    return .function name params nodes
  | node => return node

/-- The value of a property, and whether the property can stand in a pattern. -/
def propertyValue (g : Grammar) (ctx : Context) (m : Modifiers) (k : Key) :
    Parser (Code.Node × Bool) := do
  if m.any || (← atMark "(") then
    return (← method g m, false)
  else if ← eat ":" then
    let e ← g.assignment ctx.withIn
    return (e.node, e.isElement)
  else
    need k.isVariable
    if ← eat "=" then
      let _ ← undocumented (g.assignment ctx.withIn)
      modify fun s => { s with openDefaults := s.openDefaults + 1 }
    return (.ident (k.name?.getD ""), true)

/-- A property, if its name is known, and whether it can stand in a pattern. -/
def property (g : Grammar) (ctx : Context) : Parser (Option Code.Property × Bool) := do
  let t ← token
  let s ← get
  if t.isMark "..." then
    let (_, e) ← spread g ctx
    return (none, e.isSimpleTarget && (← atMark "\x7d"))
  else
    let m ← modifiers
    let k ← key g ctx
    let (value, isTarget) ← propertyValue g ctx m k
    match k.name? with
    | none =>
      modify fun now => now.forgetFrom s.docsBefore
      return (none, isTarget)
    | some name =>
      let p : Code.Property :=
        { key := name
          value
          offset := t.start.offset
          line := t.start.line
          isDocumented := !t.docs.isEmpty
          lineComment := t.lineComment? }
      attach t s.docs.length (.property p)
      return (some p, isTarget)

def objectLiteral (g : Grammar) (ctx : Context) : Parser Expr := do
  let t ← token
  expect "\x7b"
  let found ← listUntil "\x7d" (property g ctx)
  let shape := if found.all (·.2) then .pattern else .other
  exprFrom t.start shape fun raw => .object (found.filterMap (·.1)) raw

end Script
end ApiDoc
