/-
Declared names and patterns, and classes, in which comments document nothing.
-/
import ApiDoc.Script.Literal

namespace ApiDoc
namespace Script

def arrayBindingElement (g : Grammar) (ctx : Context) : Parser Unit := do
  if ← eat "..." then
    let _ ← g.binding ctx
    need (← atMark "]")
  else
    unless ← atMark "," do
      let _ ← bindingElement g ctx

def objectBindingProperty (g : Grammar) (ctx : Context) : Parser Unit := do
  if ← eat "..." then
    let _ ← g.binding ctx
    need (← atMark "\x7d")
  else
    let k ← key g ctx
    if ← eat ":" then
      let _ ← bindingElement g ctx
    else
      need k.isVariable
      if ← eat "=" then
        let _ ← g.assignment ctx.withIn

def bindingOf (g : Grammar) (ctx : Context) : Parser (String × Bool) := do
  let t ← token
  if t.isMark "[" then
    expect "["
    let _ ← listUntil "]" (arrayBindingElement g ctx)
    return (← textFrom t.start, true)
  else if t.isMark "\x7b" then
    expect "\x7b"
    let _ ← listUntil "\x7d" (objectBindingProperty g ctx)
    return (← textFrom t.start, true)
  else return (← identifier ctx, false)

/-! ## Classes -/

def memberKey (g : Grammar) (ctx : Context) : Parser Unit := do
  if (← token).kind == .privateName then
    let _ ← advance
  else
    let _ ← key g ctx

def staticModifier : Parser Bool := do
  let found ← attempt do
    expectWord "static"
    let t ← token
    need (startsKey t || t.isMark "*" || t.isMark "\x7b")
  return found.isSome

def classMember (g : Grammar) : Parser Unit := do
  let isStatic ← staticModifier
  if isStatic && (← atMark "\x7b") then
    let _ ← block g {}
  else
    let m ← modifiers
    memberKey g {}
    if m.any || (← atMark "(") then
      let _ ← method g m
    else
      if ← eat "=" then
        let _ ← g.assignment {}
      semicolon

def classRest (g : Grammar) (ctx : Context) (needsName : Bool) : Parser Unit := undocumented do
  expectWord "class"
  let t ← token
  if t.isMark "\x7b" || t.isWord "extends" then need (!needsName)
  else
    let _ ← identifier ctx
  if ← eatWord "extends" then
    let _ ← g.unary ctx.withIn
  expect "\x7b"
  let _ ← many do
    if ← atMark "\x7d" then return none
    else if ← eat ";" then return some ()
    else return some (← classMember g)
  expect "\x7d"

end Script
end ApiDoc
