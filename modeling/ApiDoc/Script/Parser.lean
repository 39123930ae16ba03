/-
Parsers of scripts: state, basic steps and loops.

A parser sees one token ahead.  The state is a value, so an attempt that fails leaves nothing behind.
Documentation comments are collected in their order while tokens are read, and get their code when the
construct that starts at the token behind them is complete.
-/
import ApiDoc.Entry.Source
import ApiDoc.Script.Token

namespace ApiDoc
namespace Script

structure State where
  token : Token
  /-- The end of the token before. -/
  lastStop : Cursor
  docs : List SourceDoc := []
  /-- How many of them do not belong to the next token. -/
  docsBefore : Nat := 0
  /-- How many `\x7ba = 1\x7d` there are outside of patterns. -/
  openDefaults : Nat := 0
  deriving Repr, Inhabited

abbrev Parser := StateT State Option

/-- The documentation comment in a remark: a block with a star in front and not only stars. -/
def Remark.doc? (r : Remark) : Option SourceDoc :=
  match r.text.toList with
  | '*' :: content =>
    if r.isLine || content.all (· == '*') then none
    else some { comment := String.ofList content, line := r.line }
  | _ => none

namespace Token

def docs (t : Token) : List SourceDoc := t.remarks.filterMap Remark.doc?

def lineComment? (t : Token) : Option String :=
  match t.remarks.filter Remark.isLine with
  | [] => none
  | lines => some (Text.joinStrings "\n" (lines.map fun r => Text.trimString r.text))

end Token

namespace State

def moveTo (s : State) (t : Token) (lastStop : Cursor) : State :=
  { s with token := t, lastStop, docs := s.docs ++ t.docs, docsBefore := s.docs.length }

def document (s : State) (i : Nat) (node : Code.Node) : State :=
  { s with docs := s.docs.modify i fun d => { d with code := d.code <|> some node } }

/-- Takes their code from all comments but the first `n`. -/
def forgetFrom (s : State) (n : Nat) : State :=
  { s with docs := s.docs.take n ++ (s.docs.drop n).map fun d => { d with code := none } }

def start? (text : List Char) : Option State :=
  (tokenAfter? (Cursor.start text) true "").map fun t =>
    { token := t, lastStop := Cursor.start text, docs := t.docs }

end State

/-! ## Tokens -/

def token : Parser Token := return (← get).token

def lastStop : Parser Cursor := return (← get).lastStop

def resume (place : Cursor) (previous : String) : Parser Unit := do
  let s ← get
  match tokenAfter? place false previous with
  | none => failure
  | some t => set (s.moveTo t place)

def advance : Parser Token := do
  let t ← token
  resume t.stop t.text
  return t

def need (b : Bool) : Parser Unit := if b then pure () else failure

namespace Token

def isMark (t : Token) (mark : String) : Bool := t.kind == .punctuation && t.text == mark

def isPlain (t : Token) : Bool := t.text.length == t.start.left - t.stop.left

def isWord (t : Token) (word : String) : Bool := t.kind == .name && t.text == word && t.isPlain

end Token

def atMark (mark : String) : Parser Bool := return (← token).isMark mark

def atWord (word : String) : Parser Bool := return (← token).isWord word

def eat (mark : String) : Parser Bool := do
  if ← atMark mark then
    let _ ← advance
    return true
  else return false

def eatWord (word : String) : Parser Bool := do
  if ← atWord word then
    let _ ← advance
    return true
  else return false

def expect (mark : String) : Parser Unit := do need (← eat mark)

def expectWord (word : String) : Parser Unit := do need (← eatWord word)

/-- Ends a statement: with a semicolon, or without one before a brace, at the end of a line or at the
end of the text. -/
def semicolon : Parser Unit := do
  unless ← eat ";" do
    let t ← token
    need (t.kind == .finish || t.isMark "\x7d" || t.isOnNewLine)

def textFrom (start : Cursor) : Parser String := return start.textTo (← lastStop)

/-! ## Attempts and loops -/

/-- What a parser would answer, without going on. -/
def peek {α : Type} (p : Parser α) : Parser (Option α) := fun s => some ((p s).map (·.1), s)

/-- Takes a parser's answer if there is one, and goes on where nothing happened if not. -/
def attempt {α : Type} (p : Parser α) : Parser (Option α) := fun s =>
  match p s with
  | some r => some (some r.1, r.2)
  | none => some (none, s)

def iterateWithin {α : Type} (step : α → Parser (Option α)) : Nat → α → Parser α
  | 0, _ => failure
  | count + 1, a => do
    match ← step a with
    | none => return a
    | some a => iterateWithin step count a

/-- Takes steps until there is none.  Every step reads a token, so there are no more of them than
characters. -/
def iterate {α : Type} (step : α → Parser (Option α)) (a : α) : Parser α := do
  iterateWithin step ((← token).start.left + 2) a

def many {α : Type} (item : Parser (Option α)) : Parser (List α) :=
  iterate (fun as => do
    match ← item with
    | none => return none
    | some a => return some (as ++ [a])) []

/-- Reads items with commas between them and perhaps one behind them, up to a closing mark. -/
def listUntil {α : Type} (close : String) (item : Parser α) : Parser (List α) := do
  let found ← iterate (fun (s : List α × Bool) => do
    if s.2 then return none
    else if ← eat close then return some (s.1, true)
    else
      let a ← item
      if ← eat close then return some (s.1 ++ [a], true)
      else
        expect ","
        return some (s.1 ++ [a], false)) ([], false)
  return found.1

/-! ## Comments -/

/-- Gives the last comment before a token its code; `docs` counts the comments up to the token. -/
def attach (t : Token) (docs : Nat) (node : Code.Node) : Parser Unit := do
  unless t.docs.isEmpty do
    modify fun s => s.document (docs - 1) node

def docCount : Parser Nat := return (← get).docs.length

/-- Reads something in which comments document nothing, from the next token on. -/
def undocumented {α : Type} (p : Parser α) : Parser α := do
  let n := (← get).docsBefore
  let a ← p
  modify fun s => s.forgetFrom n
  return a

end Script
end ApiDoc
