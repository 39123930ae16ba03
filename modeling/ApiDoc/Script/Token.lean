/-
Tokens of scripts.

A slash is read as an operator.  Where a pattern or the rest of a template can stand, the grammar
reads the text again from the start of the token.
-/
import ApiDoc.Script.Lexeme

namespace ApiDoc
namespace Script

inductive TokenKind where
  | name
  | privateName
  | number
  | bigNumber
  | string
  | punctuation
  /-- The end of the text. -/
  | finish
  deriving DecidableEq, Repr, Inhabited

structure Lexeme where
  kind : TokenKind
  text : String
  count : Nat
  deriving DecidableEq, Repr, Inhabited

def punctuationMarks : List String := [
    ">>>=", "...", "===", "!==", "**=", "<<=", ">>=", ">>>", "&&=", "||=", "??=",
    "=>", "==", "!=", "<=", ">=", "&&", "||", "??", "?.", "++", "--", "+=", "-=", "*=", "/=",
    "%=", "&=", "|=", "^=", "<<", ">>", "**",
    "\x7b", "\x7d", "(", ")", "[", "]", ";", ",", "<", ">", "+", "-", "*", "/", "%", "&", "|",
    "^", "!", "~", "?", ":", "=", ".", "\x60" ]

/-- Whether `?.` is here two marks, because a digit follows. -/
def isConditionalPlaces (cs : List Char) : Bool :=
  match cs with
  | '?' :: '.' :: c :: _ => isDecimalDigit c
  | _ => false

def punctuation? (cs : List Char) : Option Lexeme :=
  if isConditionalPlaces cs then some ⟨.punctuation, "?", 1⟩
  else
    (punctuationMarks.find? fun mark => mark.toList.isPrefixOf cs).map fun mark =>
      ⟨.punctuation, mark, mark.length⟩

def numberLexeme? (cs : List Char) : Option Lexeme :=
  (number? cs).map fun r =>
    ⟨if r.1 then .bigNumber else .number, String.ofList (cs.take r.2), r.2⟩

def startsNumber (cs : List Char) : Bool :=
  match cs with
  | '.' :: c :: _ => isDecimalDigit c
  | c :: _ => isDecimalDigit c
  | [] => false

def lexeme? (cs : List Char) : Option Lexeme :=
  match cs with
  | [] => some ⟨.finish, "", 0⟩
  | c :: rest =>
    if startsIdentifier cs then (name? cs).map fun r => ⟨.name, r.1, r.2⟩
    else if startsNumber cs then numberLexeme? cs
    else if c == '"' || c == '\'' then (quoted? cs).map fun r => ⟨.string, r.1, r.2⟩
    else if c == '#' then (name? rest).map fun r => ⟨.privateName, r.1, r.2 + 1⟩
    else punctuation? cs

structure Remark where
  isLine : Bool
  text : String
  line : Nat
  deriving DecidableEq, Repr, Inhabited

structure Gap where
  cursor : Cursor
  remarks : List Remark := []
  /-- A line ended before here, or this is the start of the file.  A comment on several lines does
  not count. -/
  isNewLine : Bool := false
  /-- A line ended, be it in a comment. -/
  hasLineEnd : Bool := false
  deriving Repr, Inhabited

namespace Gap

/-- The gap after the end of a line.  What stood behind a token on its line belongs to nothing. -/
def endLine (g : Gap) : Gap :=
  { g with
    remarks := if g.isNewLine then g.remarks else []
    isNewLine := true
    hasLineEnd := true }

/-- The gap after a line comment.  On the line of a token it belongs to nothing, and nor do the
comments before it, except behind a token that opens something. -/
def addLine (g : Gap) (afterOpening : Bool) (content : List Char) : Gap :=
  let remark : Remark :=
    { isLine := true, text := String.ofList content, line := g.cursor.line }
  { cursor := g.cursor.forward (content.length + 2)
    remarks := if g.isNewLine || afterOpening then g.remarks ++ [remark] else []
    isNewLine := true
    hasLineEnd := true }

def addBlock (g : Gap) (content : List Char) : Gap :=
  { g with
    cursor := g.cursor.forward (content.length + 4)
    remarks :=
      g.remarks ++ [{ isLine := false, text := String.ofList content, line := g.cursor.line }]
    hasLineEnd := g.hasLineEnd || content.any isLineEnd }

/-- Passes over one character or one comment.  There is no gap if a comment is not closed, and
nothing to pass over before a token. -/
def step (afterOpening : Bool) (g : Gap) : Option (Option Gap) :=
  match g.cursor.rest with
  | [] => some none
  | '/' :: '/' :: cs => some (some (g.addLine afterOpening (cs.takeWhile fun c => !isLineEnd c)))
  | '/' :: '*' :: cs =>
    (Text.cutText? "*/".toList cs).map fun r => some (g.addBlock r.1)
  | c :: _ =>
    if c == '\n' || c == '\r' then some (some { g.endLine with cursor := g.cursor.next })
    else if isLineEnd c then some (some { g with cursor := g.cursor.next, hasLineEnd := true })
    else if isSpace c then some (some { g with cursor := g.cursor.next })
    else some none

/-- Passes over everything before the next token, in no more than `count` steps. -/
def pass (afterOpening : Bool) : Nat → Gap → Option Gap
  | 0, g => some g
  | count + 1, g =>
    match g.step afterOpening with
    | none => none
    | some none => some g
    | some (some g) => pass afterOpening count g

end Gap

/-- A token with its place, and with the comments that belong to it. -/
structure Token where
  kind : TokenKind
  text : String
  start : Cursor
  stop : Cursor
  isOnNewLine : Bool
  remarks : List Remark
  deriving Repr, Inhabited

/-- The token that follows a place, behind a token with the text `previous`. -/
def tokenAfter? (place : Cursor) (isNewLine : Bool) (previous : String) : Option Token :=
  let afterOpening := previous == "=" || previous == "("
  match Gap.pass afterOpening (place.left + 1) { cursor := place, isNewLine } with
  | none => none
  | some g =>
    (lexeme? g.cursor.rest).map fun l =>
      { kind := l.kind
        text := l.text
        start := g.cursor
        stop := g.cursor.forward l.count
        isOnNewLine := g.hasLineEnd
        remarks := g.remarks }

end Script
end ApiDoc
