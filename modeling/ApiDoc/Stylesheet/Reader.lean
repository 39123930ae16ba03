/-
Documentation comments of style sheets.

Of the code only what follows a comment directly counts: a variable, or the head of a mixin.
-/
import ApiDoc.Entry.Source
import ApiDoc.Text.Basic

namespace ApiDoc
namespace Stylesheet

open Text

def isNameChar (c : Char) : Bool := isWordChar c || c == '-'

def name? (cs : List Char) : Option (List Char × List Char) :=
  match cs.takeWhile isNameChar with
  | [] => none
  | name => some (name, cs.dropWhile isNameChar)

/-- `$name: value`, the value reaching up to the next semicolon. -/
def varHead? (cs : List Char) : Option Code.Node :=
  match trimStart cs with
  | '$' :: rest =>
    match name? rest with
    | none => none
    | some (name, rest) =>
      match trimStart rest with
      | ':' :: rest =>
        some (.styleVar (String.ofList ('$' :: name))
          (String.ofList (trim (rest.takeWhile (· != ';')))))
      | _ => none
  | _ => none

/-- The pieces between the commas outside of parentheses, `depth` counting the open ones. -/
def splitAtCommas (depth : Nat) (piece : List Char) : List Char → List (List Char)
  | [] => [piece.reverse]
  | '(' :: cs => splitAtCommas (depth + 1) ('(' :: piece) cs
  | ')' :: cs => splitAtCommas (depth - 1) (')' :: piece) cs
  | ',' :: cs =>
    if depth == 0 then piece.reverse :: splitAtCommas 0 [] cs
    else splitAtCommas depth (',' :: piece) cs
  | c :: cs => splitAtCommas depth (c :: piece) cs

def mixinParam (piece : List Char) : String × Option String :=
  match cutFirst? ':' piece with
  | some (name, value) => (String.ofList (trim name), some (String.ofList (trim value)))
  | none => (String.ofList piece, none)

def mixinParams (text : List Char) : List (String × Option String) :=
  (((splitAtCommas 0 [] text).map trim).filter fun p => !p.isEmpty).map mixinParam

/-- The text between the parentheses of a mixin's head.  They close at the last closing one before
the body. -/
def headContent? : List Char → Option (List Char)
  | '(' :: rest => (cutLast? ')' (rest.takeWhile (· != '\x7b'))).map (·.1)
  | _ => none

/-- `@mixin name(params)`, of which the parentheses may be missing. -/
def mixinHead? (cs : List Char) : Option Code.Node :=
  match "@mixin".toList.isPrefixOf? (trimStart cs) with
  | none => none
  | some [] => none
  | some (c :: rest) =>
    if isBlank c then
      (name? (trimStart rest)).map fun p =>
        .styleMixin (String.ofList p.1)
          (match headContent? (trimStart p.2) with
            | some text => mixinParams text
            | none => [])
    else none

def construct? (cs : List Char) : Option Code.Node := varHead? cs <|> mixinHead? cs

def countNewlines (cs : List Char) : Nat := cs.count '\n'

/-- The comments of a text whose first line has the number `line`.  A comment that is not closed ends
the search. -/
def docsFrom (line : Nat) (cs : List Char) : List SourceDoc :=
  match h : cutText? "/**".toList cs with
  | none => []
  | some (before, rest) =>
    match k : cutText? "*/".toList rest with
    | none => []
    | some (comment, after) =>
      have : after.length < cs.length := by
        have hb := length_of_cutText? h
        have hc := length_of_cutText? k
        simp only at hb hc
        have : "/**".toList.length = 3 := rfl
        omega
      let start := line + countNewlines before
      { comment := String.ofList comment, code := construct? after, line := start }
        :: docsFrom (start + countNewlines comment) after
termination_by cs.length

def docs (text : String) : List SourceDoc := docsFrom 1 text.toList

end Stylesheet
end ApiDoc
