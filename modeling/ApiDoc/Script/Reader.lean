/-
Documentation comments of scripts.

This is the reader that a run takes if it is given no other one.  It knows neither decorators nor
`accessor` fields: a script with one of these is not well formed to it.
-/
import ApiDoc.Script.Statement

namespace ApiDoc
namespace Script

/-- The grammar of what nests no deeper than `depth` rules. -/
def grammar : Nat → Grammar
  | 0 => Grammar.empty
  | depth + 1 =>
    let g := grammar depth
    { assignment := assignmentOf g
      unary := unaryOf g
      binary := binaryOf g
      callee := calleeOf g
      binding := bindingOf g
      statement := statementOf g }

/-- A whole script.  A script that opens with `#!` starts on the line after that. -/
def script (g : Grammar) : Parser Unit := do
  let _ ← body g {}
  let s ← get
  need (s.token.kind == .finish && s.openDefaults == 0)

def interpreterLine (cs : List Char) : List Char :=
  match cs with
  | '#' :: '!' :: _ => cs.takeWhile fun c => !isLineEnd c
  | _ => []

def startState? (cs : List Char) : Option State :=
  let line := interpreterLine cs
  let place := (Cursor.start cs).forward line.length
  (tokenAfter? place line.isEmpty "").map fun t => { token := t, lastStop := place, docs := t.docs }

/-- The comments of a script, if it is well formed.  A rule that leads back to another one reads a
token first, or leads from a statement to an expression, so there are never more than three rules for
each character. -/
def docs? (text : String) : Option (List SourceDoc) := do
  let cs := text.toList
  let s ← startState? cs
  let r ← script (grammar (3 * cs.length + 3)) s
  some r.2.docs

end Script
end ApiDoc
