/-
The text of a comment without its decoration.

Comments come in two styles.  In one, every line after the first starts with a star, and the star is
dropped together with the white space around it.  In the other the lines are only indented, and the
indentation of the first line that is not blank is taken off every line, as far as the line has it.
Indentation is measured in bytes, so a line whose own white space has wider characters may be cut
inside one of them; such a comment has no text.
-/
import ApiDoc.Error
import ApiDoc.Text.Basic

namespace ApiDoc
namespace Comment

open Text

/-- Whether a line's first character that is not blank is a star. -/
def startsWithStar (line : List Char) : Bool :=
  match trimStart line with
  | '*' :: _ => true
  | _ => false

/-- Whether a comment has a star on every line after the first, blank lines apart. -/
def isStarred (ls : List (List Char)) : Bool :=
  (ls.drop 1).all fun l => isBlankText l || startsWithStar l

def stripStar (line : List Char) : List Char :=
  match trimStart line with
  | '*' :: ' ' :: rest => rest
  | '*' :: '\t' :: rest => rest
  | '*' :: rest => rest
  | rest => rest

def blankBytes (line : List Char) : Nat := byteLength (line.takeWhile isBlank)

/-- The indentation of the first line that is not blank. -/
def commonIndent (ls : List (List Char)) : Nat :=
  match ls.find? fun l => !isBlankText l with
  | some l => blankBytes l
  | none => 0

/-- A line without the first `indent` bytes of its white space, or without all of it. -/
def stripIndent? (indent : Nat) (line : List Char) : Option (List Char) :=
  (cutAtByte? (min (blankBytes line) indent) line).map (·.2)

/-- The plain text of a comment, or nothing if an indentation cuts a character. -/
def undecorate? (comment : List Char) : Option (List Char) :=
  let ls := lines comment
  if isStarred ls then some (joinWith ['\n'] (ls.map stripStar))
  else (ls.mapM (stripIndent? (commonIndent ls))).map (joinWith ['\n'])

end Comment
end ApiDoc
