/-
Reading type expressions.

A step reads something from the front of a text and answers with it and the rest.  Steps do not go
back: once an opening bracket is read, its contents and the closing one must follow.  White space may
stand before every token.  What stands inside brackets is read by a step for nested expressions,
which is given to the step for the outer one; a text cannot nest deeper than it is long.
-/
import ApiDoc.Comment.Scan
import ApiDoc.TypeExpr.Basic

namespace ApiDoc
namespace TypeExpr

open Text Comment

/-- Reads a value from the front of a text. -/
abbrev Step (α : Type) := List Char → Option (α × List Char)

def eat? (token : String) (cs : List Char) : Option (List Char) :=
  dropText? token.toList (trimStart cs)

def eatAny? (tokens : List String) (cs : List Char) : Option (List Char) :=
  tokens.findSome? fun t => eat? t cs

/-- Reads further items, each after one of the separators.  A separator takes at least one
character, which bounds `count`. -/
def moreItems {α : Type} (separators : List String) (item : Step α) : Nat → Step (List α)
  | 0, cs => some ([], cs)
  | count + 1, cs =>
    match eatAny? separators cs with
    | none => some ([], cs)
    | some rest =>
      match item rest with
      | none => none
      | some (a, rest) =>
        match moreItems separators item count rest with
        | none => none
        | some (as, rest) => some (a :: as, rest)

def items {α : Type} (separators : List String) (item : Step α) : Step (List α) := fun cs =>
  match item cs with
  | none => none
  | some (a, rest) =>
    match moreItems separators item rest.length rest with
    | none => none
    | some (as, rest) => some (a :: as, rest)

def closedBy {α : Type} (token : String) (item : Step α) : Step α := fun cs =>
  (item cs).bind fun r => (eat? token r.2).map fun rest => (r.1, rest)

/-- The rest after a quoted text, the opening quote being read already.  A backslash takes the next
character with it. -/
def afterQuoted (quote : Char) : List Char → Option (List Char)
  | [] => none
  | '\\' :: [] => none
  | '\\' :: _ :: cs => afterQuoted quote cs
  | c :: cs => if c == quote then some cs else afterQuoted quote cs

def isDigit (c : Char) : Bool := '0' ≤ c && c ≤ '9'

def afterPlaces : List Char → List Char
  | '.' :: c :: cs => if isDigit c then cs.dropWhile isDigit else '.' :: c :: cs
  | cs => cs

def afterNumber (cs : List Char) : Option (List Char) :=
  let digits := skipChar '-' cs
  match digits with
  | [] => none
  | c :: _ =>
    if isDigit c then
      let rest := afterPlaces (digits.dropWhile isDigit)
      if startsName rest then none else some rest
    else none

def literalStep (after : List Char → Option (List Char)) : Step TypeExpr := fun cs =>
  (after cs).map fun rest => (literal (String.ofList (cs.take (cs.length - rest.length))), rest)

def quotedLiteral : Step TypeExpr := literalStep fun cs =>
  match cs with
  | [] => none
  | quote :: cs => afterQuoted quote cs

def numberLiteral : Step TypeExpr := literalStep afterNumber

/-- The rest after the word that starts a function type, of which a parenthesis after the word is
the sign. -/
def afterFunctionWord? (cs : List Char) : Option (List Char) :=
  match dropText? "function".toList cs with
  | none => none
  | some rest => if (trimStart rest).head? == some '(' then some rest else none

/-- How many pairs of brackets follow, and the rest.  A pair takes two characters, which bounds
`count`. -/
def brackets : Nat → List Char → Nat × List Char
  | 0, cs => (0, cs)
  | count + 1, cs =>
    match eat? "[]" cs with
    | none => (0, cs)
    | some rest =>
      let r := brackets count rest
      (r.1 + 1, r.2)

section

variable (nested : Step TypeExpr)

def typeArguments : Step (List TypeExpr) := fun cs =>
  match eatAny? [".<", "<"] cs with
  | none => some ([], cs)
  | some rest => closedBy ">" (items [","] nested) rest

def namedType : Step TypeExpr := fun cs =>
  match chain? cs with
  | none => none
  | some (name, rest) =>
    (typeArguments nested rest).map fun r => (named (String.ofList name) r.1, r.2)

def field : Step (String × Option TypeExpr) := fun cs =>
  let r := takeChars isNameChar (trimStart cs)
  if r.1.isEmpty then none
  else
    match eat? ":" r.2 with
    | none => some ((String.ofList r.1, none), r.2)
    | some rest => (nested rest).map fun t => ((String.ofList r.1, some t.1), t.2)

def recordBody : Step TypeExpr := fun cs =>
  (closedBy "\x7d" (items [","] (field nested)) cs).map fun r => (record r.1, r.2)

end

section

variable (base : Step TypeExpr)

def arrayType : Step TypeExpr := fun cs =>
  match base (trimStart cs) with
  | none => none
  | some (t, rest) =>
    let r := brackets rest.length rest
    some (arrays r.1 t, r.2)

def markedType : Step TypeExpr := fun cs =>
  match eat? "?" cs with
  | some rest => (arrayType base rest).map fun r => (nullable r.1, r.2)
  | none =>
    match eat? "!" cs with
    | some rest => (arrayType base rest).map fun r => (nonNull r.1, r.2)
    | none => arrayType base cs

def repeatedType : Step TypeExpr := fun cs =>
  match eat? "..." cs with
  | some rest => (markedType base rest).map fun r => (repeated r.1, r.2)
  | none =>
    match markedType base cs with
    | none => none
    | some (t, rest) =>
      match eat? "..." rest with
      | some rest => some (repeated t, rest)
      | none => some (t, rest)

def alternatives : Step TypeExpr := fun cs =>
  match items ["/", "|"] (repeatedType base) cs with
  | some (t :: ts, rest) => some (ofAlternatives t ts, rest)
  | _ => none

end

/-- The argument `this: T` or `new: T`.  The word decides, even if a longer name starts with it. -/
def namedArgument? (nested : Step TypeExpr) (cs : List Char) :
    Option (Option ((ArgumentForm × TypeExpr) × List Char)) :=
  let read (form : ArgumentForm) (rest : List Char) :=
    (eat? ":" rest).bind fun rest => (nested rest).map fun r => ((form, r.1), r.2)
  match eat? "this" cs with
  | some rest => some (read .receiver rest)
  | none => (eat? "new" cs).map (read .created)

def restArgument (base nested : Step TypeExpr) : Step (ArgumentForm × TypeExpr) := fun cs =>
  match eat? "[" cs with
  | some rest => (closedBy "]" nested rest).map fun r => ((.rest, r.1), r.2)
  | none => (markedType base cs).map fun r => ((.rest, r.1), r.2)

def argument (base nested : Step TypeExpr) : Step (ArgumentForm × TypeExpr) := fun cs =>
  match namedArgument? nested cs with
  | some r => r
  | none =>
    match eat? "..." cs with
    | some rest => restArgument base nested rest
    | none =>
      (repeatedType base cs).map fun r =>
        match eat? "=" r.2 with
        | some rest => ((.optional, r.1), rest)
        | none => ((.plain, r.1), r.2)

def argumentList (base nested : Step TypeExpr) : Step (List (ArgumentForm × TypeExpr)) := fun cs =>
  match eat? "(" cs with
  | none => none
  | some rest =>
    match eat? ")" rest with
    | some rest => some ([], rest)
    | none => closedBy ")" (items [","] (argument base nested)) rest

def functionBody (base nested : Step TypeExpr) : Step TypeExpr := fun cs =>
  match argumentList base nested cs with
  | none => none
  | some (args, rest) =>
    match eat? ":" rest with
    | none => some (function args none, rest)
    | some rest => (nested rest).map fun r => (function args (some r.1), r.2)

/-- An expression without marks around it, at the front of a text without white space before it.
`base` reads such expressions inside of brackets. -/
def baseWith (base : Step TypeExpr) : Step TypeExpr := fun cs =>
  let nested := alternatives base
  match cs with
  | [] => none
  | c :: rest =>
    if c == '*' then some (any, rest)
    else if c == '(' then closedBy ")" nested rest
    else if c == '{' then recordBody nested rest
    else if c == '"' || c == '\'' then quotedLiteral cs
    else if isDigit c || c == '-' then numberLiteral cs
    else
      match afterFunctionWord? cs with
      | some rest => functionBody base nested rest
      | none => namedType nested cs

/-- Expressions that nest no deeper than `depth`. -/
def base : Nat → Step TypeExpr
  | 0 => fun _ => none
  | depth + 1 => baseWith (base depth)

def parse? (text : String) : Option TypeExpr :=
  let cs := text.toList
  match alternatives (base (cs.length + 1)) cs with
  | some (t, rest) => if isBlankText rest then some t else none
  | none => none

end TypeExpr
end ApiDoc
