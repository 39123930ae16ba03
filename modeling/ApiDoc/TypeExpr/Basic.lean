/-
Type expressions, as they are written in braces after a tag.

A tree keeps what an expression says.  Which of two spellings was chosen, such as `A|B` for `A/B`, is
not part of it.
-/

namespace ApiDoc

/-- How an argument of a function type is written. -/
inductive ArgumentForm where
  | plain
  /-- With `=` after the type. -/
  | optional
  /-- `...[T]` or `...T`: any number of arguments. -/
  | rest
  /-- `this: T`, the object on which the function is called. -/
  | receiver
  /-- `new: T`, what the function constructs. -/
  | created
  deriving DecidableEq, Repr, Inhabited

/-- A type expression. -/
inductive TypeExpr where
  /-- `*` -/
  | any
  /-- A dotted name with type arguments, as in `Array.<String>`. -/
  | named (name : String) (args : List TypeExpr)
  /-- A quoted text or a number, as it is written. -/
  | literal (text : String)
  /-- `T[]` -/
  | array (item : TypeExpr)
  /-- `?T` -/
  | nullable (item : TypeExpr)
  /-- `!T` -/
  | nonNull (item : TypeExpr)
  /-- `T...` or `...T` -/
  | repeated (item : TypeExpr)
  /-- Alternatives, at least two of them. -/
  | union (alternatives : List TypeExpr)
  /-- `{a: T, b}` -/
  | record (fields : List (String × Option TypeExpr))
  /-- `function(A, B): C` -/
  | function (args : List (ArgumentForm × TypeExpr)) (result : Option TypeExpr)
  deriving Repr, Inhabited

namespace TypeExpr

mutual

/-- The names of types in the order in which they are written.  Names of record fields are not among
them. -/
def names : TypeExpr → List String
  | any => []
  | named name args => name :: namesOfAll args
  | literal _ => []
  | array item => item.names
  | nullable item => item.names
  | nonNull item => item.names
  | repeated item => item.names
  | union alternatives => namesOfAll alternatives
  | record fields => namesOfFields fields
  | function args result => namesOfArguments args ++ namesOfOption result

def namesOfAll : List TypeExpr → List String
  | [] => []
  | t :: ts => t.names ++ namesOfAll ts

def namesOfOption : Option TypeExpr → List String
  | none => []
  | some t => t.names

def namesOfFields : List (String × Option TypeExpr) → List String
  | [] => []
  | (_, type) :: fields => namesOfOption type ++ namesOfFields fields

def namesOfArguments : List (ArgumentForm × TypeExpr) → List String
  | [] => []
  | (_, type) :: args => type.names ++ namesOfArguments args

end

def ofAlternatives (first : TypeExpr) : List TypeExpr → TypeExpr
  | [] => first
  | rest => union (first :: rest)

/-- `item` with `n` pairs of brackets behind it. -/
def arrays : Nat → TypeExpr → TypeExpr
  | 0, item => item
  | n + 1, item => arrays n (array item)

end TypeExpr
end ApiDoc
