/-
The syntax of type expressions without function types.

The trees keep how an expression is written: which of two signs was chosen, where the dots of a repeated
type stand, which parentheses there are.  So a tree is a list of tokens, and every text in which these
tokens are written, whatever the blanks, is a way of printing it.  A tree also stands for an expression,
and the names of types in the expression are those of the tokens, from left to right.
-/
import ApiDoc.Proofs.TypeExpr.Token

namespace ApiDoc
namespace TypeSyntax

open TypeExpr

/-- Where the dots of a repeated type stand. -/
inductive Dots where
  | absent
  | before
  | after

inductive Mark where
  | absent
  | nullable
  | nonNull

inductive Opening where
  | plain
  | dotted

inductive Separator where
  | slash
  | bar

mutual

/-- A type without marks around it. -/
inductive Atom where
  | any
  | named (name : TypeName) (args : Arguments)
  | literal (l : Literal)
  | group (content : Alternatives)
  | record (fields : Fields)

inductive Arguments where
  | absent
  | listed (opening : Opening) (types : Types)

/-- Types with commas between them. -/
inductive Types where
  | one (type : Alternatives)
  | more (type : Alternatives) (rest : Types)

inductive Fields where
  | one (f : Field)
  | more (f : Field) (rest : Fields)

inductive Field where
  | plain (key : FieldName)
  | typed (key : FieldName) (type : Alternatives)

inductive Alternatives where
  | one (item : Item)
  | more (item : Item) (separator : Separator) (rest : Alternatives)

inductive Item where
  | mk (dots : Dots) (mark : Mark) (atom : Atom) (brackets : Nat)

end

/-! ### Tokens of a tree -/

namespace Dots

def leading : Dots → List Token
  | before => [.sign .dots]
  | _ => []

def trailing : Dots → List Token
  | after => [.sign .dots]
  | _ => []

end Dots

def Mark.tokens : Mark → List Token
  | absent => []
  | nullable => [.sign .question]
  | nonNull => [.sign .bang]

def Opening.sign : Opening → Sign
  | plain => .leftAngle
  | dotted => .dottedAngle

def Separator.sign : Separator → Sign
  | slash => .slash
  | bar => .bar

mutual

def Atom.tokens : Atom → List Token
  | .any => [.sign .star]
  | .named name args => .typeName name :: args.tokens
  | .literal l => [.literal l]
  | .group content => .sign .leftParen :: (content.tokens ++ [.sign .rightParen])
  | .record fields => .sign .leftBrace :: (fields.tokens ++ [.sign .rightBrace])

def Arguments.tokens : Arguments → List Token
  | .absent => []
  | .listed opening types => .sign opening.sign :: (types.tokens ++ [.sign .rightAngle])

def Types.tokens : Types → List Token
  | .one type => type.tokens
  | .more type rest => type.tokens ++ (.sign .comma :: rest.tokens)

def Fields.tokens : Fields → List Token
  | .one f => f.tokens
  | .more f rest => f.tokens ++ (.sign .comma :: rest.tokens)

def Field.tokens : Field → List Token
  | .plain key => [.fieldName key]
  | .typed key type => .fieldName key :: .sign .colon :: type.tokens

def Alternatives.tokens : Alternatives → List Token
  | .one item => item.tokens
  | .more item separator rest => item.tokens ++ (.sign separator.sign :: rest.tokens)

def Item.tokens : Item → List Token
  | .mk dots mark atom brackets =>
    dots.leading ++ (mark.tokens ++ (atom.tokens ++
      (List.replicate brackets (.sign .brackets) ++ dots.trailing)))

end

/-! ### The expression of a tree -/

def Dots.apply : Dots → TypeExpr → TypeExpr
  | absent, t => t
  | _, t => .repeated t

def Mark.apply : Mark → TypeExpr → TypeExpr
  | absent, t => t
  | nullable, t => .nullable t
  | nonNull, t => .nonNull t

mutual

def Atom.expr : Atom → TypeExpr
  | .any => TypeExpr.any
  | .named name args => TypeExpr.named name.name args.exprs
  | .literal l => TypeExpr.literal (String.ofList l.text)
  | .group content => ofAlternatives content.first content.others
  | .record fields => TypeExpr.record fields.entries

def Arguments.exprs : Arguments → List TypeExpr
  | .absent => []
  | .listed _ types => types.exprs

def Types.exprs : Types → List TypeExpr
  | .one type => [ofAlternatives type.first type.others]
  | .more type rest => ofAlternatives type.first type.others :: rest.exprs

def Fields.entries : Fields → List (String × Option TypeExpr)
  | .one f => [f.entry]
  | .more f rest => f.entry :: rest.entries

def Field.entry : Field → String × Option TypeExpr
  | .plain key => (String.ofList key.text, none)
  | .typed key type => (String.ofList key.text, some (ofAlternatives type.first type.others))

def Alternatives.first : Alternatives → TypeExpr
  | .one item => item.expr
  | .more item _ _ => item.expr

def Alternatives.others : Alternatives → List TypeExpr
  | .one _ => []
  | .more _ _ rest => rest.first :: rest.others

def Item.expr : Item → TypeExpr
  | .mk dots mark atom brackets => dots.apply (mark.apply (arrays brackets atom.expr))

end

def Alternatives.expr (u : Alternatives) : TypeExpr := ofAlternatives u.first u.others

/-- The names of types, from left to right. -/
def namesOfTokens (ts : List Token) : List String := ts.filterMap Token.name?

@[simp] theorem namesOfTokens_append (ts us : List Token) :
    namesOfTokens (ts ++ us) = namesOfTokens ts ++ namesOfTokens us := List.filterMap_append

@[simp] theorem namesOfTokens_sign (s : Sign) (ts : List Token) :
    namesOfTokens (.sign s :: ts) = namesOfTokens ts := rfl

@[simp] theorem namesOfTokens_nil : namesOfTokens [] = [] := rfl

@[simp] theorem namesOfTokens_leading (d : Dots) : namesOfTokens d.leading = [] := by cases d <;> rfl

@[simp] theorem namesOfTokens_trailing (d : Dots) : namesOfTokens d.trailing = [] := by
  cases d <;> rfl

@[simp] theorem namesOfTokens_mark (m : Mark) : namesOfTokens m.tokens = [] := by cases m <;> rfl

@[simp] theorem namesOfTokens_brackets (n : Nat) :
    namesOfTokens (List.replicate n (.sign .brackets)) = [] := by
  induction n with
  | zero => rfl
  | succ n ih => exact ih

theorem names_arrays (n : Nat) (t : TypeExpr) : (arrays n t).names = t.names := by
  induction n generalizing t with
  | zero => rfl
  | succ n ih =>
    rw [arrays, ih, TypeExpr.names]

theorem names_ofAlternatives (t : TypeExpr) (ts : List TypeExpr) :
    (ofAlternatives t ts).names = namesOfAll (t :: ts) := by
  cases ts with
  | nil => simp [ofAlternatives, namesOfAll]
  | cons t' ts => simp [ofAlternatives, TypeExpr.names]

theorem Dots.names_apply (d : Dots) (t : TypeExpr) : (d.apply t).names = t.names := by
  cases d <;> simp [apply, TypeExpr.names]

theorem Mark.names_apply (m : Mark) (t : TypeExpr) : (m.apply t).names = t.names := by
  cases m <;> simp [apply, TypeExpr.names]

/-! The names of types in the expression of a tree are those of its tokens, by recursion over the
tree. -/

mutual

theorem Atom.names_expr : ∀ a : Atom, a.expr.names = namesOfTokens a.tokens
  | .any => by simp [Atom.expr, Atom.tokens, TypeExpr.names]
  | .named name args => by
    rw [Atom.expr, Atom.tokens, TypeExpr.names, args.namesOfAll_exprs]
    rfl
  | .literal l => by
    rw [Atom.expr, Atom.tokens, TypeExpr.names]
    rfl
  | .group content => by
    simp [Atom.expr, Atom.tokens, names_ofAlternatives, content.namesOfAll_exprs]
  | .record fields => by
    simp [Atom.expr, Atom.tokens, TypeExpr.names, fields.namesOfFields_entries]

theorem Arguments.namesOfAll_exprs :
    ∀ args : Arguments, namesOfAll args.exprs = namesOfTokens args.tokens
  | .absent => by simp [Arguments.exprs, Arguments.tokens, namesOfAll]
  | .listed opening types => by
    simp [Arguments.exprs, Arguments.tokens, types.namesOfAll_exprs]

theorem Types.namesOfAll_exprs : ∀ ts : Types, namesOfAll ts.exprs = namesOfTokens ts.tokens
  | .one type => by
    rw [Types.exprs, namesOfAll, names_ofAlternatives, type.namesOfAll_exprs, Types.tokens]
    exact List.append_nil _
  | .more type rest => by
    rw [Types.exprs, namesOfAll, names_ofAlternatives, type.namesOfAll_exprs,
      rest.namesOfAll_exprs, Types.tokens, namesOfTokens_append, namesOfTokens_sign]

theorem Fields.namesOfFields_entries :
    ∀ fs : Fields, namesOfFields fs.entries = namesOfTokens fs.tokens
  | .one f => by simp [Fields.entries, Fields.tokens, f.namesOfFields_entry, namesOfFields]
  | .more f rest => by
    rw [Fields.entries, Fields.tokens, namesOfFields, f.namesOfFields_entry,
      rest.namesOfFields_entries]
    simp

theorem Field.namesOfFields_entry :
    ∀ f : Field, namesOfOption f.entry.2 = namesOfTokens f.tokens
  | .plain key => by
    rw [Field.entry, Field.tokens, namesOfOption]
    rfl
  | .typed key type => by
    rw [Field.entry, Field.tokens, namesOfOption, names_ofAlternatives, type.namesOfAll_exprs]
    rfl

theorem Alternatives.namesOfAll_exprs :
    ∀ u : Alternatives, namesOfAll (u.first :: u.others) = namesOfTokens u.tokens
  | .one item => by
    simp [Alternatives.first, Alternatives.others, Alternatives.tokens, namesOfAll, item.names_expr]
  | .more item separator rest => by
    rw [Alternatives.first, Alternatives.others, namesOfAll, rest.namesOfAll_exprs, item.names_expr,
      Alternatives.tokens]
    simp

theorem Item.names_expr : ∀ i : Item, i.expr.names = namesOfTokens i.tokens
  | .mk dots mark atom brackets => by
    simp [Item.expr, Item.tokens, Dots.names_apply, Mark.names_apply, names_arrays,
      atom.names_expr]

end

theorem Alternatives.names_expr (u : Alternatives) :
    u.expr.names = namesOfTokens u.tokens := by
  rw [Alternatives.expr, names_ofAlternatives, u.namesOfAll_exprs]

end TypeSyntax
end ApiDoc
