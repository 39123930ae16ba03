/-
What the body of a function does on its own object: which events it fires, which methods it calls, and
whether it returns the object itself.
-/
import ApiDoc.Code.Node
import ApiDoc.Doc.Member
import ApiDoc.Doc.Names

namespace ApiDoc
namespace Code

open Node

def thisAlias? : Node → Option String
  | .var name (some .this) => some name
  | _ => none

/-- The names under which the object itself is known in a body. -/
def thisNames (body : List Node) : List String :=
  distinct ("this" :: (body.flatMap preorder).filterMap thisAlias?)

/-- The method that a call on the object itself names, with its arguments. -/
def ownCall? (names : List String) : Node → Option (String × List Node)
  | .call (.member inner method _) args _ =>
    match inner.dottedName? with
    | some name => if names.contains name then some (method, args) else none
    | none => none
  | _ => none

def firedEvent? (c : String × List Node) : Option String :=
  if c.1 == "fireEvent" then c.2.head?.bind string? else none

def calledMethod? (c : String × List Node) : Option String :=
  if c.1 == "fireEvent" then none else some c.1

/-- The events that a body fires and the methods that it calls on its own object, inner functions
included. -/
def bodyFacts (body : List Node) : BodyFacts :=
  let calls := (body.flatMap preorder).filterMap (ownCall? (thisNames body))
  { fires := distinct (calls.filterMap firedEvent?), calls := distinct (calls.filterMap calledMethod?) }

/-- Whether a statement returns anything but the object itself, inner functions apart. -/
def returnsOther (n : Node) : Bool :=
  match n with
  | .function .. => false
  | .returned none => true
  | .returned (some value) => !value.isThis
  | n => n.children.attach.any fun ⟨c, _⟩ => returnsOther c
termination_by sizeOf n
decreasing_by exact sizeOf_lt_of_mem_children (by assumption)

mutual

/-- Whether a statement always returns the object itself.  Of the loops only a `do` loop is sure to
run. -/
def alwaysReturnsThis : Node → Bool
  | .returned (some value) => value.isThis
  | .branch _ consequent alternate =>
    alwaysReturnsThis consequent && alternateReturnsThis alternate
  | .block body => someReturnsThis body
  | .loop isDoWhile _ body => isDoWhile && alwaysReturnsThis body
  | _ => false

def alternateReturnsThis : Option Node → Bool
  | none => false
  | some n => alwaysReturnsThis n

/-- Whether one of several statements in a row always returns the object itself. -/
def someReturnsThis : List Node → Bool
  | [] => false
  | n :: ns => alwaysReturnsThis n || someReturnsThis ns

end

def returnsThis (body : List Node) : Bool :=
  !body.any returnsOther && someReturnsThis body

end Code
end ApiDoc
