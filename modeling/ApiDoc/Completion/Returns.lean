/-
Return values of constructors and of chainable methods.
-/
import ApiDoc.Comment.Scan
import ApiDoc.Doc.ClassDoc

namespace ApiDoc

def startsWithThis (doc : String) : Bool :=
  match Comment.dropText? "this".toList doc.toList with
  | some rest => !Comment.startsName rest
  | none => false

namespace Member

def asConstructor (className : String) (m : Member) : Member :=
  let r := m.returns.getD {}
  { m with isChainable := false, returns := some { r with type := r.type <|> some className } }

/-- A chainable method returns its own object, and a method that returns its own object is
chainable. -/
def withChaining (className : String) (m : Member) : Member :=
  match m.returns with
  | none =>
    if m.isChainable then { m with returns := some { type := some className, doc := "this" } }
    else m
  | some r =>
    { m with isChainable := m.isChainable || (r.type == some className && startsWithThis r.doc) }

def withReturn (className : String) (m : Member) : Member :=
  if m.kind == .method then
    if m.name == "constructor" then m.asConstructor className else m.withChaining className
  else m

end Member

def ClassDoc.withReturns (c : ClassDoc) : ClassDoc :=
  { c with members := c.members.map (Member.withReturn c.name) }

end ApiDoc
