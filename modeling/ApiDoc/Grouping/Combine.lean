/-
Combining what several comments say about one class.
-/
import ApiDoc.Doc.ClassDoc
import ApiDoc.Doc.Names

namespace ApiDoc
namespace ClassDoc

/-- Adds a later description of a class to an earlier one.  What the earlier one says stays, gaps are
filled, lists of names grow by what is new, and files and members follow one another. -/
def merge (c later : ClassDoc) : ClassDoc :=
  { name := c.name
    parent := c.parent <|> later.parent
    mixins := appendNew c.mixins later.mixins
    alternateNames := appendNew c.alternateNames later.alternateNames
    aliases := appendNew c.aliases later.aliases
    requires := appendNew c.requires later.requires
    uses := appendNew c.uses later.uses
    isSingleton := c.isSingleton || later.isSingleton
    isPrivate := c.isPrivate || later.isPrivate
    isProtected := c.isProtected || later.isProtected
    isHidden := c.isHidden || later.isHidden
    doc := if c.doc.isEmpty then later.doc else c.doc
    localdoc := c.localdoc <|> later.localdoc
    deprecated := c.deprecated <|> later.deprecated
    since := c.since <|> later.since
    overrideOf := c.overrideOf <|> later.overrideOf
    enumInfo := c.enumInfo <|> later.enumInfo
    inheritdoc := c.inheritdoc <|> later.inheritdoc
    isDefined := c.isDefined || later.isDefined
    files := c.files ++ later.files
    members := c.members ++ later.members }

def addMembers (c : ClassDoc) (ms : List Member) : ClassDoc := { c with members := c.members ++ ms }

/-- Everything that the class answers to, its own name first. -/
def answers (c : ClassDoc) : List String := c.name :: c.alternateNames

/-- A class that takes another one in answers to what it answered to and to the alternate names. -/
theorem mem_answers_merge {c later : ClassDoc} {name : String} :
    name ∈ (c.merge later).answers ↔ name ∈ c.answers ∨ name ∈ later.alternateNames := by
  show name ∈ c.name :: appendNew c.alternateNames later.alternateNames ↔ _
  rw [List.mem_cons, mem_appendNew, answers, List.mem_cons, or_assoc]

end ClassDoc
end ApiDoc
