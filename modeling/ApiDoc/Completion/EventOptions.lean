/-
The options object that every event of a class system with definition calls receives.
-/
import ApiDoc.Doc.ClassDoc

namespace ApiDoc

def eventOptions : Param :=
  { name := some "eOpts"
    type := some "Object"
    doc :=
      "The options object passed to \x7b@link Ext.util.Observable#addListener\x7d."
    isEventOptions := true }

/-- Whether events receive options: as it is set, or else if any class comes from a definition
call. -/
def eventsHaveOptions (setting : Option Bool) (classes : List ClassDoc) : Bool :=
  setting.getD (classes.any ClassDoc.isDefined)

def Member.withEventOptions (m : Member) : Member :=
  if m.kind == .event && !m.params.any Param.isEventOptions then
    { m with params := m.params ++ [eventOptions] }
  else m

def ClassDoc.withEventOptions (c : ClassDoc) : ClassDoc :=
  { c with members := c.members.map Member.withEventOptions }

end ApiDoc
