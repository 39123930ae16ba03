/-
Accessors: the getters, setters and change events that go with options.
-/
import ApiDoc.Doc.ClassDoc
import ApiDoc.Text.Case

namespace ApiDoc
namespace Accessor

def link (kind : EntityKind) (name : String) : String :=
  "\x7b@link #" ++ memberId false kind name ++ "\x7d"

def ofOption (option : Member) (kind : EntityKind) (name : String) : Member :=
  { Member.ofName kind name with
    owner := option.owner
    isPrivate := option.isPrivate
    isProtected := option.isProtected
    isHidden := option.isHidden
    deprecated := option.deprecated
    files := option.files
    line := option.line }

def getterName (option : Member) : String := "get" ++ Text.capitalize option.name

def setterName (option : Member) : String := "set" ++ Text.capitalize option.name

def changeName (option : Member) : String := Text.lowercase option.name ++ "change"

def getter (option : Member) : Member :=
  { ofOption option .method (getterName option) with
    doc := "Returns the value of " ++ link .config option.name ++ "."
    returns := some { type := option.type } }

def setter (option : Member) : Member :=
  { ofOption option .method (setterName option) with
    doc := "Sets the value of " ++ link .config option.name ++ "."
    params := [{ name := some option.name, type := option.type, doc := "The new value." }] }

def changeEvent (className : String) (option : Member) : Member :=
  { ofOption option .event (changeName option) with
    doc :=
      "Fires when the " ++ link .config option.name ++ " configuration is changed by "
        ++ link .method (setterName option) ++ "."
    params :=
      [{ name := some "this", type := some className, doc := "The " ++ className ++ " instance." },
        { name := some "value", type := option.type, doc := "The new value being set." },
        { name := some "oldValue", type := option.type, doc := "The existing value." }] }

def isWanted (m : Member) : Bool := m.kind == .config && m.isAccessor

def allFor (className : String) (option : Member) : List Member :=
  getter option :: setter option ::
    (if option.isEvented then [changeEvent className option] else [])

def appendIfNew (ms : List Member) (m : Member) : List Member :=
  if ms.any fun old => old.name == m.name then ms else ms ++ [m]

end Accessor

/-- The class with the accessors of its options.  A member of the same name takes the place of an
accessor. -/
def ClassDoc.withAccessors (c : ClassDoc) : ClassDoc :=
  { c with
    members :=
      ((c.members.filter Accessor.isWanted).flatMap (Accessor.allFor c.name)).foldl
        Accessor.appendIfNew c.members }

end ApiDoc
