/-
Enumerations: classes whose members are the values of one type.
-/
import ApiDoc.Doc.ClassDoc
import ApiDoc.Doc.Names
import ApiDoc.Text.Basic
import ApiDoc.Warning

namespace ApiDoc
namespace Enumeration

/-- The value for an alias of a class, `value` being what remains of the alias. -/
def aliasMember (owner : String) (c : ClassDoc) (value : String) : Member :=
  { Member.ofName .property value with
    owner
    default := some ("'" ++ value ++ "'")
    doc := "Alias for \x7b@link " ++ c.name ++ "\x7d."
    isPrivate := c.isPrivate
    files := c.files
    line := (c.files.head?.map FileRef.line).getD 0 }

def aliasMembers (owner : String) (classes : List ClassDoc) (pattern : String) : List Member :=
  let start := (pattern.toList.reverse.dropWhile (· == '*')).reverse
  classes.flatMap fun c => c.aliases.filterMap fun name =>
    (start.isPrefixOf? name.toList).map fun rest => aliasMember owner c (String.ofList rest)

/-- The types of the members, each once.  An `Object` that was written down says nothing. -/
def typesOf (ms : List Member) : List String :=
  distinct (ms.filterMap fun m => m.type.filter fun t => m.inferred.type || t != "Object")

def commonType (ms : List Member) : String :=
  let types := typesOf ms
  if types.isEmpty then "Object" else Text.joinStrings "/" types

def asValue (type : String) (m : Member) : Member :=
  Member.refreshId
    { m with
      kind := .property
      type := some type
      inheritdoc := if m.inferred.member then none else m.inheritdoc }

/-- A class as an enumeration, with the members that its pattern asks for. -/
def normalize (c : ClassDoc) (info : EnumInfo) (found : List Member) : ClassDoc :=
  let ms := (c.members ++ found).filter fun m => m.kind != .event
  let type := info.type.getD (commonType ms)
  { c with
    parent := none
    members := ms.map (asValue type)
    enumInfo := some { info with type := some type } }

/-- Completes a class if it is an enumeration, and reports it if it has no members. -/
def complete (classes : List ClassDoc) (c : ClassDoc) : ClassDoc × List Warning :=
  match c.enumInfo with
  | none => (c, [])
  | some info =>
    let found := (info.pattern.map (aliasMembers c.name classes)).getD []
    let done := normalize c info found
    (done,
      if done.members.isEmpty then
        [{ kind := .enumeration
           message := "Enum " ++ c.name ++ " has no members"
           file := c.files.head? }]
      else [])

def completeAll (classes : List ClassDoc) : List ClassDoc × List Warning :=
  let done := classes.map (complete classes)
  (done.map (·.1), done.flatMap (·.2))

end Enumeration
end ApiDoc
