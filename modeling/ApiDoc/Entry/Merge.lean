/-
A comment together with the code after it.

What the comment says always counts.  The code fills the gaps, but only if the comment documents what
the code defines: it gives no name, or the same one.
-/
import ApiDoc.Code.Record
import ApiDoc.Comment.Record
import ApiDoc.Doc.Names

namespace ApiDoc
namespace Entry

open Code

/-- Whether the code defines the entity that the comment documents.  A class is compared by its whole
name, a member by the last segment. -/
def isSameEntity (doc : DocRecord) (code : CodeRecord) : Bool :=
  code.isPresent &&
    match doc.name with
    | none => true
    | some name =>
      match if doc.kind == .classDef then code.name else code.shortName? with
      | none => true
      | some codeName => codeName == name

def relevantCode (doc : DocRecord) (code : CodeRecord) : CodeRecord :=
  if isSameEntity doc code then code else {}

/-- Whether a type or default value that the code shows may be used. -/
def isSameSort (a b : EntityKind) : Bool := a == b || (a.isValue && b.isValue)

/-- What the comment says if it says something, else what the code shows; and whether that was
needed. -/
def fillGap (doc code : Option String) (mayFill : Bool) : Option String × Bool :=
  match doc, code with
  | none, some value => if mayFill then (some value, true) else (none, false)
  | _, _ => (doc, false)

/-- The type of a member.  Configs and properties always have one. -/
def typeOf (doc : DocRecord) (code : CodeRecord) : Option String × Bool :=
  if doc.kind.isValue then
    let r := fillGap doc.type code.type (isSameSort code.kind doc.kind)
    (if doc.kind == .styleVar then r.1 else r.1.or (some "Object"), r.2)
  else (doc.type, false)

def defaultOf (doc : DocRecord) (code : CodeRecord) : Option String × Bool :=
  if doc.kind.isValue then fillGap doc.default code.default (isSameSort code.kind doc.kind)
  else (none, false)

def paramsOf (doc : DocRecord) (code : CodeRecord) : List Param × Bool :=
  if !doc.params.isEmpty then (doc.params, false)
  else if (code.kind == .method || code.kind == .styleMixin) && !doc.kind.isValue then
    (code.params, !code.params.isEmpty)
  else ([], false)

/-- Whether the code alone makes a method chainable.  A documented return value speaks against it. -/
def isChainableByCode (doc : DocRecord) (code : CodeRecord) : Bool :=
  doc.kind == .method && code.kind == .method && !doc.isChainable && !doc.isConstructor
    && doc.returns.isNone && code.isChainable

/-- The member that a comment and the relevant part of its code make. -/
def memberFrom (doc : DocRecord) (code : CodeRecord) (file : FileRef) : Member :=
  let type := typeOf doc code
  let default := defaultOf doc code
  let params := paramsOf doc code
  let byCode := isChainableByCode doc code
  Member.refreshId
    { kind := doc.kind
      name := (doc.name.or code.shortName?).getD ""
      type := type.1
      default := default.1
      doc := doc.doc
      params := params.1
      returns := doc.returns
      throws := doc.throws
      properties := doc.properties
      fires := doc.fires
      isPrivate := doc.isPrivate
      isProtected := doc.isProtected
      isStatic := doc.isStatic || code.isStatic
      isInheritable := doc.isInheritable || code.isInheritable
      isAbstract := doc.isAbstract
      isRequired := doc.isRequired
      isOptional := doc.isOptional
      isChainable := doc.isChainable || byCode
      isAccessor := doc.isAccessor || code.isAccessor
      isEvented := doc.isEvented || code.isEvented
      isHidden := doc.isHidden
      isTemplate := doc.isTemplate
      isPreventable := doc.isPreventable
      isReadonly := doc.isReadonly
      deprecated := doc.deprecated
      removed := doc.removed
      since := doc.since
      localdoc := doc.localdoc
      inferred :=
        { kind := !doc.hasExplicitKind && code.isPresent
          name := doc.name.isNone && code.shortName?.isSome
          type := type.2
          default := default.2
          params := params.2
          chainable := byCode }
      inheritdoc := doc.inheritdoc
      files := [file]
      line := file.line
      body := if code.kind == .method || code.kind == .classDef then code.body else {}
      hasExplicitFires := doc.hasExplicitFires }

def mergeMember (doc : DocRecord) (code : CodeRecord) (file : FileRef) : Member :=
  memberFrom doc (relevantCode doc code) file

/-- A member of a class body, in the file of the class. -/
def locate (file : FileRef) (m : Member) : Member :=
  let line := if m.line == 0 then file.line else m.line
  { m with line, files := [{ filename := file.filename, line }] }

def classFrom (doc : DocRecord) (code : CodeRecord) (file : FileRef) : ClassDoc :=
  { name := (doc.name.or code.name).getD ""
    parent := doc.parent.or code.parent
    mixins := appendNew doc.mixins code.mixins
    alternateNames := appendNew doc.alternateNames code.alternateNames
    aliases := appendNew doc.aliases code.aliases
    requires := appendNew doc.requires code.requires
    uses := appendNew doc.uses code.uses
    isSingleton := doc.isSingleton || code.isSingleton
    isPrivate := doc.isPrivate
    isProtected := doc.isProtected
    isHidden := doc.isHidden
    doc := doc.doc
    localdoc := doc.localdoc
    deprecated := doc.deprecated
    since := doc.since
    overrideOf := doc.overrideOf.or code.overrideOf
    enumInfo := doc.enumInfo.map fun e =>
      { e with isDocOnly := e.isDocOnly || code.type == some "Array" }
    inheritdoc := doc.inheritdoc
    isDefined := code.isDefined
    files := [file]
    members := code.members.map (locate file) }

def mergeClass (doc : DocRecord) (code : CodeRecord) (file : FileRef) : ClassDoc :=
  classFrom doc (relevantCode doc code) file

/-- What a comment and the code after it document. -/
def merge (doc : DocRecord) (code : CodeRecord) (file : FileRef) : Entry :=
  { entity :=
      if doc.kind == .classDef then .ofClass (mergeClass doc code file)
      else .ofMember (mergeMember doc code file)
    memberOf := doc.memberOf
    isIgnored := doc.isIgnored }

end Entry
end ApiDoc
