/-
What a comment says about the entity that it documents.

Of a tag that cannot be repeated the last one counts; names, parameters and exceptions add up.  The
answer of `interpret` is the record together with the warnings about subproperties that hang in the
air and about values that are documented side by side.
-/
import ApiDoc.Comment.Groups
import ApiDoc.Comment.Nesting
import ApiDoc.Doc.ClassDoc
import ApiDoc.Warning

namespace ApiDoc

structure DocRecord where
  kind : EntityKind := .property
  hasExplicitKind : Bool := false
  name : Option String := none
  doc : String := ""
  type : Option String := none
  default : Option String := none
  isOptional : Bool := false
  isRequired : Bool := false
  params : List Param := []
  returns : Option ReturnDoc := none
  throws : List ThrownDoc := []
  properties : List Param := []
  fires : List String := []
  hasExplicitFires : Bool := false
  isPrivate : Bool := false
  isProtected : Bool := false
  isStatic : Bool := false
  isInheritable : Bool := false
  isAbstract : Bool := false
  isTemplate : Bool := false
  isPreventable : Bool := false
  isChainable : Bool := false
  isAccessor : Bool := false
  isEvented : Bool := false
  isHidden : Bool := false
  isIgnored : Bool := false
  isReadonly : Bool := false
  isSingleton : Bool := false
  isConstructor : Bool := false
  deprecated : Option Deprecation := none
  removed : Option Deprecation := none
  since : Option String := none
  localdoc : Option String := none
  inheritdoc : Option InheritRef := none
  parent : Option String := none
  mixins : List String := []
  alternateNames : List String := []
  aliases : List String := []
  requires : List String := []
  uses : List String := []
  overrideOf : Option String := none
  memberOf : Option String := none
  enumInfo : Option EnumInfo := none
  deriving Repr, Inhabited

namespace Tag

def toDeprecation (t : Tag) : Deprecation := { version := t.version, text := t.doc }

def toParam (t : Tag) : Param :=
  { name := t.name, type := t.type, doc := t.doc, isOptional := t.isOptional, default := t.default }

end Tag

namespace Comment

open Text

def lastTag? (tags : List Tag) (kind : TagKind) : Option Tag :=
  tags.reverse.find? fun t => t.kind == kind

def tagsOf (tags : List Tag) (kind : TagKind) : List Tag := tags.filter fun t => t.kind == kind

def namesOf (tags : List Tag) (kind : TagKind) : List String := (tagsOf tags kind).flatMap Tag.names

def lastName? (tags : List Tag) (kind : TagKind) : Option String :=
  (lastTag? tags kind).bind Tag.name

def orphanWarnings (file : FileRef) (n : Nested) : List Warning :=
  n.orphans.map fun name =>
    { kind := .member, message := "Subproperty '" ++ name ++ "' without parent", file := some file }

def freeText (tags : List Tag) : String :=
  joinStrings "\n" (((tagsOf tags .doc).map Tag.doc).filter fun d => !d.isEmpty)

/-- The return value: the last tag without a name, with the named parts that the others document. -/
def returnDoc (tags : List Tag) (file : FileRef) : Option ReturnDoc × List Warning :=
  let all := tagsOf tags .returns
  match all.reverse.find? fun t => t.name.isNone with
  | none => (none, [])
  | some main =>
    let parts := (all.filter fun t => t.name.isSome).map Tag.toParam
    let nested := nest ({ name := some "return" } :: parts)
    let properties :=
      match nested.items.find? fun p => p.name == some "return" with
      | some p => p.properties
      | none => []
    (some { type := main.type, doc := main.doc, properties }, orphanWarnings file nested)

def enumInfo? (tags : List Tag) : Option EnumInfo :=
  (lastTag? tags .enumeration).map fun t =>
    { type := t.type, pattern := t.default, isDocOnly := t.default.isSome }

/-- The aliases of a class: those written in full, then the short ones in their order. -/
def aliasesOf (tags : List Tag) : List String :=
  namesOf tags .aliases ++ tags.flatMap fun t =>
    match t.kind.aliasPrefix? with
    | some start => t.names.map (start ++ ·)
    | none => []

/-- Adds what concerns classes only.  An enumeration can be named by its own tag. -/
def withClassFields (r : DocRecord) (tags : List Tag) : DocRecord :=
  { r with
    name := (lastName? tags .classDef).or (lastName? tags .enumeration)
    parent := lastName? tags .parent
    overrideOf := lastName? tags .overrideOf
    mixins := namesOf tags .mixins
    alternateNames := namesOf tags .alternateNames
    requires := namesOf tags .requires
    uses := namesOf tags .uses
    aliases := aliasesOf tags
    enumInfo := enumInfo? tags }

/-- Adds what concerns methods only.  Naming a method `constructor` makes it one. -/
def withMethodFields (r : DocRecord) (tags : List Tag) : DocRecord :=
  let tagged := hasTag tags .constructorDef
  let name := (lastName? tags .method).or (if tagged then some "constructor" else none)
  { r with name, isConstructor := tagged || name == some "constructor" }

/-- The text of a value's own tag goes before the free text. -/
def joinDocs (own free : String) : String :=
  if own.isEmpty then free else if free.isEmpty then own else own ++ "\n" ++ free

def besideWarnings (file : FileRef) (main : Param) (others : List Param) : List Warning :=
  others.map fun p =>
    { kind := .member
      message := "Ignoring '" ++ p.nameText ++ "' documented next to '" ++ main.nameText ++ "'"
      file := some file }

/-- Adds what concerns a config, a property or a variable, which its tags of the given kind
document. -/
def withValueFields (r : DocRecord) (tags : List Tag) (kind : TagKind) (file : FileRef) :
    DocRecord × List Warning :=
  let own := tagsOf tags kind
  let nested := nest (own.map Tag.toParam)
  let type := (lastTag? tags .valueType).bind Tag.type
  match nested.items with
  | [] => ({ r with type }, orphanWarnings file nested)
  | main :: others =>
    let mainTag := own.find? fun t => t.name == main.name
    ({ r with
        name := main.name
        type := main.type.or type
        default := main.default
        isOptional := main.isOptional
        properties := main.properties
        isRequired := r.isRequired || (mainTag.map Tag.isRequired).getD false
        doc := joinDocs ((mainTag.map Tag.doc).getD "") r.doc },
      orphanWarnings file nested ++ besideWarnings file main others)

def commonFields (tags : List Tag) (detected : Detected) (params : List Param)
    (returns : Option ReturnDoc) : DocRecord :=
  let has := hasTag tags
  { kind := detected.kind
    hasExplicitKind := detected.isExplicit
    doc := freeText tags
    isPrivate := has .privateFlag
    isProtected := has .protectedFlag
    isStatic := has .staticFlag
    isInheritable := has .inheritable
    isAbstract := has .abstractFlag
    isTemplate := has .template
    isPreventable := has .preventable
    isChainable := has .chainable
    isAccessor := has .accessor
    isEvented := has .evented
    isHidden := has .hidden
    isIgnored := has .skipped
    isReadonly := has .readonly
    isSingleton := has .singleton
    isRequired := has .required
    deprecated := (lastTag? tags .deprecated).map Tag.toDeprecation
    removed := (lastTag? tags .removed).map Tag.toDeprecation
    since := (lastTag? tags .since).bind Tag.version
    localdoc := (lastTag? tags .localdoc).map Tag.doc
    inheritdoc := (lastTag? tags .inheritdoc).bind Tag.inheritdoc
    memberOf := lastName? tags .memberOf
    fires := namesOf tags .fires
    hasExplicitFires := has .fires
    params
    returns
    throws := (tagsOf tags .throws).map fun t =>
      { type := t.type.getD "Object", doc := t.doc } }

def withKindFields (r : DocRecord) (tags : List Tag) (file : FileRef) :
    DocRecord × List Warning :=
  match r.kind with
  | .classDef => (withClassFields r tags, [])
  | .method => (withMethodFields r tags, [])
  | .event => ({ r with name := lastName? tags .event }, [])
  | .styleMixin => ({ r with name := lastName? tags .styleMixin }, [])
  | .config => withValueFields r tags .config file
  | .styleVar => withValueFields r tags .styleVar file
  | .property => withValueFields r tags .property file

def interpret (tags : List Tag) (detected : Detected) (file : FileRef) :
    DocRecord × List Warning :=
  let params := nest ((tagsOf tags .param).map Tag.toParam)
  let returns := returnDoc tags file
  let common := commonFields tags detected params.items returns.1
  let r := withKindFields common tags file
  ({ r.1 with name := r.1.name.filter fun n => !n.isEmpty },
    orphanWarnings file params ++ returns.2 ++ r.2)

end Comment
end ApiDoc
