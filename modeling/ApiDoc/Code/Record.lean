/-
What a piece of code says about the entity that it defines.

`classify` guesses the kind of the entity from the form of the code, and collects its name, type,
default value, parameters, class relations and undocumented members.  The calls that define, extend
and override classes are known by the namespaces in which they are made.
-/
import ApiDoc.Code.Body
import ApiDoc.Code.StyleValue
import ApiDoc.Doc.ClassDoc

namespace ApiDoc
namespace Code

open Text

/-- The namespaces whose calls define, extend and override classes. -/
structure Namespaces where
  names : List String := ["Ext"]
  deriving DecidableEq, Repr, Inhabited

namespace Namespaces

def hasFunction (ns : Namespaces) (function name : String) : Bool :=
  ns.names.any fun n => name == n ++ "." ++ function

/-- Calls that define a class.  One older spelling is known in every namespace. -/
def isDefine (ns : Namespaces) (name : String) : Bool :=
  name == "Ext.ClassManager.create" || ns.hasFunction "define" name

def isExtend (ns : Namespaces) (name : String) : Bool := ns.hasFunction "extend" name

def isOverride (ns : Namespaces) (name : String) : Bool := ns.hasFunction "override" name

def isApply (ns : Namespaces) (name : String) : Bool := ns.hasFunction "apply" name

def isEmptyFunction (ns : Namespaces) (name : String) : Bool := ns.hasFunction "emptyFn" name

end Namespaces

/-- The parts of a class body whose properties are members of their own. -/
inductive Section where
  | config
  | cachedConfig
  | eventedConfig
  | statics
  | inheritableStatics
  deriving DecidableEq, Repr, Inhabited

namespace Section

/-- The section that a key of a class body opens. -/
def ofKey? : String → Option Section
  | "config" => some .config
  | "cachedConfig" => some .cachedConfig
  | "eventedConfig" => some .eventedConfig
  | "statics" => some .statics
  | "inheritableStatics" => some .inheritableStatics
  | _ => none

/-- Whether the members of the section are configs, and not static members. -/
def isConfig : Section → Bool
  | .config | .cachedConfig | .eventedConfig => true
  | .statics | .inheritableStatics => false

end Section

abbrev SectionHints := List (Nat × Section)

/-- The section of a property.  Of several hints for one place the last counts. -/
def SectionHints.sectionAt? (hints : SectionHints) (offset : Nat) : Option Section :=
  (hints.reverse.find? fun h => h.1 == offset).map (·.2)

structure CodeRecord where
  isPresent : Bool := false
  kind : EntityKind := .property
  /-- The name as it is written, with its namespace. -/
  name : Option String := none
  type : Option String := none
  default : Option String := none
  params : List Param := []
  isChainable : Bool := false
  body : BodyFacts := {}
  parent : Option String := none
  mixins : List String := []
  alternateNames : List String := []
  aliases : List String := []
  requires : List String := []
  uses : List String := []
  isSingleton : Bool := false
  overrideOf : Option String := none
  isDefined : Bool := false
  members : List Member := []
  isAccessor : Bool := false
  isEvented : Bool := false
  isStatic : Bool := false
  isInheritable : Bool := false
  /-- The sections in which the documented properties of the body stand. -/
  hints : SectionHints := []
  deriving Repr, Inhabited

namespace CodeRecord

def named (kind : EntityKind) (name : Option String) : CodeRecord :=
  { isPresent := true, kind, name }

def unknown : CodeRecord := { isPresent := true }

def shortName? (r : CodeRecord) : Option String := r.name.map lastSegment

end CodeRecord

/-- Whether the last segment of a name starts with a capital letter. -/
def isClassName (name : String) : Bool :=
  match (lastSegment name).toList with
  | c :: _ => isUppercase c
  | [] => false

/-- A class that code refers to: a string or a dotted name. -/
def classRef? (n : Node) : Option String := n.string?.or n.dottedName?

def literalType? : Node → Option String
  | .literal .number _ _ => some "Number"
  | .literal .string _ _ => some "String"
  | .literal .boolean _ _ => some "Boolean"
  | .literal .pattern _ _ => some "RegExp"
  | .array .. => some "Array"
  | .object .. => some "Object"
  | _ => none

/-- The text of a literal, which is its default value.  Values with functions in them have none. -/
def literalDefault? (n : Node) : Option String :=
  match n with
  | .literal .. | .array .. | .object .. => if n.hasFunction then none else n.rawText?
  | _ => none

def methodRecord (name : Option String) (params : List String) (body : List Node) : CodeRecord :=
  { CodeRecord.named .method name with
    params := params.map fun p => { name := some p }
    isChainable := returnsThis body
    body := bodyFacts body }

/-- Keys that may stand in an array of names, each with the comment before it. -/
def elementMembers (elements : List Node) (comments : List (Option String)) : List Member :=
  elements.zipIdx.filterMap fun e =>
    e.1.string?.map fun name =>
      { Member.ofName .property name with
        type := some "String"
        default := e.1.rawText?
        doc := ((comments[e.2]?).join).getD ""
        inferred := { member := true, kind := true, type := true } }

def memberKind (r : CodeRecord) : EntityKind := if r.kind == .method then .method else .property

/-- The member that an undocumented property makes, given what its value says.  A line comment
before it documents it, and otherwise it inherits its documentation. -/
def inferredMember (p : Property) (r : CodeRecord) : Member :=
  let m := { Member.ofName (memberKind r) p.key with
    line := p.line
    body := r.body
    doc := p.lineComment.getD ""
    inheritdoc := if p.lineComment.isSome then none else some {} }
  if memberKind r == .method then
    { m with
      params := r.params
      isChainable := r.isChainable
      inferred :=
        { member := true, kind := true, params := !r.params.isEmpty, chainable := r.isChainable } }
  else
    { m with
      type := r.type
      default := r.default
      inferred :=
        { member := true, kind := true, type := r.type.isSome, default := r.default.isSome } }

def valueRecord (name : Option String) (value : Node) : CodeRecord :=
  { CodeRecord.named .property name with
    type := literalType? value, default := literalDefault? value }

/-- A string, or an array of which the strings count. -/
def stringList (n : Node) : List String :=
  match n with
  | .array elements _ _ => elements.filterMap Node.string?
  | n => n.string?.toList

/-- The mixins of a class: a list of names, or an object whose values are names. -/
def mixinNames (n : Node) : List String :=
  match n with
  | .object properties _ => properties.filterMap fun p => p.value.string?
  | n => stringList n

/-- The class that all classes extend that name no other. -/
def baseClass : String := "Ext.Base"

def Section.place (s : Section) (m : Member) : Member :=
  (if s.isConfig then
    { m with kind := .config, params := [], isAccessor := true, isEvented := s == Section.eventedConfig }
  else
    { m with isStatic := true, isInheritable := s == Section.inheritableStatics }).refreshId

def Section.placeRecord (s : Section) (r : CodeRecord) : CodeRecord :=
  if s.isConfig then
    { r with kind := .config, params := [], isAccessor := true, isEvented := s == Section.eventedConfig }
  else { r with isStatic := true, isInheritable := s == Section.inheritableStatics }

end Code
end ApiDoc
