/-
The forms of code that define entities.

An undocumented property makes a member of the body that it stands in, and what the member is depends
on its value alone: `inferredRecord` never looks into nested bodies.  A documented piece of code is
read in full by `classify`.
-/
import ApiDoc.Code.Record

namespace ApiDoc
namespace Code

open Text

def stringAt? (args : List Node) (i : Nat) : Option String := args[i]?.bind Node.string?

def objectAt? (args : List Node) (i : Nat) : Option (List Property) :=
  args[i]?.bind Node.properties?

/-- The value of the first property with that key. -/
def valueOf? (properties : List Property) (key : String) : Option Node :=
  (properties.find? fun p => p.key == key).map Property.value

def calledName (callee : Node) : String := callee.dottedName?.getD ""

def makesClass (ns : Namespaces) (callee : Node) : Bool :=
  ns.isExtend (calledName callee) || ns.isDefine (calledName callee)

def isEmptyFunction (ns : Namespaces) (value : Node) : Bool :=
  (value.dottedName?.map ns.isEmptyFunction).getD false

/-- What the value of an undocumented property says about it.  A function is a method here, even
under a capital name. -/
def inferredRecord (ns : Namespaces) (p : Property) : CodeRecord :=
  match p.value with
  | .function _ params body => methodRecord (some p.key) params body
  | .call callee _ _ =>
    if makesClass ns callee then CodeRecord.named .classDef (some p.key)
    else valueRecord (some p.key) p.value
  | .object .. =>
    if isClassName p.key then CodeRecord.named .classDef (some p.key)
    else valueRecord (some p.key) p.value
  | value =>
    if isEmptyFunction ns value then CodeRecord.named .method (some p.key)
    else valueRecord (some p.key) value

def memberOf (ns : Namespaces) (p : Property) : Member := inferredMember p (inferredRecord ns p)

def undocumented (properties : List Property) : List Property :=
  properties.filter fun p => !p.isDocumented

def documented (properties : List Property) : List Property :=
  properties.filter fun p => p.isDocumented

def membersOf (ns : Namespaces) (properties : List Property) : List Member :=
  (undocumented properties).map (memberOf ns)

/-- Adds a section of a class body: its undocumented properties are members, and its documented ones
are remembered. -/
def addSection (ns : Namespaces) (s : Section) (properties : List Property) (r : CodeRecord) :
    CodeRecord :=
  { r with
    members := r.members ++ (membersOf ns properties).map s.place
    hints := r.hints ++ (documented properties).map fun p => (p.offset, s) }

def addProperty (ns : Namespaces) (r : CodeRecord) (p : Property) : CodeRecord :=
  match p.key with
  | "extend" => { r with parent := p.value.string? }
  | "mixins" => { r with mixins := mixinNames p.value }
  | "alternateClassName" => { r with alternateNames := stringList p.value }
  | "alias" => { r with aliases := r.aliases ++ stringList p.value }
  | "xtype" => { r with aliases := r.aliases ++ (stringList p.value).map ("widget." ++ ·) }
  | "requires" => { r with requires := stringList p.value }
  | "uses" => { r with uses := stringList p.value }
  | "singleton" => { r with isSingleton := p.value.isTrue }
  | "override" => { r with overrideOf := p.value.string? }
  | key =>
    match Section.ofKey? key, p.value.properties? with
    | some s, some properties => addSection ns s properties r
    | _, _ => if p.isDocumented then r else { r with members := r.members ++ [memberOf ns p] }

/-- A class whose body names no parent extends the base class, unless it is that. -/
def withBaseClass (r : CodeRecord) : CodeRecord :=
  if r.parent.isNone && r.name != some baseClass then { r with parent := some baseClass } else r

def definedClass (ns : Namespaces) (name : Option String) (body : Option (List Property)) :
    CodeRecord :=
  withBaseClass ((body.getD []).foldl (addProperty ns)
    { CodeRecord.named .classDef name with isDefined := true })

def overridingClass (ns : Namespaces) (target : Option String) (body : Option (List Property)) :
    CodeRecord :=
  { CodeRecord.named .classDef none with
    overrideOf := target, members := membersOf ns (body.getD []) }

def describedProperty (args : List Node) : CodeRecord :=
  match (objectAt? args 2).bind fun d => valueOf? d "value" with
  | some value => valueRecord (stringAt? args 1) value
  | none => CodeRecord.named .property (stringAt? args 1)

def prototypeOwner? (args : List Node) : Option String :=
  (args[0]?.bind Node.dottedName?).bind (dropEnding? ".prototype")

/-- What a call says by itself. -/
def callRecord (ns : Namespaces) (callee : Node) (args : List Node) : CodeRecord :=
  let name := calledName callee
  if ns.isDefine name then definedClass ns (stringAt? args 0) (objectAt? args 1)
  else if ns.isExtend name then
    { CodeRecord.named .classDef none with parent := args[0]?.bind classRef? }
  else if ns.isOverride name then
    overridingClass ns (args[0]?.bind Node.dottedName?) (objectAt? args 1)
  else if ns.isApply name && (prototypeOwner? args).isSome then
    overridingClass ns (prototypeOwner? args) (objectAt? args 1)
  else if name == "Object.defineProperty" then describedProperty args
  else if name == "fireEvent" || hasEnding ".fireEvent" name then
    CodeRecord.named .event (stringAt? args 0)
  else CodeRecord.unknown

/-- A value under a name, with the members that an object or an array has. -/
def namedValue (ns : Namespaces) (name : String) (value : Node) : CodeRecord :=
  let r := valueRecord (some name) value
  match value with
  | .object properties _ => { r with members := membersOf ns properties }
  | .array elements comments _ => { r with members := elementMembers elements comments }
  | _ => r

def assignedRecord (ns : Namespaces) (name : String) (value : Node) : CodeRecord :=
  match value with
  | .function _ params body =>
    if isClassName name then
      { CodeRecord.named .classDef (some name) with body := bodyFacts body }
    else methodRecord (some name) params body
  | .call callee args _ =>
    if ns.isExtend (calledName callee) then
      { CodeRecord.named .classDef (some name) with
        parent := args[0]?.bind classRef?
        members := membersOf ns ((objectAt? args 1).getD []) }
    else if ns.isDefine (calledName callee) then callRecord ns callee args
    else namedValue ns name value
  | .object properties _ =>
    if isClassName name then
      { CodeRecord.named .classDef (some name) with members := membersOf ns properties }
    else namedValue ns name value
  | _ =>
    if isEmptyFunction ns value then CodeRecord.named .method (some name)
    else namedValue ns name value

def propertyRecord (ns : Namespaces) (hints : SectionHints) (p : Property) : CodeRecord :=
  let r := assignedRecord ns p.key p.value
  match hints.sectionAt? p.offset with
  | some s => s.placeRecord r
  | none => r

def styleParam (p : String × Option String) : Param :=
  match p.2 with
  | none => { name := some p.1 }
  | some text =>
    let value := stripFlags text.toList
    { name := some p.1, type := styleType? value, default := some (String.ofList value) }

def classify (ns : Namespaces) (hints : SectionHints) (code : Option Node) : CodeRecord :=
  match code with
  | none => {}
  | some node =>
    match node with
    | .function (some name) _ _ => assignedRecord ns name node
    | .function none params body => methodRecord none params body
    | .var name (some init) => assignedRecord ns name init
    | .var name none => CodeRecord.named .property (some name)
    | .assign target value => assignedRecord ns target value
    | .property p => propertyRecord ns hints p
    | .call callee args _ => callRecord ns callee args
    | .literal .string value _ => CodeRecord.named .property (some value)
    | .ident _ | .member .. => CodeRecord.named .property node.dottedName?
    | .styleVar name text =>
      let value := stripFlags text.toList
      { CodeRecord.named .styleVar (some name) with
        type := styleType? value, default := some (String.ofList value) }
    | .styleMixin name params =>
      { CodeRecord.named .styleMixin (some name) with params := params.map styleParam }
    | _ => CodeRecord.unknown

end Code
end ApiDoc
