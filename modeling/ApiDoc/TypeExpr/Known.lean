/-
Checking type expressions against the types that are known.
-/
import ApiDoc.Registry.Basic
import ApiDoc.TypeExpr.Parse

namespace ApiDoc

inductive TypeError where
  | malformed
  | unknownName (name : String)
  deriving DecidableEq, Repr, Inhabited

def TypeError.message : TypeError → String
  | .malformed => "invalid type syntax"
  | .unknownName name => "unknown type " ++ name

structure KnownTypes where
  names : List String := []
  deriving Repr, Inhabited

namespace KnownTypes

def primitives : List String := ["boolean", "number", "string", "null", "undefined", "void"]

def standard : List String := [
    "Object", "String", "Number", "Boolean", "Function", "Array", "Date", "RegExp", "Error",
    "Arguments", "Mixed", "Symbol", "Promise", "Map", "Set", "WeakMap", "WeakSet", "JSON",
    "Math", "NaN", "Infinity", "HTMLElement", "HTMLDocument", "Element", "Node", "NodeList",
    "TextNode", "Event", "Window", "Document", "XMLElement", "CSSStyleSheet", "CSSStyleRule",
    "Class", "Ext", "number", "string", "color", "list", "map", "percentage", "length" ]

def ofClassNames (names : List String) : KnownTypes := { names := standard ++ names }

/-- The standard types and everything that classes of the registry answer to. -/
def ofRegistry (r : Registry) : KnownTypes :=
  ofClassNames (r.classes.flatMap fun c => c.name :: c.alternateNames)

def isKnown (k : KnownTypes) (name : String) : Bool :=
  primitives.contains name || k.names.contains name

def escapeChar : Char → List Char
  | '&' => "&amp;".toList
  | '<' => "&lt;".toList
  | '>' => "&gt;".toList
  | c => [c]

def escape (text : String) : String := String.ofList (text.toList.flatMap escapeChar)

/-- What is wrong with a type expression.  Of unknown names the first one counts, and only if the
whole expression is well formed. -/
def error? (k : KnownTypes) (text : String) : Option TypeError :=
  match TypeExpr.parse? text with
  | none => some .malformed
  | some t => (t.names.find? fun name => !k.isKnown name).map .unknownName

def render (k : KnownTypes) (text : String) : Except TypeError String :=
  match k.error? text with
  | some e => .error e
  | none => .ok (escape text)

/-- The warning about a type expression, if there is something wrong with it. -/
def warning? (k : KnownTypes) (file : Option FileRef) (text : String) : Option Warning :=
  (k.error? text).map fun e =>
    match e with
    | .malformed =>
      { kind := .typeSyntax, message := "Incorrect type syntax " ++ text, file }
    | .unknownName name =>
      { kind := .typeName, message := "Unknown type " ++ name ++ " in " ++ text, file }

end KnownTypes

mutual

def Param.typesWritten : Param → List String
  | { type, properties, .. } => type.toList ++ typesOfParams properties

def typesOfParams : List Param → List String
  | [] => []
  | p :: ps => p.typesWritten ++ typesOfParams ps

end

/-- The types that are written on a member, in the order in which they are checked. -/
def Member.typesWritten (m : Member) : List String :=
  m.type.toList ++ typesOfParams m.params ++ typesOfParams m.properties
    ++ (match m.returns with
      | some r => r.type.toList ++ typesOfParams r.properties
      | none => [])
    ++ m.throws.map ThrownDoc.type

namespace KnownTypes

def checkMember (k : KnownTypes) (m : Member) : List Warning :=
  m.typesWritten.filterMap (k.warning? m.files.head?)

def check (k : KnownTypes) (classes : List ClassDoc) : List Warning :=
  classes.flatMap fun c => c.members.flatMap k.checkMember

end KnownTypes
end ApiDoc
