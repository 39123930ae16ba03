/-
The type of everything that was documented without one.
-/
import ApiDoc.Doc.ClassDoc

namespace ApiDoc

def defaultType : String := "Object"

mutual

def Param.withTypes : Param → Param
  | { name, type, doc, isOptional, default, properties, isEventOptions } =>
    { name, type := type <|> some defaultType, doc, isOptional, default
      properties := withTypesAll properties, isEventOptions }

def withTypesAll : List Param → List Param
  | [] => []
  | p :: ps => p.withTypes :: withTypesAll ps

end

def ReturnDoc.withTypes (r : ReturnDoc) : ReturnDoc :=
  { r with type := r.type <|> some defaultType, properties := withTypesAll r.properties }

def ThrownDoc.withType (t : ThrownDoc) : ThrownDoc :=
  if t.type.isEmpty then { t with type := defaultType } else t

/-- A member in which every type below it is filled in.  Its own type is left as it is. -/
def Member.withTypes (m : Member) : Member :=
  { m with
    params := withTypesAll m.params
    properties := withTypesAll m.properties
    returns := m.returns.map ReturnDoc.withTypes
    throws := m.throws.map ThrownDoc.withType }

def ClassDoc.withTypes (c : ClassDoc) : ClassDoc :=
  { c with members := c.members.map Member.withTypes }

end ApiDoc
