/-
The parts that members are documented with: places in files, parameters, return values, exceptions,
deprecations and references to inherited documentation.
-/
import ApiDoc.Doc.EntityKind

namespace ApiDoc

structure FileRef where
  filename : String
  line : Nat
  deriving DecidableEq, Repr, Inhabited

/-- The version and the text of a deprecation or a removal. -/
structure Deprecation where
  version : Option String := none
  text : String := ""
  deriving DecidableEq, Repr, Inhabited

/-- A parameter, a subproperty or an event argument. -/
structure Param where
  name : Option String := none
  type : Option String := none
  doc : String := ""
  isOptional : Bool := false
  default : Option String := none
  properties : List Param := []
  /-- Set on the options object that every event receives. -/
  isEventOptions : Bool := false
  deriving Repr, Inhabited

namespace Param

mutual

/-- Parameters are compared with all that is below them. -/
def decideEq : (p q : Param) → Decidable (p = q)
  | ⟨name, type, doc, isOptional, default, properties, isEventOptions⟩,
    ⟨name', type', doc', isOptional', default', properties', isEventOptions'⟩ =>
    haveI := decideEqAll properties properties'
    decidable_of_iff (name = name' ∧ type = type' ∧ doc = doc' ∧ isOptional = isOptional' ∧
      default = default' ∧ properties = properties' ∧ isEventOptions = isEventOptions') (by simp)

def decideEqAll : (ps qs : List Param) → Decidable (ps = qs)
  | [], [] => isTrue rfl
  | [], _ :: _ => isFalse nofun
  | _ :: _, [] => isFalse nofun
  | p :: ps, q :: qs =>
    haveI := p.decideEq q
    haveI := decideEqAll ps qs
    decidable_of_iff (p = q ∧ ps = qs) (by simp)

end

instance : DecidableEq Param := decideEq

end Param

structure ReturnDoc where
  type : Option String := none
  doc : String := ""
  properties : List Param := []
  deriving DecidableEq, Repr, Inhabited

structure ThrownDoc where
  type : String
  doc : String
  deriving DecidableEq, Repr, Inhabited

/-- A reference to the entity whose documentation is to be copied.  With all parts missing it
stands for the member of the same name in the parent. -/
structure InheritRef where
  className : Option String := none
  memberName : Option String := none
  kind : Option EntityKind := none
  isStatic : Bool := false
  deriving DecidableEq, Repr, Inhabited

end ApiDoc
