/-
Members of classes.
-/
import ApiDoc.Doc.Param

namespace ApiDoc

/-- Which parts of a member come from code instead of from a tag. -/
structure Inferred where
  member : Bool := false
  kind : Bool := false
  name : Bool := false
  type : Bool := false
  default : Bool := false
  params : Bool := false
  chainable : Bool := false
  fires : Bool := false
  deriving DecidableEq, Repr, Inhabited

/-- What the body of a function does on its own object. -/
structure BodyFacts where
  fires : List String := []
  calls : List String := []
  deriving DecidableEq, Repr, Inhabited

/-- A member of a class.  `id` is a snapshot of `Member.currentId`. -/
structure Member where
  kind : EntityKind
  name : String
  id : String := ""
  owner : String := ""
  type : Option String := none
  default : Option String := none
  doc : String := ""
  params : List Param := []
  returns : Option ReturnDoc := none
  throws : List ThrownDoc := []
  properties : List Param := []
  fires : List String := []
  isPrivate : Bool := false
  isProtected : Bool := false
  isStatic : Bool := false
  isInheritable : Bool := false
  isAbstract : Bool := false
  isRequired : Bool := false
  isOptional : Bool := false
  isChainable : Bool := false
  isAccessor : Bool := false
  isEvented : Bool := false
  isHidden : Bool := false
  isTemplate : Bool := false
  isPreventable : Bool := false
  isReadonly : Bool := false
  deprecated : Option Deprecation := none
  removed : Option Deprecation := none
  since : Option String := none
  localdoc : Option String := none
  inferred : Inferred := {}
  inheritdoc : Option InheritRef := none
  files : List FileRef := []
  line : Nat := 0
  body : BodyFacts := {}
  hasExplicitFires : Bool := false
  deriving DecidableEq, Repr, Inhabited

def memberId (isStatic : Bool) (kind : EntityKind) (name : String) : String :=
  (if isStatic then "static-" else "") ++ kind.word ++ "-" ++ name

theorem toList_memberId (isStatic : Bool) (kind : EntityKind) (name : String) :
    (memberId isStatic kind name).toList =
      if isStatic then "static".toList ++ '-' :: (kind.word.toList ++ '-' :: name.toList)
      else kind.word.toList ++ '-' :: name.toList := by
  cases isStatic with
  | false => simp [memberId]
  | true => simp [memberId]

namespace Member

def currentId (m : Member) : String := memberId m.isStatic m.kind m.name

def refreshId (m : Member) : Member := { m with id := m.currentId }

def ofName (kind : EntityKind) (name : String) : Member :=
  { kind, name, id := memberId false kind name }

/-- Static members that stay with the class that declares them. -/
def isLocalStatic (m : Member) : Bool := m.isStatic && !m.isInheritable

end Member

end ApiDoc
