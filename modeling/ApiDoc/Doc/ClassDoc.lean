/-
Classes, and the entities that single comments document.
-/
import ApiDoc.Doc.Member

namespace ApiDoc

structure EnumInfo where
  type : Option String := none
  /-- The pattern of the aliases that the enumeration lists, such as `widget.*`. -/
  pattern : Option String := none
  isDocOnly : Bool := false
  deriving DecidableEq, Repr, Inhabited

/-- A class.  Many comments can contribute to one class. -/
structure ClassDoc where
  name : String := ""
  parent : Option String := none
  mixins : List String := []
  alternateNames : List String := []
  aliases : List String := []
  requires : List String := []
  uses : List String := []
  isSingleton : Bool := false
  isPrivate : Bool := false
  isProtected : Bool := false
  isHidden : Bool := false
  doc : String := ""
  localdoc : Option String := none
  deprecated : Option Deprecation := none
  since : Option String := none
  overrideOf : Option String := none
  enumInfo : Option EnumInfo := none
  inheritdoc : Option InheritRef := none
  /-- The class comes from a definition call. -/
  isDefined : Bool := false
  files : List FileRef := []
  members : List Member := []
  deriving DecidableEq, Repr, Inhabited

namespace ClassDoc

def memberById? (c : ClassDoc) (id : String) : Option Member :=
  c.members.find? fun m => m.id == id

def memberNamed? (c : ClassDoc) (name : String) : Option Member :=
  c.members.find? fun m => m.name == name

def answersTo (c : ClassDoc) (name : String) : Bool :=
  c.name == name || c.alternateNames.any (· == name)

end ClassDoc

inductive Entity where
  | ofClass (c : ClassDoc)
  | ofMember (m : Member)
  deriving DecidableEq, Repr, Inhabited

structure Entry where
  entity : Entity
  /-- The class that the comment assigns the member to. -/
  memberOf : Option String := none
  isIgnored : Bool := false
  deriving DecidableEq, Repr, Inhabited

end ApiDoc
