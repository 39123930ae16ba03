/-
From grouped classes to the finished registry.
-/
import ApiDoc.Completion.Accessors
import ApiDoc.Completion.DefaultTypes
import ApiDoc.Completion.Enumerations
import ApiDoc.Completion.EventOptions
import ApiDoc.Completion.Fires
import ApiDoc.Completion.InheritedDocs
import ApiDoc.Completion.Returns
import ApiDoc.Grouping.Basic
import ApiDoc.Grouping.Overrides
import ApiDoc.Grouping.SharedNames
import ApiDoc.TypeExpr.Known

namespace ApiDoc

structure AssemblyOptions where
  /-- Whether events receive options; if it is left open, the classes decide. -/
  eventOptions : Option Bool := none
  checksTypes : Bool := false
  deriving DecidableEq, Repr, Inhabited

/-- Every member belongs to the class that holds it. -/
def ClassDoc.claimMembers (c : ClassDoc) : ClassDoc :=
  { c with members := c.members.map fun m => { m with owner := c.name } }

namespace Grouping

/-- The classes that remain when names are unified, ignored classes are left out and overrides are
absorbed, and the names of those that do not. -/
def resolve (g : Grouping) : (List ClassDoc × List String) × List Warning :=
  let settled := g.settleAll
  let unified := Unified.ofClasses settled.1.classes
  let ignored := settled.1.ignored ++ unified.1.folded
  let absorbed := Override.absorb (unified.1.classes.filter fun c => !ignored.contains c.name)
  ((absorbed.1.1, ignored ++ absorbed.1.2), settled.2 ++ unified.2 ++ absorbed.2)

end Grouping

/-- Adds what follows from the documentation and the code of the classes by themselves. -/
def completeMembers (options : AssemblyOptions) (classes : List ClassDoc) :
    List ClassDoc × List Warning :=
  let classes := classes.map fun c => c.claimMembers.withAccessors
  let withOptions := eventsHaveOptions options.eventOptions classes
  let classes := classes.map fun c =>
    if withOptions then c.withReturns.withEventOptions else c.withReturns
  let done := Enumeration.completeAll classes
  (done.1.map fun c => c.withFires.withTypes, done.2)

def completeInheritance (options : AssemblyOptions) (classes : List ClassDoc)
    (ignored : List String) : Except Error Registry × List Warning :=
  let built := Registry.build classes ignored
  match built.1 with
  | .error e => (.error e, built.2)
  | .ok r =>
    let inherited := r.inheritDocs
    let checked :=
      if options.checksTypes then
        (KnownTypes.ofRegistry inherited.1).check inherited.1.classes
      else []
    (.ok inherited.1, built.2 ++ inherited.2 ++ checked)

namespace Grouping

/-- Makes the registry.  Warnings are given even where that fails. -/
def finish (g : Grouping) (options : AssemblyOptions) : Except Error Registry × List Warning :=
  let resolved := g.resolve
  let completed := completeMembers options resolved.1.1
  let r := completeInheritance options completed.1 resolved.1.2
  (r.1, resolved.2 ++ completed.2 ++ r.2)

end Grouping
end ApiDoc
