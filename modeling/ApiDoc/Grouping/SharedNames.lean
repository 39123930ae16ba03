/-
Classes that answer to the same name are one class.

The later one is merged into the first one that it shares a name with, which from then on answers to
its names too.
-/
import ApiDoc.Grouping.Combine
import ApiDoc.Warning

namespace ApiDoc

/-- Classes that share no names, as far as they were looked at. -/
structure Unified where
  classes : List ClassDoc := []
  names : List (String × Nat) := []
  /-- The names of the classes that were merged into others. -/
  folded : List String := []
  deriving Repr, Inhabited

namespace Unified

def fold (target c : ClassDoc) : ClassDoc :=
  let known :=
    if target.name == c.name then target
    else { target with alternateNames := appendNew target.alternateNames [c.name] }
  known.merge { c with alternateNames := c.alternateNames.filter (· != target.name) }

/-- Adds a class, which does not count its own name among its alternate names. -/
def add (u : Unified) (c : ClassDoc) : Unified × List Warning :=
  let c := { c with alternateNames := c.alternateNames.filter (· != c.name) }
  let known (classes : List ClassDoc) (i : Nat) (folded : List String) : Unified :=
    { classes, folded, names := u.names ++ c.answers.map fun name => (name, i) }
  match c.answers.findSome? fun name => u.names.lookup name with
  | none => (known (u.classes ++ [c]) u.classes.length u.folded, [])
  | some i =>
    let target := (u.classes[i]?.map ClassDoc.name).getD ""
    (known (u.classes.modify i fun target => fold target c) i (u.folded ++ [c.name]),
      [{ kind := .alternateName
         message := "Class " ++ c.name ++ " shares a name with " ++ target ++ ", merging them"
         file := c.files.head? }])

def ofClasses (classes : List ClassDoc) : Unified × List Warning := reportEach add {} classes

end Unified
end ApiDoc
