/-
Overrides: classes that change other classes.

An override is merged into its target member by member, and leaves a note wherever it changed
something.
-/
import ApiDoc.Grouping.Combine
import ApiDoc.Warning

namespace ApiDoc

def addParagraph (doc paragraph : String) : String :=
  if doc.isEmpty then paragraph else doc ++ "\n\n" ++ paragraph

namespace Override

def quote (source doc : String) : String := "**From override " ++ source ++ ":** " ++ doc

def noteOn (source doc : String) : String :=
  if doc.isEmpty then "**Overridden in " ++ source ++ ".**" else quote source doc

def patchMember (source : String) (m patch : Member) : Member :=
  { m with doc := addParagraph m.doc (noteOn source patch.doc), files := m.files ++ patch.files }

def newMember (source owner : String) (m : Member) : Member :=
  { m with doc := addParagraph m.doc ("**Defined in override " ++ source ++ ".**"), owner }

def addMember (source : String) (c : ClassDoc) (m : Member) : ClassDoc :=
  match c.members.findIdx? fun old => old.id == m.id with
  | some i => { c with members := c.members.modify i fun old => patchMember source old m }
  | none => c.addMembers [newMember source c.name m]

def apply (c patch : ClassDoc) : ClassDoc :=
  let c := patch.members.foldl (addMember patch.name) c
  { c with
    doc := if patch.doc.isEmpty then c.doc else addParagraph c.doc (quote patch.name patch.doc)
    files := c.files ++ patch.files }

/-- Merges an override into the first class that answers to the name of its target. -/
def applyTo (classes : List ClassDoc) (patch : ClassDoc) : List ClassDoc × List Warning :=
  let target := patch.overrideOf.getD ""
  match classes.findIdx? fun c => c.answersTo target with
  | some i => (classes.modify i fun c => apply c patch, [])
  | none =>
    (classes,
      [{ kind := .overrideTarget
         message := "Class " ++ target ++ " not found for override " ++ patch.name
         file := patch.files.head? }])

/-- Merges all overrides into their targets.  The second part of the answer holds their names. -/
def absorb (classes : List ClassDoc) : (List ClassDoc × List String) × List Warning :=
  let patches := classes.filter fun c => c.overrideOf.isSome
  let r := reportEach applyTo (classes.filter fun c => c.overrideOf.isNone) patches
  ((r.1, patches.map ClassDoc.name), r.2)

end Override
end ApiDoc
