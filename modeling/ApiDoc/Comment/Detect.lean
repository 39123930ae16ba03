/-
What a comment documents.

The tags of the comment decide first, in a fixed order of precedence, and the code after the comment
decides where they leave it open.
-/
import ApiDoc.Comment.Tag
import ApiDoc.Text.Basic

namespace ApiDoc
namespace Comment

open Text

/-- The kind of the documented entity, and whether the comment itself says so. -/
structure Detected where
  kind : EntityKind
  isExplicit : Bool
  deriving DecidableEq, Repr, Inhabited

def hasTag (tags : List Tag) (kind : TagKind) : Bool := tags.any fun t => t.kind == kind

def configNames (tags : List Tag) : List String :=
  (tags.filter fun t => t.kind == .config).map Tag.nameText

def isPartOf (names : List String) (name : String) : Bool :=
  match parentName? name with
  | some parent => names.contains parent
  | none => false

theorem isPartOf_iff {names : List String} {name : String} :
    isPartOf names name = true ↔ ∃ parent, parentName? name = some parent ∧ parent ∈ names := by
  unfold isPartOf
  cases parentName? name with
  | none => simp
  | some parent => simp

theorem isPartOf_mono {names names' : List String} (h : names ⊆ names') {name : String}
    (hpart : isPartOf names name = true) : isPartOf names' name = true := by
  obtain ⟨parent, hparent, hmem⟩ := isPartOf_iff.1 hpart
  exact isPartOf_iff.2 ⟨parent, hparent, h hmem⟩

theorem isPartOf_perm {names names' : List String} (h : names.Perm names') (name : String) :
    isPartOf names name = isPartOf names' name := by
  rw [Bool.eq_iff_iff, isPartOf_iff, isPartOf_iff]
  simp only [h.mem_iff]

def topLevelConfigs (tags : List Tag) : Nat :=
  (configNames tags).countP fun name => !isPartOf (configNames tags) name

/-- The kind of entity that tags document, next to code of the kind `code`. -/
def detect (tags : List Tag) (code : Option EntityKind) : Detected :=
  let has := hasTag tags
  let configs := topLevelConfigs tags
  if has .classDef then ⟨.classDef, true⟩
  else if has .event then ⟨.event, true⟩
  else if has .method then ⟨.method, true⟩
  else if has .property || has .valueType then ⟨.property, true⟩
  else if has .styleVar then ⟨.styleVar, true⟩
  else if configs == 1 then ⟨.config, true⟩
  else if code == some .classDef then ⟨.classDef, false⟩
  else if has .styleMixin then ⟨.styleMixin, true⟩
  else if configs > 1 then ⟨.classDef, true⟩
  else if has .constructorDef || has .param || has .returns then ⟨.method, true⟩
  else if has .enumeration || has .overrideOf then ⟨.classDef, true⟩
  else ⟨code.getD .property, false⟩

end Comment
end ApiDoc
