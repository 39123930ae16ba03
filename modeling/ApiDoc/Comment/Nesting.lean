/-
Dotted names as trees.

Parts of a value are documented under dotted names, such as `size.width`.  Each of them is moved under
the first item that has the name up to its last dot, whether that comes earlier or later, and keeps
the last segment as its name.  Names grow with every level, so the trees are finite.
-/
import ApiDoc.Doc.Param
import ApiDoc.Text.Basic

namespace ApiDoc

open Text

def Param.nameText (p : Param) : String := p.name.getD ""

namespace Nesting

abbrev Item := Param × Nat

def nameOf (i : Item) : String := i.1.nameText

def placeOf? (items : List Item) (name : String) : Option Nat :=
  (items.find? fun i => nameOf i == name).map (·.2)

/-- The place of the item that an item is nested under. -/
def parentOf? (items : List Item) (i : Item) : Option Nat :=
  (parentName? (nameOf i)).bind (placeOf? items)

def partsOf (items : List Item) (i : Item) : List Item :=
  items.filter fun p => parentName? (nameOf p) == some (nameOf i) && parentOf? items p == some i.2

/-- The length of the longest name. -/
def longest (items : List Item) : Nat :=
  (items.map fun i => (nameOf i).length).foldr max 0

theorem length_le_longest {items : List Item} {i : Item} (h : i ∈ items) :
    (nameOf i).length ≤ longest items := by
  induction items with
  | nil => simp at h
  | cons j items ih =>
    rcases List.mem_cons.1 h with rfl | h
    · exact Nat.le_max_left _ _
    · exact Nat.le_trans (ih h) (Nat.le_max_right _ _)

theorem length_parentName? {name parent : String} (h : parentName? name = some parent) :
    parent.length < name.length := by
  obtain ⟨segment, hname, -⟩ := parentName?_eq_some_iff.1 h
  rw [← String.length_toList, ← String.length_toList, hname, List.length_append, List.length_cons]
  omega

theorem measure_partsOf {items : List Item} {i p : Item} (h : p ∈ partsOf items i) :
    longest items - (nameOf p).length < longest items - (nameOf i).length := by
  obtain ⟨hp, hc⟩ := List.mem_filter.1 h
  simp only [Bool.and_eq_true, beq_iff_eq] at hc
  have h1 := length_le_longest hp
  have h2 := length_parentName? hc.1
  omega

def shortened (p : Param) : Param := { p with name := p.name.map lastSegment }

def tree (items : List Item) (i : Item) : Param :=
  { i.1 with
    properties := i.1.properties ++
      (partsOf items i).attach.map fun ⟨p, _⟩ => shortened (tree items p) }
termination_by longest items - (nameOf i).length
decreasing_by exact measure_partsOf (by assumption)

/-- Whether an item has a dotted name without being nested under another item.  A leading dot is
no sign of a missing parent. -/
def isOrphan (items : List Item) (i : Item) : Bool :=
  (parentOf? items i).isNone && (nameOf i).toList.contains '.'
    && !(".".toList.isPrefixOf (nameOf i).toList)

end Nesting

/-- The items as trees, and the dotted names whose parents are missing. -/
structure Nested where
  items : List Param
  orphans : List String

def nest (params : List Param) : Nested :=
  let items := params.zipIdx
  { items := (items.filter fun i => (Nesting.parentOf? items i).isNone).map (Nesting.tree items)
    orphans := (items.filter (Nesting.isOrphan items)).map Nesting.nameOf }

end ApiDoc
