/-
Items in their trees.

Every item of a list stands in one of the trees that are made of it, under its whole name or, below the
top, under its last segment.  An item whose name goes on from the name of another is a child of the
first item of that name (`nestsUnder_of_parentName?`).
-/
import ApiDoc.Comment.Detect
import ApiDoc.Comment.Nesting

namespace ApiDoc
namespace Nesting

open Text Comment

/-- The node stands in one of the trees. -/
inductive Within (node : Param) : List Param → Prop
  | top {trees : List Param} : node ∈ trees → Within node trees
  | part {tree : Param} {trees : List Param} : tree ∈ trees → Within node tree.properties →
      Within node trees

theorem Within.child {node child : Param} {trees : List Param} (h : Within node trees)
    (hchild : child ∈ node.properties) : Within child trees := by
  induction h with
  | top hmem => exact .part hmem (.top hchild)
  | part hmem _ ih => exact .part hmem ih

/-- The node is the item with its parts, under its whole name or the last segment of it. -/
def IsNodeOf (node item : Param) : Prop :=
  ∃ parts, node = { item with properties := item.properties ++ parts } ∨
    node = shortened { item with properties := item.properties ++ parts }

/-- The first item of the name has a node, and the part is a child of it under the name `short`. -/
def NestsUnder (params : List Param) (part : Param) (name short : String) : Prop :=
  ∃ owner node child, params.find? (fun p => p.nameText == name) = some owner ∧ IsNodeOf node owner ∧
    Within node (nest params).items ∧ child ∈ node.properties ∧ IsNodeOf child part ∧
    child.name = some short

theorem tree_eq (items : List Item) (i : Item) :
    tree items i =
      { i.1 with properties := i.1.properties ++ (partsOf items i).map fun p => shortened (tree items p) } := by
  rw [tree, List.map_attach_eq_pmap, List.pmap_eq_map]

theorem isNodeOf_tree (items : List Item) (i : Item) : IsNodeOf (tree items i) i.1 :=
  ⟨_, .inl (tree_eq items i)⟩

theorem isNodeOf_shortened_tree (items : List Item) (i : Item) :
    IsNodeOf (shortened (tree items i)) i.1 :=
  ⟨_, .inr (congrArg shortened (tree_eq items i))⟩

theorem shortened_tree_mem {items : List Item} {i p : Item} (h : p ∈ partsOf items i) :
    shortened (tree items p) ∈ (tree items i).properties := by
  rw [tree_eq items i]
  exact List.mem_append_right _ (List.mem_map_of_mem h)

theorem map_zipIdx {β : Type} (f : Param → β) (params : List Param) :
    (params.zipIdx.map fun i => f i.1) = params.map f := by
  have hcomp : (fun i : Item => f i.1) = f ∘ Prod.fst := rfl
  rw [hcomp, ← List.map_map, List.zipIdx_map_fst]

theorem map_nameOf_zipIdx (params : List Param) :
    params.zipIdx.map nameOf = params.map Param.nameText := map_zipIdx Param.nameText params

/-- The items that are nested under no other one are those whose names are no parts of names. -/
theorem isNone_parentOf? (params : List Param) (i : Item) :
    (parentOf? params.zipIdx i).isNone = !isPartOf (params.map Param.nameText) (nameOf i) := by
  rw [Bool.eq_iff_iff, Bool.not_eq_true', ← Bool.not_eq_true, isPartOf_iff, ← map_nameOf_zipIdx,
    parentOf?]
  cases parentName? (nameOf i) with
  | none => simp
  | some parent => simp [placeOf?]

/-- The item is a part of the one that it is nested under. -/
theorem exists_of_parentOf? {items : List Item} {i : Item} (hi : i ∈ items) {k : Nat}
    (h : parentOf? items i = some k) :
    ∃ j ∈ items, parentName? (nameOf i) = some (nameOf j) ∧ i ∈ partsOf items j := by
  obtain ⟨name, hname, hplace⟩ := Option.bind_eq_some_iff.1 h
  obtain ⟨j, hj, rfl⟩ := Option.map_eq_some_iff.1 hplace
  have hjname : nameOf j = name := by simpa using List.find?_some hj
  refine ⟨j, List.mem_of_find?_eq_some hj, hjname ▸ hname, List.mem_filter.2 ⟨hi, ?_⟩⟩
  rw [hname, hjname, h, beq_self_eq_true, beq_self_eq_true]
  rfl

/-- Every item has its node in one of the trees. -/
theorem within_nest (params : List Param) {i : Item} (hi : i ∈ params.zipIdx) :
    ∃ node, IsNodeOf node i.1 ∧ node.properties = (tree params.zipIdx i).properties ∧
      Within node (nest params).items := by
  induction hlength : (nameOf i).length using Nat.strongRecOn generalizing i with
  | ind n ih =>
    subst hlength
    cases hparent : parentOf? params.zipIdx i with
    | none =>
      have htop : tree params.zipIdx i ∈ (nest params).items :=
        List.mem_map_of_mem (List.mem_filter.2 ⟨hi, by rw [hparent]; rfl⟩)
      exact ⟨_, isNodeOf_tree _ i, rfl, .top htop⟩
    | some k =>
      obtain ⟨j, hj, hname, hpart⟩ := exists_of_parentOf? hi hparent
      obtain ⟨node, -, hproperties, hwithin⟩ := ih _ (length_parentName? hname) hj rfl
      refine ⟨_, isNodeOf_shortened_tree _ i, rfl, hwithin.child ?_⟩
      rw [hproperties]
      exact shortened_tree_mem hpart

/-- The place of a name is that of the first item with the name. -/
theorem exists_placeOf? {params : List Param} {owner : Param} {name : String}
    (h : params.find? (fun p => p.nameText == name) = some owner) :
    ∃ i ∈ params.zipIdx, i.1 = owner ∧ nameOf i = name ∧ placeOf? params.zipIdx name = some i.2 := by
  have hfind : (params.zipIdx.find? fun i => nameOf i == name).map Prod.fst = some owner := by
    have hmap := @List.find?_map _ _ (fun p => p.nameText == name) Prod.fst params.zipIdx
    rw [List.zipIdx_map_fst, h] at hmap
    exact hmap.symm
  obtain ⟨i, hi, rfl⟩ := Option.map_eq_some_iff.1 hfind
  exact ⟨i, List.mem_of_find?_eq_some hi, rfl, by simpa using List.find?_some hi,
    congrArg (Option.map Prod.snd) hi⟩

/-- An item whose name goes on from that of another nests under it. -/
theorem nestsUnder_of_parentName? {params : List Param} {owner part : Param} {name : String}
    (howner : owner ∈ params) (hpart : part ∈ params) (hpartName : part.name = some name)
    (hname : parentName? name = some owner.nameText) :
    NestsUnder params part owner.nameText (lastSegment name) := by
  have hsome : (params.find? fun p => p.nameText == owner.nameText).isSome = true :=
    List.find?_isSome.2 ⟨owner, howner, beq_self_eq_true _⟩
  obtain ⟨first, hfirst⟩ := Option.isSome_iff_exists.1 hsome
  obtain ⟨i, hi, rfl, hiname, hplace⟩ := exists_placeOf? hfirst
  obtain ⟨p, hp, rfl⟩ : ∃ p ∈ params.zipIdx, p.1 = part := by
    rw [← List.zipIdx_map_fst 0 params] at hpart
    exact List.mem_map.1 hpart
  have hparent : parentName? (nameOf p) = some owner.nameText := by
    rw [nameOf, Param.nameText, hpartName]
    exact hname
  have hparts : p ∈ partsOf params.zipIdx i := by
    have hplaceOf : parentOf? params.zipIdx p = some i.2 := by
      rw [parentOf?, hparent]
      exact hplace
    refine List.mem_filter.2 ⟨hp, ?_⟩
    rw [hplaceOf, hparent, hiname, beq_self_eq_true, beq_self_eq_true]
    rfl
  obtain ⟨node, hnode, hproperties, hwithin⟩ := within_nest params hi
  refine ⟨i.1, node, shortened (tree params.zipIdx p), hfirst, hnode, hwithin, ?_,
    isNodeOf_shortened_tree _ p, ?_⟩
  · rw [hproperties]
    exact shortened_tree_mem hparts
  · rw [tree_eq]
    exact congrArg (Option.map lastSegment) hpartName

end Nesting
end ApiDoc
