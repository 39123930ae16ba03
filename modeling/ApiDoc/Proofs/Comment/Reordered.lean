/-
Items in another order.

If all items have names of their own, it is by the names alone that they are nested, so a list in another
order is made into the same trees up to the order of roots and of parts, and leaves the same orphans
(`nest_perm`).
-/
import ApiDoc.Proofs.Comment.Forest
import Mathlib.Data.List.Forall2

namespace ApiDoc
namespace Nesting

open Text Comment

/-! ### Trees up to the order of parts -/

/-- The nodes say the same, and so do their parts, in whatever order these stand. -/
inductive SameUpToOrder : Param → Param → Prop
  | node {p q : Param} {row : List Param} :
      { p with properties := [] } = { q with properties := [] } → p.properties.Perm row →
      List.Forall₂ SameUpToOrder row q.properties → SameUpToOrder p q

/-- The trees are the same, up to the order of the trees and of the parts at every node. -/
def SameTrees (ps qs : List Param) : Prop :=
  ∃ row, ps.Perm row ∧ List.Forall₂ SameUpToOrder row qs

mutual

theorem SameUpToOrder.refl : ∀ p : Param, SameUpToOrder p p
  | { properties, .. } => .node rfl (.refl properties) (SameUpToOrder.reflAll properties)

theorem SameUpToOrder.reflAll : ∀ ps : List Param, List.Forall₂ SameUpToOrder ps ps
  | [] => .nil
  | p :: ps => .cons (SameUpToOrder.refl p) (SameUpToOrder.reflAll ps)

end

theorem SameTrees.refl (ps : List Param) : SameTrees ps ps :=
  ⟨ps, .refl ps, SameUpToOrder.reflAll ps⟩

theorem SameTrees.append {ps qs ps' qs' : List Param} (h : SameTrees ps qs)
    (h' : SameTrees ps' qs') : SameTrees (ps ++ ps') (qs ++ qs') := by
  obtain ⟨row, hperm, hrow⟩ := h
  obtain ⟨row', hperm', hrow'⟩ := h'
  exact ⟨row ++ row', hperm.append hperm', List.rel_append hrow hrow'⟩

theorem SameUpToOrder.of_sameTrees {p q : Param}
    (hsame : { p with properties := [] } = { q with properties := [] })
    (h : SameTrees p.properties q.properties) : SameUpToOrder p q := by
  obtain ⟨row, hperm, hrow⟩ := h
  exact .node hsame hperm hrow

theorem SameUpToOrder.shortened {p q : Param} (h : SameUpToOrder p q) :
    SameUpToOrder (shortened p) (shortened q) := by
  cases h with
  | node hsame hperm hrow => exact .node (congrArg Nesting.shortened hsame) hperm hrow

/-- Lists of the same items are made into the same trees, if the items are. -/
theorem sameTrees_map {xs ys : List Item} {f g : Item → Param}
    (h : (xs.map Prod.fst).Perm (ys.map Prod.fst))
    (hsame : ∀ x ∈ xs, ∀ y ∈ ys, x.1 = y.1 → SameUpToOrder (f x) (g y)) :
    SameTrees (xs.map f) (ys.map g) := by
  have hitems : List.Forall₂ (fun (x : Item) p => x.1 = p) xs (xs.map Prod.fst) :=
    List.forall₂_map_right_iff.2 (List.forall₂_same.2 fun x _ => rfl)
  -- The new order is taken over to `xs`, place by place beside `ys`.
  have hcomp : Relation.Comp List.Perm (List.Forall₂ fun (x : Item) p => x.1 = p) xs
      (ys.map Prod.fst) := by
    rw [← List.forall₂_comp_perm_eq_perm_comp_forall₂]
    exact ⟨_, hitems, h⟩
  obtain ⟨zs, hperm, hzs⟩ := hcomp
  rw [List.forall₂_map_right_iff, List.forall₂_iff_zip] at hzs
  refine ⟨zs.map f, hperm.map f, ?_⟩
  rw [List.forall₂_map_left_iff, List.forall₂_map_right_iff, List.forall₂_iff_zip]
  refine ⟨hzs.1, fun {z y} hmem => ?_⟩
  obtain ⟨hz, hy⟩ := List.of_mem_zip hmem
  exact hsame z (hperm.mem_iff.2 hz) y hy (hzs.2 hmem)

/-! ### Items with names of their own -/

section

variable {params params' : List Param}

theorem map_fst_filter_zipIdx (p : Param → Bool) (params : List Param) :
    (params.zipIdx.filter fun i => p i.1).map Prod.fst = params.filter p := by
  have h := List.filter_map (f := Prod.fst) (p := p) (l := params.zipIdx)
  rw [List.zipIdx_map_fst] at h
  exact h.symm

/-- An item with a name of its own is the first of its name. -/
theorem placeOf?_nameOf (hnames : (params.map Param.nameText).Nodup) {i : Item}
    (hi : i ∈ params.zipIdx) : placeOf? params.zipIdx (nameOf i) = some i.2 := by
  rw [List.mem_zipIdx_iff_getElem?] at hi
  refine placeOf?_eq_some_iff.2 ⟨i.1, hi, rfl, fun earlier hmem heq => ?_⟩
  obtain ⟨j, hj, rfl⟩ := List.mem_take_iff_getElem.1 hmem
  obtain ⟨hk, hget⟩ := List.getElem?_eq_some_iff.1 hi
  have hsame : (params.map Param.nameText)[j]? = (params.map Param.nameText)[i.2]? := by
    rw [List.getElem?_map, List.getElem?_map, hi, List.getElem?_eq_getElem (by omega)]
    exact congrArg some heq
  have hplace : j = i.2 := (List.getElem?_inj (by rw [List.length_map]; omega) hnames).1 hsame
  omega

theorem map_fst_partsOf (hnames : (params.map Param.nameText).Nodup) {i : Item}
    (hi : i ∈ params.zipIdx) :
    (partsOf params.zipIdx i).map Prod.fst =
      params.filter fun p => parentName? p.nameText == some (nameOf i) := by
  have hparts : partsOf params.zipIdx i =
      params.zipIdx.filter fun p => parentName? (nameOf p) == some (nameOf i) := by
    refine List.filter_congr fun p _ => ?_
    rw [Bool.and_eq_left_iff_imp, beq_iff_eq, beq_iff_eq]
    intro hparent
    rw [parentOf?, hparent]
    exact placeOf?_nameOf hnames hi
  rw [hparts]
  exact map_fst_filter_zipIdx (fun p => parentName? p.nameText == some (nameOf i)) params

theorem map_fst_roots (params : List Param) :
    (rowOf params.zipIdx none).map Prod.fst =
      params.filter fun p => !isPartOf (params.map Param.nameText) p.nameText := by
  have hroots : rowOf params.zipIdx none =
      params.zipIdx.filter fun i => !isPartOf (params.map Param.nameText) i.1.nameText := by
    refine List.filter_congr fun i _ => ?_
    rw [Option.beq_none]
    exact isNone_parentOf? params i
  rw [hroots]
  exact map_fst_filter_zipIdx (fun p => !isPartOf (params.map Param.nameText) p.nameText) params

theorem roots_perm (h : params.Perm params') :
    ((rowOf params.zipIdx none).map Prod.fst).Perm ((rowOf params'.zipIdx none).map Prod.fst) := by
  rw [map_fst_roots, map_fst_roots]
  simp only [isPartOf_perm (h.map Param.nameText)]
  exact h.filter _

theorem sameUpToOrder_tree (hnames : (params.map Param.nameText).Nodup) (h : params.Perm params')
    {i i' : Item} (hi : i ∈ params.zipIdx) (hi' : i' ∈ params'.zipIdx) (hitem : i.1 = i'.1) :
    SameUpToOrder (tree params.zipIdx i) (tree params'.zipIdx i') := by
  induction i using tree.induct params.zipIdx generalizing i' with
  | case1 i ih =>
    have hnames' : (params'.map Param.nameText).Nodup := (h.map Param.nameText).nodup_iff.1 hnames
    have hname : nameOf i = nameOf i' := congrArg Param.nameText hitem
    have hparts : ((partsOf params.zipIdx i).map Prod.fst).Perm
        ((partsOf params'.zipIdx i').map Prod.fst) := by
      rw [map_fst_partsOf hnames hi, map_fst_partsOf hnames' hi', hname]
      exact h.filter _
    rw [tree_eq, tree_eq, hitem]
    refine .of_sameTrees rfl ((SameTrees.refl _).append (sameTrees_map hparts ?_))
    intro p hp p' hp' hpitem
    exact (ih p hp (List.mem_filter.1 hp).1 (List.mem_filter.1 hp').1 hpitem).shortened

end

/-- If the items have names of their own, their order does not matter: in another order they are made into
the same trees, up to the order of roots and parts, and leave the same orphans.  A missing name counts as
the empty one. -/
theorem nest_perm {params params' : List Param} (hnames : (params.map Param.nameText).Nodup)
    (h : params.Perm params') :
    SameTrees (nest params).items (nest params').items ∧
      (nest params).orphans.Perm (nest params').orphans := by
  constructor
  · rw [items_nest, items_nest]
    exact sameTrees_map (roots_perm h) fun i hi i' hi' hitem =>
      sameUpToOrder_tree hnames h (mem_rowOf_iff.1 hi).1 (mem_rowOf_iff.1 hi').1 hitem
  · have hroots (ps : List Param) : (nest ps).items.map Param.nameText =
        ((rowOf ps.zipIdx none).map Prod.fst).map Param.nameText := by
      rw [names_items_nest, List.map_map]
      rfl
    rw [orphans_nest, orphans_nest, hroots, hroots]
    exact ((roots_perm h).map Param.nameText).filter _

/-- Parts of two levels, and one whose owner is missing. -/
def sizeItems : List Param :=
  [{ name := some "size" }, { name := some "size.width", type := some "Number" },
   { name := some "size.width.unit", default := some "px" }, { name := some "size.height" },
   { name := some "place" }, { name := some "edge.left", isOptional := true }]

theorem nest_reverse_sizeItems :
    (sizeItems.map Param.nameText).Nodup ∧ sizeItems.Perm sizeItems.reverse ∧
      SameTrees (nest sizeItems).items (nest sizeItems.reverse).items ∧
      (nest sizeItems).orphans.Perm (nest sizeItems.reverse).orphans := by
  have hnames : (sizeItems.map Param.nameText).Nodup := by decide
  have hperm : sizeItems.Perm sizeItems.reverse := (List.reverse_perm sizeItems).symm
  exact ⟨hnames, hperm, nest_perm hnames hperm⟩

end Nesting
end ApiDoc
