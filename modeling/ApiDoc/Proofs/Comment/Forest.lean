/-
Lists of items and the trees they are nested into.

The items are read back from the trees under their names in full, and each of them is there once
(`flatMap_reading_perm`).  Where an item stands is told by places in the list: it belongs to the first
item that has its name up to the last dot, or to none and is a root then, and the nodes of a row stand
in the order of their items (`isRow_rowOf`, `standsFor_of_isEntry`).  Nothing is asked of the names: they
may be repeated, miss levels or come before those they go on from.
-/
import ApiDoc.Proofs.Buckets
import ApiDoc.Proofs.Comment.Nested
import Mathlib.Data.List.Perm.Basic
import Mathlib.Data.List.Sort

namespace ApiDoc
namespace Nesting

open Text
open scoped List

/-! ### Reading trees back -/

/-- An item by itself, under its name in full. -/
def entry (full : String) (p : Param) : Param := { p with name := some full, properties := [] }

/-- The name of a node in full.  Below another node it follows that node's name and a dot. -/
def fullName (above : Option String) (own : String) : String :=
  match above with
  | none => own
  | some name => name ++ "." ++ own

mutual

/-- The items that a tree holds, each under its name in full. -/
def readTree (above : Option String) : Param → List Param
  | { name, type, doc, isOptional, default, properties, isEventOptions } =>
    let full := fullName above (name.getD "")
    { name := some full, type, doc, isOptional, default, isEventOptions } ::
      readTrees (some full) properties

def readTrees (above : Option String) : List Param → List Param
  | [] => []
  | p :: ps => readTree above p ++ readTrees above ps

end

theorem readTrees_eq (above : Option String) (ps : List Param) :
    readTrees above ps = ps.flatMap (readTree above) := by
  induction ps with
  | nil => rfl
  | cons p ps ih => rw [readTrees, ih, List.flatMap_cons]

theorem readTree_eq (above : Option String) (p : Param) :
    readTree above p = entry (fullName above p.nameText) p ::
      p.properties.flatMap (readTree (some (fullName above p.nameText))) := by
  obtain ⟨name, type, doc, isOptional, default, properties, isEventOptions⟩ := p
  rw [readTree, readTrees_eq]
  rfl

/-! ### Places -/

/-- The item at `owner` is the first with its name, and the one at `place` has this name and one more
segment. -/
def Owns (params : List Param) (owner place : Nat) : Prop :=
  ∃ o p segment, params[owner]? = some o ∧ params[place]? = some p ∧
    (∀ earlier ∈ params.take owner, earlier.nameText ≠ o.nameText) ∧
    p.nameText.toList = o.nameText.toList ++ '.' :: segment ∧ '.' ∉ segment

/-- The item at a place has this owner, or it has none. -/
def BelongsTo (params : List Param) (owner : Option Nat) (place : Nat) : Prop :=
  match owner with
  | some k => Owns params k place
  | none => place < params.length ∧ ∀ k, ¬Owns params k place

/-- The places of all items that belong to an owner, in their order. -/
def IsRow (params : List Param) (owner : Option Nat) (places : List Nat) : Prop :=
  places.Pairwise (· < ·) ∧ ∀ place, place ∈ places ↔ BelongsTo params owner place

mutual

/-- The node stands for the item at a place: it says what the item says, under the same name in full,
and its parts stand for the items that belong to that item. -/
inductive StandsFor (params : List Param) : Option String → Nat → Param → Prop
  | node {above : Option String} {place : Nat} {item node : Param} {places : List Nat} :
      params[place]? = some item →
      entry (fullName above node.nameText) node = entry item.nameText item →
      IsRow params (some place) places →
      StandInRow params (some item.nameText) places node.properties →
      StandsFor params above place node

/-- The nodes stand for the items at these places, one for each. -/
inductive StandInRow (params : List Param) : Option String → List Nat → List Param → Prop
  | nil {above : Option String} : StandInRow params above [] []
  | cons {above : Option String} {place : Nat} {node : Param} {places : List Nat}
      {nodes : List Param} : StandsFor params above place node →
      StandInRow params above places nodes →
      StandInRow params above (place :: places) (node :: nodes)

end

/-- The items that belong to an owner. -/
def rowOf (items : List Item) (owner : Option Nat) : List Item :=
  items.filter fun i => parentOf? items i == owner

theorem mem_rowOf_iff {items : List Item} {owner : Option Nat} {i : Item} :
    i ∈ rowOf items owner ↔ i ∈ items ∧ parentOf? items i = owner := by
  rw [rowOf, List.mem_filter, beq_iff_eq]

section

variable {params : List Param}

/-- A name has the place of the first item with it. -/
theorem placeOf?_eq_some_iff {name : String} {k : Nat} :
    placeOf? params.zipIdx name = some k ↔
      ∃ o, params[k]? = some o ∧ o.nameText = name ∧
        ∀ earlier ∈ params.take k, earlier.nameText ≠ name := by
  have hfind : placeOf? params.zipIdx name = params.findIdx? fun p => p.nameText == name := by
    rw [List.findIdx?_eq_fst_find?_zipIdx]
    rfl
  rw [hfind, List.findIdx?_eq_some_iff_getElem]
  constructor
  · rintro ⟨hk, hname, hfirst⟩
    refine ⟨params[k], List.getElem?_eq_getElem hk, eq_of_beq hname, fun earlier hmem => ?_⟩
    obtain ⟨j, hj, rfl⟩ := List.mem_iff_getElem.1 hmem
    rw [List.length_take] at hj
    rw [List.getElem_take]
    simpa using hfirst j (by omega)
  · rintro ⟨o, ho, hname, hfirst⟩
    obtain ⟨hk, rfl⟩ := List.getElem?_eq_some_iff.1 ho
    refine ⟨hk, beq_iff_eq.2 hname, fun j hj => ?_⟩
    have hmem : params[j] ∈ params.take k := by
      rw [List.mem_take_iff_getElem]
      exact ⟨j, by omega, rfl⟩
    simpa using hfirst _ hmem

/-- An item is nested under the one that owns it. -/
theorem parentOf?_eq_some_iff {i : Item} (hi : i ∈ params.zipIdx) {k : Nat} :
    parentOf? params.zipIdx i = some k ↔ Owns params k i.2 := by
  rw [parentOf?, Option.bind_eq_some_iff]
  rw [List.mem_zipIdx_iff_getElem?] at hi
  constructor
  · rintro ⟨name, hname, hplace⟩
    obtain ⟨segment, hsegment⟩ := parentName?_eq_some_iff.1 hname
    obtain ⟨o, ho, rfl, hfirst⟩ := placeOf?_eq_some_iff.1 hplace
    exact ⟨o, i.1, segment, ho, hi, hfirst, hsegment⟩
  · rintro ⟨o, p, segment, ho, hp, hfirst, hsegment⟩
    cases hi.symm.trans hp
    exact ⟨o.nameText, parentName?_eq_some_iff.2 ⟨segment, hsegment⟩,
      placeOf?_eq_some_iff.2 ⟨o, ho, rfl, hfirst⟩⟩

theorem parentOf?_eq_iff {i : Item} (hi : i ∈ params.zipIdx) {owner : Option Nat} :
    parentOf? params.zipIdx i = owner ↔ BelongsTo params owner i.2 := by
  cases owner with
  | some k => exact parentOf?_eq_some_iff hi
  | none =>
    have hlt : i.2 < params.length := by
      obtain ⟨hlt, -⟩ := List.getElem?_eq_some_iff.1 (List.mem_zipIdx_iff_getElem?.1 hi)
      exact hlt
    rw [Option.eq_none_iff_forall_ne_some, BelongsTo]
    simp only [ne_eq, parentOf?_eq_some_iff hi, hlt, true_and]

theorem BelongsTo.lt_length {owner : Option Nat} {place : Nat} (h : BelongsTo params owner place) :
    place < params.length := by
  cases owner with
  | none => exact h.1
  | some k =>
    obtain ⟨o, p, segment, -, hp, -⟩ := h
    exact (List.getElem?_eq_some_iff.1 hp).1

/-- The items of a row stand in their order. -/
theorem isRow_rowOf (owner : Option Nat) :
    IsRow params owner ((rowOf params.zipIdx owner).map Prod.snd) := by
  constructor
  · have hrange : (params.zipIdx.map Prod.snd).Pairwise (· < ·) := by
      rw [List.zipIdx_map_snd]
      exact List.pairwise_lt_range'
    exact hrange.sublist (List.filter_sublist.map Prod.snd)
  · intro place
    rw [List.mem_map]
    constructor
    · rintro ⟨i, hi, rfl⟩
      obtain ⟨hmem, howner⟩ := mem_rowOf_iff.1 hi
      exact (parentOf?_eq_iff hmem).1 howner
    · intro h
      have hlt := h.lt_length
      have hmem : (params[place], place) ∈ params.zipIdx :=
        List.mem_zipIdx_iff_getElem?.2 (List.getElem?_eq_getElem hlt)
      exact ⟨_, mem_rowOf_iff.2 ⟨hmem, (parentOf?_eq_iff hmem).2 h⟩, rfl⟩

/-- The owner leaves no choice of the places in its row. -/
theorem IsRow.unique {owner : Option Nat} {places places' : List Nat}
    (h : IsRow params owner places) (h' : IsRow params owner places') : places = places' :=
  h.1.eq_of_mem_iff h'.1 fun {place} => (h.2 place).trans (h'.2 place).symm

/-- The parts of an item are the items that belong to it. -/
theorem partsOf_eq_rowOf {i : Item} (hi : i ∈ params.zipIdx) :
    partsOf params.zipIdx i = rowOf params.zipIdx (some i.2) := by
  refine List.filter_congr fun p hp => ?_
  rw [Bool.and_eq_right_iff_imp, beq_iff_eq, beq_iff_eq, parentOf?_eq_some_iff hp]
  rintro ⟨o, q, segment, ho, hq, -, hsegment⟩
  cases (List.mem_zipIdx_iff_getElem?.1 hi).symm.trans ho
  cases (List.mem_zipIdx_iff_getElem?.1 hp).symm.trans hq
  exact parentName?_eq_some_iff.2 ⟨segment, hsegment⟩

end

/-! ### Nodes -/

/-- The node is made of the item, whose name in full it gets behind the name `above`. -/
def IsEntry (items : List Item) (above : Option String) (node : Param) (i : Item) : Prop :=
  entry (fullName above node.nameText) node = entry (nameOf i) i.1 ∧
    node.properties = (tree items i).properties

theorem isEntry_tree (items : List Item) (i : Item) : IsEntry items none (tree items i) i := by
  refine ⟨?_, rfl⟩
  rw [tree_eq]
  rfl

theorem nameText_tree (items : List Item) (i : Item) : (tree items i).nameText = nameOf i := by
  rw [tree_eq]
  rfl

theorem nameText_shortened (p : Param) : (shortened p).nameText = lastSegment p.nameText := by
  rw [Param.nameText, Param.nameText, shortened]
  cases p.name with
  | none => rfl
  | some name => rfl

theorem isEntry_shortened {items : List Item} {i p : Item} (h : p ∈ partsOf items i) :
    IsEntry items (some (nameOf i)) (shortened (tree items p)) p := by
  obtain ⟨-, hc⟩ := List.mem_filter.1 h
  rw [Bool.and_eq_true, beq_iff_eq] at hc
  refine ⟨?_, rfl⟩
  rw [nameText_shortened, nameText_tree, fullName, ← eq_append_lastSegment hc.1, tree_eq]
  rfl

section

variable {params : List Param}

theorem standInRow_map {α : Type} {above : Option String} {place : α → Nat} {node : α → Param}
    {xs : List α} (h : ∀ x ∈ xs, StandsFor params above (place x) (node x)) :
    StandInRow params above (xs.map place) (xs.map node) := by
  induction xs with
  | nil => exact .nil
  | cons x xs ih =>
    exact .cons (h x List.mem_cons_self) (ih fun y hy => h y (List.mem_cons_of_mem x hy))

/-- A node that is made of an item stands for it. -/
theorem standsFor_of_isEntry (hflat : ∀ p ∈ params, p.properties = []) {i : Item}
    (hi : i ∈ params.zipIdx) {above : Option String} {node : Param}
    (h : IsEntry params.zipIdx above node i) : StandsFor params above i.2 node := by
  induction i using tree.induct params.zipIdx generalizing above node with
  | case1 i ih =>
    obtain ⟨hentry, hproperties⟩ := h
    refine .node (List.mem_zipIdx_iff_getElem?.1 hi) hentry (isRow_rowOf (some i.2)) ?_
    rw [hproperties, tree_eq, hflat i.1 (List.fst_mem_of_mem_zipIdx hi), ← partsOf_eq_rowOf hi]
    exact standInRow_map fun p hp => ih p hp (List.mem_filter.1 hp).1 (isEntry_shortened hp)

/-! ### Conservation -/

theorem readTree_of_isEntry {items : List Item} {above : Option String} {node : Param} {i : Item}
    (h : IsEntry items above node i) :
    readTree above node = entry (nameOf i) i.1 ::
      (tree items i).properties.flatMap (readTree (some (nameOf i))) := by
  obtain ⟨hentry, hproperties⟩ := h
  have hname : fullName above node.nameText = nameOf i :=
    Option.some.inj (congrArg Param.name hentry)
  rw [readTree_eq, hentry, hname, hproperties]

/-- What is read back from the tree of an item. -/
def reading (items : List Item) (i : Item) : List Param := readTree none (tree items i)

theorem reading_eq (hflat : ∀ p ∈ params, p.properties = []) {i : Item} (hi : i ∈ params.zipIdx) :
    reading params.zipIdx i = entry (nameOf i) i.1 ::
      (rowOf params.zipIdx (some i.2)).flatMap (reading params.zipIdx) := by
  rw [reading, readTree_of_isEntry (isEntry_tree _ i), tree_eq,
    hflat i.1 (List.fst_mem_of_mem_zipIdx hi), List.nil_append, List.flatMap_map, ← partsOf_eq_rowOf hi]
  refine congrArg (_ :: ·) (List.flatMap_congr fun p hp => ?_)
  rw [readTree_of_isEntry (isEntry_shortened hp), reading, readTree_of_isEntry (isEntry_tree _ p)]

/-- Each item that belongs to another one stands in one row. -/
theorem flatMap_rows_perm {β : Type} (f : Item → List β) :
    (params.zipIdx.flatMap fun i => (rowOf params.zipIdx (some i.2)).flatMap f).Perm
      ((params.zipIdx.filter fun i => !(parentOf? params.zipIdx i == none)).flatMap f) := by
  have hrange : (params.zipIdx.flatMap fun i => (rowOf params.zipIdx (some i.2)).flatMap f) =
      (List.range params.length).flatMap fun k => (rowOf params.zipIdx (some k)).flatMap f := by
    rw [List.range_eq_range', ← List.zipIdx_map_snd, List.flatMap_map]
  have hfilter : (params.zipIdx.filter fun i => !(parentOf? params.zipIdx i == none)) =
      params.zipIdx.filter fun i =>
        (parentOf? params.zipIdx i).any fun k => k < params.length := by
    refine List.filter_congr fun i hi => ?_
    cases hparent : parentOf? params.zipIdx i with
    | none => rfl
    | some k =>
      obtain ⟨o, -, -, ho, -⟩ := (parentOf?_eq_some_iff hi).1 hparent
      obtain ⟨hk, -⟩ := List.getElem?_eq_some_iff.1 ho
      simp [hk]
  rw [hrange, hfilter]
  exact range_flatMap_filter_perm _ _ f _

/-- The trees of the roots hold every item once. -/
theorem flatMap_reading_perm (hflat : ∀ p ∈ params, p.properties = []) :
    ((rowOf params.zipIdx none).flatMap (reading params.zipIdx)).Perm
      (params.map fun p => entry p.nameText p) := by
  -- The trees of all items are read in two ways, and those of the items with owners are cancelled:
  -- they are left over beside the roots, and beside the items themselves.
  have hboth := calc
    (rowOf params.zipIdx none).flatMap (reading params.zipIdx) ++
        (params.zipIdx.filter fun i => !(parentOf? params.zipIdx i == none)).flatMap
          (reading params.zipIdx)
      ~ params.zipIdx.flatMap (reading params.zipIdx) := by
        rw [← List.flatMap_append]
        exact (List.filter_append_perm _ _).flatMap_right _
    _ = params.zipIdx.flatMap fun i => entry (nameOf i) i.1 ::
          (rowOf params.zipIdx (some i.2)).flatMap (reading params.zipIdx) :=
        List.flatMap_congr fun i hi => reading_eq hflat hi
    _ ~ (params.zipIdx.map fun i => entry (nameOf i) i.1) ++ params.zipIdx.flatMap fun i =>
          (rowOf params.zipIdx (some i.2)).flatMap (reading params.zipIdx) :=
        (List.map_append_flatMap_perm _ _ _).symm
    _ ~ (params.map fun p => entry p.nameText p) ++
        (params.zipIdx.filter fun i => !(parentOf? params.zipIdx i == none)).flatMap
          (reading params.zipIdx) := by
        rw [← map_zipIdx]
        exact (flatMap_rows_perm _).append_left _
  exact (List.perm_append_right_iff _).1 hboth

theorem items_nest (params : List Param) :
    (nest params).items = (rowOf params.zipIdx none).map (tree params.zipIdx) := by
  simp only [nest, rowOf, Option.beq_none]

/-- Whether a name is dotted and does not start with its dot. -/
def isDotted (name : String) : Bool :=
  name.toList.contains '.' && name.toList.head? != some '.'

theorem isOrphan_eq (items : List Item) (i : Item) :
    isOrphan items i = (isDotted (nameOf i) && (parentOf? items i == none)) := by
  have hhead : (!".".toList.isPrefixOf (nameOf i).toList) =
      ((nameOf i).toList.head? != some '.') := by
    cases (nameOf i).toList with
    | nil => rfl
    | cons c cs =>
      show (!('.' == c && true)) = !(c == '.')
      rw [Bool.and_true, BEq.comm]
  rw [isOrphan, hhead, Option.beq_none, Bool.and_assoc, Bool.and_comm, isDotted]

theorem names_items_nest (params : List Param) :
    (nest params).items.map Param.nameText = (rowOf params.zipIdx none).map nameOf := by
  rw [items_nest, List.map_map]
  exact List.map_congr_left fun i _ => nameText_tree _ i

theorem orphans_nest (params : List Param) :
    (nest params).orphans =
      ((nest params).items.map Param.nameText).filter isDotted := by
  rw [names_items_nest, List.filter_map, rowOf, List.filter_filter, nest]
  exact congrArg _ (List.filter_congr fun i _ => isOrphan_eq _ i)

end

/-- Nesting conserves items that have no parts yet.  Read back, the trees hold what was given; every item
stands under the first one with its name up to the last dot, or as a root if there is none; roots and
parts keep the order of the items; and the orphans are the roots with dotted names. -/
theorem nest_conserves_items (params : List Param) (hflat : ∀ p ∈ params, p.properties = []) :
    (readTrees none (nest params).items).Perm (params.map fun p => entry p.nameText p) ∧
      (∃ roots, IsRow params none roots ∧ StandInRow params none roots (nest params).items) ∧
      (nest params).orphans =
        ((nest params).items.map Param.nameText).filter isDotted := by
  refine ⟨?_, ⟨_, isRow_rowOf none, ?_⟩, orphans_nest params⟩
  · rw [readTrees_eq, items_nest, List.flatMap_map]
    exact flatMap_reading_perm hflat
  · rw [items_nest]
    exact standInRow_map fun i hi =>
      standsFor_of_isEntry hflat (mem_rowOf_iff.1 hi).1 (isEntry_tree _ i)

/-- A part before its owner, a name twice, a missing level, a missing name and a part of that. -/
def strewnItems : List Param :=
  [{ name := some "size.width", type := some "Number", default := some "1" },
   { name := some "size", doc := "The size." },
   { name := some "size", doc := "The size again." },
   { name := some "place.left.edge", isOptional := true },
   { name := some ".unit", type := some "String" },
   { doc := "Without a name." }]

theorem nest_conserves_strewn :
    (readTrees none (nest strewnItems).items).Perm
      [{ name := some "size.width", type := some "Number", default := some "1" },
       { name := some "size", doc := "The size." },
       { name := some "size", doc := "The size again." },
       { name := some "place.left.edge", isOptional := true },
       { name := some ".unit", type := some "String" },
       { name := some "", doc := "Without a name." }] ∧
      StandInRow strewnItems none [1, 2, 3, 5] (nest strewnItems).items ∧
      (nest strewnItems).orphans = ["place.left.edge"] := by
  obtain ⟨hread, ⟨roots, hroots, hstand⟩, -⟩ := nest_conserves_items strewnItems (by decide)
  have hplaces : roots = [1, 2, 3, 5] := hroots.unique (isRow_rowOf none)
  exact ⟨hread, hplaces ▸ hstand, by decide⟩

end Nesting
end ApiDoc
