/-
Registries that are made of the same classes in another order.

Where no two classes share a name, a name stands for the class that answers to it wherever that class
is.  So the registry of the classes in another order exists if the first one does, and it is the first
one with its classes at other places (`build_permuted`).
-/
import ApiDoc.Proofs.Assembly.Ownership
import ApiDoc.Proofs.Grouping.Families
import ApiDoc.Proofs.Visibility.Renumbering

namespace ApiDoc

theorem sharesNoName_iff_pairwise {classes : List ClassDoc} :
    SharesNoName classes ↔ classes.Pairwise fun c d => ∀ name ∈ c.answers, name ∉ d.answers := by
  rw [List.pairwise_iff_getElem]
  constructor
  · intro h i j hi hj hij name hc hd
    exact Nat.ne_of_lt hij
      (h i j _ _ (List.getElem?_eq_getElem hi) (List.getElem?_eq_getElem hj) name hc hd)
  · intro h i j c d hc hd name hcname hdname
    obtain ⟨hi, rfl⟩ := List.getElem?_eq_some_iff.1 hc
    obtain ⟨hj, rfl⟩ := List.getElem?_eq_some_iff.1 hd
    rcases Nat.lt_trichotomy i j with hij | hij | hij
    · exact absurd hdname (h i j hi hj hij name hcname)
    · exact hij
    · exact absurd hcname (h j i hj hi hij name hdname)

theorem SharesNoName.nodup {classes : List ClassDoc} (h : SharesNoName classes) :
    (classes.map ClassDoc.name).Nodup := by
  refine List.nodup_iff_getElem?_ne_getElem?.2 fun i j hij hj hsame => ?_
  rw [List.length_map] at hj
  rw [List.getElem?_map, List.getElem?_map, List.getElem?_eq_getElem hj,
    List.getElem?_eq_getElem (Nat.lt_trans hij hj)] at hsame
  have hname : classes[i].name = classes[j].name := Option.some.inj hsame
  refine absurd (h i j classes[i] classes[j] ?_ ?_ classes[i].name ?_ ?_) (Nat.ne_of_lt hij)
  · exact List.getElem?_eq_getElem _
  · exact List.getElem?_eq_getElem _
  · exact List.mem_cons_self
  · rw [hname]
    exact List.mem_cons_self

namespace Registry

theorem answers_of_standsFor? {classes : List ClassDoc} {name : String} {i : Nat}
    (h : standsFor? classes name = some i) : ∃ c, classes[i]? = some c ∧ name ∈ c.answers := by
  rw [standsFor?, Option.or_eq_some_iff] at h
  rcases h with h | ⟨-, h⟩
  · obtain ⟨hi, hname, -⟩ := List.findIdx?_eq_some_iff_getElem.1 h
    refine ⟨classes[i], List.getElem?_eq_getElem hi, ?_⟩
    rw [← eq_of_beq hname]
    exact List.mem_cons_self
  · obtain ⟨hi, hname, -⟩ := List.findIdx?_eq_some_iff_getElem.1 h
    exact ⟨classes[i], List.getElem?_eq_getElem hi,
      List.mem_cons_of_mem _ (by simpa using hname)⟩

theorem isSome_standsFor? {classes : List ClassDoc} {c : ClassDoc} (hc : c ∈ classes) {name : String}
    (hname : name ∈ c.answers) : (standsFor? classes name).isSome := by
  rw [standsFor?, Option.isSome_or, Bool.or_eq_true, List.findIdx?_isSome, List.findIdx?_isSome,
    List.any_eq_true, List.any_eq_true]
  rcases List.mem_cons.1 hname with rfl | hname
  · exact Or.inl ⟨c, hc, beq_self_eq_true _⟩
  · exact Or.inr ⟨c, hc, by simpa using hname⟩

/-- Where no name is shared, a name stands for the class that answers to it. -/
theorem standsFor?_iff {classes : List ClassDoc} (h : SharesNoName classes) {name : String} {i : Nat} :
    standsFor? classes name = some i ↔ ∃ c, classes[i]? = some c ∧ name ∈ c.answers := by
  refine ⟨answers_of_standsFor?, fun ⟨c, hc, hname⟩ => ?_⟩
  obtain ⟨k, hk⟩ := Option.isSome_iff_exists.1 (isSome_standsFor? (List.mem_of_getElem? hc) hname)
  obtain ⟨d, hd, hname'⟩ := answers_of_standsFor? hk
  rw [hk, h k i d c hd hc name hname' hname]

end Registry

/-- Where the class that is at a place in the first list is in the second one. -/
def placeIn (classes classes' : List ClassDoc) (i : Nat) : Nat :=
  (classes[i]?.bind fun c => Registry.standsFor? classes' c.name).getD i

section
variable {classes classes' : List ClassDoc}

theorem SharesNoName.perm (h : SharesNoName classes) (hperm : classes'.Perm classes) :
    SharesNoName classes' := by
  have hsymm : ∀ {c d : ClassDoc}, (∀ name ∈ c.answers, name ∉ d.answers) →
      ∀ name ∈ d.answers, name ∉ c.answers := fun h name hd hc => h name hc hd
  exact sharesNoName_iff_pairwise.2
    ((hperm.pairwise_iff hsymm).2 (sharesNoName_iff_pairwise.1 h))

theorem getElem?_placeIn (h : SharesNoName classes) (hperm : classes'.Perm classes) (i : Nat) :
    classes'[placeIn classes classes' i]? = classes[i]? := by
  unfold placeIn
  cases hc : classes[i]? with
  | none =>
    rw [List.getElem?_eq_none_iff] at hc
    rw [Option.bind_none, Option.getD_none, List.getElem?_eq_none_iff, hperm.length_eq]
    exact hc
  | some c =>
    obtain ⟨j, hj⟩ := List.getElem?_of_mem (hperm.mem_iff.2 (List.mem_of_getElem? hc))
    have hplace := Registry.standsFor?_name (h.perm hperm).nodup hj
    rw [Option.bind_some, hplace, Option.getD_some, hj]

theorem placeIn_injective (h : SharesNoName classes) (hperm : classes'.Perm classes) :
    (placeIn classes classes').Injective := by
  intro i j hij
  have hi := getElem?_placeIn h hperm i
  have hj := getElem?_placeIn h hperm j
  rw [hij, hj] at hi
  cases hc : classes[j]? with
  | some c =>
    rw [hc] at hi
    exact h i j c c hi.symm hc c.name List.mem_cons_self List.mem_cons_self
  | none =>
    rw [hc] at hi
    unfold placeIn at hij
    rw [hc, ← hi] at hij
    exact hij

theorem standsFor?_placeIn (h : SharesNoName classes) (hperm : classes'.Perm classes)
    (name : String) :
    Registry.standsFor? classes' name =
      (Registry.standsFor? classes name).map (placeIn classes classes') := by
  cases hi : Registry.standsFor? classes name with
  | some i =>
    obtain ⟨c, hc, hname⟩ := (Registry.standsFor?_iff h).1 hi
    refine (Registry.standsFor?_iff (h.perm hperm)).2 ⟨c, ?_, hname⟩
    rw [getElem?_placeIn h hperm, hc]
  | none =>
    cases hj : Registry.standsFor? classes' name with
    | none => rfl
    | some j =>
      obtain ⟨c, hc, hname⟩ := Registry.answers_of_standsFor? hj
      have hmem := hperm.mem_iff.1 (List.mem_of_getElem? hc)
      rw [← Option.not_isSome_iff_eq_none] at hi
      exact absurd (Registry.isSome_standsFor? hmem hname) hi

end

namespace Registry
variable {classes classes' : List ClassDoc}

theorem hasBase_placeIn (h : SharesNoName classes) (hperm : classes'.Perm classes) {i j : Nat}
    (hbase : HasBase classes i j) :
    HasBase classes' (placeIn classes classes' i) (placeIn classes classes' j) := by
  obtain ⟨c, hc, name, hname, hj⟩ := hbase
  refine ⟨c, (getElem?_placeIn h hperm i).trans hc, name, hname, ?_⟩
  rw [standsFor?_placeIn h hperm, hj, Option.map_some]

theorem parentOf?_linksOf (classes : List ClassDoc) (i : Nat) :
    (linksOf (namesOf classes) classes).parentOf? i =
      classes[i]?.bind fun c => c.parent.bind (standsFor? classes) := by
  rw [Links.parentOf?, linksOf, List.getElem?_map, ← funext (lookup_namesOf classes)]
  cases classes[i]? with
  | none => rfl
  | some c => rfl

theorem mixinsOf_linksOf (classes : List ClassDoc) (i : Nat) :
    (linksOf (namesOf classes) classes).mixinsOf i =
      (classes[i]?.map fun c => c.mixins.filterMap (standsFor? classes)).getD [] := by
  rw [Links.mixinsOf, linksOf, List.getElem?_map, ← funext (lookup_namesOf classes)]

theorem cycle?_permuted (hshare : SharesNoName classes) (hperm : classes'.Perm classes)
    (h : (linksOf (namesOf classes) classes).cycle? classes.length = none) :
    (linksOf (namesOf classes') classes').cycle? classes'.length = none := by
  have hinherits : ∀ cs : List ClassDoc,
      (linksOf (namesOf cs) cs).Inherits = HasBase cs := by
    intro cs
    funext i j
    exact propext inherits_linksOf
  rw [← Option.not_isSome_iff_eq_none, Links.cycle?_isSome_iff (closed_linksOf _), hinherits] at h ⊢
  rintro ⟨i, hi⟩
  exact h ⟨_, hi.lift _ fun _ _ hbase => hasBase_placeIn (hshare.perm hperm) hperm.symm hbase⟩

/-- The classes make a registry in another order too, which differs in the places only. -/
theorem build_permuted {ignored : List String} {r : Registry}
    (h : (build classes ignored).1 = .ok r) (hshare : SharesNoName classes)
    (hperm : classes'.Perm classes) :
    ∃ r', (build classes' ignored).1 = .ok r' ∧ Renumbered (placeIn classes classes') r r' := by
  obtain ⟨hacyclic, rfl⟩ := build_eq_ok_iff.1 h
  have hnames : standsFor? classes' = fun name =>
      (standsFor? classes name).map (placeIn classes classes') :=
    funext (standsFor?_placeIn hshare hperm)
  refine ⟨_, build_eq_ok_iff.2 ⟨cycle?_permuted hshare hperm hacyclic, rfl⟩,
    placeIn_injective hshare hperm, getElem?_placeIn hshare hperm, fun name => ?_, fun i => ?_,
    fun i => ?_⟩
  · rw [find?, find?, lookup_namesOf, lookup_namesOf, hnames]
  · rw [parentOf?_linksOf, parentOf?_linksOf, getElem?_placeIn hshare hperm, Option.map_bind, hnames]
    refine congrArg (Option.bind _) (funext fun c => ?_)
    rw [Function.comp_apply, Option.map_bind]
    rfl
  · rw [mixinsOf_linksOf, mixinsOf_linksOf, getElem?_placeIn hshare hperm, hnames]
    cases classes[i]? with
    | none => rfl
    | some c => exact List.map_filterMap.symm

end Registry
end ApiDoc
