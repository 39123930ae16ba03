/-
The order of classes does not matter for inherited documentation.

What becomes of a class is read off the registry as it is before the pass, and there a class shows the
same members wherever it is in the list.  So with the classes in another order, each becomes what it
became, and the warnings are the same ones (`inheritDocs_permuted`).
-/
import ApiDoc.Proofs.Assembly.Outline
import ApiDoc.Proofs.InheritedDocs.Chain
import ApiDoc.Proofs.Registry.Permuted

namespace ApiDoc
namespace InheritedDocs
open Registry

/-- What becomes of the class at a place. -/
def classOutcome (r : Registry) (i : Nat) (c : ClassDoc) : ClassDoc :=
  { c with
    doc := docWith c.doc (classChangeOf r i c).1
    members := c.members.mapIdx fun k m => outcome r ⟨i, k⟩ m }

theorem classOutcome_renumber {σ : Nat → Nat} {r r' : Registry} (h : LooksAlike σ r r') (i : Nat)
    (c : ClassDoc) : classOutcome r' (σ i) c = classOutcome r i c := by
  have hmembers : (c.members.mapIdx fun k m => outcome r' ⟨σ i, k⟩ m) =
      c.members.mapIdx fun k m => outcome r ⟨i, k⟩ m :=
    List.mapIdx_eq_mapIdx_iff.2 fun k _ => outcome_renumber h ⟨i, k⟩ _
  rw [classOutcome, hmembers, classChangeOf_renumber h, classOutcome]

theorem warningsOf_renumber {σ : Nat → Nat} {r r' : Registry} (h : LooksAlike σ r r') (i : Nat)
    (c : ClassDoc) : warningsOf r' (c, σ i) = warningsOf r (c, i) := by
  have hmembers : (c.members.zipIdx.flatMap fun m => (changeOf r' c.name ⟨σ i, m.2⟩ m.1).2) =
      c.members.zipIdx.flatMap fun m => (changeOf r c.name ⟨i, m.2⟩ m.1).2 :=
    List.flatMap_congr fun m _ => congrArg Prod.snd (changeOf_renumber h c.name ⟨i, m.2⟩ m.1)
  rw [warningsOf, warningsOf, hmembers, classChangeOf_renumber h]

/-- Where names lead to classes, the pass goes class by class. -/
theorem inheritDocs_eq {r : Registry}
    (h : ∀ (i : Nat) (c : ClassDoc), r.classes[i]? = some c → r.find? c.name = some i) :
    r.inheritDocs.1.classes = r.classes.map (fun c =>
        classOutcome r.lookedAll ((r.find? c.name).getD 0) c) ∧
      r.inheritDocs.2 = r.classes.flatMap fun c =>
        warningsOf r.lookedAll (c, (r.find? c.name).getD 0) := by
  constructor
  · rw [classes_inheritDocs]
    refine List.ext_getElem? fun i => ?_
    rw [List.getElem?_mapIdx, List.getElem?_map]
    cases hc : r.classes[i]? with
    | none => rw [Option.map_none, Option.map_none]
    | some c =>
      rw [Option.map_some, Option.map_some, h i c hc, Option.getD_some, docAfter_changes h hc,
        classOutcome]
  · have hclasses : r.classes.flatMap (fun c =>
          warningsOf r.lookedAll (c, (r.find? c.name).getD 0)) =
        r.classes.zipIdx.flatMap fun c =>
          warningsOf r.lookedAll (c.1, (r.find? c.1.name).getD 0) := by
      conv_lhs => rw [← List.zipIdx_map_fst 0 r.classes, List.flatMap_map]
    rw [warnings_inheritDocs, hclasses]
    refine List.flatMap_congr fun c hc => ?_
    rw [h c.2 c.1 (List.mem_zipIdx_iff_getElem?.1 hc), Option.getD_some]

end InheritedDocs

namespace Registry
open InheritedDocs

/-- The same, told of the registry before anything was looked up. -/
theorem inheritDocs_looked {r : Registry} (hr : r.Reliable)
    (h : ∀ (i : Nat) (c : ClassDoc), r.classes[i]? = some c → r.find? c.name = some i)
    (earlier : List Nat) :
    (earlier.foldl looked r).inheritDocs.1.classes = r.classes.map (fun c =>
        classOutcome r ((r.find? c.name).getD 0) c) ∧
      (earlier.foldl looked r).inheritDocs.2 = r.classes.flatMap fun c =>
        warningsOf r (c, (r.find? c.name).getD 0) := by
  obtain ⟨hclasses, hnames, -⟩ := foldl_looked_frame earlier r
  have hfind : (earlier.foldl looked r).find? = r.find? := by
    funext name
    rw [find?, hnames, find?]
  have hlike := looksAlike_lookedAll hr earlier
  have hall := inheritDocs_eq (r := earlier.foldl looked r) (by rw [hclasses, hfind]; exact h)
  rw [hclasses, hfind] at hall
  rw [hall.1, hall.2]
  exact ⟨List.map_congr_left fun c _ => classOutcome_renumber hlike _ c,
    List.flatMap_congr fun c _ => warningsOf_renumber hlike _ c⟩

theorem samePlaces_done (r : Registry) (earlier : List Nat) :
    SamePlaces r (earlier.foldl looked r).inheritDocs.1 := by
  have hlooked : SamePlaces r (earlier.foldl looked r) := by
    induction earlier generalizing r with
    | nil => exact SamePlaces.refl r
    | cons i earlier ih => exact SamePlaces.trans (Step.looked r i).samePlaces (ih (r.looked i))
  exact inheritDocs_induction (P := SamePlaces r)
    (fun r' i f _ _ h => h.trans (samePlaces_modifyAt r' i f))
    (fun r' h => h.trans (samePlaces_refreshAll r')) hlooked

/-- With the classes in another order, and whatever was looked up before, every class becomes what it
became in the first order, in all of its fields and those of its members, and the warnings are the same
ones.  No two classes may share a name. -/
theorem inheritDocs_permuted {classes classes' : List ClassDoc} {ignored : List String} {r : Registry}
    (h : (build classes ignored).1 = .ok r) (hshare : SharesNoName classes)
    (hperm : classes'.Perm classes) (earlier earlier' : List Nat) :
    ∃ (r' : Registry) (σ : Nat → Nat), (build classes' ignored).1 = .ok r' ∧
      (∀ i, classes'[σ i]? = classes[i]?) ∧
      let done := (earlier.foldl looked r).inheritDocs
      let done' := (earlier'.foldl looked r').inheritDocs
      Renumbered σ done.1 done'.1 ∧ done'.1.classes.Perm done.1.classes ∧ done'.2.Perm done.2 := by
  obtain ⟨r', h', hrenumbered⟩ := build_permuted h hshare hperm
  refine ⟨r', placeIn classes classes', h', getElem?_placeIn hshare hperm, ?_⟩
  have hlike := hrenumbered.looksAlike (reliable_of_build h) (reliable_of_build h')
  have hplaces := samePlaces_done r earlier
  have hplaces' := samePlaces_done r' earlier'
  obtain ⟨rfl, hfound⟩ := find?_name_of_build h hshare.nodup
  obtain ⟨rfl, hfound'⟩ := find?_name_of_build h' (hshare.perm hperm).nodup
  obtain ⟨hdone, hwarnings⟩ := inheritDocs_looked (reliable_of_build h) hfound earlier
  obtain ⟨hdone', hwarnings'⟩ := inheritDocs_looked (reliable_of_build h') hfound' earlier'
  -- A class leads to its other place, and becomes the same there.
  have hplace : ∀ c ∈ r'.classes, (r'.find? c.name).getD 0 =
      placeIn r.classes r'.classes ((r.find? c.name).getD 0) := by
    intro c hc
    obtain ⟨i, hi⟩ := List.getElem?_of_mem (hperm.mem_iff.1 hc)
    rw [hrenumbered.names, hfound i c hi]
    rfl
  have hclasses : (earlier'.foldl looked r').inheritDocs.1.classes = r'.classes.map fun c =>
      classOutcome r ((r.find? c.name).getD 0) c := by
    rw [hdone']
    refine List.map_congr_left fun c hc => ?_
    rw [hplace c hc, classOutcome_renumber hlike]
  have hreports : (earlier'.foldl looked r').inheritDocs.2 = r'.classes.flatMap fun c =>
      warningsOf r (c, (r.find? c.name).getD 0) := by
    rw [hwarnings']
    refine List.flatMap_congr fun c hc => ?_
    rw [hplace c hc, warningsOf_renumber hlike]
  refine ⟨⟨hrenumbered.injective, fun i => ?_, fun name => ?_, fun i => ?_, fun i => ?_⟩, ?_, ?_⟩
  · rw [classAt?, classAt?, hclasses, hdone, List.getElem?_map, List.getElem?_map,
      getElem?_placeIn hshare hperm]
  · rw [find?, find?, hplaces'.names, hplaces.names]
    exact hrenumbered.names name
  · rw [hplaces'.links, hplaces.links]
    exact hrenumbered.parents i
  · rw [hplaces'.links, hplaces.links]
    exact hrenumbered.mixins i
  · rw [hclasses, hdone]
    exact hperm.map _
  · rw [hreports, hwarnings]
    exact hperm.flatMap_right _

theorem sharesNoName_generations : SharesNoName generations :=
  sharesNoName_iff_pairwise.2 (by decide)

theorem inheritDocs_generations_reversed :
    (build generations []).1 = .ok generationsRegistry ∧ SharesNoName generations ∧
      ∃ (r' : Registry) (σ : Nat → Nat), (build generations.reverse []).1 = .ok r' ∧
        (∀ i, generations.reverse[σ i]? = generations[i]?) ∧
        ([1].foldl looked r').inheritDocs.1.docAt? ⟨σ 2, 0⟩ = some "Shows it." := by
  obtain ⟨r', σ, h', hplaces, hrenumbered, -, -⟩ := inheritDocs_permuted build_generations
    sharesNoName_generations generations.reverse_perm [2, 0] [1]
  refine ⟨build_generations, sharesNoName_generations, r', σ, h', hplaces, ?_⟩
  have hdone : ([2, 0].foldl looked generationsRegistry).inheritDocs.1.docAt? ⟨2, 0⟩ =
      some "Shows it." := by decide
  exact (congrArg (Option.map Member.doc) (hrenumbered.member? ⟨2, 0⟩)).trans hdone

end Registry
end ApiDoc
