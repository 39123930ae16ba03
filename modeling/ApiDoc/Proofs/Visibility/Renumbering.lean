/-
Registries that differ in the places of their classes.

A class shows its members by what it and its bases are, not by where they are in the list.  So if the
classes of one registry are those of another one at other places, every look-up gives the same
members, at their other places (`findRefs_renumber`).  With the places left as they are this says that
look-ups do not depend on earlier ones.
-/
import ApiDoc.Proofs.Visibility.Lookup

namespace ApiDoc

/-- The same member where the classes are at other places. -/
def MemberRef.renumber (σ : Nat → Nat) (ref : MemberRef) : MemberRef := ⟨σ ref.classAt, ref.memberAt⟩

def Indexed.renumber (σ : Nat → Nat) (e : Indexed) : Indexed := { e with ref := e.ref.renumber σ }

def MemberMap.renumber (σ : Nat → Nat) (m : MemberMap) : MemberMap :=
  m.map fun p => (p.1, p.2.renumber σ)

theorem MemberRef.renumber_injective {σ : Nat → Nat} (h : σ.Injective) :
    (MemberRef.renumber σ).Injective := by
  intro a b hab
  obtain ⟨hclass, hmember⟩ := MemberRef.mk.inj hab
  have hsame := h hclass
  cases a
  cases b
  simp_all

theorem filter_renumber {σ : Nat → Nat} {p p' : MemberRef → Bool}
    (hp : ∀ ref, p' (ref.renumber σ) = p ref) (found : Option MemberRef) :
    (found.map (MemberRef.renumber σ)).filter p' = (found.filter p).map (MemberRef.renumber σ) := by
  cases found with
  | none => rfl
  | some ref =>
    rw [Option.map_some, Option.filter_some, Option.filter_some, hp]
    split
    · rfl
    · rfl

namespace Registry

/-- The classes of `r` are classes of `r'`, `σ` saying where, with the same names and bases. -/
structure Renumbered (σ : Nat → Nat) (r r' : Registry) : Prop where
  injective : σ.Injective
  classes : ∀ i, r'.classAt? (σ i) = r.classAt? i
  names : ∀ name, r'.find? name = (r.find? name).map σ
  parents : ∀ i, r'.links.parentOf? (σ i) = (r.links.parentOf? i).map σ
  mixins : ∀ i, r'.links.mixinsOf (σ i) = (r.links.mixinsOf i).map σ

theorem renumbered_lookups (r : Registry) (l : Lookups) : Renumbered id r { r with lookups := l } :=
  ⟨Function.injective_id, fun _ => rfl, fun name => (Option.map_id' (x := r.find? name)).symm,
    fun _ => Option.map_id'.symm, fun _ => (List.map_id _).symm⟩

theorem Renumbered.trans {σ τ : Nat → Nat} {a b c : Registry} (h : Renumbered σ a b)
    (h' : Renumbered τ b c) : Renumbered (τ ∘ σ) a c := by
  refine ⟨h'.injective.comp h.injective, fun i => ?_, fun name => ?_, fun i => ?_, fun i => ?_⟩
  · rw [Function.comp_apply, h'.classes, h.classes]
  · rw [h'.names, h.names, Option.map_map]
  · rw [Function.comp_apply, h'.parents, h.parents, Option.map_map]
  · rw [Function.comp_apply, h'.mixins, h.mixins, List.map_map]

section
variable {σ : Nat → Nat} {r r' : Registry}

theorem Renumbered.member? (h : Renumbered σ r r') (ref : MemberRef) :
    r'.member? (ref.renumber σ) = r.member? ref := by
  rw [Registry.member?, MemberRef.renumber, h.classes, Registry.member?]

theorem Renumbered.membersOf (h : Renumbered σ r r') (i : Nat) :
    r'.membersOf (σ i) = r.membersOf i := by
  rw [Registry.membersOf, h.classes, Registry.membersOf]

theorem Renumbered.lastOwn? (h : Renumbered σ r r') (i : Nat) (id : String) :
    r'.lastOwn? (σ i) id = (r.lastOwn? i id).map (MemberRef.renumber σ) := by
  rw [Registry.lastOwn?, h.membersOf, Registry.lastOwn?, Option.map_map]
  rfl

theorem Renumbered.handsOn (h : Renumbered σ r r') (ref : MemberRef) :
    r'.handsOn (ref.renumber σ) = r.handsOn ref := by
  rw [Registry.handsOn, h.member?, Registry.handsOn]

theorem Renumbered.indexed? (h : Renumbered σ r r') (ref : MemberRef) :
    r'.indexed? (ref.renumber σ) = (r.indexed? ref).map (Indexed.renumber σ) := by
  rw [Registry.indexed?, h.member?, Registry.indexed?, Option.map_map]
  rfl

theorem Renumbered.visible? (h : Renumbered σ r r') (hs : r.Sound) (hs' : r'.Sound) (id : String)
    (i : Nat) :
    r'.visible? hs' id (σ i) = (r.visible? hs id i).map (MemberRef.renumber σ) := by
  induction hs.ends i with
  | intro i _ ih =>
    have hbase : ∀ j, r.links.Inherits i j →
        r'.handed? hs' id (σ j) = (r.handed? hs id j).map (MemberRef.renumber σ) := by
      intro j hj
      rw [handed?, ih j hj, handed?]
      exact filter_renumber h.handsOn _
    have hmixins : (r'.links.mixinsOf (σ i)).filterMap (r'.handed? hs' id) =
        ((r.links.mixinsOf i).filterMap (r.handed? hs id)).map (MemberRef.renumber σ) := by
      rw [h.mixins, List.filterMap_map, List.map_filterMap]
      exact List.filterMap_congr fun j hj => hbase j (Links.inherits_of_mem_mixinsOf hj)
    have hparent : (r'.links.parentOf? (σ i)).bind (r'.handed? hs' id) =
        ((r.links.parentOf? i).bind (r.handed? hs id)).map (MemberRef.renumber σ) := by
      rw [h.parents]
      cases hp : r.links.parentOf? i with
      | none => rfl
      | some p => exact hbase p (Links.inherits_of_parentOf? hp)
    rw [visible?_eq, visible?_eq, h.lastOwn?, hmixins, hparent, List.getLast?_map, Option.map_or,
      Option.map_or]

theorem Renumbered.visibleIds (h : Renumbered σ r r') (hs : r.Sound) (hs' : r'.Sound) (i : Nat) :
    r'.visibleIds hs' (σ i) = r.visibleIds hs i := by
  induction hs.ends i with
  | intro i _ ih =>
    have hbase : ∀ j, r.links.Inherits i j → r'.handedIds hs' (σ j) = r.handedIds hs j := by
      intro j hj
      rw [handedIds, ih j hj, handedIds]
      refine List.filter_congr fun id _ => ?_
      rw [h.visible? hs hs', Option.any_map]
      exact congrArg (Option.any · _) (funext h.handsOn)
    have hparent : (r'.links.parentOf? (σ i)).toList.flatMap (r'.handedIds hs') =
        (r.links.parentOf? i).toList.flatMap (r.handedIds hs) := by
      rw [h.parents]
      cases hp : r.links.parentOf? i with
      | none => rfl
      | some p =>
        show [σ p].flatMap _ = [p].flatMap _
        rw [List.flatMap_singleton, List.flatMap_singleton]
        exact hbase p (Links.inherits_of_parentOf? hp)
    have hmixins : (r'.links.mixinsOf (σ i)).flatMap (r'.handedIds hs') =
        (r.links.mixinsOf i).flatMap (r.handedIds hs) := by
      rw [h.mixins, List.flatMap_map]
      exact List.flatMap_congr fun j hj => hbase j (Links.inherits_of_mem_mixinsOf hj)
    rw [visibleIds_eq, visibleIds_eq, hparent, hmixins, h.membersOf]

theorem Renumbered.visibleMap (h : Renumbered σ r r') (hs : r.Sound) (hs' : r'.Sound) (i : Nat) :
    r'.visibleMap hs' (σ i) = (r.visibleMap hs i).renumber σ := by
  rw [Registry.visibleMap, h.visibleIds hs hs', Registry.visibleMap, MemberMap.renumber,
    MemberMap.ofIds, MemberMap.ofIds, List.map_filterMap]
  refine List.filterMap_congr fun id _ => ?_
  rw [h.visible? hs hs']
  cases r.visible? hs id i with
  | none => rfl
  | some ref =>
    show (r'.indexed? (ref.renumber σ)).map _ = ((r.indexed? ref).map _).map _
    rw [h.indexed?, Option.map_map, Option.map_map]
    rfl

theorem Renumbered.ownEntries (h : Renumbered σ r r') (i : Nat) :
    r'.ownEntries (σ i) = MemberMap.renumber σ (r.ownEntries i) := by
  rw [Registry.ownEntries, h.classes, Registry.ownEntries, MemberMap.renumber, List.map_map]
  rfl

end

/-- Inheritance is acyclic and every index that is kept is as it should be. -/
def Reliable (r : Registry) : Prop := ∃ h : r.Sound, r.Faithful h r.lookups

theorem filter_admits_renumber (σ : Nat → Nat) (q : MemberQuery) (entries : List Indexed) :
    ((entries.map (Indexed.renumber σ)).filter q.admits).map Indexed.ref =
      ((entries.filter q.admits).map Indexed.ref).map (MemberRef.renumber σ) := by
  rw [List.filter_map, List.map_map, List.map_map]
  rfl

/-- Look-ups give the same members at their other places. -/
theorem findRefs_renumber {σ : Nat → Nat} {r r' : Registry} (h : Renumbered σ r r')
    (hr : r.Reliable) (hr' : r'.Reliable) (i : Nat) (q : MemberQuery) :
    r'.findRefs (σ i) q = (r.findRefs i q).map (MemberRef.renumber σ) := by
  obtain ⟨hs, hl⟩ := hr
  obtain ⟨hs', hl'⟩ := hr'
  have hindex : (r.index i).1 = r.trueIndex hs i := (index_true hs hl i).1
  have hindex' : (r'.index (σ i)).1 = r'.trueIndex hs' (σ i) := (index_true hs' hl' (σ i)).1
  rw [findRefs, findRefs, hindex, hindex', trueIndex, trueIndex, h.visibleMap hs hs', h.ownEntries,
    ← filter_admits_renumber]
  dsimp only
  cases q.isOwn with
  | true =>
    rw [if_pos rfl, if_pos rfl, MemberMap.renumber, List.map_map, List.map_map]
    rfl
  | false =>
    rw [if_neg Bool.false_ne_true, if_neg Bool.false_ne_true, MemberMap.renumber, List.map_map,
      List.map_map]
    rfl

/-- Where places are left as they are, indices do not depend on what is kept. -/
theorem trueIndex_lookups {r : Registry} (h : r.Sound) (l : Lookups)
    (h' : { r with lookups := l }.Sound) (i : Nat) :
    { r with lookups := l }.trueIndex h' i = r.trueIndex h i := by
  have hmap := (renumbered_lookups r l).visibleMap h h' i
  have hsame : ∀ m : MemberMap, m.renumber id = m := fun m => List.map_id m
  rw [hsame] at hmap
  rw [trueIndex, trueIndex, ← hmap]
  rfl

theorem Reliable.looked {r : Registry} (h : r.Reliable) (earlier : List Nat) :
    (earlier.foldl Registry.looked r).Reliable ∧
      Renumbered id r (earlier.foldl Registry.looked r) := by
  obtain ⟨hs, hl⟩ := h
  obtain ⟨l, hlooked, hfaithful⟩ := foldl_looked hs hl earlier
  have hsame : earlier.foldl Registry.looked r = { r with lookups := l } := hlooked
  rw [hsame]
  refine ⟨⟨⟨hs.closed, hs.ends⟩, fun i index hi => ?_⟩, renumbered_lookups r l⟩
  exact (hfaithful i index hi).trans (trueIndex_lookups hs l _ i).symm

theorem reliable_of_build {classes : List ClassDoc} {ignored : List String} {r : Registry}
    (h : (build classes ignored).1 = .ok r) : r.Reliable := by
  refine ⟨sound_of_build h, fun i index hi => ?_⟩
  obtain ⟨-, rfl⟩ := build_eq_ok_iff.1 h
  exact absurd hi (by simp)

end Registry
end ApiDoc
