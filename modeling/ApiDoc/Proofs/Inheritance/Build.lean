/-
Registries whose inheritance is acyclic.

A registry is made exactly if no class inherits from itself, and the failure shows a cycle.  A registry
that is made stays sound: whatever happens to it later, everything that follows inheritance ends
(`circularInheritance_iff_cycle`).
-/
import ApiDoc.Proofs.Inheritance.Depth
import ApiDoc.Proofs.Registry.History
import ApiDoc.Proofs.Registry.Names

namespace ApiDoc
namespace Registry

/-- Class `j` is the parent or a mixin of class `i`, where names stand for classes. -/
def HasBase (classes : List ClassDoc) (i j : Nat) : Prop :=
  ∃ c, classes[i]? = some c ∧
    ∃ name, (c.parent = some name ∨ name ∈ c.mixins) ∧ standsFor? classes name = some j

/-- The links of a registry are those that the classes ask for. -/
theorem inherits_linksOf {classes : List ClassDoc} {i j : Nat} :
    (linksOf (namesOf classes) classes).Inherits i j ↔ HasBase classes i j := by
  rw [Links.Inherits, Links.bases, List.mem_append, Links.parentOf?, Links.mixinsOf, linksOf,
    List.getElem?_map, List.getElem?_map, HasBase]
  cases classes[i]? with
  | none => simp
  | some c =>
    simp only [Option.map_some, Option.join_some, Option.getD_some, Option.mem_toList,
      Option.bind_eq_some_iff, List.mem_filterMap, lookup_namesOf]
    constructor
    · rintro (⟨name, hname, hj⟩ | ⟨name, hname, hj⟩)
      · exact ⟨c, rfl, name, Or.inl hname, hj⟩
      · exact ⟨c, rfl, name, Or.inr hname, hj⟩
    · rintro ⟨c', hc, name, hname, hj⟩
      obtain rfl := Option.some.inj hc
      rcases hname with hname | hname
      · exact Or.inl ⟨name, hname, hj⟩
      · exact Or.inr ⟨name, hname, hj⟩

theorem closed_linksOf (classes : List ClassDoc) :
    (linksOf (namesOf classes) classes).Closed classes.length := by
  intro i j h
  obtain ⟨c, hc, name, -, hj⟩ := inherits_linksOf.1 h
  exact ⟨(List.getElem?_eq_some_iff.1 hc).1, lt_of_standsFor? hj⟩

/-- Inheritance is acyclic and stays among the classes. -/
structure Sound (r : Registry) : Prop where
  closed : r.links.Closed r.classes.length
  ends : ∀ i, r.links.Ends i

theorem Sound.shallow {r : Registry} (h : r.Sound) (i : Nat) :
    r.links.Shallow (r.classes.length + 1) i :=
  Links.shallow_of_ends h.closed h.ends i

theorem Sound.samePlaces {r r' : Registry} (h : r.Sound) (hs : SamePlaces r r') : r'.Sound := by
  refine ⟨?_, ?_⟩
  · rw [hs.links, hs.length]
    exact h.closed
  · rw [hs.links]
    exact h.ends

/-- Making a registry fails with the cycle that the search shows, and with nothing else. -/
theorem build_eq_error_iff {classes : List ClassDoc} {ignored : List String} {e : Error} :
    (build classes ignored).1 = .error e ↔
      ∃ cycle, (linksOf (namesOf classes) classes).cycle? classes.length = some cycle ∧
        e = .circularInheritance (cycle.map (nameAt classes)) := by
  rw [build]
  cases h : (linksOf (namesOf classes) classes).cycle? classes.length with
  | none => simp
  | some cycle => simp [eq_comm]

theorem build_eq_ok_iff {classes : List ClassDoc} {ignored : List String} {r : Registry} :
    (build classes ignored).1 = .ok r ↔
      (linksOf (namesOf classes) classes).cycle? classes.length = none ∧
        r = { classes, ignored, names := namesOf classes
              links := linksOf (namesOf classes) classes } := by
  rw [build]
  cases h : (linksOf (namesOf classes) classes).cycle? classes.length with
  | none => simp [eq_comm]
  | some cycle => simp

theorem classes_of_build {classes : List ClassDoc} {ignored : List String} {r : Registry}
    (h : (build classes ignored).1 = .ok r) : r.classes = classes := by
  obtain ⟨-, rfl⟩ := build_eq_ok_iff.1 h
  rfl

theorem sound_of_build {classes : List ClassDoc} {ignored : List String} {r : Registry}
    (h : (build classes ignored).1 = .ok r) : r.Sound := by
  obtain ⟨hnone, rfl⟩ := build_eq_ok_iff.1 h
  exact ⟨closed_linksOf classes, Links.ends_of_cycle?_eq_none (closed_linksOf classes) hnone⟩

/-- Making a registry fails exactly if a class inherits from itself, and then with the names along
such a cycle.  Otherwise there is a registry, and at any later time its links are those of the classes
that it was made of.  From every class the way to the bases ends, the chain of parents ends within
as many steps as there are classes and one more, and neither the index of a class nor the question
for ancestors depends on the bound that is put on the depth. -/
theorem circularInheritance_iff_cycle (classes : List ClassDoc) (ignored : List String) :
    ((∃ chain, (build classes ignored).1 = .error (.circularInheritance chain)) ↔
      ∃ i, Relation.TransGen (HasBase classes) i i) ∧
    (∀ e, (build classes ignored).1 = .error e →
      ∃ cycle : List Nat, e = .circularInheritance (cycle.map (nameAt classes)) ∧
        (∀ i ∈ cycle, i < classes.length) ∧ 2 ≤ cycle.length ∧ cycle.head? = cycle.getLast? ∧
        cycle.IsChain (HasBase classes)) ∧
    (∀ r, (build classes ignored).1 = .ok r → ∀ r', Later r r' → ∀ i,
      (∀ j, r'.links.Inherits i j ↔ HasBase classes i j) ∧
      Acc (fun j i => r'.links.Inherits i j) i ∧
      r'.links.ancestor? (r'.classes.length + 1) i = none ∧
      (∀ more name, r'.answersFrom name (r'.classes.length + 1 + more) i = r'.inheritsFrom i name) ∧
      (∀ more l, r'.indexFrom (r'.classes.length + 1 + more) i l =
        r'.indexFrom (r'.classes.length + 1) i l)) := by
  have hlinks : (linksOf (namesOf classes) classes).Inherits = HasBase classes := by
    funext i j
    exact propext inherits_linksOf
  have hclosed := closed_linksOf classes
  refine ⟨?_, ?_, ?_⟩
  · rw [← hlinks, ← Links.cycle?_isSome_iff hclosed, Option.isSome_iff_exists]
    constructor
    · rintro ⟨chain, h⟩
      obtain ⟨cycle, hcycle, -⟩ := build_eq_error_iff.1 h
      exact ⟨cycle, hcycle⟩
    · rintro ⟨cycle, hcycle⟩
      exact ⟨_, build_eq_error_iff.2 ⟨cycle, hcycle, rfl⟩⟩
  · intro e he
    obtain ⟨cycle, hcycle, rfl⟩ := build_eq_error_iff.1 he
    have hc := Links.isCycle_of_cycle? hclosed hcycle
    exact ⟨cycle, rfl, fun i hi => hc.lt hclosed hi, hc.two_le, hc.closes, hlinks ▸ hc.linked⟩
  · intro r hr r' hlater i
    have hplaces := hlater.samePlaces
    have hsound := (sound_of_build hr).samePlaces hplaces
    have hshallow := hsound.shallow i
    obtain ⟨-, rfl⟩ := build_eq_ok_iff.1 hr
    refine ⟨fun j => ?_, hsound.ends i, hshallow.ancestor?, fun more name => ?_, fun more l => ?_⟩
    · rw [hplaces.links]
      exact inherits_linksOf
    · exact answersFrom_depth (hshallow.add more) hshallow
    · rw [indexFrom_depth (hshallow.add more) hshallow]

end Registry
end ApiDoc
