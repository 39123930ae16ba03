/-
What can happen to a registry after it is made.

Members are looked up, classes and their members are changed in any way, ids are refreshed and names
are left out, in any order.  Whatever happens, a registry keeps its places: which class each name
stands for, and what inherits from what, stay as they were when it was made.
-/
import ApiDoc.Registry.Change
import Mathlib.Logic.Relation

namespace ApiDoc
namespace Registry

/-- One thing that happens to a registry. -/
inductive Step : Registry → Registry → Prop
  | looked (r : Registry) (i : Nat) : Step r (r.looked i)
  | changed (r : Registry) (i : Nat) (f : ClassDoc → ClassDoc) : Step r (r.modifyAt i f)
  | refreshed {r r' : Registry} {name : String} (h : r.refresh name = .ok r') : Step r r'
  | refreshedAll (r : Registry) : Step r r.refreshAll
  | ignoring (r : Registry) (name : String) : Step r (r.ignore name)

/-- Everything that can happen to a registry over time. -/
abbrev Later : Registry → Registry → Prop := Relation.ReflTransGen Step

/-- What no step changes. -/
structure SamePlaces (r r' : Registry) : Prop where
  links : r'.links = r.links
  names : r'.names = r.names
  length : r'.classes.length = r.classes.length

theorem SamePlaces.refl (r : Registry) : SamePlaces r r := ⟨rfl, rfl, rfl⟩

theorem SamePlaces.trans {a b c : Registry} (h : SamePlaces a b) (h' : SamePlaces b c) :
    SamePlaces a c :=
  ⟨h'.links.trans h.links, h'.names.trans h.names, h'.length.trans h.length⟩

theorem samePlaces_modifyAt (r : Registry) (i : Nat) (f : ClassDoc → ClassDoc) :
    SamePlaces r (r.modifyAt i f) :=
  ⟨rfl, rfl, List.length_modify _ _ _⟩

theorem samePlaces_ignore (r : Registry) (name : String) : SamePlaces r (r.ignore name) := by
  unfold ignore
  split
  · exact SamePlaces.refl r
  · exact ⟨rfl, rfl, rfl⟩

/-- What refreshing a class does. -/
theorem refresh_eq_ok {r done : Registry} {name : String} (h : r.refresh name = .ok done) :
    ∃ i, r.find? name = some i ∧
      done = { r with classes := r.classes.modify i refreshClass, lookups := {} } := by
  unfold refresh modifyClass at h
  cases hi : r.find? name with
  | none =>
    rw [hi] at h
    exact absurd h (by simp [Except.map])
  | some i =>
    rw [hi] at h
    exact ⟨i, rfl, (Except.ok.inj h).symm⟩

theorem samePlaces_refresh {r r' : Registry} {name : String} (h : r.refresh name = .ok r') :
    SamePlaces r r' := by
  obtain ⟨i, -, rfl⟩ := refresh_eq_ok h
  exact ⟨rfl, rfl, List.length_modify _ _ _⟩

theorem samePlaces_refreshAll (r : Registry) : SamePlaces r r.refreshAll :=
  ⟨rfl, rfl, List.length_map _⟩

theorem Step.samePlaces {r r' : Registry} (h : Step r r') : SamePlaces r r' := by
  cases h with
  | looked i => exact ⟨rfl, rfl, rfl⟩
  | changed i f => exact samePlaces_modifyAt r i f
  | refreshed h => exact samePlaces_refresh h
  | refreshedAll => exact samePlaces_refreshAll r
  | ignoring name => exact samePlaces_ignore r name

/-- Through its whole history a registry keeps its places. -/
theorem Later.samePlaces {r r' : Registry} (h : Later r r') : SamePlaces r r' := by
  induction h with
  | refl => exact SamePlaces.refl r
  | tail _ hstep ih => exact ih.trans hstep.samePlaces

end Registry
end ApiDoc
