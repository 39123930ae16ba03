/-
What a name stands for.

A registry looks names up in a table that lists all own names before all alternate names.  The table
says what the rule says: a name stands for the first class that has it as its own name, or else for
the first class that has it as an alternate name.
-/
import ApiDoc.Proofs.Tables
import ApiDoc.Registry.Basic

namespace ApiDoc

namespace Registry

def standsFor? (classes : List ClassDoc) (name : String) : Option Nat :=
  (classes.findIdx? fun c => c.name == name).or
    (classes.findIdx? fun c => c.alternateNames.contains name)

theorem lookup_ownNames (classes : List ClassDoc) (name : String) (start : Nat) :
    ((classes.zipIdx start).map fun c => (c.1.name, c.2)).lookup name =
      (classes.findIdx? fun c => c.name == name).map (· + start) := by
  induction classes generalizing start with
  | nil => rfl
  | cons c classes ih =>
    rw [List.zipIdx_cons, List.map_cons, lookup_cons_if, List.findIdx?_cons, ih]
    by_cases h : name = c.name
    · simp [h]
    · simp [h, Ne.symm h, Option.map_map, Function.comp_def, Nat.add_comm, Nat.add_left_comm]

theorem lookup_alternateNames (classes : List ClassDoc) (name : String) (start : Nat) :
    ((classes.zipIdx start).flatMap fun c => c.1.alternateNames.map fun n => (n, c.2)).lookup name =
      (classes.findIdx? fun c => c.alternateNames.contains name).map (· + start) := by
  induction classes generalizing start with
  | nil => rfl
  | cons c classes ih =>
    rw [List.zipIdx_cons, List.flatMap_cons, List.lookup_append, lookup_map_pair,
      List.findIdx?_cons, ih]
    by_cases h : name ∈ c.alternateNames
    · simp [h]
    · simp [h, Option.map_map, Function.comp_def, Nat.add_comm, Nat.add_left_comm]

theorem lookup_namesOf (classes : List ClassDoc) (name : String) :
    (namesOf classes).lookup name = standsFor? classes name := by
  rw [namesOf, List.lookup_append, lookup_ownNames, lookup_alternateNames]
  simp [standsFor?]

theorem lt_of_standsFor? {classes : List ClassDoc} {name : String} {i : Nat}
    (h : standsFor? classes name = some i) : i < classes.length := by
  rw [standsFor?, Option.or_eq_some_iff] at h
  rcases h with h | ⟨-, h⟩
  · exact (List.findIdx?_eq_some_iff_findIdx_eq.1 h).1
  · exact (List.findIdx?_eq_some_iff_findIdx_eq.1 h).1

end Registry
end ApiDoc
