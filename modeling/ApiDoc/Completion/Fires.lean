/-
The events that methods fire, in their own bodies and through the methods that they call.

Calls are followed by name, each name standing for the last method of the class that has it.  A
method whose events are listed in its comment is taken by its word and not followed further.
-/
import ApiDoc.Doc.ClassDoc
import ApiDoc.Doc.Names

namespace ApiDoc
namespace Fires

def ownEvents (m : Member) : List String := if m.hasExplicitFires then m.fires else m.body.fires

def nextCalls (m : Member) : List String := if m.hasExplicitFires then [] else m.body.calls

/-- The method that a name stands for. -/
def methodNamed? (methods : List Member) (name : String) : Option Member :=
  methods.reverse.find? fun m => m.name == name

def unvisited (methods : List Member) (visited : List String) : Nat :=
  (methods.filter fun m => !visited.contains m.name).length

theorem methodNamed?_some {methods : List Member} {name : String} {m : Member}
    (h : methodNamed? methods name = some m) : m ∈ methods ∧ m.name = name := by
  have hm := List.mem_of_find?_eq_some h
  have hn := List.find?_some h
  exact ⟨List.mem_reverse.1 hm, by simpa using hn⟩

theorem unvisited_cons_lt {methods : List Member} {visited : List String} {name : String}
    {m : Member} (hv : ¬ visited.contains name = true)
    (h : methodNamed? methods name = some m) :
    unvisited methods (name :: visited) < unvisited methods visited := by
  obtain ⟨hm, hn⟩ := methodNamed?_some h
  have split : (methods.filter fun m => !(name :: visited).contains m.name) =
      (methods.filter fun m => !visited.contains m.name).filter fun m => m.name != name := by
    rw [List.filter_filter]
    congr 1
    funext k
    simp only [List.contains_cons, Bool.not_or, bne]
  unfold unvisited
  rw [split]
  apply List.length_filter_lt_length_iff_exists.2
  refine ⟨m, List.mem_filter.2 ⟨hm, ?_⟩, ?_⟩
  · rw [hn]
    simpa using hv
  · simp [hn]

/-- The events of everything that is called, the calls being followed in depth first. -/
def eventsOfCalls (methods : List Member) : List String → List String → List String
  | [], _ => []
  | name :: rest, visited =>
    if hv : visited.contains name = true then eventsOfCalls methods rest visited
    else
      match h : methodNamed? methods name with
      | none => eventsOfCalls methods rest visited
      | some m =>
        have := unvisited_cons_lt hv h
        ownEvents m ++ eventsOfCalls methods (nextCalls m ++ rest) (name :: visited)
termination_by calls visited => (unvisited methods visited, calls.length)

def eventsOf (methods : List Member) (m : Member) : List String :=
  distinct (ownEvents m ++ eventsOfCalls methods (nextCalls m) [m.name])

end Fires

/-- A member with the events that its code fires, unless they are listed or there are none. -/
def Member.withFires (methods : List Member) (m : Member) : Member :=
  if m.kind == .method && !m.hasExplicitFires then
    let events := Fires.eventsOf methods m
    if events.isEmpty then m
    else { m with fires := events, inferred := { m.inferred with fires := true } }
  else m

def ClassDoc.withFires (c : ClassDoc) : ClassDoc :=
  { c with members := c.members.map (Member.withFires (c.members.filter (·.kind == .method))) }

end ApiDoc
