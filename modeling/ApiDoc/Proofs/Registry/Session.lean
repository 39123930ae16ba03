/-
Sessions: what callers ask of a registry, and what they do to it.

A request is answered, and the registry remembers what it found out on the way.  A command can also
change classes and members.  One that fails leaves the registry as it is.
-/
import ApiDoc.Proofs.Inheritance.Build

namespace ApiDoc
namespace Registry

inductive Request where
  | refs (classAt : Nat) (query : MemberQuery)
  | members (classAt : Nat) (query : MemberQuery)
  | overrides (ref : MemberRef)
  | export

inductive Answer where
  | refs (found : List MemberRef)
  | members (found : List Member)
  | exported (classes : List Exported)

def ask (r : Registry) : Request → Answer × Registry
  | .refs i q => (.refs (r.findRefs i q), r.looked i)
  | .members i q => (.members (r.findMembers i q), r.looked i)
  | .overrides ref => (.members (r.overridesOf ref), r)
  | .export => (.exported r.exportAll.1, r.exportAll.2)

/-- The answers to requests that are made one after another. -/
def answers (r : Registry) : List Request → List Answer
  | [] => []
  | q :: qs => (r.ask q).1 :: (r.ask q).2.answers qs

inductive Command where
  | ask (request : Request)
  | change (className : String) (f : ClassDoc → ClassDoc)
  | changeMember (ref : MemberRef) (f : Member → Member)
  | refresh (className : String)
  | refreshAll
  | ignore (name : String)

inductive Reply where
  | answer (a : Answer)
  | done
  | failed (e : Error)

def attempt (r : Registry) : Except Error Registry → Registry × Reply
  | .ok r' => (r', .done)
  | .error e => (r, .failed e)

def perform (r : Registry) : Command → Registry × Reply
  | .ask q => ((r.ask q).2, .answer (r.ask q).1)
  | .change name f => r.attempt (r.modifyClass name f)
  | .changeMember ref f => (r.modifyMember ref f, .done)
  | .refresh name => r.attempt (r.refresh name)
  | .refreshAll => (r.refreshAll, .done)
  | .ignore name => (r.ignore name, .done)

/-- The registry after commands. -/
def after (r : Registry) (commands : List Command) : Registry :=
  commands.foldl (fun r c => (r.perform c).1) r

namespace Command

/-- The command leaves the members of all classes as they are. -/
def KeepsMembers : Command → Prop
  | .ask _ => True
  | .change _ f => ∀ c, (f c).members = c.members
  | .changeMember _ _ => False
  | .refresh _ => False
  | .refreshAll => False
  | .ignore _ => True

end Command

/-- A registry that was made or refreshed last, whatever happened to it before. -/
inductive Fresh : Registry → Prop
  | made {classes : List ClassDoc} {ignored : List String} {r : Registry}
      (h : (build classes ignored).1 = .ok r) : Fresh r
  | refreshed {classes : List ClassDoc} {ignored : List String} {r before done : Registry}
      {name : String} (h : (build classes ignored).1 = .ok r) (hbefore : Later r before)
      (hdone : before.refresh name = .ok done) : Fresh done
  | refreshedAll {classes : List ClassDoc} {ignored : List String} {r before : Registry}
      (h : (build classes ignored).1 = .ok r) (hbefore : Later r before) : Fresh before.refreshAll

theorem refresh_of_find? {r : Registry} {name : String} {i : Nat} (h : r.find? name = some i) :
    r.refresh name =
      .ok { r with classes := r.classes.modify i refreshClass, lookups := {} } := by
  unfold refresh modifyClass
  rw [h]
  rfl

theorem refresh_of_find?_eq_none {r : Registry} {name : String} (h : r.find? name = none) :
    r.refresh name = .error (.unknownClass name) := by
  unfold refresh modifyClass
  rw [h]
  rfl

theorem Fresh.sound {r : Registry} (h : r.Fresh) : r.Sound := by
  cases h with
  | made h => exact sound_of_build h
  | refreshed h hbefore hdone =>
    exact ((sound_of_build h).samePlaces hbefore.samePlaces).samePlaces (samePlaces_refresh hdone)
  | refreshedAll h hbefore =>
    exact ((sound_of_build h).samePlaces hbefore.samePlaces).samePlaces (samePlaces_refreshAll _)

/-- Nothing is remembered yet. -/
theorem Fresh.lookups {r : Registry} (h : r.Fresh) : r.lookups = {} := by
  cases h with
  | made h =>
    obtain ⟨-, rfl⟩ := build_eq_ok_iff.1 h
    rfl
  | refreshed _ _ hdone =>
    obtain ⟨i, -, rfl⟩ := refresh_eq_ok hdone
    rfl
  | refreshedAll _ _ => rfl

end Registry
end ApiDoc
