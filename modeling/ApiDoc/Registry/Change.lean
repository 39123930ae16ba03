/-
Changing members of a registry.

Changes leave the indices alone, so look-ups go on answering as before until the ids of the members
are refreshed.
-/
import ApiDoc.Registry.Lookup

namespace ApiDoc
namespace Registry

def modifyAt (r : Registry) (i : Nat) (f : ClassDoc → ClassDoc) : Registry :=
  { r with classes := r.classes.modify i f }

def modifyClass (r : Registry) (name : String) (f : ClassDoc → ClassDoc) :
    Except Error Registry :=
  match r.find? name with
  | some i => .ok (r.modifyAt i f)
  | none => .error (.unknownClass name)

def modifyMember (r : Registry) (ref : MemberRef) (f : Member → Member) : Registry :=
  r.modifyAt ref.classAt fun c => { c with members := c.members.modify ref.memberAt f }

/-- Changes the first member of a class that has a name. -/
def modifyNamed (r : Registry) (className name : String) (f : Member → Member) :
    Except Error Registry :=
  r.modifyClass className fun c =>
    match c.members.findIdx? fun m => m.name == name with
    | some i => { c with members := c.members.modify i f }
    | none => c

/-- Forgets all indices and everything that look-ups noted. -/
def forgetLookups (r : Registry) : Registry := { r with lookups := {} }

def refreshClass (c : ClassDoc) : ClassDoc := { c with members := c.members.map Member.refreshId }

/-- Brings the ids of a class's members up to date, and forgets all indices. -/
def refresh (r : Registry) (name : String) : Except Error Registry :=
  (r.modifyClass name refreshClass).map forgetLookups

def refreshAll (r : Registry) : Registry :=
  { r with classes := r.classes.map refreshClass, lookups := {} }

end Registry
end ApiDoc
