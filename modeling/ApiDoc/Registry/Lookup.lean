/-
Looking up members.

The index of a class is made when it is first asked for, out of the indices of its parent and its
mixins, and is kept.  On the way every member that takes the place of another one of the same id is
noted.  A look-up has two sides: its answer (`findRefs`), and what the registry knows afterwards
(`looked`).
-/
import ApiDoc.Registry.Basic

namespace ApiDoc

namespace Lookups

def displacedBy (l : Lookups) (winner : MemberRef) : List MemberRef :=
  (l.displaced.lookup winner).getD []

/-- Notes in a list of pairs that `winner` displaced `loser`, once. -/
def noteIn (winner loser : MemberRef) :
    List (MemberRef × List MemberRef) → List (MemberRef × List MemberRef)
  | [] => [(winner, [loser])]
  | (key, losers) :: rest =>
    if key == winner then
      (key, if losers.contains loser then losers else losers ++ [loser]) :: rest
    else (key, losers) :: noteIn winner loser rest

def note (l : Lookups) (winner loser : MemberRef) : Lookups :=
  { l with displaced := noteIn winner loser l.displaced }

def place (s : MemberMap × Lookups) (p : String × Indexed) : MemberMap × Lookups :=
  let l :=
    match s.1.get? p.1 with
    | some loser => if loser.ref == p.2.ref then s.2 else s.2.note p.2.ref loser.ref
    | none => s.2
  (s.1.put p.1 p.2, l)

end Lookups

def Indexed.ofMember (ref : MemberRef) (m : Member) : Indexed :=
  { ref, name := m.name, kind := m.kind, isStatic := m.isStatic, isLocalStatic := m.isLocalStatic }

/-- Which members are wanted.  What is not given matches everything. -/
structure MemberQuery where
  name : Option String := none
  kind : Option EntityKind := none
  isStatic : Option Bool := none
  isOwn : Bool := false
  deriving DecidableEq, Repr, Inhabited

def MemberQuery.wants {α : Type} [BEq α] (wanted : Option α) (value : α) : Bool :=
  match wanted with
  | none => true
  | some w => w == value

def MemberQuery.admits (q : MemberQuery) (e : Indexed) : Bool :=
  wants q.name e.name && wants q.kind e.kind && wants q.isStatic e.isStatic

namespace Registry

def ownEntries (r : Registry) (i : Nat) : List (String × Indexed) :=
  (((r.classAt? i).map ClassDoc.members).getD []).zipIdx.map fun m =>
    (m.1.id, Indexed.ofMember ⟨i, m.2⟩ m.1)

/-- What a class takes over from its parent, `indexOf` giving the indices of other classes. -/
def inherited (r : Registry) (indexOf : Nat → Lookups → ClassIndex × Lookups) (i : Nat)
    (l : Lookups) : MemberMap × Lookups :=
  match r.links.parentOf? i with
  | some p =>
    let x := indexOf p l
    (x.1.visible.inheritable, x.2)
  | none => ([], l)

def addMixin (indexOf : Nat → Lookups → ClassIndex × Lookups) (s : MemberMap × Lookups) (j : Nat) :
    MemberMap × Lookups :=
  let x := indexOf j s.2
  x.1.visible.inheritable.foldl Lookups.place (s.1, x.2)

/-- Makes the index of a class.  It starts with what the parent hands on; then come the mixins and
the class's own members, later ones displacing earlier ones of the same id. -/
def makeIndex (r : Registry) (indexOf : Nat → Lookups → ClassIndex × Lookups) (i : Nat)
    (l : Lookups) : ClassIndex × Lookups :=
  let mixed := (r.links.mixinsOf i).foldl (addMixin indexOf) (r.inherited indexOf i l)
  let entries := r.ownEntries i
  let all := entries.foldl Lookups.place mixed
  let index := { visible := all.1, own := entries.map (·.2) }
  (index, { all.2 with indices := (i, index) :: all.2.indices })

/-- The index of a class, and what is known after it is made, unless it is known already.
Inheritance is acyclic, so no more than `depth` classes follow one another. -/
def indexFrom (r : Registry) : Nat → Nat → Lookups → ClassIndex × Lookups
  | 0, _, l => ({}, l)
  | depth + 1, i, l =>
    match l.indices.lookup i with
    | some index => (index, l)
    | none => r.makeIndex (r.indexFrom depth) i l

def index (r : Registry) (i : Nat) : ClassIndex × Lookups :=
  r.indexFrom (r.classes.length + 1) i r.lookups

def looked (r : Registry) (i : Nat) : Registry := { r with lookups := (r.index i).2 }

/-- The registry after the members of all classes were looked up in their order. -/
def lookedAll (r : Registry) : Registry := (List.range r.classes.length).foldl looked r

def findRefs (r : Registry) (i : Nat) (q : MemberQuery) : List MemberRef :=
  let index := (r.index i).1
  let entries := if q.isOwn then index.own else index.visible.map (·.2)
  (entries.filter q.admits).map Indexed.ref

/-- The members of a class that a query wants.  A member that is gone is left out. -/
def findMembers (r : Registry) (i : Nat) (q : MemberQuery) : List Member :=
  (r.findRefs i q).filterMap r.member?

/-- The members that a member has displaced in the look-ups so far. -/
def overridesOf (r : Registry) (ref : MemberRef) : List Member :=
  (r.lookups.displacedBy ref).filterMap r.member?

/-- A class with, for each of its members, the members that it displaces. -/
structure Exported where
  entry : ClassDoc
  overrides : List (List Member)

def exported (r : Registry) : List Exported :=
  r.classes.zipIdx.map fun c =>
    { entry := c.1
      overrides := (List.range c.1.members.length).map fun m => r.overridesOf ⟨c.2, m⟩ }

/-- Looks up everything and answers with all classes. -/
def exportAll (r : Registry) : List Exported × Registry :=
  let r := r.lookedAll
  (r.exported, r)

end Registry
end ApiDoc
