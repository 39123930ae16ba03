/-
Documentation that is inherited from other members.

A reference names a member, or stands for the member of the same name in the parent or in a mixin.
Undocumented members on the way are passed over.  All sources are looked up before anything is
changed, so the order in which classes are visited does not matter.
-/
import ApiDoc.Registry.Change

namespace ApiDoc

/-- How many undocumented members are passed over before the search gives up. -/
def longestChain : Nat := 16

namespace Registry

def membersAt (r : Registry) (refs : List MemberRef) : List (MemberRef × Member) :=
  refs.filterMap fun ref => (r.member? ref).map fun m => (ref, m)

/-- The first member of the wanted kind, or else, if `lenient`, the first one that holds a value like
the wanted kind does. -/
def pick? (candidates : List (MemberRef × Member)) (kind : EntityKind) (lenient : Bool) :
    Option MemberRef :=
  ((candidates.find? fun c => c.2.kind == kind)
    <|> candidates.find? fun c => lenient && kind.isValue && c.2.kind.isValue).map (·.1)

/-- The best candidate of that name which is visible in the class at a place. -/
def candidate? (r : Registry) (i : Nat) (name : String) (isStatic : Bool) (kind : EntityKind)
    (lenient : Bool) : Option MemberRef :=
  pick? (r.membersAt (r.findRefs i { name := some name, isStatic := some isStatic })) kind lenient

/-- The member that a reference with a class or a member name means, `m` being a member of the class
at `i`.  A member is not its own source. -/
def namedSource? (r : Registry) (i : Nat) (m : Member) (ref : InheritRef) : Option MemberRef :=
  let target :=
    match ref.className with
    | some name => r.find? name
    | none => some i
  let lenient := m.inferred.member || ref.kind.isNone
  let found := target.bind fun t =>
    r.candidate? t (ref.memberName.getD m.name) (ref.isStatic || m.isStatic) (ref.kind.getD m.kind)
      lenient
  found.filter fun source =>
    source.classAt != i || ((r.member? source).map Member.name != some m.name)

/-- The member of the same name and kind in the first base that has one. -/
def baseSource? (r : Registry) (i : Nat) (m : Member) (ref : InheritRef) : Option MemberRef :=
  (r.links.bases i).findSome? fun base =>
    r.candidate? base m.name (ref.isStatic || m.isStatic) m.kind m.inferred.member

/-- The member whose documentation `m`, a member of the class at `i`, refers to. -/
def source? (r : Registry) (i : Nat) (m : Member) (ref : InheritRef) : Option MemberRef :=
  if ref.className.isSome || ref.memberName.isSome then r.namedSource? i m ref
  else r.baseSource? i m ref

def nextSource? (r : Registry) (at? : MemberRef) : Option MemberRef :=
  (r.member? at?).bind fun m =>
    match m.inheritdoc with
    | none => none
    | some ref =>
      if !m.doc.isEmpty then none
      else
        ((r.find? m.owner).bind fun i => r.source? i m ref).filter (· != at?)

/-- The end of a chain of undocumented members, of which no more than `steps` are passed over. -/
def chainEnd (r : Registry) : Nat → MemberRef → MemberRef
  | 0, ref => ref
  | steps + 1, ref =>
    match r.nextSource? ref with
    | none => ref
    | some next => chainEnd r steps next

end Registry

structure Inherited where
  source : Member
  /-- There is nothing to inherit: the chain ends at code without documentation. -/
  isPlaceholder : Bool
  /-- The reference is written down with a target. -/
  isExplicit : Bool
  deriving Repr, Inhabited

namespace Registry

/-- What a member gets through a reference whose nearest source is at `start`. -/
def inherited? (r : Registry) (start : MemberRef) (ref : InheritRef) : Option Inherited :=
  (r.member? (r.chainEnd longestChain start)).map fun m =>
    { source := m
      isPlaceholder := m.inferred.member && m.doc.isEmpty
      isExplicit := ref != {} }

end Registry

namespace Member

/-- What members inherit however they are documented.  Their own documentation goes first, but a type
is taken over, except that code keeps its type over a source without documentation. -/
def inheritDoc (m : Member) (h : Inherited) : Member :=
  let keepsType := m.inferred.member && !h.isExplicit && h.isPlaceholder
  { m with
    doc := if m.doc.isEmpty then h.source.doc else m.doc
    params :=
      if m.params.all Param.isEventOptions && !h.source.params.isEmpty then h.source.params
      else m.params
    returns := m.returns <|> h.source.returns
    type := if keepsType then m.type else h.source.type <|> m.type }

/-- What members inherit that come from code alone.  Without anything to inherit they are
private. -/
def inheritFlags (m : Member) (h : Inherited) : Member :=
  { m with
    isProtected := m.isProtected || h.source.isProtected
    isReadonly := m.isReadonly || h.source.isReadonly
    deprecated := m.deprecated <|> h.source.deprecated
    isPrivate := m.isPrivate || h.isPlaceholder
    kind := if m.kind == .property && h.source.kind == .config then .config else m.kind }

def inherit (m : Member) (h : Inherited) : Member :=
  if m.inferred.member then (m.inheritDoc h).inheritFlags h else m.inheritDoc h

end Member

namespace InheritedDocs

inductive MemberChange where
  | inherit (h : Inherited)
  | makePrivate
  deriving Repr, Inhabited

def MemberChange.apply (m : Member) : MemberChange → Member
  | .inherit h => m.inherit h
  | .makePrivate => { m with isPrivate := true }

/-- A change of a class: the documentation that it gets if it has none. -/
structure ClassChange where
  className : String
  doc : String
  deriving Repr, Inhabited

def describe (className : String) (m : Member) (ref : InheritRef) : String :=
  ref.className.getD className ++ "#" ++ ref.memberName.getD m.name

/-- The change of a member, or the warning that its reference has no source. -/
def changeOf (r : Registry) (className : String) (at? : MemberRef) (m : Member) :
    Option MemberChange × List Warning :=
  match m.inheritdoc with
  | none => (none, [])
  | some ref =>
    match r.source? at?.classAt m ref with
    | some start => ((r.inherited? start ref).map .inherit, [])
    | none =>
      if m.inferred.member then (some .makePrivate, [])
      else
        (none,
          [{ kind := .inheritdoc
             message := "@inheritdoc " ++ describe className m ref ++ " - member not found"
             file := m.files.head? }])

/-- The change of a class, or the warning that its reference has no target. -/
def classChangeOf (r : Registry) (i : Nat) (c : ClassDoc) : Option ClassChange × List Warning :=
  match c.inheritdoc with
  | none => (none, [])
  | some ref =>
    let target :=
      match ref.className with
      | some name => r.get? name
      | none => (r.links.parentOf? i).bind r.classAt?
    match target with
    | some target => (some { className := c.name, doc := target.doc }, [])
    | none =>
      (none,
        [{ kind := .inheritdoc
           message := "@inheritdoc " ++ ref.className.getD "parent" ++ " - class not found"
           file := c.files.head? }])

/-- All changes, the changes of members before those of classes. -/
structure Changes where
  members : List (MemberRef × MemberChange) := []
  classes : List ClassChange := []
  deriving Repr, Inhabited

def changesOf (r : Registry) (s : Changes) (c : ClassDoc × Nat) : Changes × List Warning :=
  let found := c.1.members.zipIdx.map fun m =>
    let ref : MemberRef := ⟨c.2, m.2⟩
    (ref, changeOf r c.1.name ref m.1)
  let whole := classChangeOf r c.2 c.1
  ({ members := s.members ++ found.filterMap fun f => f.2.1.map fun change => (f.1, change)
     classes := s.classes ++ whole.1.toList },
    found.flatMap (·.2.2) ++ whole.2)

/-- All changes that a registry asks for, every class having been looked up before. -/
def changes (r : Registry) : Changes × List Warning :=
  reportEach (changesOf r.lookedAll) {} r.classes.zipIdx

def applyMember (r : Registry) (change : MemberRef × MemberChange) : Registry :=
  r.modifyMember change.1 fun m => change.2.apply m

def applyClass (r : Registry) (change : ClassChange) : Registry :=
  match r.find? change.className with
  | some i =>
    r.modifyAt i fun c => { c with doc := if c.doc.isEmpty then change.doc else c.doc }
  | none => r

def applyAll (r : Registry) (s : Changes) : Registry :=
  (s.classes.foldl applyClass (s.members.foldl applyMember r)).refreshAll

end InheritedDocs

def Registry.inheritDocs (r : Registry) : Registry × List Warning :=
  let found := InheritedDocs.changes r
  (InheritedDocs.applyAll r found.1, found.2)

end ApiDoc
