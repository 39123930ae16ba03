/-
Classes with their inheritance resolved.

Parents and mixins are named by classes and resolved to places in the list of classes once, when the
registry is made.  A name stands for the first class that has it as its own name, or else for the
first one that has it as an alternate name.  Classes that inherit from themselves are refused, so
everything that follows parents and mixins ends.
-/
import ApiDoc.Code.Record
import ApiDoc.Doc.ClassDoc
import ApiDoc.Warning

namespace ApiDoc

/-- The place of a member: that of its class, and its place among the members. -/
structure MemberRef where
  classAt : Nat
  memberAt : Nat
  deriving DecidableEq, Repr, Inhabited

/-- Where the parents and mixins of each class are. -/
structure Links where
  parents : List (Option Nat) := []
  mixins : List (List Nat) := []
  deriving Repr, Inhabited

namespace Links

def parentOf? (l : Links) (i : Nat) : Option Nat := (l.parents[i]?).join

def mixinsOf (l : Links) (i : Nat) : List Nat := (l.mixins[i]?).getD []

/-- The classes that a class inherits from directly: its parent, then its mixins. -/
def bases (l : Links) (i : Nat) : List Nat := (l.parentOf? i).toList ++ l.mixinsOf i

/-- The part of a path between two visits of a class.  `path` holds the classes on the way to here,
the last one first. -/
def cycleOf (path : List Nat) (i : Nat) : List Nat :=
  i :: (path.takeWhile (· != i)).reverse ++ [i]

/-- Visits a class and everything that it inherits from.  `done` holds the classes that are known not
to reach a cycle, and the answer adds to them; the failure is a cycle.  A path without repetitions
is no longer than there are classes, which bounds `depth`. -/
def visit (l : Links) : Nat → List Nat → List Nat → Nat → Except (List Nat) (List Nat)
  | 0, _, done, _ => .ok done
  | depth + 1, path, done, i =>
    if done.contains i then .ok done
    else if path.contains i then .error (cycleOf path i)
    else
      match (l.bases i).foldlM (fun done j => visit l depth (i :: path) done j) done with
      | .ok done => .ok (i :: done)
      | .error cycle => .error cycle

def cycle? (l : Links) (n : Nat) : Option (List Nat) :=
  match (List.range n).foldlM (fun done i => l.visit (n + 1) [] done i) [] with
  | .ok _ => none
  | .error cycle => some cycle

end Links

/-- A member as it was when its class was indexed. -/
structure Indexed where
  ref : MemberRef
  name : String
  kind : EntityKind
  isStatic : Bool
  isLocalStatic : Bool
  deriving DecidableEq, Repr, Inhabited

/-- The members of a class by their ids, in the order in which the ids appeared. -/
abbrev MemberMap := List (String × Indexed)

namespace MemberMap

def get? (m : MemberMap) (id : String) : Option Indexed := m.lookup id

/-- Puts a member under an id.  An id that is there already keeps its place. -/
def put (id : String) (e : Indexed) : MemberMap → MemberMap
  | [] => [(id, e)]
  | (key, old) :: m => if key == id then (key, e) :: m else (key, old) :: put id e m

/-- The members that subclasses inherit: all but the static ones that stay with their class. -/
def inheritable (m : MemberMap) : MemberMap := m.filter fun p => !p.2.isLocalStatic

end MemberMap

structure ClassIndex where
  visible : MemberMap := []
  own : List Indexed := []
  deriving Repr, Inhabited

/-- What look-ups have found out so far: the indices of classes, and which members displaced which
others. -/
structure Lookups where
  indices : List (Nat × ClassIndex) := []
  displaced : List (MemberRef × List MemberRef) := []
  deriving Repr, Inhabited

/-- The classes of a program, with what they inherit. -/
structure Registry where
  classes : List ClassDoc := []
  names : List (String × Nat) := []
  ignored : List String := []
  links : Links := {}
  lookups : Lookups := {}
  deriving Repr, Inhabited

namespace Registry

/-- Own names first, then alternate names, each in the order of the classes. -/
def namesOf (classes : List ClassDoc) : List (String × Nat) :=
  classes.zipIdx.map (fun c => (c.1.name, c.2))
    ++ classes.zipIdx.flatMap fun c => c.1.alternateNames.map fun n => (n, c.2)

def isBuiltinParent (name : String) : Bool := name == Code.baseClass || name == "Object"

def parentWarnings (names : List (String × Nat)) (c : ClassDoc) : List Warning :=
  match c.parent with
  | none => []
  | some name =>
    if (names.lookup name).isSome || isBuiltinParent name then []
    else
      [{ kind := .parent
         message := "Class " ++ c.name ++ " extends unknown class " ++ name
         file := c.files.head? }]

def mixinWarnings (names : List (String × Nat)) (c : ClassDoc) : List Warning :=
  (c.mixins.filter fun name => (names.lookup name).isNone).map fun name =>
    { kind := .mixin
      message := "Class " ++ c.name ++ " mixes in unknown class " ++ name
      file := c.files.head? }

def linksOf (names : List (String × Nat)) (classes : List ClassDoc) : Links :=
  { parents := classes.map fun c => c.parent.bind fun n => names.lookup n
    mixins := classes.map fun c => c.mixins.filterMap fun n => names.lookup n }

/-- The name of the class at a place. -/
def nameAt (classes : List ClassDoc) (i : Nat) : String := (classes[i]?.map ClassDoc.name).getD ""

/-- Makes a registry, unless a class inherits from itself.  Parents and mixins that are not in it are
reported and left alone. -/
def build (classes : List ClassDoc) (ignored : List String) :
    Except Error Registry × List Warning :=
  let names := namesOf classes
  let links := linksOf names classes
  (match links.cycle? classes.length with
    | some cycle => .error (.circularInheritance (cycle.map (nameAt classes)))
    | none => .ok { classes, names, ignored, links },
    classes.flatMap fun c => parentWarnings names c ++ mixinWarnings names c)

def find? (r : Registry) (name : String) : Option Nat := r.names.lookup name

def classAt? (r : Registry) (i : Nat) : Option ClassDoc := r.classes[i]?

def get? (r : Registry) (name : String) : Option ClassDoc := (r.find? name).bind r.classAt?

def member? (r : Registry) (ref : MemberRef) : Option Member :=
  (r.classAt? ref.classAt).bind fun c => c.members[ref.memberAt]?

def isIgnored (r : Registry) (name : String) : Bool := r.ignored.contains name

def ignore (r : Registry) (name : String) : Registry :=
  if r.isIgnored name then r else { r with ignored := r.ignored ++ [name] }

/-- Whether a class or one of its parents answers to a name.  Parents form a chain without
repetitions, which bounds `depth`. -/
def answersFrom (r : Registry) (name : String) : Nat → Nat → Bool
  | 0, _ => false
  | depth + 1, i =>
    ((r.classAt? i).map fun c => c.answersTo name).getD false
      || match r.links.parentOf? i with
        | some p => answersFrom r name depth p
        | none => false

/-- Whether the class at a place is `name` or descends from it through parents. -/
def inheritsFrom (r : Registry) (i : Nat) (name : String) : Bool :=
  r.answersFrom name (r.classes.length + 1) i

end Registry
end ApiDoc
