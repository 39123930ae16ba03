/-
Grouping the entries of files into classes.

A member belongs to the class that its comment names, or else to the last class before it in the same
file.  A class that is named before it is known gets its members when it comes; what still waits in
the end gets a class of that name.  Members without any class belong to the global class.
-/
import ApiDoc.Grouping.Combine
import ApiDoc.Warning

namespace ApiDoc

/-- The class of members that are documented outside of any class. -/
def globalName : String := "global"

inductive Place where
  | outside
  | inClass (classAt : Nat)
  /-- The last class is left out, and its members with it. -/
  | leftOut
  deriving DecidableEq, Repr, Inhabited

structure Grouping where
  classes : List ClassDoc := []
  /-- What each name stands for.  The first pair with a name counts. -/
  names : List (String × Nat) := []
  /-- The names of classes that are left out. -/
  ignored : List String := []
  /-- Members of classes that have not been found yet, by the name of the class. -/
  waiting : List (String × List Member) := []
  deriving Repr, Inhabited

def enqueue (target : String) (m : Member) :
    List (String × List Member) → List (String × List Member)
  | [] => [(target, [m])]
  | (name, ms) :: rest =>
    if name == target then (name, ms ++ [m]) :: rest else (name, ms) :: enqueue target m rest

def globalWarnings (target : String) (ms : List Member) : List Warning :=
  if target == globalName then
    ms.map fun m =>
      { kind := .global
        message := "Global " ++ m.kind.word ++ ": " ++ m.name
        file := m.files.head? }
  else []

namespace Grouping

def find? (g : Grouping) (name : String) : Option Nat := g.names.lookup name

def addMembersAt (g : Grouping) (i : Nat) (ms : List Member) : Grouping :=
  { g with classes := g.classes.modify i fun c => c.addMembers ms }

/-- Gives a member to the class of that name, or lets it wait for the class. -/
def assign (g : Grouping) (target : String) (m : Member) : Grouping × List Warning :=
  match g.find? target with
  | some i => (g.addMembersAt i [m], globalWarnings target [m])
  | none => ({ g with waiting := enqueue target m g.waiting }, [])

/-- Gives the class at a place the members that wait for it under a name, if the name is its own. -/
def adopt (i : Nat) (g : Grouping) (name : String) : Grouping × List Warning :=
  if g.find? name == some i then
    match g.waiting.lookup name with
    | some ms =>
      (({ g with waiting := g.waiting.filter fun w => w.1 != name }).addMembersAt i ms,
        globalWarnings name ms)
    | none => (g, [])
  else (g, [])

/-- Adds a class, or merges it into the one that has its name.  The answer holds the place. -/
def place (g : Grouping) (c : ClassDoc) : Grouping × Nat :=
  match g.find? c.name with
  | some i => ({ g with classes := g.classes.modify i fun old => old.merge c }, i)
  | none => ({ g with classes := g.classes ++ [c] }, g.classes.length)

/-- Lets names stand for the class at a place, unless they stand for one already. -/
def register (g : Grouping) (names : List String) (i : Nat) : Grouping :=
  { g with names := g.names ++ names.map fun name => (name, i) }

def addNamed (g : Grouping) (c : ClassDoc) : (Grouping × Place) × List Warning :=
  let placed := g.place c
  let r := reportEach (adopt placed.2) (placed.1.register c.answers placed.2) c.answers
  ((r.1, .inClass placed.2), r.2)

/-- The name under which a class is grouped.  An override needs none of its own. -/
def nameOf? (c : ClassDoc) (filename : String) : Option String :=
  if !c.name.isEmpty then some c.name
  else if c.overrideOf.isSome then some filename
  else none

def addClass (g : Grouping) (filename : String) (c : ClassDoc) (isIgnored : Bool) :
    (Grouping × Place) × List Warning :=
  match nameOf? c filename with
  | none =>
    ((g, .leftOut),
      [{ kind := .nameMissing, message := "Unnamed class in " ++ filename, file := c.files.head? }])
  | some name =>
    if isIgnored then (({ g with ignored := g.ignored ++ [name] }, .leftOut), [])
    else g.addNamed { c with name }

def addMember (g : Grouping) (place : Place) (memberOf : Option String) (m : Member) :
    Grouping × List Warning :=
  match memberOf, place with
  | some target, _ => g.assign target m
  | none, .inClass i => (g.addMembersAt i [m], [])
  | none, .outside => g.assign globalName m
  | none, .leftOut => (g, [])

def addEntry (filename : String) (s : Grouping × Place) (e : Entry) :
    (Grouping × Place) × List Warning :=
  match e.entity with
  | .ofClass c => s.1.addClass filename c e.isIgnored
  | .ofMember m =>
    if e.isIgnored then (s, [])
    else if m.name.isEmpty then
      (s,
        [{ kind := .nameMissing
           message := "Unnamed " ++ m.kind.word ++ " in " ++ filename
           file := m.files.head? }])
    else
      let r := s.1.addMember s.2 e.memberOf m
      ((r.1, s.2), r.2)

def addFile (g : Grouping) (filename : String) (entries : List Entry) : Grouping × List Warning :=
  let r := reportEach (addEntry filename) (g, .outside) entries
  (r.1.1, r.2)

/-- The files of a class, or if it has none the first place of one of the members. -/
def filesWith (c : ClassDoc) (ms : List Member) : List FileRef :=
  if c.files.isEmpty then ((ms.filterMap fun m => m.files.head?).head?).toList else c.files

/-- Gives the members that wait for a name to a class of that name, which is made if there is none.
Members of classes that are left out are dropped. -/
def settle (g : Grouping) (w : String × List Member) : Grouping × List Warning :=
  let give (g : Grouping) (i : Nat) : Grouping × List Warning :=
    ({ g with
        classes := g.classes.modify i fun c =>
          { c.addMembers w.2 with files := filesWith c w.2 } },
      globalWarnings w.1 w.2)
  match g.find? w.1 with
  | some i => give g i
  | none =>
    if g.ignored.contains w.1 then (g, [])
    else
      give
        { g with
          classes := g.classes ++ [{ name := w.1 }]
          names := g.names ++ [(w.1, g.classes.length)] }
        g.classes.length

def settleAll (g : Grouping) : Grouping × List Warning :=
  reportEach settle { g with waiting := [] } g.waiting

end Grouping
end ApiDoc
