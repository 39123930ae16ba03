/-
Who goes where: the account of a run, read off the entries.

Each entry that counts charges members to names, in the order of the files (`ledger`).  Which class a
name stands for is settled by the class entries alone: the first one that has it (`Roster`).  Nothing
here knows of members that wait.
-/
import ApiDoc.Grouping.Basic
import ApiDoc.Proofs.Tables

namespace ApiDoc
namespace Grouping

abbrev Files := List (String × List Entry)

/-- The classes that files are grouped into before the members that wait in the end are settled. -/
def ofFiles (files : Files) : Grouping :=
  (reportEach (fun g f => g.addFile f.1 f.2) {} files).1

/-- The class that an entry adds, under the name by which it is grouped. -/
def namedClass? (filename : String) (e : Entry) : Option ClassDoc :=
  match e.entity with
  | .ofClass c =>
    if e.isIgnored then none else (nameOf? c filename).map fun name => { c with name }
  | .ofMember _ => none

/-- The name of a class that an entry leaves out. -/
def leftOutName? (filename : String) (e : Entry) : Option String :=
  match e.entity with
  | .ofClass c => if e.isIgnored then nameOf? c filename else none
  | .ofMember _ => none

def isClassEntry (e : Entry) : Bool :=
  match e.entity with
  | .ofClass _ => true
  | .ofMember _ => false

/-- The name of the class for members that come after these entries of a file and name none. -/
def currentName? (filename : String) (before : List Entry) : Option String :=
  match before.reverse.find? isClassEntry with
  | none => some globalName
  | some e => (namedClass? filename e).map ClassDoc.name

/-- The members that an entry brings, each with the name of the class that it is for. -/
def charges (filename : String) (before : List Entry) (e : Entry) : List (String × Member) :=
  match e.entity with
  | .ofClass _ =>
    match namedClass? filename e with
    | some c => c.members.map fun m => (c.name, m)
    | none => []
  | .ofMember m =>
    if e.isIgnored || m.name.isEmpty then []
    else (e.memberOf <|> currentName? filename before).toList.map fun name => (name, m)

def chargesAfter (filename : String) : List Entry → List Entry → List (String × Member)
  | _, [] => []
  | before, e :: rest => charges filename before e ++ chargesAfter filename (before ++ [e]) rest

/-- All members that files bring, with the names of the classes that they are for. -/
def ledger (files : Files) : List (String × Member) :=
  files.flatMap fun f => chargesAfter f.1 [] f.2

theorem mem_chargesAfter {filename : String} {before entries : List Entry} {p : String × Member} :
    p ∈ chargesAfter filename before entries ↔
      ∃ earlier e later, entries = earlier ++ e :: later ∧
        p ∈ charges filename (before ++ earlier) e := by
  induction entries generalizing before with
  | nil => simp [chargesAfter]
  | cons e entries ih =>
    rw [chargesAfter, List.mem_append, ih]
    constructor
    · rintro (hp | ⟨earlier, found, later, rfl, hp⟩)
      · exact ⟨[], e, entries, rfl, (List.append_nil before).symm ▸ hp⟩
      · exact ⟨e :: earlier, found, later, rfl, List.append_cons before e earlier ▸ hp⟩
    · rintro ⟨earlier, found, later, hentries, hp⟩
      cases earlier with
      | nil =>
        obtain ⟨rfl, -⟩ := List.cons.inj hentries
        exact Or.inl (List.append_nil before ▸ hp)
      | cons first earlier =>
        obtain ⟨rfl, rfl⟩ := List.cons.inj hentries
        exact Or.inr ⟨earlier, found, later, rfl, List.append_cons before e earlier ▸ hp⟩

/-- What is charged is what the entries charge, each after the entries before it in its file. -/
theorem mem_ledger {files : Files} {p : String × Member} :
    p ∈ ledger files ↔ ∃ f ∈ files, ∃ earlier e later, f.2 = earlier ++ e :: later ∧
      p ∈ charges f.1 earlier e := by
  rw [ledger, List.mem_flatMap]
  refine exists_congr fun f => and_congr_right fun _ => ?_
  rw [mem_chargesAfter]
  rfl

def leftOutNames (files : Files) : List String :=
  files.flatMap fun f => f.2.filterMap (leftOutName? f.1)

/-- The classes, as far as class entries decide about them. -/
structure Roster where
  /-- What each name stands for.  The first pair with a name counts. -/
  names : List (String × Nat) := []
  /-- The own names of the classes in the order in which they are made. -/
  heads : List String := []

namespace Roster

def find? (t : Roster) (name : String) : Option Nat := t.names.lookup name

/-- Adds a class.  If its name stands for a class already, it is that class. -/
def add (t : Roster) (c : ClassDoc) : Roster :=
  { names := t.names ++ c.answers.map fun name => (name, (t.find? c.name).getD t.heads.length)
    heads := if (t.find? c.name).isSome then t.heads else t.heads ++ [c.name] }

/-- Names stand for classes, and the own name of a class stands for it. -/
structure Valid (t : Roster) : Prop where
  lt : ∀ name i, t.find? name = some i → i < t.heads.length
  own : ∀ i name, t.heads[i]? = some name → t.find? name = some i

theorem find?_add (t : Roster) (c : ClassDoc) (name : String) :
    (t.add c).find? name = (t.find? name).or
      (if name ∈ c.answers then some ((t.find? c.name).getD t.heads.length) else none) := by
  rw [find?, add, List.lookup_append, lookup_map_pair]
  rfl

/-- What a name stands for after a class is added, it stood for before, or it is a name of the class. -/
theorem find?_add_cases {t : Roster} {c : ClassDoc} {name : String} {i : Nat}
    (h : (t.add c).find? name = some i) :
    t.find? name = some i ∨ name ∈ c.answers ∧ i = (t.find? c.name).getD t.heads.length := by
  rw [find?, add] at h
  exact lookup_append_map_pair h

theorem find?_add_of_some {t : Roster} {name : String} {i : Nat} (h : t.find? name = some i)
    (c : ClassDoc) : (t.add c).find? name = some i := by
  rw [find?_add, h]
  rfl

/-- A class that is added has its name from then on. -/
theorem find?_add_self (t : Roster) (c : ClassDoc) :
    (t.add c).find? c.name = some ((t.find? c.name).getD t.heads.length) := by
  have hself : c.name ∈ c.answers := List.mem_cons_self
  rw [find?_add, if_pos hself]
  cases t.find? c.name with
  | none => rfl
  | some i => rfl

theorem length_heads_add (t : Roster) (c : ClassDoc) :
    t.heads.length ≤ (t.add c).heads.length := by
  unfold add
  split
  · exact Nat.le_refl _
  · simp

theorem Valid.add {t : Roster} (h : t.Valid) (c : ClassDoc) : (t.add c).Valid := by
  have hplace : (t.find? c.name).getD t.heads.length < (t.add c).heads.length := by
    cases hc : t.find? c.name with
    | none => simp [Roster.add, hc]
    | some i => exact Nat.lt_of_lt_of_le (h.lt _ _ hc) (length_heads_add t c)
  refine ⟨?_, ?_⟩
  · intro name i hi
    rcases find?_add_cases hi with hold | ⟨-, rfl⟩
    · exact Nat.lt_of_lt_of_le (h.lt _ _ hold) (length_heads_add t c)
    · exact hplace
  · intro i name hi
    cases hc : t.find? c.name with
    | some k =>
      have hold : t.heads[i]? = some name := by
        rw [← hi, Roster.add, hc]
        rfl
      exact find?_add_of_some (h.own i name hold) c
    | none =>
      have hheads : (t.add c).heads = t.heads ++ [c.name] := by
        rw [Roster.add, hc]
        rfl
      rw [hheads] at hi
      rcases getElem?_concat_cases hi with hold | ⟨rfl, rfl⟩
      · exact find?_add_of_some (h.own i name hold) c
      · rw [find?_add_self, hc]
        rfl

def addAll (t : Roster) (cs : List ClassDoc) : Roster := cs.foldl add t

theorem addAll_append (t : Roster) (cs cs' : List ClassDoc) :
    t.addAll (cs ++ cs') = (t.addAll cs).addAll cs' := List.foldl_append

theorem valid_empty : ({} : Roster).Valid :=
  ⟨fun _ _ h => absurd h (by simp [find?]), fun _ _ h => by simp at h⟩

theorem Valid.addAll {t : Roster} (h : t.Valid) (cs : List ClassDoc) : (t.addAll cs).Valid := by
  induction cs generalizing t with
  | nil => exact h
  | cons c cs ih => exact ih (h.add c)

end Roster

/-- The classes after all class entries of files. -/
def roster (files : Files) : Roster :=
  ({} : Roster).addAll (files.flatMap fun f => f.2.filterMap (namedClass? f.1))

/-- The names that classes are made for in the end: members are for them, and no class has them. -/
def madeNames (files : Files) : List String :=
  (distinct ((ledger files).map Prod.fst)).filter fun name =>
    !(leftOutNames files).contains name && ((roster files).find? name).isNone

def bare (name : String) : ClassDoc := { name }

/-- All classes, those that are made in the end included. -/
def fullRoster (files : Files) : Roster := (roster files).addAll ((madeNames files).map bare)

end Grouping
end ApiDoc
