/-
Refreshing a registry makes it new.

Lookups and changes of members leave traces: indices of classes, and notes on which members displaced
which.  As long as no command touches what inheritance is read off, the links of a registry stay those
of its classes (`Resolved`), and refreshing it leaves nothing but the registry that would be made of
its classes as they are now (`refresh_rebuilds`).
-/
import ApiDoc.Proofs.Registry.Session

namespace ApiDoc

/-- A change of a class that leaves its names and what it inherits from as they are. -/
structure KeepsInheritance (f : ClassDoc → ClassDoc) : Prop where
  name : ∀ c, (f c).name = c.name
  alternateNames : ∀ c, (f c).alternateNames = c.alternateNames
  parent : ∀ c, (f c).parent = c.parent
  mixins : ∀ c, (f c).mixins = c.mixins

theorem keepsInheritance_members (f : ClassDoc → List Member) :
    KeepsInheritance fun c => { c with members := f c } :=
  ⟨fun _ => rfl, fun _ => rfl, fun _ => rfl, fun _ => rfl⟩

namespace Registry

/-- What the links of a registry are read off a class. -/
def bonds (c : ClassDoc) : String × List String × Option String × List String :=
  (c.name, c.alternateNames, c.parent, c.mixins)

theorem bonds_of_keepsInheritance {f : ClassDoc → ClassDoc} (hf : KeepsInheritance f)
    (c : ClassDoc) : bonds (f c) = bonds c := by
  rw [bonds, bonds, hf.name, hf.alternateNames, hf.parent, hf.mixins]

theorem namesOf_congr {classes classes' : List ClassDoc}
    (h : classes'.map bonds = classes.map bonds) : namesOf classes' = namesOf classes := by
  have hread : ∀ cs : List ClassDoc, namesOf cs =
      (cs.map bonds).zipIdx.map (fun b => (b.1.1, b.2)) ++
        (cs.map bonds).zipIdx.flatMap fun b => b.1.2.1.map fun n => (n, b.2) := by
    intro cs
    rw [List.zipIdx_map, List.map_map, List.flatMap_map]
    rfl
  rw [hread, hread, h]

theorem linksOf_congr {classes classes' : List ClassDoc}
    (h : classes'.map bonds = classes.map bonds) (names : List (String × Nat)) :
    linksOf names classes' = linksOf names classes := by
  have hread : ∀ cs : List ClassDoc, linksOf names cs =
      { parents := (cs.map bonds).map fun b => b.2.2.1.bind fun n => names.lookup n
        mixins := (cs.map bonds).map fun b => b.2.2.2.filterMap fun n => names.lookup n } := by
    intro cs
    rw [List.map_map, List.map_map]
    rfl
  rw [hread, hread, h]

/-- Names and links are those of the classes as they are now, and no class inherits from itself. -/
structure Resolved (r : Registry) : Prop where
  names : r.names = namesOf r.classes
  links : r.links = linksOf (namesOf r.classes) r.classes
  acyclic : r.links.cycle? r.classes.length = none

theorem resolved_of_build {classes : List ClassDoc} {ignored : List String} {r : Registry}
    (h : (build classes ignored).1 = .ok r) : r.Resolved := by
  obtain ⟨hacyclic, rfl⟩ := build_eq_ok_iff.1 h
  exact ⟨rfl, rfl, hacyclic⟩

theorem Resolved.congr {r r' : Registry} (h : r.Resolved) (hnames : r'.names = r.names)
    (hlinks : r'.links = r.links) (hbonds : r'.classes.map bonds = r.classes.map bonds) :
    r'.Resolved := by
  have hlength : r'.classes.length = r.classes.length := by
    rw [← List.length_map bonds, hbonds, List.length_map]
  refine ⟨?_, ?_, ?_⟩
  · rw [hnames, namesOf_congr hbonds, h.names]
  · rw [hlinks, namesOf_congr hbonds, linksOf_congr hbonds, h.links]
  · rw [hlinks, hlength, h.acyclic]

/-- A resolved registry without any memory is the one that is made of its classes. -/
theorem Resolved.rebuild {r : Registry} (h : r.Resolved) (hnew : r.lookups = {}) :
    (build r.classes r.ignored).1 = .ok r := by
  refine build_eq_ok_iff.2 ⟨?_, ?_⟩
  · rw [← h.links]
    exact h.acyclic
  · obtain ⟨classes, names, ignored, links, lookups⟩ := r
    obtain ⟨hnames, hlinks, -⟩ := h
    dsimp only at hnames hlinks hnew
    rw [hnames, hlinks, hnew]

theorem find?_eq_none_iff {r : Registry} (h : r.Resolved) {name : String} :
    r.find? name = none ↔ ∀ c ∈ r.classes, c.answersTo name = false := by
  rw [find?, h.names, lookup_namesOf, standsFor?, Option.or_eq_none_iff, List.findIdx?_eq_none_iff,
    List.findIdx?_eq_none_iff, ← forall₂_and]
  refine forall₂_congr fun c _ => ?_
  rw [ClassDoc.answersTo, Bool.or_eq_false_iff, List.any_beq']

namespace Command

/-- Whatever the command changes, names and what classes inherit from stay as they are. -/
def KeepsBonds : Command → Prop
  | .change _ f => KeepsInheritance f
  | _ => True

end Command

theorem Resolved.looked {r : Registry} (h : r.Resolved) (i : Nat) : (r.looked i).Resolved :=
  h.congr rfl rfl rfl

theorem Resolved.ask {r : Registry} (h : r.Resolved) (q : Request) : (r.ask q).2.Resolved := by
  have hall : ∀ (earlier : List Nat) (r : Registry), r.Resolved →
      (earlier.foldl Registry.looked r).Resolved := by
    intro earlier
    induction earlier with
    | nil => exact fun r h => h
    | cons i earlier ih => exact fun r h => ih (r.looked i) (h.looked i)
  cases q with
  | refs i q => exact h.looked i
  | members i q => exact h.looked i
  | overrides ref => exact h
  | «export» => exact hall _ r h

theorem Resolved.modifyAt {r : Registry} (h : r.Resolved) {f : ClassDoc → ClassDoc}
    (hf : KeepsInheritance f) (i : Nat) : (r.modifyAt i f).Resolved :=
  h.congr rfl rfl (map_modify_of_same (bonds_of_keepsInheritance hf) r.classes i)

theorem keepsInheritance_refreshClass : KeepsInheritance refreshClass :=
  keepsInheritance_members fun c => c.members.map Member.refreshId

theorem Resolved.refreshAll {r : Registry} (h : r.Resolved) : r.refreshAll.Resolved := by
  refine h.congr rfl rfl ?_
  show (r.classes.map refreshClass).map bonds = _
  rw [List.map_map]
  exact List.map_congr_left fun c _ => bonds_of_keepsInheritance keepsInheritance_refreshClass c

theorem Resolved.refresh {r done : Registry} (h : r.Resolved) {name : String}
    (hdone : r.refresh name = .ok done) : done.Resolved := by
  obtain ⟨i, -, rfl⟩ := refresh_eq_ok hdone
  exact h.congr rfl rfl (map_modify_of_same
    (bonds_of_keepsInheritance keepsInheritance_refreshClass) r.classes i)

/-- A command that leaves names and inheritance alone keeps a registry resolved. -/
theorem Resolved.perform {r : Registry} (h : r.Resolved) {c : Command} (hc : c.KeepsBonds) :
    (r.perform c).1.Resolved := by
  cases c with
  | ask q => exact h.ask q
  | change name f =>
    rw [Registry.perform, modifyClass]
    cases r.find? name with
    | none => exact h
    | some i => exact h.modifyAt hc i
  | changeMember ref f => exact h.modifyAt (keepsInheritance_members _) ref.classAt
  | refresh name =>
    rw [Registry.perform]
    cases hdone : r.refresh name with
    | error e => exact h
    | ok done => exact h.refresh hdone
  | refreshAll => exact h.refreshAll
  | ignore name =>
    rw [Registry.perform, Registry.ignore]
    split
    · exact h
    · exact h.congr rfl rfl rfl

theorem Resolved.after {r : Registry} (h : r.Resolved) {commands : List Command}
    (hc : ∀ c ∈ commands, c.KeepsBonds) : (r.after commands).Resolved := by
  induction commands generalizing r with
  | nil => exact h
  | cons c commands ih =>
    exact ih (h.perform (hc c List.mem_cons_self)) fun d hd => hc d (List.mem_cons_of_mem c hd)

/-- A registry is as if it were made anew of its classes: it is that registry, so it answers every row
of requests in the same way. -/
def LikeNew (r : Registry) : Prop :=
  ∃ made : Registry, (build r.classes r.ignored).1 = .ok made ∧ r = made ∧
    ∀ requests, r.answers requests = made.answers requests

theorem Resolved.likeNew {r : Registry} (h : r.Resolved) (hnew : r.lookups = {}) : r.LikeNew :=
  ⟨r, h.rebuild hnew, rfl, fun _ => rfl⟩

/-- After any commands that leave names and inheritance alone, refreshing a class that answers to the
name, or all classes, gives the registry that is made of the classes as they are then, with nothing
left of earlier lookups.  The ids that are brought up to date are those of the class, or all of them.
Under a name that no class answers to nothing is refreshed: that fails, and the registry stays as it
is. -/
theorem refresh_rebuilds {classes : List ClassDoc} {ignored : List String} {r : Registry}
    (h : (build classes ignored).1 = .ok r) {commands : List Command}
    (hc : ∀ c ∈ commands, c.KeepsBonds) :
    let now := r.after commands
    (∀ name, (∃ c ∈ now.classes, c.answersTo name = true) →
      ∃ i done, now.find? name = some i ∧ now.perform (.refresh name) = (done, .done) ∧
        done.classes = now.classes.modify i refreshClass ∧ done.ignored = now.ignored ∧
        done.LikeNew) ∧
    (∃ done, now.perform .refreshAll = (done, .done) ∧
      done.classes = now.classes.map refreshClass ∧ done.ignored = now.ignored ∧ done.LikeNew) ∧
    ∀ name, (∀ c ∈ now.classes, c.answersTo name = false) →
      now.perform (.refresh name) = (now, .failed (.unknownClass name)) := by
  intro now
  have hnow : now.Resolved := (resolved_of_build h).after hc
  refine ⟨fun name hname => ?_, ⟨now.refreshAll, rfl, rfl, rfl, hnow.refreshAll.likeNew rfl⟩,
    fun name hname => ?_⟩
  · obtain ⟨c, hc, hanswers⟩ := hname
    cases hi : now.find? name with
    | none =>
      rw [(find?_eq_none_iff hnow).1 hi c hc] at hanswers
      exact absurd hanswers Bool.false_ne_true
    | some i =>
      have hdone := refresh_of_find? hi
      refine ⟨i, { now with classes := now.classes.modify i refreshClass, lookups := {} }, rfl, ?_,
        rfl, rfl, (hnow.refresh hdone).likeNew rfl⟩
      rw [Registry.perform, hdone]
      rfl
  · rw [Registry.perform, refresh_of_find?_eq_none ((find?_eq_none_iff hnow).2 hname)]
    rfl

/-- A class that overrides a member of its parent. -/
def pair : List ClassDoc :=
  [{ name := "Parent", members := [Member.ofName .method "foo"] },
   { name := "Child", parent := some "Parent", members := [Member.ofName .method "foo"] }]

def pairRegistry : Registry :=
  { classes := pair, names := namesOf pair, links := linksOf (namesOf pair) pair }

theorem build_pair : (build pair []).1 = .ok pairRegistry :=
  build_eq_ok_iff.2 ⟨by decide, rfl⟩

/-- Exports all, gives the member of the subclass another name, and asks for it. -/
def renameCommands : List Command :=
  [.ask .export, .changeMember ⟨1, 0⟩ fun m => { m with name := "bar" },
    .ask (.refs 1 { name := some "bar" })]

theorem keepsBonds_renameCommands : ∀ c ∈ renameCommands, c.KeepsBonds := by
  simp [renameCommands, Command.KeepsBonds]

/-- Before the refresh the new name is not found and the member still displaces its parent's. -/
theorem refresh_renameCommands :
    let now := pairRegistry.after renameCommands
    now.findRefs 1 { name := some "bar" } = [] ∧ now.lookups.displacedBy ⟨1, 0⟩ = [⟨0, 0⟩] ∧
      (∃ done, now.perform (.refresh "Child") = (done, .done) ∧ done.LikeNew ∧
        done.findRefs 1 { name := some "bar" } = [⟨1, 0⟩] ∧
        done.exportAll.2.lookups.displacedBy ⟨1, 0⟩ = []) ∧
      (∃ done, now.perform .refreshAll = (done, .done) ∧ done.LikeNew) ∧
      now.perform (.refresh "Ghost") = (now, .failed (.unknownClass "Ghost")) := by
  intro now
  obtain ⟨hone, ⟨all, hall, -, -, hnew⟩, hghost⟩ := refresh_rebuilds build_pair keepsBonds_renameCommands
  obtain ⟨i, done, -, hdone, -, -, hlike⟩ := hone "Child" (by decide)
  have hfound : (now.perform (.refresh "Child")).1.findRefs 1 { name := some "bar" } = [⟨1, 0⟩] := by
    decide
  have hexported :
      (now.perform (.refresh "Child")).1.exportAll.2.lookups.displacedBy ⟨1, 0⟩ = [] := by
    decide
  rw [hdone] at hfound hexported
  exact ⟨by decide, by decide, ⟨done, hdone, hlike, hfound, hexported⟩, ⟨all, hall, hnew⟩,
    hghost "Ghost" (by decide)⟩

end Registry
end ApiDoc
