/-
What enumerations become.

The values of an enumeration are its members, but for events, and those that its pattern asks for: one
for each alias in the whole list of classes that starts as the pattern does (`Finds`).  All of them get
one type, which is the declared one or else follows from the types that the values show (`TypeFor`).
A pattern reads names, aliases, visibility and places of classes, and completing changes none of these.
So it does not matter that classes are completed one after the other in the list that is read
(`completeInTurn_eq`).
-/
import ApiDoc.Proofs.Assembly.Passes
import Mathlib.Data.List.DropRight
import Mathlib.Data.List.Forall2

namespace ApiDoc
namespace Enumeration

/-- All aliases in a list of classes, each with its class, in their order. -/
def aliasesOf (classes : List ClassDoc) : List (ClassDoc × String) :=
  classes.flatMap fun c => c.aliases.map fun name => (c, name)

/-- How the aliases start that a pattern asks for: as the pattern does without the asterisks at its
end. -/
def startOf (pattern : String) : List Char := pattern.toList.rdropWhile (· == '*')

/-- The value for an alias of a class.  It is called what remains of the alias, and is private if the
class is. -/
structure ValueFor (owner : String) (start : List Char) (p : ClassDoc × String) (m : Member) :
    Prop where
  name : p.2.toList = start ++ m.name.toList
  isPrivate : m.isPrivate = p.1.isPrivate
  form : m = aliasMember owner p.1 m.name

/-- The values that a pattern asks for, if there is one. -/
def Finds (owner : String) (classes : List ClassDoc) : Option String → List Member → Prop
  | none, found => found = []
  | some pattern, found =>
    List.Forall₂ (ValueFor owner (startOf pattern))
      ((aliasesOf classes).filter fun p => (startOf pattern).isPrefixOf p.2.toList) found

/-- The types that members show, one after another.  An `Object` that was not read off code says
nothing. -/
def shownTypes (ms : List Member) : List String :=
  ms.filterMap fun m => m.type.filter fun t => m.inferred.type || t != "Object"

/-- The type of an enumeration with these values: the declared one, or else the different ones that the
values show, in the order in which they appear first, or else `Object`. -/
inductive TypeFor (info : EnumInfo) (values : List Member) : String → Prop
  | declared {type : String} : info.type = some type → TypeFor info values type
  | joined : info.type = none → shownTypes values ≠ [] →
      TypeFor info values ("/".intercalate (shownTypes values).eraseDups)
  | unknown : info.type = none → shownTypes values = [] → TypeFor info values "Object"

def valuesOf (c : ClassDoc) (found : List Member) : List Member :=
  (c.members.filter fun m => m.kind != .event) ++ found

/-- What becomes of a class in a list. -/
inductive Becomes (classes : List ClassDoc) (c : ClassDoc) : ClassDoc → Prop
  | plain : c.enumInfo = none → Becomes classes c c
  | completed {info : EnumInfo} {found : List Member} {type : String} : c.enumInfo = some info →
      Finds c.name classes info.pattern found → TypeFor info (valuesOf c found) type →
      Becomes classes c
        { c with
          parent := none
          members := (valuesOf c found).map (asValue type)
          enumInfo := some { info with type := some type } }

/-- A list that is picked out of another one stands beside those that were picked. -/
theorem forall₂_filter_filterMap {α β : Type} {R : α → β → Prop} {p : α → Bool} {f : α → Option β}
    (h : ∀ x, (p x = true ∧ ∃ y, f x = some y ∧ R x y) ∨ (p x = false ∧ f x = none))
    (xs : List α) : List.Forall₂ R (xs.filter p) (xs.filterMap f) := by
  induction xs with
  | nil => exact .nil
  | cons x xs ih =>
    rcases h x with ⟨hp, y, hf, hy⟩ | ⟨hp, hf⟩
    · rw [List.filter_cons_of_pos hp, List.filterMap_cons_some hf]
      exact .cons hy ih
    · rw [List.filter_cons_of_neg (by simp [hp]), List.filterMap_cons_none hf]
      exact ih

theorem aliasMembers_eq (owner : String) (classes : List ClassDoc) (pattern : String) :
    aliasMembers owner classes pattern = (aliasesOf classes).filterMap fun p =>
      ((startOf pattern).isPrefixOf? p.2.toList).map fun rest =>
        aliasMember owner p.1 (String.ofList rest) := by
  rw [aliasesOf, List.filterMap_flatMap, aliasMembers]
  refine List.flatMap_congr fun c _ => ?_
  rw [List.filterMap_map]
  rfl

theorem finds_aliasMembers (owner : String) (classes : List ClassDoc) (pattern? : Option String) :
    Finds owner classes pattern? ((pattern?.map (aliasMembers owner classes)).getD []) := by
  cases pattern? with
  | none => exact rfl
  | some pattern =>
    show List.Forall₂ _ _ (aliasMembers owner classes pattern)
    rw [aliasMembers_eq]
    refine forall₂_filter_filterMap (fun p => ?_) _
    cases hrest : (startOf pattern).isPrefixOf? p.2.toList with
    | none =>
      refine Or.inr ⟨?_, rfl⟩
      rw [← Bool.not_eq_true, List.isPrefixOf_iff_prefix]
      rintro ⟨rest, hsplit⟩
      rw [List.isPrefixOf?_eq_some_iff_append_eq.2 hsplit] at hrest
      cases hrest
    | some rest =>
      have hsplit := List.isPrefixOf?_eq_some_iff_append_eq.1 hrest
      have hstarts : (startOf pattern).isPrefixOf p.2.toList = true := by
        rw [List.isPrefixOf_iff_prefix]
        exact ⟨rest, hsplit⟩
      refine Or.inl ⟨hstarts, _, rfl, ?_, rfl, rfl⟩
      show p.2.toList = startOf pattern ++ (String.ofList rest).toList
      rw [String.toList_ofList, hsplit]

theorem typeFor_commonType (info : EnumInfo) (values : List Member) :
    TypeFor info values (info.type.getD (commonType values)) := by
  have htypes : typesOf values = (shownTypes values).eraseDups := distinct_eq_eraseDups _
  cases htype : info.type with
  | some type => exact .declared htype
  | none =>
    rw [Option.getD_none, commonType, htypes]
    cases hshown : shownTypes values with
    | nil => exact .unknown htype hshown
    | cons type types =>
      rw [← hshown]
      have hne : shownTypes values ≠ [] := by simp [hshown]
      rw [if_neg (by simp [hshown, List.eraseDups_cons])]
      exact .joined htype hne

theorem filter_found (classes : List ClassDoc) (c : ClassDoc) (info : EnumInfo) :
    let found := (info.pattern.map (aliasMembers c.name classes)).getD []
    ((c.members ++ found).filter fun m => m.kind != .event) = valuesOf c found := by
  intro found
  have hfound : (found.filter fun m => m.kind != .event) = found := by
    refine List.filter_eq_self.2 fun m hm => ?_
    obtain ⟨d, -, value, rfl⟩ := exists_aliasMember hm
    rfl
  rw [List.filter_append, hfound, valuesOf]

theorem becomes_complete (classes : List ClassDoc) (c : ClassDoc) :
    Becomes classes c (complete classes c).1 := by
  cases hinfo : c.enumInfo with
  | none =>
    rw [complete_of_plain classes hinfo]
    exact .plain hinfo
  | some info =>
    rw [complete_of_enumInfo classes hinfo, normalize, filter_found]
    exact .completed hinfo (finds_aliasMembers c.name classes info.pattern)
      (typeFor_commonType info _)

/-- In what becomes of an enumeration all members are properties of its type, and those that come from
code alone refer to no other documentation. -/
theorem Becomes.values {classes : List ClassDoc} {c done : ClassDoc} (h : Becomes classes c done)
    {info : EnumInfo} (hinfo : done.enumInfo = some info) :
    done.parent = none ∧ ∃ type, info.type = some type ∧
      ∀ m ∈ done.members, m.kind = .property ∧ m.id = m.currentId ∧ m.type = some type ∧
        (m.inferred.member = true → m.inheritdoc = none) := by
  cases h with
  | plain hplain => rw [hplain] at hinfo; cases hinfo
  | @completed info found type _ _ _ =>
    obtain rfl := Option.some.inj hinfo
    refine ⟨rfl, type, rfl, fun m hm => ?_⟩
    obtain ⟨value, -, rfl⟩ := List.mem_map.1 hm
    exact ⟨rfl, rfl, rfl, fun hcode => if_pos hcode⟩

/-- What is reported of an enumeration that has no members. -/
def bareWarning (c : ClassDoc) : Warning :=
  { kind := .enumeration
    message := "Enum " ++ c.name ++ " has no members"
    file := c.files.head? }

def isBare (c : ClassDoc) : Bool := c.enumInfo.isSome && c.members.isEmpty

theorem warnings_complete (classes : List ClassDoc) (c : ClassDoc) :
    (complete classes c).2 =
      if isBare (complete classes c).1 then [bareWarning (complete classes c).1] else [] := by
  cases hinfo : c.enumInfo with
  | none =>
    have hplain : isBare c = false := by rw [isBare, hinfo]; rfl
    rw [complete_of_plain classes hinfo, hplain, complete, hinfo]
    rfl
  | some info =>
    rw [complete_of_enumInfo classes hinfo, complete, hinfo]
    rfl

theorem warnings_completeAll (classes : List ClassDoc) :
    (completeAll classes).2 = ((completeAll classes).1.filter isBare).map bareWarning := by
  have hall : ∀ cs : List ClassDoc, (cs.flatMap fun c => (complete classes c).2) =
      ((cs.map fun c => (complete classes c).1).filter isBare).map bareWarning := by
    intro cs
    induction cs with
    | nil => rfl
    | cons c cs ih =>
      rw [List.flatMap_cons, ih, warnings_complete, List.map_cons, List.filter_cons]
      split
      · rfl
      · rfl
  rw [completeAll, List.flatMap_map, List.map_map]
  exact hall classes

/-- Completes classes one after the other, each being back in the list before the next one reads it.
`done` holds those before. -/
def completeInTurn (done : List ClassDoc) : List ClassDoc → List ClassDoc × List Warning
  | [] => (done, [])
  | c :: rest =>
    let one := complete (done ++ c :: rest) c
    let more := completeInTurn (done ++ [one.1]) rest
    (more.1, one.2 ++ more.2)

/-- What patterns read of a class. -/
def face (c : ClassDoc) : String × List String × Bool × List FileRef :=
  (c.name, c.aliases, c.isPrivate, c.files)

theorem face_complete (classes : List ClassDoc) (c : ClassDoc) :
    face (complete classes c).1 = face c := by
  obtain ⟨_, _, _, hframe⟩ := complete_frame classes c
  rw [hframe]
  rfl

theorem aliasMembers_congr {classes classes' : List ClassDoc}
    (h : classes'.map face = classes.map face) (owner pattern : String) :
    aliasMembers owner classes' pattern = aliasMembers owner classes pattern := by
  have hread : ∀ cs : List ClassDoc, aliasMembers owner cs pattern =
      (cs.map face).flatMap fun f => f.2.1.filterMap fun name =>
        ((startOf pattern).isPrefixOf? name.toList).map fun rest =>
          aliasMember owner { name := f.1, isPrivate := f.2.2.1, files := f.2.2.2 }
            (String.ofList rest) := by
    intro cs
    rw [List.flatMap_map]
    rfl
  rw [hread, hread, h]

/-- Completing a class reads nothing else of the others. -/
theorem complete_congr {classes classes' : List ClassDoc}
    (h : classes'.map face = classes.map face) (c : ClassDoc) :
    complete classes' c = complete classes c := by
  rw [complete, funext (aliasMembers_congr h c.name), complete]

theorem completeInTurn_append {classes done rest : List ClassDoc}
    (h : (done ++ rest).map face = classes.map face) :
    completeInTurn done rest =
      (done ++ rest.map fun c => (complete classes c).1,
        rest.flatMap fun c => (complete classes c).2) := by
  induction rest generalizing done with
  | nil => simp [completeInTurn]
  | cons c rest ih =>
    have hrest : ((done ++ [(complete classes c).1]) ++ rest).map face = classes.map face := by
      rw [← h]
      simp [face_complete]
    rw [completeInTurn, complete_congr h, ih hrest, List.map_cons, List.flatMap_cons,
      List.append_assoc, List.singleton_append]

theorem completeInTurn_eq (classes : List ClassDoc) :
    completeInTurn [] classes = completeAll classes := by
  rw [completeAll, List.map_map, List.flatMap_map]
  exact completeInTurn_append rfl

/-- Each class of a list becomes what it, its values and the aliases in the list make of it, also where
classes are completed one after the other in their list.  An enumeration extends nothing and has no
events: its members are properties with ids of their own, all of its type, and those that come from code
alone refer to no other documentation.  Warnings are given, as far as they are wanted, for exactly those
enumerations that have no members. -/
theorem completeAll_becomes (classes : List ClassDoc) (ws : Warnings) :
    let done := completeAll classes
    List.Forall₂ (Becomes classes) classes done.1 ∧
    (∀ c ∈ done.1, ∀ info, c.enumInfo = some info →
      c.parent = none ∧ ∃ type, info.type = some type ∧
        ∀ m ∈ c.members, m.kind = .property ∧ m.id = m.currentId ∧ m.type = some type ∧
          (m.inferred.member = true → m.inheritdoc = none)) ∧
    (ws.addAll done.2).collected = ws.collected ++
      ((done.1.filter isBare).map bareWarning).filter
        (fun w => Warnings.isOn ws.rules .enumeration (Warnings.filenameOf w)) ∧
    completeInTurn [] classes = done := by
  intro done
  have hdone : done.1 = classes.map fun c => (complete classes c).1 := List.map_map
  refine ⟨?_, fun c hc info hinfo => ?_, ?_, completeInTurn_eq classes⟩
  · rw [hdone, List.forall₂_map_right_iff, List.forall₂_same]
    exact fun c _ => becomes_complete classes c
  · rw [hdone] at hc
    obtain ⟨old, -, rfl⟩ := List.mem_map.1 hc
    exact (becomes_complete classes old).values hinfo
  · rw [Warnings.collected_addAll, warnings_completeAll]
    refine congrArg (ws.collected ++ ·) (List.filter_congr fun w hw => ?_)
    obtain ⟨c, -, rfl⟩ := List.mem_map.1 hw
    rfl

/-- An enumeration that lists aliases, one of them its own, one whose values show their types, and one
that is left with nothing. -/
def palette : List ClassDoc :=
  [{ name := "Kind", parent := some "Base", aliases := ["widget.kind"]
     enumInfo := some { type := some "String", pattern := some "widget.*" }
     members := [Member.ofName .event "change"] },
   { name := "Panel", aliases := ["plugin.panel", "widget.panel"], isPrivate := true },
   { name := "Colour", enumInfo := some {}
     members :=
      [{ Member.ofName .property "red" with type := some "String" },
        { Member.ofName .property "any" with type := some "Object" },
        { Member.ofName .config "blue" with type := some "Number" },
        { Member.ofName .property "green" with
          type := some "String", inferred := { member := true }, inheritdoc := some {} }] },
   { name := "Nothing", enumInfo := some {}, members := [Member.ofName .event "change"] }]

theorem completeAll_palette :
    ((completeAll palette).1.map fun c => c.members.map fun m => (m.name, m.isPrivate)) =
        [[("kind", false), ("panel", true)], [],
          [("red", false), ("any", false), ("blue", false), ("green", false)], []] ∧
      ((completeAll palette).1[2]?.any fun c => c.enumInfo = some { type := some "String/Number" }) ∧
      (∀ c, (completeAll palette).1[2]? = some c →
        ∃ type, ∀ m ∈ c.members, m.kind = .property ∧ m.type = some type) ∧
      (({} : Warnings).addAll (completeAll palette).2).collected =
        [{ kind := .enumeration, message := "Enum Nothing has no members" }] ∧
      completeInTurn [] palette = completeAll palette := by
  obtain ⟨-, hvalues, hwarnings, hturn⟩ := completeAll_becomes palette {}
  refine ⟨by decide, by decide, fun c hc => ?_, hwarnings.trans (by decide), hturn⟩
  have hinfo : c.enumInfo = some { type := some "String/Number" } := by
    have hread : (completeAll palette).1[2]?.map ClassDoc.enumInfo =
        some (some { type := some "String/Number" }) := by decide
    rw [hc] at hread
    exact Option.some.inj hread
  obtain ⟨-, type, -, hmembers⟩ := hvalues c (List.mem_of_getElem? hc) _ hinfo
  exact ⟨type, fun m hm => ⟨(hmembers m hm).1, (hmembers m hm).2.2.1⟩⟩

end Enumeration
end ApiDoc
