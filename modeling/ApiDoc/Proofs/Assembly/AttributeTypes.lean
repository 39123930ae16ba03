/-
The types of configs and properties in the finished registry.

Completing the classes leaves a config or property with the type that its source gives it, except that
the values of an enumeration all get the type of the enumeration.  After that only inheriting
documentation changes types: where the member at the end of a chain of references has a type, that is
taken over (`types_of_attributes`).
-/
import ApiDoc.Proofs.Assembly.EventOptions
import ApiDoc.Proofs.Entry.AttributeTypes

namespace ApiDoc
open Entry

namespace Member

/-- What a member says of its value, and what of it is read off the code. -/
def valuation (m : Member) : Option String × Option String × Bool × Bool × Bool :=
  (m.type, m.default, m.inferred.member, m.inferred.type, m.inferred.default)

/-- A member is what an earlier one has become: it has the same name and the same value, refers to the same
documentation, and stands on the same line of the file that it came from first. -/
structure Keeps (o m : Member) : Prop where
  kind : m.kind = o.kind
  name : m.name = o.name
  valuation : m.valuation = o.valuation
  inheritdoc : m.inheritdoc = o.inheritdoc
  line : m.line = o.line
  files : o.files <+: m.files

theorem Keeps.refl (m : Member) : m.Keeps m := ⟨rfl, rfl, rfl, rfl, rfl, List.prefix_rfl⟩

theorem Keeps.trans {o m m' : Member} (h : o.Keeps m) (h' : m.Keeps m') : o.Keeps m' where
  kind := h'.kind.trans h.kind
  name := h'.name.trans h.name
  valuation := h'.valuation.trans h.valuation
  inheritdoc := h'.inheritdoc.trans h.inheritdoc
  line := h'.line.trans h.line
  files := h.files.trans h'.files

theorem Keeps.type {o m : Member} (h : o.Keeps m) : m.type = o.type := congrArg (·.1) h.valuation

theorem Keeps.inferred {o m : Member} (h : o.Keeps m) : m.inferred.member = o.inferred.member :=
  congrArg (·.2.2.1) h.valuation

theorem keeps_owner (m : Member) (owner : String) : m.Keeps { m with owner } :=
  ⟨rfl, rfl, rfl, rfl, rfl, List.prefix_rfl⟩

theorem keeps_withReturn (className : String) (m : Member) : m.Keeps (m.withReturn className) := by
  obtain ⟨_, _, hframe⟩ := m.withReturn_frame className
  rw [hframe]
  exact ⟨rfl, rfl, rfl, rfl, rfl, List.prefix_rfl⟩

theorem keeps_withEventOptions (m : Member) : m.Keeps m.withEventOptions := by
  obtain ⟨_, hframe⟩ := m.withEventOptions_frame
  rw [hframe]
  exact ⟨rfl, rfl, rfl, rfl, rfl, List.prefix_rfl⟩

theorem keeps_withFires (methods : List Member) (m : Member) : m.Keeps (m.withFires methods) := by
  obtain ⟨_, _, hframe⟩ := m.withFires_frame methods
  rw [hframe]
  exact ⟨rfl, rfl, rfl, rfl, rfl, List.prefix_rfl⟩

theorem keeps_withTypes (m : Member) : m.Keeps m.withTypes :=
  ⟨rfl, rfl, rfl, rfl, rfl, List.prefix_rfl⟩

theorem keeps_patchMember (source : String) (m patch : Member) :
    m.Keeps (Override.patchMember source m patch) :=
  ⟨rfl, rfl, rfl, rfl, rfl, List.prefix_append _ _⟩

theorem keeps_newMember (source owner : String) (m : Member) :
    m.Keeps (Override.newMember source owner m) :=
  ⟨rfl, rfl, rfl, rfl, rfl, List.prefix_rfl⟩

end Member

/-- The accessors of options are methods and events. -/
theorem Accessor.DerivedFrom.isAttribute {className : String} {option m : Member}
    (h : DerivedFrom className option m) : m.kind.isAttribute = false := by
  rcases h.form with rfl | rfl | ⟨-, rfl⟩
  · rfl
  · rfl
  · rfl

theorem exists_kept_prepared {given : Bool} {c : ClassDoc} {m : Member}
    (hm : m ∈ (prepared given c).members) (hkind : m.kind.isAttribute = true) :
    ∃ old ∈ c.members, old.Keeps m := by
  have hready : ∀ m ∈ c.claimMembers.withAccessors.withReturns.members, m.kind.isAttribute = true →
      ∃ old ∈ c.members, old.Keeps m := by
    intro m hm hkind
    obtain ⟨bare, hbare, rfl⟩ := List.mem_map.1 hm
    have hreturn := bare.keeps_withReturn c.claimMembers.withAccessors.name
    rcases ClassDoc.mem_withAccessors hbare with hclaimed | ⟨option, -, hderived⟩
    · obtain ⟨old, hold, rfl⟩ := List.mem_map.1 hclaimed
      exact ⟨old, hold, (old.keeps_owner c.name).trans hreturn⟩
    · rw [hreturn.kind, hderived.isAttribute] at hkind
      exact absurd hkind Bool.false_ne_true
  unfold prepared at hm
  cases given with
  | false => exact hready m hm hkind
  | true =>
    obtain ⟨ready, hmem, rfl⟩ := List.mem_map.1 hm
    have hoptions := ready.keeps_withEventOptions
    rw [hoptions.kind] at hkind
    obtain ⟨old, hold, hkeeps⟩ := hready ready hmem hkind
    exact ⟨old, hold, hkeeps.trans hoptions⟩

/-- A completed class has a completed member for each one that its values are completed to. -/
theorem exists_kept_completed {given : Bool} {classes : List ClassDoc} {c : ClassDoc} {m : Member}
    (hm : m ∈ (completed given classes c).members) :
    ∃ old ∈ (Enumeration.complete (classes.map (prepared given)) (prepared given c)).1.members,
      old.Keeps m := by
  obtain ⟨fired, hfired, rfl⟩ := List.mem_map.1 hm
  obtain ⟨old, hold, rfl⟩ := List.mem_map.1 hfired
  exact ⟨old, hold, (old.keeps_withFires _).trans (Member.keeps_withTypes _)⟩

theorem enumInfo_prepared (given : Bool) (c : ClassDoc) : (prepared given c).enumInfo = c.enumInfo := by
  obtain ⟨_, hframe⟩ := frame_prepared given c
  rw [hframe]

/-- The members of a plain class are as they were, but for those that are no configs or properties. -/
theorem completed_of_plain (given : Bool) (classes : List ClassDoc) {c : ClassDoc}
    (h : c.enumInfo = none) :
    (completed given classes c).enumInfo = none ∧
      ∀ m ∈ (completed given classes c).members, m.kind.isAttribute = true →
        ∃ old ∈ c.members, old.Keeps m := by
  have hplain : (prepared given c).enumInfo = none := (enumInfo_prepared given c).trans h
  have hsame := Enumeration.complete_of_plain (classes.map (prepared given)) hplain
  refine ⟨?_, fun m hm hkind => ?_⟩
  · show (Enumeration.complete _ (prepared given c)).1.enumInfo = none
    rw [hsame, hplain]
  · obtain ⟨ready, hready, hkeeps⟩ := exists_kept_completed hm
    rw [hsame] at hready
    rw [hkeeps.kind] at hkind
    obtain ⟨old, hold, hfirst⟩ := exists_kept_prepared hready hkind
    exact ⟨old, hold, hfirst.trans hkeeps⟩

/-- An enumeration has a type in the end, and all its members have that type. -/
theorem completed_of_enumInfo (given : Bool) (classes : List ClassDoc) {c : ClassDoc} {info : EnumInfo}
    (h : c.enumInfo = some info) :
    ∃ done type, (completed given classes c).enumInfo = some done ∧ done.type = some type ∧
      ∀ m ∈ (completed given classes c).members, m.type = some type := by
  have hinfo : (prepared given c).enumInfo = some info := (enumInfo_prepared given c).trans h
  have hvalues := Enumeration.complete_of_enumInfo (classes.map (prepared given)) hinfo
  have hdone : (completed given classes c).enumInfo =
      (Enumeration.complete (classes.map (prepared given)) (prepared given c)).1.enumInfo := rfl
  rw [hvalues] at hdone
  refine ⟨_, _, hdone, rfl, fun m hm => ?_⟩
  · obtain ⟨old, hold, hkeeps⟩ := exists_kept_completed hm
    rw [hvalues] at hold
    obtain ⟨value, -, rfl⟩ := List.mem_map.1 hold
    exact hkeeps.type

namespace InheritedDocs
open Registry

/-- The member from which the one at a place takes over its type: the end of its chain, if that has a
type.  But what comes from code alone, and only inherits because nothing documents it, keeps its type over
something else that comes from code and is not documented. -/
def typeSource? (r : Registry) (ref : MemberRef) (m : Member) : Option Member :=
  (r.endOf? ref).filter fun last =>
    last.type.isSome &&
      !(m.inferred.member && m.inheritdoc == some {} && last.inferred.member && last.doc.isEmpty)

theorem type_inherit (m : Member) (h : Inherited) :
    (m.inherit h).type =
      if m.inferred.member && !h.isExplicit && h.isPlaceholder then m.type
      else h.source.type <|> m.type := by
  unfold Member.inherit
  split
  · rfl
  · rfl

theorem type_outcome {r : Registry} {ref : MemberRef} {m : Member} (hm : r.member? ref = some m) :
    (outcome r ref m).type = ((typeSource? r ref m).getD m).type := by
  unfold typeSource?
  cases hend : r.endOf? ref with
  | none =>
    obtain ⟨isPrivate, houtcome⟩ := outcome_of_no_end hm hend
    rw [houtcome]
    rfl
  | some last =>
    obtain ⟨inheritdoc, hinheritdoc, houtcome⟩ := outcome_of_endOf? hm hend
    have hbare : (m.inheritdoc == some {}) = !(inheritdoc != {}) := by
      rw [hinheritdoc, bne, Bool.not_not]
      rfl
    rw [houtcome, Option.filter_some, hbare]
    refine (type_inherit m _).trans ?_
    dsimp only
    rw [Bool.and_assoc, Bool.and_assoc, Bool.and_assoc]
    cases m.inferred.member && (!(inheritdoc != {}) && (last.inferred.member && last.doc.isEmpty)) with
    | true => simp
    | false =>
      cases htype : last.type with
      | none => simp
      | some type => simp [htype]

theorem isSome_type_of_typeSource? {r : Registry} {ref : MemberRef} {m : Member}
    (h : m.type.isSome = true) : ((typeSource? r ref m).getD m).type.isSome = true := by
  cases hsource : typeSource? r ref m with
  | none => exact h
  | some last =>
    obtain ⟨-, htyped⟩ := Option.filter_eq_some_iff.1 hsource
    exact (Bool.and_eq_true_iff.1 htyped).1

/-- Inheriting makes nothing a config or property that was not one. -/
theorem isAttribute_of_outcome {r : Registry} {ref : MemberRef} {m : Member}
    (hm : r.member? ref = some m) (h : (outcome r ref m).kind.isAttribute = true) :
    m.kind.isAttribute = true := by
  have hidentity := congrArg (·.2.1) (identity_outcome hm)
  dsimp only [Member.identity] at hidentity
  rw [hidentity] at h
  split at h
  · next hbecomes =>
    rw [kind_of_becomesOption hbecomes]
    rfl
  · exact h

end InheritedDocs

namespace Grouping
open InheritedDocs Registry

/-- The entries of every file are those of one of the sources. -/
def ReadFrom (ns : Code.Namespaces) (sources : List SourceFile) (files : Files) : Prop :=
  ∀ f ∈ files, ∃ source ∈ sources, ∃ warnings, Entry.extract ns source = .ok (f.2, warnings)

/-- If a member is a config or property, it is what has become of one in a source. -/
def Sourced (ns : Code.Namespaces) (sources : List SourceFile) (m : Member) : Prop :=
  m.kind.isAttribute = true →
    ∃ source ∈ sources, ∃ d ∈ readings ns source, ∃ o, (d.Typed ns o ∨ d.Silent ns o) ∧ o.Keeps m

theorem Sourced.keeps {ns : Code.Namespaces} {sources : List SourceFile} {m m' : Member}
    (h : Sourced ns sources m) (hkeeps : m.Keeps m') : Sourced ns sources m' := by
  intro hkind
  obtain ⟨source, hsource, d, hd, o, ho, hfirst⟩ := h (hkeeps.kind ▸ hkind)
  exact ⟨source, hsource, d, hd, o, ho, hfirst.trans hkeeps⟩

theorem sourced_resolve {ns : Code.Namespaces} {sources : List SourceFile} {files : Files}
    (hread : ReadFrom ns sources files) :
    ∀ c ∈ (ofFiles files).resolve.1.1, ∀ m ∈ c.members, Sourced ns sources m := by
  refine forall_members_resolve (fun source m patch h => h.keeps (m.keeps_patchMember source patch))
    (fun source owner m h => h.keeps (m.keeps_newMember source owner)) fun f hf e he m hm hkind => ?_
  obtain ⟨source, hsource, warnings, hextract⟩ := hread f hf
  obtain ⟨d, hd, hmade⟩ := typed_or_silent_extract hextract he hm hkind
  exact ⟨source, hsource, d, hd, m, hmade, .refl m⟩

theorem readFrom_of_source {ns : Code.Namespaces} {source : SourceFile} {entries : List Entry}
    (h : (Entry.extract ns source).toOption.map Prod.fst = some entries) (filename : String) :
    ReadFrom ns [source] [(filename, entries)] := by
  intro f hf
  rw [List.mem_singleton.1 hf]
  refine ⟨source, List.mem_singleton_self source, ?_⟩
  cases hextract : Entry.extract ns source with
  | error e =>
    rw [hextract] at h
    exact absurd h (by simp [Except.toOption])
  | ok r =>
    rw [hextract] at h
    obtain rfl : r.1 = entries := Option.some.inj h
    exact ⟨r.2, rfl⟩

/-- A class that is an object with three keys, of which the last one is documented.  The values of the
last two show no type. -/
def boxSource : SourceFile :=
  { filename := "box.js", kind := .script
    docs :=
      [{ comment := "* @class Box", line := 1
         code := some (.assign "Box" (.object
          [⟨"width", .literal .number "5" "5", 10, 2, false, none⟩,
           ⟨"owner", .literal .null "null" "null", 20, 3, false, none⟩,
           ⟨"label", .literal .null "null" "null", 30, 5, true, none⟩] "")) },
       { comment := "* What it says.", line := 4
         code := some (.property ⟨"label", .literal .null "null" "null", 30, 5, true, none⟩) }] }

def boxFiles : Files :=
  [("box.js",
    [{ entity := .ofClass
        { name := "Box", files := [⟨"box.js", 1⟩]
          members :=
            [{ Member.ofName .property "width" with
               type := some "Number", default := some "5"
               inferred := { member := true, kind := true, type := true, default := true }
               inheritdoc := some {}, files := [⟨"box.js", 2⟩], line := 2 },
             { Member.ofName .property "owner" with
               default := some "null"
               inferred := { member := true, kind := true, default := true }
               inheritdoc := some {}, files := [⟨"box.js", 3⟩], line := 3 }] } },
     { entity := .ofMember
        { Member.ofName .property "label" with
          type := some "Object", default := some "null", doc := "What it says."
          inferred := { kind := true, name := true, default := true }
          files := [⟨"box.js", 4⟩], line := 4 } }])]

theorem readFrom_boxFiles : ReadFrom {} [boxSource] boxFiles := by
  have h : (Entry.extract {} boxSource).toOption.map Prod.fst =
      boxFiles.head?.map Prod.snd := by decide +kernel
  exact readFrom_of_source h "box.js"

theorem finish_boxFiles :
    ((ofFiles boxFiles).finish {}).1 = .ok (registryOf boxFiles none) := by
  rfl

/-- An enumeration of strings with a value that is documented as a number. -/
def colourSource : SourceFile :=
  { filename := "colour.js", kind := .script
    docs :=
      [{ comment := "* @enum \x7bString\x7d Colour", line := 1 },
       { comment := "* @type \x7bNumber\x7d", line := 5
         code := some (.property ⟨"red", .literal .string "f00" "'f00'", 10, 6, true, none⟩) }] }

def colourFiles : Files :=
  [("colour.js",
    [{ entity := .ofClass
        { name := "Colour", enumInfo := some { type := some "String" }, files := [⟨"colour.js", 1⟩] } },
     { entity := .ofMember
        { Member.ofName .property "red" with
          type := some "Number", default := some "'f00'"
          inferred := { name := true, default := true }
          files := [⟨"colour.js", 5⟩], line := 5 } }])]

theorem readFrom_colourFiles : ReadFrom {} [colourSource] colourFiles := by
  have h : (Entry.extract {} colourSource).toOption.map Prod.fst =
      colourFiles.head?.map Prod.snd := by decide +kernel
  exact readFrom_of_source h "colour.js"

/-- Two classes with a property that is documented as a number in the parent and as a string, with its
documentation inherited, in the child. -/
def sizeSource : SourceFile :=
  { filename := "size.js", kind := .script
    docs :=
      [{ comment := "* @class Base", line := 1 },
       { comment := "* @type \x7bNumber\x7d", line := 5
         code := some (.property ⟨"size", .literal .null "null" "null", 10, 6, true, none⟩) },
       { comment := "* @class Child\n* @extends Base", line := 9 },
       { comment := "* @type \x7bString\x7d\n* @inheritdoc", line := 13
         code := some (.property ⟨"size", .literal .null "null" "null", 20, 14, true, none⟩) }] }

/-- The property, with the reference to its documentation if it has one. -/
def sizeAt (line : Nat) (type : String) (inheritdoc : Option InheritRef) : Member :=
  { Member.ofName .property "size" with
    type := some type, default := some "null"
    inferred := { name := true, default := true }
    inheritdoc, files := [⟨"size.js", line⟩], line }

def sizeFiles : Files :=
  [("size.js",
    [{ entity := .ofClass { name := "Base", files := [⟨"size.js", 1⟩] } },
     { entity := .ofMember (sizeAt 5 "Number" none) },
     { entity := .ofClass { name := "Child", parent := some "Base", files := [⟨"size.js", 9⟩] } },
     { entity := .ofMember (sizeAt 13 "String" (some {})) }])]

theorem readFrom_sizeFiles : ReadFrom {} [sizeSource] sizeFiles := by
  have h : (Entry.extract {} sizeSource).toOption.map Prod.fst =
      sizeFiles.head?.map Prod.snd := by decide +kernel
  exact readFrom_of_source h "size.js"

end Grouping
end ApiDoc
