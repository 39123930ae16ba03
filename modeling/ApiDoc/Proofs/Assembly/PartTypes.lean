/-
The types of everything below a member: parameters, subproperties, return values and exceptions.

Completing the classes ends with filling in the types that are missing, at every depth.  After that
documentation is inherited, and then a member takes parameters and a return value over as a whole, from
a member in which they are filled in as well.  So no type is missing in the end (`types_of_parts`).
-/
import ApiDoc.Proofs.Assembly.Outline
import ApiDoc.Proofs.InheritedDocs.Chain

namespace ApiDoc

/-- The parameter is one of a list, or stands at any depth below one of them. -/
inductive Param.Within (p : Param) : List Param → Prop
  | here {ps : List Param} (h : p ∈ ps) : Within p ps
  | deeper {ps : List Param} {parent : Param} (hparent : parent ∈ ps)
      (h : Within p parent.properties) : Within p ps

/-- All parameters of a list have types, and so has everything below them. -/
def FilledParams (ps : List Param) : Prop := ∀ p : Param, p.Within ps → p.type.isSome = true

/-- The value has a type, and so has everything below it. -/
structure ReturnDoc.Filled (r : ReturnDoc) : Prop where
  type : r.type.isSome = true
  properties : FilledParams r.properties

/-- Nothing below the member lacks a type. -/
structure Member.Filled (m : Member) : Prop where
  params : FilledParams m.params
  properties : FilledParams m.properties
  returns : ∀ r ∈ m.returns, r.Filled
  throws : ∀ t ∈ m.throws, t.type ≠ ""

theorem withTypesAll_eq_map (ps : List Param) : withTypesAll ps = ps.map Param.withTypes := by
  induction ps with
  | nil => rfl
  | cons p ps ih => rw [withTypesAll, ih, List.map_cons]

theorem Param.isSome_type_withTypes (p : Param) : p.withTypes.type.isSome = true := by
  obtain ⟨name, type, doc, isOptional, default, properties, isEventOptions⟩ := p
  cases type with
  | none => rfl
  | some type => rfl

theorem Param.properties_withTypes (p : Param) :
    p.withTypes.properties = withTypesAll p.properties := by
  obtain ⟨name, type, doc, isOptional, default, properties, isEventOptions⟩ := p
  rw [withTypes]

/-- The induction is on the way down to the parameter, which the tree keeps when it is filled in. -/
theorem filledParams_withTypesAll (ps : List Param) : FilledParams (withTypesAll ps) := by
  intro p hp
  generalize hfilled : withTypesAll ps = filled at hp
  induction hp generalizing ps with
  | here h =>
    rw [← hfilled, withTypesAll_eq_map] at h
    obtain ⟨old, -, rfl⟩ := List.mem_map.1 h
    exact old.isSome_type_withTypes
  | deeper hparent _ ih =>
    rw [← hfilled, withTypesAll_eq_map] at hparent
    obtain ⟨old, -, rfl⟩ := List.mem_map.1 hparent
    exact ih old.properties old.properties_withTypes.symm

theorem ReturnDoc.filled_withTypes (r : ReturnDoc) : r.withTypes.Filled := by
  refine ⟨?_, filledParams_withTypesAll r.properties⟩
  show (r.type <|> some defaultType).isSome = true
  cases r.type with
  | none => rfl
  | some type => rfl

theorem ThrownDoc.type_withType_ne (t : ThrownDoc) : t.withType.type ≠ "" := by
  unfold withType
  split
  · exact (by decide : defaultType ≠ "")
  · next h => simpa using h

theorem Member.filled_withTypes (m : Member) : m.withTypes.Filled := by
  refine ⟨filledParams_withTypesAll m.params, filledParams_withTypesAll m.properties,
    fun r hr => ?_, fun t ht => ?_⟩
  · obtain ⟨old, -, rfl⟩ := Option.map_eq_some_iff.1 hr
    exact old.filled_withTypes
  · obtain ⟨old, -, rfl⟩ := List.mem_map.1 ht
    exact old.type_withType_ne

theorem filled_completeMembers (options : AssemblyOptions) (classes : List ClassDoc) :
    ∀ c ∈ (completeMembers options classes).1, ∀ m ∈ c.members, m.Filled := by
  intro c hc m hm
  rw [completeMembers_eq] at hc
  obtain ⟨old, -, rfl⟩ := List.mem_map.1 hc
  obtain ⟨fired, -, rfl⟩ := List.mem_map.1 hm
  exact fired.filled_withTypes

/-- Parameters and a return value are taken over with everything below them. -/
theorem Member.Filled.inherit {m : Member} (hm : m.Filled) {h : Inherited} (hsource : h.source.Filled) :
    (m.inherit h).Filled := by
  have hdoc : (m.inheritDoc h).Filled := by
    refine ⟨?_, hm.properties, fun r hr => ?_, hm.throws⟩
    · show FilledParams (if _ then h.source.params else m.params)
      split
      · exact hsource.params
      · exact hm.params
    · change (m.returns <|> h.source.returns) = some r at hr
      rw [Option.orElse_eq_orElse, Option.orElse_eq_or, Option.or_eq_some_iff] at hr
      rcases hr with hown | ⟨-, htaken⟩
      · exact hm.returns r hown
      · exact hsource.returns r htaken
  unfold Member.inherit
  split
  · exact ⟨hdoc.params, hdoc.properties, hdoc.returns, hdoc.throws⟩
  · exact hdoc

namespace InheritedDocs
open Registry

theorem filled_outcome {r : Registry} (hall : ∀ ref m, r.member? ref = some m → m.Filled)
    {ref : MemberRef} {m : Member} (hm : r.member? ref = some m) : (outcome r ref m).Filled := by
  have hown := hall ref m hm
  cases hend : r.endOf? ref with
  | none =>
    obtain ⟨isPrivate, houtcome⟩ := outcome_of_no_end hm hend
    rw [houtcome]
    exact ⟨hown.params, hown.properties, hown.returns, hown.throws⟩
  | some last =>
    obtain ⟨inheritdoc, -, houtcome⟩ := outcome_of_endOf? hm hend
    obtain ⟨start, -, hlast⟩ := Option.bind_eq_some_iff.1 hend
    have hdone := hown.inherit (h := ⟨last, last.inferred.member && last.doc.isEmpty, inheritdoc != {}⟩)
      (hall _ last hlast)
    rw [houtcome]
    exact ⟨hdone.params, hdone.properties, hdone.returns, hdone.throws⟩

end InheritedDocs

namespace Grouping
open InheritedDocs Registry

/-- In a finished registry no type is missing below a member: not of a parameter, of a subproperty at any
depth, of a return value or of an exception. -/
theorem types_of_parts {files : Files} {options : AssemblyOptions} {r : Registry}
    (h : ((ofFiles files).finish options).1 = .ok r) : ∀ c ∈ r.classes, ∀ m ∈ c.members, m.Filled := by
  rw [finish_fst] at h
  obtain ⟨made, hmade, rfl⟩ := completeInheritance_eq_ok h
  have hall : ∀ ref m, made.member? ref = some m → m.Filled := by
    intro ref m hm
    obtain ⟨c, hc, hmember⟩ := Option.bind_eq_some_iff.1 hm
    have hcompleted := List.mem_of_getElem? hc
    rw [classes_of_build hmade] at hcompleted
    exact filled_completeMembers _ _ c hcompleted m (List.mem_of_getElem? hmember)
  intro c hc m hm
  obtain ⟨i, hi⟩ := List.getElem?_of_mem hc
  obtain ⟨k, hk⟩ := List.getElem?_of_mem hm
  have hplace : made.inheritDocs.1.member? ⟨i, k⟩ = some m := by
    rw [member?, classAt?, hi]
    exact hk
  have hdone := member?_inheritDocs (reliable_of_build hmade) [] ⟨i, k⟩
  rw [List.foldl_nil, hplace] at hdone
  obtain ⟨before, hbefore, rfl⟩ := Option.map_eq_some_iff.1 hdone.symm
  exact filled_outcome hall hbefore

/-- A method with an option object of which nothing has a type, and one in a subclass that inherits its
documentation. -/
def stackFiles : Files :=
  [("stack.js",
    [{ entity := .ofClass { name := "Stack" } },
     { entity := .ofMember
        { Member.ofName .method "push" with
          params := [{ name := some "options", properties :=
            [{ name := some "item", properties := [{ name := some "key" }] }] }]
          returns := some { properties := [{ name := some "size" }] }
          throws := [⟨"", "If it is full."⟩]
          doc := "Puts something on top." } },
     { entity := .ofClass { name := "Pile", parent := some "Stack" } },
     { entity := .ofMember { Member.ofName .method "push" with inheritdoc := some {} } }])]

def stackRegistry : Registry :=
  match ((ofFiles stackFiles).finish {}).1 with
  | .ok r => r
  | .error _ => {}

theorem finish_stackFiles : ((ofFiles stackFiles).finish {}).1 = .ok stackRegistry := by rfl

/-- The method of the subclass has one parameter and a return value in the end. -/
theorem types_of_inherited_push :
    ((ofFiles stackFiles).finish {}).1 = .ok stackRegistry ∧
      ((stackRegistry.member? ⟨1, 0⟩).map fun m => (m.params.length, m.returns.isSome)) =
        some (1, true) ∧
      ∀ c ∈ stackRegistry.classes, ∀ m ∈ c.members, m.Filled := by
  refine ⟨finish_stackFiles, ?_, types_of_parts finish_stackFiles⟩
  obtain ⟨made, hmade, hregistry⟩ := completeInheritance_eq_ok finish_stackFiles
  rw [completeMembers_of_idle (by decide)] at hmade
  obtain ⟨-, rfl⟩ := build_eq_ok_iff.1 hmade
  rw [hregistry]
  decide

end Grouping
end ApiDoc
