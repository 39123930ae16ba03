/-
Sources document no options objects of events.

The parameters that tags and code give to members are never marked as the object that every event
receives, whatever they are called: that mark is left to the completion of classes.  So no member of an
entry that is read from a source has a parameter with the mark (`unmarked_extract`).
-/
import ApiDoc.Proofs.Entry.Readings

namespace ApiDoc

/-- None of the parameters is marked as the options object of events. -/
def Unmarked (ps : List Param) : Prop := ∀ p ∈ ps, p.isEventOptions = false

@[simp] theorem unmarked_nil : Unmarked [] := fun _ hp => absurd hp List.not_mem_nil

theorem unmarked_map {α : Type} {f : α → Param} (hf : ∀ x, (f x).isEventOptions = false)
    (xs : List α) : Unmarked (xs.map f) := by
  intro p hp
  obtain ⟨x, -, rfl⟩ := List.mem_map.1 hp
  exact hf x

namespace Member

def Unmarked (m : Member) : Prop := ApiDoc.Unmarked m.params

theorem unmarked_ofName (kind : EntityKind) (name : String) : (ofName kind name).Unmarked :=
  unmarked_nil

end Member

namespace Nesting

/-- Moving parts under an item leaves the mark of the item as it is. -/
theorem isEventOptions_tree (items : List Item) (i : Item) :
    (tree items i).isEventOptions = i.1.isEventOptions := by
  rw [tree]

end Nesting

theorem unmarked_nest {ps : List Param} (h : Unmarked ps) : Unmarked (nest ps).items := by
  intro p hp
  obtain ⟨i, hi, rfl⟩ := List.mem_map.1 hp
  rw [Nesting.isEventOptions_tree]
  exact h i.1 (List.fst_mem_of_mem_zipIdx (List.mem_filter.1 hi).1)

namespace Comment

theorem params_withValueFields (r : DocRecord) (tags : List Tag) (kind : TagKind) (file : FileRef) :
    (withValueFields r tags kind file).1.params = r.params := by
  unfold withValueFields
  dsimp only
  split
  · rfl
  · rfl

theorem params_withKindFields (r : DocRecord) (tags : List Tag) (file : FileRef) :
    (withKindFields r tags file).1.params = r.params := by
  unfold withKindFields
  split
  · rfl
  · rfl
  · rfl
  · rfl
  · exact params_withValueFields r tags _ file
  · exact params_withValueFields r tags _ file
  · exact params_withValueFields r tags _ file

theorem unmarked_interpret (tags : List Tag) (detected : Detected) (file : FileRef) :
    Unmarked (interpret tags detected file).1.params := by
  show Unmarked (withKindFields _ tags file).1.params
  rw [params_withKindFields]
  exact unmarked_nest (unmarked_map (fun _ => rfl) _)

end Comment

namespace Code

/-- Neither the code itself nor the members that it makes have marked parameters. -/
structure CodeRecord.Unmarked (r : CodeRecord) : Prop where
  params : ApiDoc.Unmarked r.params
  members : ∀ m ∈ r.members, m.Unmarked

namespace CodeRecord

/-- Code that says nothing about parameters and members. -/
theorem unmarked_of_nil {r : CodeRecord} (hparams : r.params = []) (hmembers : r.members = []) :
    r.Unmarked := by
  refine ⟨?_, fun m hm => ?_⟩
  · rw [hparams]
    exact unmarked_nil
  · rw [hmembers] at hm
    exact absurd hm List.not_mem_nil

theorem Unmarked.congr {r r' : CodeRecord} (h : r.Unmarked) (hparams : r'.params = r.params)
    (hmembers : r'.members = r.members) : r'.Unmarked := by
  refine ⟨?_, fun m hm => h.members m (hmembers ▸ hm)⟩
  rw [hparams]
  exact h.params

theorem Unmarked.append {r : CodeRecord} (h : r.Unmarked) {ms : List Member}
    (hms : ∀ m ∈ ms, m.Unmarked) (hints : SectionHints) :
    ({ r with members := r.members ++ ms, hints } : CodeRecord).Unmarked :=
  ⟨h.params, fun m hm => (List.mem_append.1 hm).elim (h.members m) (hms m)⟩

end CodeRecord

theorem unmarked_named (kind : EntityKind) (name : Option String) :
    (CodeRecord.named kind name).Unmarked := CodeRecord.unmarked_of_nil rfl rfl

theorem unmarked_valueRecord (name : Option String) (value : Node) :
    (valueRecord name value).Unmarked := CodeRecord.unmarked_of_nil rfl rfl

theorem unmarked_methodRecord (name : Option String) (params : List String) (body : List Node) :
    (methodRecord name params body).Unmarked :=
  ⟨unmarked_map (fun _ => rfl) params, fun _ hm => absurd hm List.not_mem_nil⟩

theorem unmarked_inferredRecord (ns : Namespaces) (p : Property) :
    (inferredRecord ns p).Unmarked := by
  unfold inferredRecord
  split
  · exact unmarked_methodRecord _ _ _
  · split
    · exact unmarked_named _ _
    · exact unmarked_valueRecord _ _
  · split
    · exact unmarked_named _ _
    · exact unmarked_valueRecord _ _
  · split
    · exact unmarked_named _ _
    · exact unmarked_valueRecord _ _

theorem unmarked_memberOf (ns : Namespaces) (p : Property) : (memberOf ns p).Unmarked := by
  unfold memberOf inferredMember
  dsimp only
  split
  · exact (unmarked_inferredRecord ns p).params
  · exact unmarked_nil

theorem unmarked_membersOf (ns : Namespaces) (properties : List Property) :
    ∀ m ∈ membersOf ns properties, m.Unmarked := by
  intro m hm
  obtain ⟨p, -, rfl⟩ := List.mem_map.1 hm
  exact unmarked_memberOf ns p

theorem unmarked_elementMembers (elements : List Node) (comments : List (Option String)) :
    ∀ m ∈ elementMembers elements comments, m.Unmarked := by
  intro m hm
  obtain ⟨e, -, he⟩ := List.mem_filterMap.1 hm
  obtain ⟨name, -, rfl⟩ := Option.map_eq_some_iff.1 he
  exact Member.unmarked_ofName .property name

namespace Section

theorem unmarked_place (s : Section) {m : Member} (h : m.Unmarked) : (s.place m).Unmarked := by
  unfold place
  split
  · exact unmarked_nil
  · exact h

theorem unmarked_placeRecord (s : Section) {r : CodeRecord} (h : r.Unmarked) :
    (s.placeRecord r).Unmarked := by
  unfold placeRecord
  split
  · exact ⟨unmarked_nil, h.members⟩
  · exact h.congr rfl rfl

end Section

/-- The sections and the other properties of a class body add members; its keys that are known say
nothing about parameters. -/
theorem unmarked_addProperty (ns : Namespaces) {r : CodeRecord} (h : r.Unmarked) (p : Property) :
    (addProperty ns r p).Unmarked := by
  unfold addProperty
  split
  iterate 9 exact h.congr rfl rfl
  split
  · next s properties _ _ =>
    refine h.append (fun m hm => ?_) _
    obtain ⟨old, hold, rfl⟩ := List.mem_map.1 hm
    exact s.unmarked_place (unmarked_membersOf ns properties old hold)
  · split
    · exact h
    · exact h.append (fun m hm => List.mem_singleton.1 hm ▸ unmarked_memberOf ns p) r.hints

theorem unmarked_definedClass (ns : Namespaces) (name : Option String)
    (body : Option (List Property)) : (definedClass ns name body).Unmarked := by
  have hstart : ({ CodeRecord.named .classDef name with isDefined := true } : CodeRecord).Unmarked :=
    CodeRecord.unmarked_of_nil rfl rfl
  have hclass := List.foldlRecOn (motive := CodeRecord.Unmarked) (body.getD []) (addProperty ns) hstart
    fun _ h p _ => unmarked_addProperty ns h p
  unfold definedClass withBaseClass
  split
  · exact hclass.congr rfl rfl
  · exact hclass

theorem unmarked_overridingClass (ns : Namespaces) (target : Option String)
    (body : Option (List Property)) : (overridingClass ns target body).Unmarked :=
  ⟨unmarked_nil, unmarked_membersOf ns _⟩

theorem unmarked_describedProperty (args : List Node) : (describedProperty args).Unmarked := by
  unfold describedProperty
  split
  · exact unmarked_valueRecord _ _
  · exact unmarked_named _ _

theorem unmarked_callRecord (ns : Namespaces) (callee : Node) (args : List Node) :
    (callRecord ns callee args).Unmarked := by
  unfold callRecord
  dsimp only
  split
  · exact unmarked_definedClass _ _ _
  · split
    · exact CodeRecord.unmarked_of_nil rfl rfl
    · split
      · exact unmarked_overridingClass _ _ _
      · split
        · exact unmarked_overridingClass _ _ _
        · split
          · exact unmarked_describedProperty args
          · split
            · exact unmarked_named _ _
            · exact CodeRecord.unmarked_of_nil rfl rfl

theorem unmarked_namedValue (ns : Namespaces) (name : String) (value : Node) :
    (namedValue ns name value).Unmarked := by
  unfold namedValue
  dsimp only
  split
  · exact ⟨unmarked_nil, unmarked_membersOf ns _⟩
  · exact ⟨unmarked_nil, unmarked_elementMembers _ _⟩
  · exact unmarked_valueRecord _ _

theorem unmarked_assignedRecord (ns : Namespaces) (name : String) (value : Node) :
    (assignedRecord ns name value).Unmarked := by
  unfold assignedRecord
  split
  · split
    · exact CodeRecord.unmarked_of_nil rfl rfl
    · exact unmarked_methodRecord _ _ _
  · split
    · exact ⟨unmarked_nil, unmarked_membersOf ns _⟩
    · split
      · exact unmarked_callRecord ns _ _
      · exact unmarked_namedValue ns name _
  · split
    · exact ⟨unmarked_nil, unmarked_membersOf ns _⟩
    · exact unmarked_namedValue ns name _
  · split
    · exact unmarked_named _ _
    · exact unmarked_namedValue ns name _

theorem unmarked_propertyRecord (ns : Namespaces) (hints : SectionHints) (p : Property) :
    (propertyRecord ns hints p).Unmarked := by
  unfold propertyRecord
  dsimp only
  split
  · next s _ => exact s.unmarked_placeRecord (unmarked_assignedRecord ns p.key p.value)
  · exact unmarked_assignedRecord ns p.key p.value

theorem isEventOptions_styleParam (p : String × Option String) :
    (styleParam p).isEventOptions = false := by
  unfold styleParam
  split
  · rfl
  · rfl

theorem unmarked_classify (ns : Namespaces) (hints : SectionHints) (code : Option Node) :
    (classify ns hints code).Unmarked := by
  unfold classify
  split
  · exact CodeRecord.unmarked_of_nil rfl rfl
  · split
    · exact unmarked_assignedRecord ns _ _
    · exact unmarked_methodRecord _ _ _
    · exact unmarked_assignedRecord ns _ _
    · exact unmarked_named _ _
    · exact unmarked_assignedRecord ns _ _
    · exact unmarked_propertyRecord ns hints _
    · exact unmarked_callRecord ns _ _
    · exact unmarked_named _ _
    · exact unmarked_named _ _
    · exact unmarked_named _ _
    · exact CodeRecord.unmarked_of_nil rfl rfl
    · exact ⟨unmarked_map isEventOptions_styleParam _, fun _ hm => absurd hm List.not_mem_nil⟩
    · exact CodeRecord.unmarked_of_nil rfl rfl

end Code

namespace Entry

open Code

theorem unmarked_relevantCode (doc : DocRecord) {code : CodeRecord} (h : code.Unmarked) :
    (relevantCode doc code).Unmarked := by
  unfold relevantCode
  split
  · exact h
  · exact CodeRecord.unmarked_of_nil rfl rfl

/-- The parameters of a member are those of the comment, or else those of the code. -/
theorem unmarked_mergeMember {doc : DocRecord} (hdoc : Unmarked doc.params) {code : CodeRecord}
    (hcode : code.Unmarked) (file : FileRef) : (mergeMember doc code file).Unmarked := by
  show Unmarked (paramsOf doc (relevantCode doc code)).1
  unfold paramsOf
  split
  · exact hdoc
  · split
    · exact (unmarked_relevantCode doc hcode).params
    · exact unmarked_nil

/-- No member of an entry of a source has a parameter with the mark. -/
theorem unmarked_extract {ns : Namespaces} {file : SourceFile} {entries : List Entry}
    {warnings : List Warning} (h : extract ns file = .ok (entries, warnings)) :
    ∀ e ∈ entries, ∀ m ∈ e.members, m.Unmarked := by
  intro e he m hm
  obtain ⟨d, -, ⟨hints, hcode⟩, hbrings⟩ := exists_reading_of_extract h he hm
  have hclassified : d.code.Unmarked := hcode ▸ unmarked_classify ns hints d.node
  cases hbrings with
  | whole => exact unmarked_mergeMember (Comment.unmarked_interpret _ _ _) hclassified d.file
  | part hdoc =>
    obtain ⟨g, -, rfl⟩ := List.mem_map.1 hdoc
    exact unmarked_mergeMember (Comment.unmarked_interpret _ _ _) (CodeRecord.unmarked_of_nil rfl rfl) d.file
  | @found old hold => exact hclassified.members old hold

end Entry
end ApiDoc
