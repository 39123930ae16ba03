/-
What the passes that complete classes do.

A pass changes a few fields of the members of a class, or it adds members of a few forms.  What is shown
about the passes in other places rests on these lemmas, so none of the passes is opened again there.
-/
import ApiDoc.Assembly
import ApiDoc.Proofs.Completion.Accessors

namespace ApiDoc

namespace Member

theorem withReturn_frame (className : String) (m : Member) :
    ∃ returns isChainable, m.withReturn className = { m with returns, isChainable } := by
  unfold withReturn withChaining
  split
  · split
    · exact ⟨_, _, rfl⟩
    · split
      · split
        · exact ⟨_, m.isChainable, rfl⟩
        · exact ⟨m.returns, m.isChainable, rfl⟩
      · exact ⟨m.returns, _, rfl⟩
  · exact ⟨m.returns, m.isChainable, rfl⟩

theorem withEventOptions_frame (m : Member) : ∃ params, m.withEventOptions = { m with params } := by
  unfold withEventOptions
  split
  · exact ⟨_, rfl⟩
  · exact ⟨m.params, rfl⟩

theorem withFires_frame (methods : List Member) (m : Member) :
    ∃ fires isInferred, m.withFires methods =
      { m with fires, inferred := { m.inferred with fires := isInferred } } := by
  unfold withFires
  split
  · dsimp only
    split
    · exact ⟨m.fires, m.inferred.fires, rfl⟩
    · exact ⟨_, true, rfl⟩
  · exact ⟨m.fires, m.inferred.fires, rfl⟩

/-- The search for events does not unfold by itself, so this is the case to evaluate by. -/
theorem withFires_of_idle (methods : List Member) {m : Member} (h : m.body = {}) :
    m.withFires methods = m := by
  unfold withFires
  split
  · next hcond =>
    have hexplicit : m.hasExplicitFires = false := by
      simpa using (Bool.and_eq_true_iff.1 hcond).2
    have hown : Fires.ownEvents m = [] := by
      rw [Fires.ownEvents, hexplicit, h]
      rfl
    have hcalls : Fires.nextCalls m = [] := by
      rw [Fires.nextCalls, hexplicit, h]
      rfl
    have hnone : Fires.eventsOf methods m = [] := by
      rw [Fires.eventsOf, hown, hcalls, Fires.eventsOfCalls]
      rfl
    rw [hnone]
    rfl
  · rfl

end Member

theorem ClassDoc.withFires_of_idle {c : ClassDoc} (h : ∀ m ∈ c.members, m.body = {}) :
    c.withFires = c := by
  have hmembers : c.members.map (Member.withFires (c.members.filter (·.kind == .method))) =
      c.members := by
    rw [List.map_congr_left fun m hm => m.withFires_of_idle _ (h m hm), List.map_id']
  rw [ClassDoc.withFires, hmembers]

namespace Enumeration

theorem complete_of_plain (classes : List ClassDoc) {c : ClassDoc} (h : c.enumInfo = none) :
    (complete classes c).1 = c := by
  rw [complete, h]

theorem complete_of_enumInfo (classes : List ClassDoc) {c : ClassDoc} {info : EnumInfo}
    (h : c.enumInfo = some info) :
    (complete classes c).1 =
      normalize c info ((info.pattern.map (aliasMembers c.name classes)).getD []) := by
  rw [complete, h]

theorem complete_frame (classes : List ClassDoc) (c : ClassDoc) :
    ∃ parent members enumInfo, (complete classes c).1 = { c with parent, members, enumInfo } := by
  cases hinfo : c.enumInfo with
  | none =>
    rw [complete_of_plain classes hinfo]
    exact ⟨c.parent, c.members, c.enumInfo, rfl⟩
  | some info =>
    rw [complete_of_enumInfo classes hinfo]
    exact ⟨none, _, _, rfl⟩

/-- A pattern asks for values for the aliases of classes. -/
theorem exists_aliasMember {owner : String} {classes : List ClassDoc} {info : EnumInfo} {m : Member}
    (h : m ∈ (info.pattern.map (aliasMembers owner classes)).getD []) :
    ∃ c ∈ classes, ∃ value, m = aliasMember owner c value := by
  cases hp : info.pattern with
  | none =>
    rw [hp] at h
    exact absurd h List.not_mem_nil
  | some pattern =>
    rw [hp] at h
    obtain ⟨c, hc, h⟩ := List.mem_flatMap.1 h
    obtain ⟨name, -, h⟩ := List.mem_filterMap.1 h
    obtain ⟨rest, -, rfl⟩ := Option.map_eq_some_iff.1 h
    exact ⟨c, hc, String.ofList rest, rfl⟩

/-- The values of an enumeration are its members, but for events, and those that its pattern asks for. -/
theorem exists_value {classes : List ClassDoc} {c : ClassDoc} {info : EnumInfo}
    (hinfo : c.enumInfo = some info) {m : Member} (hm : m ∈ (complete classes c).1.members) :
    ∃ type value, m = asValue type value ∧
      (value ∈ c.members ∧ value.kind ≠ .event ∨
        ∃ d ∈ classes, ∃ text, value = aliasMember c.name d text) := by
  rw [complete_of_enumInfo classes hinfo] at hm
  obtain ⟨value, hvalue, rfl⟩ := List.mem_map.1 hm
  obtain ⟨hmem, hkind⟩ := List.mem_filter.1 hvalue
  refine ⟨_, value, rfl, ?_⟩
  rcases List.mem_append.1 hmem with hold | hfound
  · exact Or.inl ⟨hold, bne_iff_ne.1 hkind⟩
  · exact Or.inr (exists_aliasMember hfound)

end Enumeration
end ApiDoc
