/-
What completing classes leaves as it is.

Classes keep their names, their files and their order, and members keep their names and files, up to
the finished registry.  Members are added for options and for the aliases that an enumeration lists, and
an enumeration gives up its events; all else changes what members say, not where they are from
(`completes_finish`).
-/
import ApiDoc.Proofs.Assembly.Absorption
import ApiDoc.Proofs.Assembly.Ownership
import ApiDoc.Proofs.Registry.Refresh

namespace ApiDoc

namespace Member

/-- What a member is called and where it is from. -/
def source (m : Member) : String × List FileRef := (m.name, m.files)

def sourceAndKind (m : Member) : (String × List FileRef) × EntityKind := (m.source, m.kind)

end Member

namespace ClassDoc

/-- What of a class is kept, `key` being what is kept of its members. -/
def outline {κ : Type} (key : Member → κ) (c : ClassDoc) :
    String × List String × Bool × List FileRef × List κ :=
  (c.name, c.alternateNames, c.enumInfo.isSome, c.files, c.members.map key)

section
variable {κ : Type} {key : Member → κ} {c c' : ClassDoc}

theorem outline_map {f : ClassDoc → Member → Member} (hf : ∀ c m, key (f c m) = key m)
    (c : ClassDoc) :
    outline key { c with members := c.members.map (f c) } = c.outline key := by
  have hmembers : (c.members.map (f c)).map key = c.members.map key := by
    rw [List.map_map]
    exact List.map_congr_left fun m _ => hf c m
  rw [outline, hmembers]
  rfl

theorem members_of_outline (h : c'.outline key = c.outline key) {m : Member} (hm : m ∈ c.members) :
    ∃ m' ∈ c'.members, key m' = key m := by
  have hmembers : c'.members.map key = c.members.map key := congrArg (·.2.2.2.2) h
  rw [← List.mem_map, hmembers]
  exact List.mem_map_of_mem hm

end

theorem outline_claimMembers (c : ClassDoc) :
    c.claimMembers.outline Member.sourceAndKind = c.outline Member.sourceAndKind :=
  outline_map (f := fun c m => { m with owner := c.name }) (fun _ _ => rfl) c

theorem outline_withReturns (c : ClassDoc) :
    c.withReturns.outline Member.sourceAndKind = c.outline Member.sourceAndKind := by
  refine outline_map (f := fun c => Member.withReturn c.name) (fun c m => ?_) c
  obtain ⟨_, _, hframe⟩ := m.withReturn_frame c.name
  rw [hframe]
  rfl

theorem outline_withEventOptions (c : ClassDoc) :
    c.withEventOptions.outline Member.sourceAndKind = c.outline Member.sourceAndKind := by
  refine outline_map (f := fun _ => Member.withEventOptions) (fun _ m => ?_) c
  obtain ⟨_, hframe⟩ := m.withEventOptions_frame
  rw [hframe]
  rfl

theorem outline_withFires (c : ClassDoc) :
    c.withFires.outline Member.source = c.outline Member.source := by
  refine outline_map
    (f := fun c => Member.withFires (c.members.filter (·.kind == .method))) (fun c m => ?_) c
  obtain ⟨_, _, hframe⟩ := m.withFires_frame (c.members.filter (·.kind == .method))
  rw [hframe]
  rfl

theorem outline_withTypes (c : ClassDoc) :
    c.withTypes.outline Member.source = c.outline Member.source :=
  outline_map (f := fun _ => Member.withTypes) (fun _ _ => rfl) c

theorem outline_refreshClass (c : ClassDoc) :
    (Registry.refreshClass c).outline Member.source = c.outline Member.source :=
  outline_map (f := fun _ => Member.refreshId) (fun _ _ => rfl) c

end ClassDoc

open ClassDoc

/-- The accessors of options are from where the options are. -/
theorem marked_withAccessors {c : ClassDoc} {mark : FileRef} (h : c.withAccessors.Marked mark) :
    c.Marked mark := by
  obtain ⟨m, hm, hmark⟩ := h
  rcases mem_withAccessors hm with hold | ⟨option, hoption, hderived⟩
  · exact ⟨m, hold, hmark⟩
  · rw [hderived.files] at hmark
    exact ⟨option, hoption, hmark⟩

theorem marked_of_outline {κ : Type} {key : Member → κ} (files : κ → List FileRef)
    (hfiles : ∀ m, files (key m) = m.files) {c c' : ClassDoc} (h : c'.outline key = c.outline key)
    {mark : FileRef} (hmarked : c'.Marked mark) : c.Marked mark := by
  obtain ⟨m, hm, hmark⟩ := hmarked
  obtain ⟨m', hm', hkey⟩ := members_of_outline h.symm hm
  refine ⟨m', hm', ?_⟩
  rw [← hfiles, hkey, hfiles]
  exact hmark

/-- What a class has become in the end.  Members are where they were and called what they were called,
but an enumeration has no events; and a new member comes from where a member of the class or one of
the classes is from. -/
structure Completes (classes : List ClassDoc) (c done : ClassDoc) : Prop where
  name : done.name = c.name
  alternateNames : done.alternateNames = c.alternateNames
  isEnumeration : done.enumInfo.isSome = c.enumInfo.isSome
  members : ∀ m ∈ c.members, (c.enumInfo.isSome → m.kind ≠ .event) →
    ∃ m' ∈ done.members, m'.source = m.source
  marked : ∀ mark, done.Marked mark → c.Marked mark ∨ ∃ d ∈ classes, mark ∈ d.files

theorem Completes.congr {classes : List ClassDoc} {c done done' : ClassDoc}
    (h : Completes classes c done)
    (hsame : done'.outline Member.source = done.outline Member.source) :
    Completes classes c done' := by
  have hname : done'.name = done.name := congrArg (·.1) hsame
  have halternates : done'.alternateNames = done.alternateNames := congrArg (·.2.1) hsame
  have henum : done'.enumInfo.isSome = done.enumInfo.isSome := congrArg (·.2.2.1) hsame
  refine ⟨hname.trans h.name, halternates.trans h.alternateNames, henum.trans h.isEnumeration,
    fun m hm hkind => ?_, fun mark hmark => ?_⟩
  · obtain ⟨m', hm', hsource⟩ := h.members m hm hkind
    obtain ⟨m'', hm'', hsource'⟩ := members_of_outline hsame hm'
    exact ⟨m'', hm'', hsource'.trans hsource⟩
  · exact h.marked mark (marked_of_outline Prod.snd (fun _ => rfl) hsame hmark)

theorem completes_complete (classes : List ClassDoc) (c : ClassDoc) :
    Completes classes c (Enumeration.complete classes c).1 := by
  cases hinfo : c.enumInfo with
  | none =>
    rw [Enumeration.complete_of_plain classes hinfo]
    exact ⟨rfl, rfl, rfl, fun m hm _ => ⟨m, hm, rfl⟩, fun mark hmark => Or.inl hmark⟩
  | some info =>
    have hdone := Enumeration.complete_of_enumInfo classes hinfo
    refine ⟨by rw [hdone]; rfl, by rw [hdone]; rfl, by rw [hdone, hinfo]; rfl, fun m hm hkind => ?_,
      fun mark hmark => ?_⟩
    · rw [hdone]
      refine ⟨_, List.mem_map_of_mem (List.mem_filter.2 ⟨List.mem_append_left _ hm, ?_⟩), rfl⟩
      exact bne_iff_ne.2 (hkind (by rw [hinfo]; rfl))
    · obtain ⟨m, hm, hmark⟩ := hmark
      obtain ⟨_, value, rfl, ⟨hold, -⟩ | ⟨d, hd, text, rfl⟩⟩ := Enumeration.exists_value hinfo hm
      · exact Or.inl ⟨value, hold, hmark⟩
      · exact Or.inr ⟨d, hd, hmark⟩

/-- What a class has become when its own members are complete. -/
structure Prepares (c ready : ClassDoc) : Prop where
  name : ready.name = c.name
  alternateNames : ready.alternateNames = c.alternateNames
  isEnumeration : ready.enumInfo.isSome = c.enumInfo.isSome
  files : ready.files = c.files
  members : ∀ m ∈ c.members, ∃ m' ∈ ready.members, m'.sourceAndKind = m.sourceAndKind
  marked : ∀ mark, ready.Marked mark → c.Marked mark

theorem prepares_withAccessors (c : ClassDoc) : Prepares c c.claimMembers.withAccessors := by
  refine ⟨rfl, rfl, rfl, rfl, fun m hm => ?_, fun mark hmark => ?_⟩
  · obtain ⟨m', hm', hkey⟩ := members_of_outline (outline_claimMembers c) hm
    exact ⟨m', subset_withAccessors _ hm', hkey⟩
  · exact marked_of_outline (fun k => k.1.2) (fun _ => rfl) (outline_claimMembers c)
      (marked_withAccessors hmark)

theorem Prepares.congr {c ready ready' : ClassDoc} (h : Prepares c ready)
    (hsame : ready'.outline Member.sourceAndKind = ready.outline Member.sourceAndKind) :
    Prepares c ready' := by
  have hname : ready'.name = ready.name := congrArg (·.1) hsame
  have halternates : ready'.alternateNames = ready.alternateNames := congrArg (·.2.1) hsame
  have henum : ready'.enumInfo.isSome = ready.enumInfo.isSome := congrArg (·.2.2.1) hsame
  have hfiles : ready'.files = ready.files := congrArg (·.2.2.2.1) hsame
  refine ⟨hname.trans h.name, halternates.trans h.alternateNames, henum.trans h.isEnumeration,
    hfiles.trans h.files, fun m hm => ?_, fun mark hmark => h.marked mark ?_⟩
  · obtain ⟨m', hm', hkey⟩ := h.members m hm
    obtain ⟨m'', hm'', hkey'⟩ := members_of_outline hsame hm'
    exact ⟨m'', hm'', hkey'.trans hkey⟩
  · exact marked_of_outline (fun k => k.1.2) (fun _ => rfl) hsame hmark

theorem Completes.of_prepares {prepare : ClassDoc → ClassDoc} (hp : ∀ c, Prepares c (prepare c))
    {classes : List ClassDoc} {c done : ClassDoc}
    (h : Completes (classes.map prepare) (prepare c) done) : Completes classes c done := by
  refine ⟨h.name.trans (hp c).name, h.alternateNames.trans (hp c).alternateNames,
    h.isEnumeration.trans (hp c).isEnumeration, fun m hm hkind => ?_, fun mark hmark => ?_⟩
  · obtain ⟨m', hm', hkey⟩ := (hp c).members m hm
    have hsource : m'.source = m.source := congrArg (·.1) hkey
    have hkinds : m'.kind = m.kind := congrArg (·.2) hkey
    obtain ⟨m'', hm'', hsource'⟩ := h.members m' hm' fun henum => by
      rw [hkinds]
      exact hkind ((hp c).isEnumeration ▸ henum)
    exact ⟨m'', hm'', hsource'.trans hsource⟩
  · refine (h.marked mark hmark).imp ((hp c).marked mark) ?_
    rintro ⟨ready, hready, hfile⟩
    obtain ⟨d, hd, rfl⟩ := List.mem_map.1 hready
    exact ⟨d, hd, (hp d).files ▸ hfile⟩

/-- A class with everything that follows from it alone but its values. -/
def prepared (withOptions : Bool) (c : ClassDoc) : ClassDoc :=
  if withOptions then c.claimMembers.withAccessors.withReturns.withEventOptions
  else c.claimMembers.withAccessors.withReturns

/-- A class with everything that follows from it and the other classes. -/
def completed (withOptions : Bool) (classes : List ClassDoc) (c : ClassDoc) : ClassDoc :=
  (Enumeration.complete (classes.map (prepared withOptions))
    (prepared withOptions c)).1.withFires.withTypes

/-- Completing members goes class by class. -/
theorem completeMembers_eq (options : AssemblyOptions) (classes : List ClassDoc) :
    (completeMembers options classes).1 = classes.map (completed
      (eventsHaveOptions options.eventOptions (classes.map fun c => c.claimMembers.withAccessors))
      classes) := by
  unfold completeMembers Enumeration.completeAll
  simp only [List.map_map]
  rfl

/-- The classes with everything but the events that methods fire and the types that are missing. -/
def valuedAll (options : AssemblyOptions) (classes : List ClassDoc) : List ClassDoc :=
  (Enumeration.completeAll (classes.map (prepared
    (eventsHaveOptions options.eventOptions
      (classes.map fun c => c.claimMembers.withAccessors))))).1

theorem completeMembers_of_idle {options : AssemblyOptions} {classes : List ClassDoc}
    (h : ∀ c ∈ valuedAll options classes, ∀ m ∈ c.members, m.body = {}) :
    (completeMembers options classes).1 = (valuedAll options classes).map ClassDoc.withTypes := by
  have hdone : (completeMembers options classes).1 =
      (valuedAll options classes).map fun c => c.withFires.withTypes := by
    unfold completeMembers valuedAll
    simp only [List.map_map]
    rfl
  rw [hdone]
  exact List.map_congr_left fun c hc => by rw [withFires_of_idle (h c hc)]

theorem prepares_prepared (withOptions : Bool) (c : ClassDoc) : Prepares c (prepared withOptions c) := by
  have hreturns := (prepares_withAccessors c).congr (outline_withReturns _)
  unfold prepared
  split
  · exact hreturns.congr (outline_withEventOptions _)
  · exact hreturns

theorem completes_completed (withOptions : Bool) (classes : List ClassDoc) (c : ClassDoc) :
    Completes classes c (completed withOptions classes c) := by
  refine Completes.of_prepares (prepares_prepared withOptions)
    (Completes.congr (completes_complete _ _) ?_)
  rw [completed, outline_withTypes, outline_withFires]

theorem completes_completeMembers (options : AssemblyOptions) (classes : List ClassDoc) :
    ∃ complete : ClassDoc → ClassDoc, (completeMembers options classes).1 = classes.map complete ∧
      ∀ c, Completes classes c (complete c) :=
  ⟨_, completeMembers_eq options classes, completes_completed _ classes⟩

namespace Registry

theorem source_apply (m : Member) (change : InheritedDocs.MemberChange) :
    (change.apply m).source = m.source := by
  cases change with
  | makePrivate => rfl
  | inherit h =>
    show (m.inherit h).source = m.source
    unfold Member.inherit
    split
    · rfl
    · rfl

/-- What holds of a registry still holds after references to documentation are resolved, if it survives
changes of single classes that keep outlines and inheritance, and refreshing all ids. -/
theorem inheritDocs_induction {P : Registry → Prop}
    (hchange : ∀ (r : Registry) (i : Nat) (f : ClassDoc → ClassDoc), KeepsInheritance f →
      (∀ c, (f c).outline Member.source = c.outline Member.source) → P r → P (r.modifyAt i f))
    (hrefresh : ∀ r : Registry, P r → P r.refreshAll) {r : Registry} (h : P r) :
    P r.inheritDocs.1 := by
  have hmembers : ∀ (changes : List (MemberRef × InheritedDocs.MemberChange)) (r : Registry), P r →
      P (changes.foldl InheritedDocs.applyMember r) := by
    intro changes
    induction changes with
    | nil => exact fun r h => h
    | cons change changes ih =>
      intro r h
      refine ih _ (hchange r change.1.classAt _ (keepsInheritance_members _) (fun c => ?_) h)
      rw [outline, map_modify_of_same fun m => source_apply m change.2]
      rfl
  have hclasses : ∀ (changes : List InheritedDocs.ClassChange) (r : Registry), P r →
      P (changes.foldl InheritedDocs.applyClass r) := by
    intro changes
    induction changes with
    | nil => exact fun r h => h
    | cons change changes ih =>
      intro r h
      refine ih _ ?_
      unfold InheritedDocs.applyClass
      split
      · refine hchange r _ _ ⟨?_, ?_, ?_, ?_⟩ ?_ h
        · exact fun c => rfl
        · exact fun c => rfl
        · exact fun c => rfl
        · exact fun c => rfl
        · exact fun c => rfl
      · exact h
  exact hrefresh _ (hclasses _ _ (hmembers _ r h))

/-- Resolving references to documentation changes what members say, not where they are from. -/
theorem outlines_inheritDocs (r : Registry) :
    r.inheritDocs.1.classes.map (ClassDoc.outline Member.source) =
      r.classes.map (ClassDoc.outline Member.source) := by
  refine inheritDocs_induction
    (P := fun r' => r'.classes.map (outline Member.source) = r.classes.map (outline Member.source))
    (fun r' i f _ hf h => (map_modify_of_same hf r'.classes i).trans h) (fun r' h => ?_) rfl
  rw [← h]
  show (r'.classes.map refreshClass).map (outline Member.source) = _
  rw [List.map_map]
  exact List.map_congr_left fun c _ => outline_refreshClass c

theorem Resolved.inheritDocs {r : Registry} (h : r.Resolved) : r.inheritDocs.1.Resolved :=
  inheritDocs_induction (P := Resolved) (fun _ i _ hf _ h => h.modifyAt hf i)
    (fun _ h => h.refreshAll) h

end Registry

namespace Grouping

/-- Every class of a finished registry is one of the classes that remain when overrides are absorbed,
completed, and at the same place.  Names lead to classes as they are in the end. -/
theorem completes_finish {g : Grouping} {options : AssemblyOptions} {r : Registry}
    (h : (g.finish options).1 = .ok r) :
    r.Resolved ∧ r.classes.map ClassDoc.answers = g.resolve.1.1.map ClassDoc.answers ∧
      ∀ (i : Nat) (c done : ClassDoc), g.resolve.1.1[i]? = some c → r.classes[i]? = some done →
        Completes g.resolve.1.1 c done := by
  rw [finish_fst] at h
  obtain ⟨made, hmade, rfl⟩ := completeInheritance_eq_ok h
  obtain ⟨complete, hcompleted, hcompletes⟩ := completes_completeMembers options g.resolve.1.1
  have hresolved := (Registry.resolved_of_build hmade).inheritDocs
  have hclasses : made.classes = g.resolve.1.1.map complete :=
    (Registry.classes_of_build hmade).trans hcompleted
  have houtlines := made.outlines_inheritDocs
  rw [hclasses, List.map_map] at houtlines
  refine ⟨hresolved, ?_, fun i c done hc hdone => (hcompletes c).congr ?_⟩
  · have hread : ∀ cs : List ClassDoc, cs.map ClassDoc.answers =
        (cs.map (outline Member.source)).map fun o => o.1 :: o.2.1 := by
      intro cs
      rw [List.map_map]
      rfl
    rw [hread, houtlines, List.map_map]
    refine List.map_congr_left fun c _ => ?_
    show (complete c).name :: (complete c).alternateNames = c.name :: c.alternateNames
    rw [(hcompletes c).name, (hcompletes c).alternateNames]
  · have hat := congrArg (fun outlines => outlines[i]?) houtlines
    simp only [List.getElem?_map, hc, hdone, Option.map_some] at hat
    exact Option.some.inj hat

end Grouping
end ApiDoc
