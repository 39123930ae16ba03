/-
Which events end up with the options object.

Sources mark no parameter, so completing the classes puts one options object behind the parameters of
every event, or of none.  Two things come in between.  Whether events get it is decided when overrides
have been absorbed, so definition calls that make nothing but overrides do not count.  And an event that
has no other parameters takes over those of the member that it refers to, of whatever kind that is.
Apart from this every event ends in its options object (`options_of_events`).
-/
import ApiDoc.Proofs.Assembly.Collisions
import ApiDoc.Proofs.Assembly.Defined
import ApiDoc.Proofs.Entry.Unmarked

namespace ApiDoc

/-- Exactly one of the parameters is marked as the options object, and it is the last one. -/
def EndsInOptions (ps : List Param) : Prop :=
  ps.countP Param.isEventOptions = 1 ∧ ps.getLast?.any Param.isEventOptions = true

instance (ps : List Param) : Decidable (EndsInOptions ps) := inferInstanceAs (Decidable (_ ∧ _))

theorem endsInOptions_concat {ps : List Param} (h : Unmarked ps) :
    EndsInOptions (ps ++ [eventOptions]) := by
  have hnone : ps.countP Param.isEventOptions = 0 := by
    refine List.countP_eq_zero.2 fun p hp => ?_
    rw [h p hp]
    exact Bool.false_ne_true
  refine ⟨?_, ?_⟩
  · rw [List.countP_append, hnone]
    rfl
  · rw [List.getLast?_concat]
    rfl

theorem EndsInOptions.congr {ps ps' : List Param} (h : EndsInOptions ps)
    (hmarks : ps'.map Param.isEventOptions = ps.map Param.isEventOptions) : EndsInOptions ps' := by
  have hcount : ∀ qs : List Param, qs.countP Param.isEventOptions =
      (qs.map Param.isEventOptions).countP id := by
    intro qs
    rw [List.countP_map]
    rfl
  have hlast : ∀ qs : List Param, qs.getLast?.any Param.isEventOptions =
      (qs.map Param.isEventOptions).getLast?.any id := by
    intro qs
    rw [List.getLast?_map, Option.any_map]
    rfl
  refine ⟨?_, ?_⟩
  · rw [hcount, hmarks, ← hcount]
    exact h.1
  · rw [hlast, hmarks, ← hlast]
    exact h.2

theorem Unmarked.congr {ps ps' : List Param} (h : Unmarked ps)
    (hmarks : ps'.map Param.isEventOptions = ps.map Param.isEventOptions) : Unmarked ps' := by
  intro p hp
  have hmark := List.mem_map_of_mem (f := Param.isEventOptions) hp
  rw [hmarks] at hmark
  obtain ⟨old, hold, hsame⟩ := List.mem_map.1 hmark
  rw [← hsame, h old hold]

namespace Member

/-- The member ends in the options object if it is an event and events are given one, and else it has
nothing like it. -/
def FitsOptions (given : Bool) (m : Member) : Prop :=
  if given = true ∧ m.kind = .event then EndsInOptions m.params else ApiDoc.Unmarked m.params

def marks (m : Member) : EntityKind × List Bool := (m.kind, m.params.map Param.isEventOptions)

theorem FitsOptions.congr {given : Bool} {m m' : Member} (h : m.FitsOptions given)
    (hmarks : m'.marks = m.marks) : m'.FitsOptions given := by
  obtain ⟨hkind, hparams⟩ := Prod.mk.inj hmarks
  unfold FitsOptions at h ⊢
  rw [hkind]
  split
  · next hgiven =>
    rw [if_pos hgiven] at h
    exact h.congr hparams
  · next hgiven =>
    rw [if_neg hgiven] at h
    exact h.congr hparams

theorem Unmarked.fitsOptions {given : Bool} {m : Member} (h : m.Unmarked)
    (hplain : given = true → m.kind ≠ .event) : m.FitsOptions given := by
  unfold FitsOptions
  rw [if_neg fun hboth => hplain hboth.1 hboth.2]
  exact h

theorem FitsOptions.unmarked {given : Bool} {m : Member} (h : m.FitsOptions given)
    (hplain : m.kind ≠ .event) : m.Unmarked := by
  unfold FitsOptions at h
  rw [if_neg fun hboth => hplain hboth.2] at h
  exact h

theorem params_withReturn (className : String) (m : Member) :
    (m.withReturn className).params = m.params := by
  obtain ⟨_, _, hframe⟩ := m.withReturn_frame className
  rw [hframe]

theorem Unmarked.fits_withEventOptions {m : Member} (h : m.Unmarked) :
    m.withEventOptions.FitsOptions true := by
  have hany : m.params.any Param.isEventOptions = false := by
    rw [List.any_eq_false]
    intro p hp
    rw [h p hp]
    exact Bool.false_ne_true
  unfold withEventOptions
  rw [hany, Bool.not_false, Bool.and_true]
  split
  · next hkind =>
    rw [FitsOptions, if_pos ⟨rfl, eq_of_beq hkind⟩]
    exact endsInOptions_concat h
  · next hkind =>
    exact h.fitsOptions fun _ hevent => hkind (by rw [hevent]; rfl)

theorem marks_withFires (methods : List Member) (m : Member) :
    (m.withFires methods).marks = m.marks := by
  obtain ⟨_, _, hframe⟩ := m.withFires_frame methods
  rw [hframe]
  rfl

end Member

theorem marks_withTypesAll (ps : List Param) :
    (withTypesAll ps).map Param.isEventOptions = ps.map Param.isEventOptions := by
  induction ps with
  | nil => rfl
  | cons p ps ih =>
    obtain ⟨name, type, doc, isOptional, default, properties, isEventOptions⟩ := p
    rw [withTypesAll, List.map_cons, List.map_cons, ih, Param.withTypes]

theorem Member.marks_withTypes (m : Member) : m.withTypes.marks = m.marks := by
  rw [marks, marks]
  show (m.kind, (withTypesAll m.params).map Param.isEventOptions) = _
  rw [marks_withTypesAll]

theorem Accessor.DerivedFrom.unmarked {className : String} {option m : Member}
    (h : DerivedFrom className option m) : m.Unmarked := by
  have hparams : m.params.all (fun p => !p.isEventOptions) = true := by
    rcases h.form with rfl | rfl | ⟨-, rfl⟩
    · rfl
    · rfl
    · rfl
  intro p hp
  simpa using List.all_eq_true.1 hparams p hp

/-- Accessors have parameters of their own. -/
theorem unmarked_withAccessors {c : ClassDoc} (h : ∀ m ∈ c.members, m.Unmarked) :
    ∀ m ∈ c.withAccessors.members, m.Unmarked := by
  intro m hm
  rcases ClassDoc.mem_withAccessors hm with hold | ⟨option, -, hderived⟩
  · exact h m hold
  · exact hderived.unmarked

theorem fits_prepared (given : Bool) {c : ClassDoc} (h : ∀ m ∈ c.members, m.Unmarked) :
    ∀ m ∈ (prepared given c).members, m.FitsOptions given := by
  have hclaimed : ∀ m ∈ c.claimMembers.members, m.Unmarked := by
    intro m hm
    obtain ⟨old, hold, rfl⟩ := List.mem_map.1 hm
    exact h old hold
  have hready : ∀ m ∈ c.claimMembers.withAccessors.withReturns.members, m.Unmarked := by
    intro m hm
    obtain ⟨old, hold, rfl⟩ := List.mem_map.1 hm
    rw [Member.Unmarked, Member.params_withReturn]
    exact unmarked_withAccessors hclaimed old hold
  intro m hm
  unfold prepared at hm
  cases given with
  | true =>
    obtain ⟨old, hold, rfl⟩ := List.mem_map.1 hm
    exact (hready old hold).fits_withEventOptions
  | false => exact (hready m hm).fitsOptions fun hgiven => absurd hgiven Bool.false_ne_true

/-- An enumeration has no events, and the values for aliases have no parameters. -/
theorem fits_complete {given : Bool} (classes : List ClassDoc) {c : ClassDoc}
    (h : ∀ m ∈ c.members, m.FitsOptions given) :
    ∀ m ∈ (Enumeration.complete classes c).1.members, m.FitsOptions given := by
  intro m hm
  cases hinfo : c.enumInfo with
  | none =>
    rw [Enumeration.complete_of_plain classes hinfo] at hm
    exact h m hm
  | some info =>
    obtain ⟨type, value, rfl, hvalue⟩ := Enumeration.exists_value hinfo hm
    have hunmarked : value.Unmarked := by
      rcases hvalue with ⟨hold, hkind⟩ | ⟨d, -, text, rfl⟩
      · exact (h value hold).unmarked hkind
      · exact unmarked_nil
    have hplain : EntityKind.property ≠ .event := by decide
    exact Member.Unmarked.fitsOptions hunmarked fun _ => hplain

theorem fits_completed (given : Bool) (classes : List ClassDoc) {c : ClassDoc}
    (h : ∀ m ∈ c.members, m.Unmarked) :
    ∀ m ∈ (completed given classes c).members, m.FitsOptions given := by
  intro m hm
  obtain ⟨fired, hfired, rfl⟩ := List.mem_map.1 hm
  obtain ⟨old, hold, rfl⟩ := List.mem_map.1 hfired
  refine (fits_complete _ (fits_prepared given h) old hold).congr ?_
  rw [Member.marks_withTypes, Member.marks_withFires]

theorem isDefined_completed (given : Bool) (classes : List ClassDoc) (c : ClassDoc) :
    (completed given classes c).isDefined = c.isDefined := by
  obtain ⟨_, hprepared⟩ := frame_prepared given c
  obtain ⟨_, _, _, hcomplete⟩ :=
    Enumeration.complete_frame (classes.map (prepared given)) (prepared given c)
  show (Enumeration.complete _ (prepared given c)).1.isDefined = c.isDefined
  rw [hcomplete, hprepared]

theorem isDefined_completeMembers (options : AssemblyOptions) (classes : List ClassDoc) :
    (completeMembers options classes).1.map ClassDoc.isDefined = classes.map ClassDoc.isDefined := by
  rw [completeMembers_eq, List.map_map]
  exact List.map_congr_left fun c _ => isDefined_completed _ classes c

/-- Whether events are given the options object depends on what is defined, and on nothing else of the
classes. -/
theorem eventsHaveOptions_congr {classes classes' : List ClassDoc}
    (h : classes'.map ClassDoc.isDefined = classes.map ClassDoc.isDefined) (setting : Option Bool) :
    eventsHaveOptions setting classes' = eventsHaveOptions setting classes := by
  have hread : ∀ cs : List ClassDoc, cs.any ClassDoc.isDefined = (cs.map ClassDoc.isDefined).any id := by
    intro cs
    rw [List.any_map]
    rfl
  rw [eventsHaveOptions, eventsHaveOptions, hread, h, hread]

theorem fits_completeMembers (options : AssemblyOptions) {classes : List ClassDoc}
    (h : ∀ c ∈ classes, ∀ m ∈ c.members, m.Unmarked) :
    ∀ c ∈ (completeMembers options classes).1, ∀ m ∈ c.members,
      m.FitsOptions (eventsHaveOptions options.eventOptions classes) := by
  intro c hc
  rw [completeMembers_eq] at hc
  obtain ⟨old, hold, rfl⟩ := List.mem_map.1 hc
  have hgiven : eventsHaveOptions options.eventOptions
      (classes.map fun c => c.claimMembers.withAccessors) =
      eventsHaveOptions options.eventOptions classes := by
    refine eventsHaveOptions_congr ?_ _
    rw [List.map_map]
    rfl
  rw [hgiven]
  exact fits_completed _ classes (h old hold)

namespace InheritedDocs
open Registry

/-- The member from which the one at a place takes over parameters: the end of its chain, if that has
any, and the member none but the options object. -/
def paramsSource? (r : Registry) (ref : MemberRef) (m : Member) : Option Member :=
  ((r.sourceOf? ref).bind fun start => r.member? (r.chainEnd longestChain start)).filter fun last =>
    m.params.all Param.isEventOptions && !last.params.isEmpty

/-- The member at a place takes over the parameters of a member that is no event. -/
def losesOptions (r : Registry) (ref : MemberRef) : Bool :=
  ((r.member? ref).bind (paramsSource? r ref)).any fun last => last.kind != .event

theorem isDefined_inheritDocs (r : Registry) :
    r.inheritDocs.1.classes.map ClassDoc.isDefined = r.classes.map ClassDoc.isDefined := by
  rw [classes_inheritDocs, map_mapIdx]
  refine List.ext_getElem? fun i => ?_
  rw [List.getElem?_mapIdx, List.getElem?_map]

theorem params_inherit (m : Member) (h : Inherited) :
    (m.inherit h).params =
      if m.params.all Param.isEventOptions && !h.source.params.isEmpty then h.source.params
      else m.params := by
  unfold Member.inherit
  split
  · rfl
  · rfl

theorem params_outcome {r : Registry} {ref : MemberRef} {m : Member} (hm : r.member? ref = some m) :
    (outcome r ref m).params = ((paramsSource? r ref m).getD m).params := by
  show _ = (((r.endOf? ref).filter _).getD m).params
  cases hend : r.endOf? ref with
  | none =>
    obtain ⟨isPrivate, houtcome⟩ := outcome_of_no_end hm hend
    rw [houtcome]
    rfl
  | some last =>
    obtain ⟨inheritdoc, -, houtcome⟩ := outcome_of_endOf? hm hend
    rw [houtcome, Option.filter_some]
    refine (params_inherit m _).trans ?_
    dsimp only
    split
    · rfl
    · rfl

theorem exists_member?_of_paramsSource? {r : Registry} {ref : MemberRef} {m last : Member}
    (h : paramsSource? r ref m = some last) : ∃ place, r.member? place = some last := by
  obtain ⟨hlast, -⟩ := Option.filter_eq_some_iff.1 h
  obtain ⟨start, -, hlast⟩ := Option.bind_eq_some_iff.1 hlast
  exact ⟨_, hlast⟩

theorem kind_of_outcome {r : Registry} {ref : MemberRef} {m : Member} (hm : r.member? ref = some m)
    (h : (outcome r ref m).kind = .event) : m.kind = .event := by
  have hidentity := congrArg (·.2.1) (identity_outcome hm)
  dsimp only [Member.identity] at hidentity
  rw [h] at hidentity
  split at hidentity
  · exact absurd hidentity (by decide)
  · exact hidentity.symm

/-- Inheriting documentation leaves an event with its options object, unless it takes over the
parameters of something that is no event. -/
theorem options_outcome {r : Registry} {given : Bool}
    (hfits : ∀ ref m, r.member? ref = some m → m.FitsOptions given) {ref : MemberRef} {m : Member}
    (hm : r.member? ref = some m) (hkind : m.kind = .event) :
    if given = true ∧ losesOptions r ref = false then EndsInOptions (outcome r ref m).params
    else Unmarked (outcome r ref m).params := by
  have hread : ∀ m' : Member, m'.FitsOptions given →
      if given = true ∧ (m'.kind != .event) = false then EndsInOptions m'.params
      else Unmarked m'.params := by
    intro m' h
    simpa only [Member.FitsOptions, bne_eq_false_iff_eq] using h
  rw [params_outcome hm, losesOptions, hm, Option.bind_some]
  cases hsource : paramsSource? r ref m with
  | none =>
    have hown := hread m (hfits ref m hm)
    rw [hkind] at hown
    exact hown
  | some last =>
    obtain ⟨place, hplace⟩ := exists_member?_of_paramsSource? hsource
    exact hread last (hfits place last hplace)

end InheritedDocs

namespace Grouping
open InheritedDocs Registry

theorem mem_members_of_charges {filename : String} {before : List Entry} {e : Entry}
    {p : String × Member} (h : p ∈ charges filename before e) : p.2 ∈ e.members := by
  obtain ⟨entity, memberOf, isIgnored⟩ := e
  unfold charges at h
  cases entity with
  | ofMember m =>
    dsimp only at h
    split at h
    · exact absurd h List.not_mem_nil
    · obtain ⟨name, -, rfl⟩ := List.mem_map.1 h
      exact List.mem_singleton_self m
  | ofClass c =>
    dsimp only at h
    split at h
    · next named hnamed =>
      obtain ⟨m, hm, rfl⟩ := List.mem_map.1 h
      unfold namedClass? at hnamed
      dsimp only at hnamed
      rw [Option.ite_none_left_eq_some] at hnamed
      obtain ⟨name, -, rfl⟩ := Option.map_eq_some_iff.1 hnamed.2
      exact hm
    · exact absurd h List.not_mem_nil

/-- The entries of every file are those of a source. -/
def Extracted (files : Files) : Prop :=
  ∀ f ∈ files, ∃ ns source warnings, Entry.extract ns source = .ok (f.2, warnings)

/-- What holds of all members and survives what an override does to them holds of all members that
an override leaves. -/
theorem forall_addMember {P : Member → Prop} {source : String}
    (hpatch : ∀ m patch, P m → P (Override.patchMember source m patch))
    (hnew : ∀ owner m, P m → P (Override.newMember source owner m)) {c : ClassDoc}
    (h : ∀ m ∈ c.members, P m) {new : Member} (hadded : P new) :
    ∀ m ∈ (Override.addMember source c new).members, P m := by
  intro m hm
  unfold Override.addMember at hm
  split at hm
  · obtain ⟨k, hk⟩ := List.getElem?_of_mem hm
    rw [List.getElem?_modify] at hk
    obtain ⟨old, hold, rfl⟩ := Option.map_eq_some_iff.1 hk
    split
    · exact hpatch old new (h old (List.mem_of_getElem? hold))
    · exact h old (List.mem_of_getElem? hold)
  · rcases List.mem_append.1 hm with hold | hlast
    · exact h m hold
    · rw [List.mem_singleton.1 hlast]
      exact hnew c.name new hadded

/-- Grouping, folding and absorbing overrides keep what holds of the members of all entries, if it
survives the notes that overrides leave. -/
theorem forall_members_resolve {P : Member → Prop}
    (hpatch : ∀ source m patch, P m → P (Override.patchMember source m patch))
    (hnew : ∀ source owner m, P m → P (Override.newMember source owner m)) {files : Files}
    (h : ∀ f ∈ files, ∀ e ∈ f.2, ∀ m ∈ e.members, P m) :
    ∀ c ∈ (ofFiles files).resolve.1.1, ∀ m ∈ c.members, P m := by
  refine Override.absorb_forall (P := fun c => ∀ m ∈ c.members, P m)
    (fun c patch hc hpatches => ?_) fun c hc m hm => ?_
  · exact List.foldlRecOn (motive := fun c => ∀ m ∈ c.members, P m) patch.members
      (Override.addMember patch.name) hc fun _ hc m hm =>
        forall_addMember (hpatch patch.name) (hnew patch.name) hc (hpatches m hm)
  · obtain ⟨name, hcharged⟩ := charged_of_kept (List.mem_filter.1 hc).1 hm
    obtain ⟨f, hf, earlier, e, later, hplace, hcharge⟩ := mem_ledger.1 hcharged
    have he : e ∈ f.2 := hplace ▸ List.mem_append_right earlier List.mem_cons_self
    exact h f hf e he m (mem_members_of_charges hcharge)

/-- Grouping, folding and absorbing overrides marks no parameters. -/
theorem unmarked_resolve {files : Files} (hread : Extracted files) :
    ∀ c ∈ (ofFiles files).resolve.1.1, ∀ m ∈ c.members, m.Unmarked := by
  refine forall_members_resolve (fun _ _ _ h => h) (fun _ _ _ h => h) fun f hf => ?_
  obtain ⟨ns, source, warnings, hextract⟩ := hread f hf
  exact Entry.unmarked_extract hextract

/-- The finished registry of files that are read from sources.  Where events are given the options
object, each event ends in it, unless before documentation was inherited it had no other parameter and
referred to something with parameters that is no event; in all other cases no parameter of the event is
marked.  Events are given it if the setting says so, or leaves it open and an entry is defined that
stays; and they are not if the setting says the contrary, or leaves it open and no entry is defined. -/
theorem options_of_events {files : Files} (hread : Extracted files) {options : AssemblyOptions}
    {r : Registry} (h : ((ofFiles files).finish options).1 = .ok r) :
    ∃ made, (build (completeMembers options (ofFiles files).resolve.1.1).1
        (ofFiles files).resolve.1.2).1 = .ok made ∧ r = made.inheritDocs.1 ∧
      (∀ ref m, r.member? ref = some m → m.kind = .event →
        if eventsHaveOptions options.eventOptions r.classes = true ∧ losesOptions made ref = false then
          EndsInOptions m.params
        else Unmarked m.params) ∧
      ((options.eventOptions = some true ∨ options.eventOptions = none ∧
          ∃ e ∈ classEntries files, e.isDefined = true ∧ Stays files e) →
        eventsHaveOptions options.eventOptions r.classes = true) ∧
      (eventsHaveOptions options.eventOptions r.classes = true →
        options.eventOptions = some true ∨ options.eventOptions = none ∧
          ∃ e ∈ classEntries files, e.isDefined = true) := by
  rw [finish_fst] at h
  obtain ⟨made, hmade, rfl⟩ := completeInheritance_eq_ok h
  have hclasses := classes_of_build hmade
  have hdefined : made.inheritDocs.1.classes.map ClassDoc.isDefined =
      (ofFiles files).resolve.1.1.map ClassDoc.isDefined := by
    rw [isDefined_inheritDocs, hclasses, isDefined_completeMembers]
  have hany : made.inheritDocs.1.classes.any ClassDoc.isDefined = true ↔
      ∃ c ∈ (ofFiles files).resolve.1.1, c.isDefined = true := by
    rw [← List.mem_map, ← hdefined, List.mem_map, List.any_eq_true]
  have hfits : ∀ ref m, made.member? ref = some m →
      m.FitsOptions (eventsHaveOptions options.eventOptions made.inheritDocs.1.classes) := by
    intro ref m hm
    obtain ⟨c, hc, hm⟩ := Option.bind_eq_some_iff.1 hm
    rw [eventsHaveOptions_congr hdefined]
    exact fits_completeMembers options (unmarked_resolve hread) c (hclasses ▸ List.mem_of_getElem? hc) m
      (List.mem_of_getElem? hm)
  refine ⟨made, hmade, rfl, fun ref m hm hkind => ?_, ?_, fun hset => ?_⟩
  · have hdone := member?_inheritDocs (reliable_of_build hmade) [] ref
    rw [List.foldl_nil, hm] at hdone
    obtain ⟨before, hbefore, rfl⟩ := Option.map_eq_some_iff.1 hdone.symm
    exact options_outcome hfits hbefore (kind_of_outcome hbefore hkind)
  · rintro (hset | ⟨hopen, e, he, hentry, hstays⟩)
    · rw [hset]
      rfl
    · rw [hopen]
      exact hany.2 (defined_of_stays he hentry hstays)
  · cases hsetting : options.eventOptions with
    | some setting =>
      rw [hsetting] at hset
      exact Or.inl (congrArg some hset)
    | none =>
      rw [hsetting] at hset
      obtain ⟨c, hc, hclass⟩ := hany.1 hset
      exact Or.inr ⟨rfl, defined_entry_of_resolved hc hclass⟩

theorem extracted_of_source {ns : Code.Namespaces} {source : SourceFile} {entries : List Entry}
    (h : (Entry.extract ns source).toOption.map Prod.fst = some entries) (filename : String) :
    Extracted [(filename, entries)] := by
  intro f hf
  rw [List.mem_singleton.1 hf]
  cases hextract : Entry.extract ns source with
  | error e =>
    rw [hextract] at h
    exact absurd h (by simp [Except.toOption])
  | ok r =>
    rw [hextract] at h
    obtain rfl : r.1 = entries := Option.some.inj h
    exact ⟨ns, source, r.2, hextract⟩

/-- A class with an event, and an override of it in a definition call. -/
def patchedSource : SourceFile :=
  { filename := "foo.js", kind := .script
    docs :=
      [{ comment := "* @class Foo", line := 1 }, { comment := "* @event hide", line := 5 },
        { comment := "*", line := 9
          code := some (.call (.member (.ident "Ext") "define" "Ext.define")
            [.literal .string "FooPatch" "'FooPatch'",
              .object [⟨"override", .literal .string "Foo" "'Foo'", 0, 9, false, none⟩] "{}"] "") }] }

def patchedFiles : Files :=
  [("foo.js",
    [{ entity := .ofClass { name := "Foo", files := [⟨"foo.js", 1⟩] } },
     { entity := .ofMember
        { Member.ofName .event "hide" with files := [⟨"foo.js", 5⟩], line := 5 } },
     { entity := .ofClass
        { name := "FooPatch", parent := some "Ext.Base", overrideOf := some "Foo", isDefined := true
          files := [⟨"foo.js", 9⟩] } }])]

theorem extracted_patchedFiles : Extracted patchedFiles := by
  have h : (Entry.extract {} patchedSource).toOption.map Prod.fst =
      patchedFiles.head?.map Prod.snd := by decide +kernel
  exact extracted_of_source h "foo.js"

/-- A style sheet with a mixin, and an event that has no parameters and refers to the mixin. -/
def fadingSource : SourceFile :=
  { filename := "fade.scss", kind := .stylesheet
    docs :=
      [{ comment := "*", line := 1, code := some (.styleMixin "fade" [("time", none)]) },
        { comment := "* @inheritdoc #css_mixin-fade\n* @event done", line := 5 }] }

def fadingFiles : Files :=
  [("fade.scss",
    [{ entity := .ofMember
        { Member.ofName .styleMixin "fade" with
          params := [{ name := some "time" }]
          inferred := { kind := true, name := true, params := true }
          files := [⟨"fade.scss", 1⟩], line := 1 } },
     { entity := .ofMember
        { Member.ofName .event "done" with
          inheritdoc := some { memberName := some "fade", kind := some .styleMixin }
          files := [⟨"fade.scss", 5⟩], line := 5 } }])]

theorem extracted_fadingFiles : Extracted fadingFiles := by
  have h : (Entry.extract {} fadingSource).toOption.map Prod.fst =
      fadingFiles.head?.map Prod.snd := by decide +kernel
  exact extracted_of_source h "fade.scss"

/-- The registry that files are made into, events being given the options object or not. -/
def registryOf (files : Files) (setting : Option Bool) : Registry :=
  match ((ofFiles files).finish { eventOptions := setting }).1 with
  | .ok r => r
  | .error _ => {}

theorem finish_patchedFiles :
    ((ofFiles patchedFiles).finish { eventOptions := some true }).1 =
      .ok (registryOf patchedFiles (some true)) := by
  rfl

theorem options_of_patched_event :
    Extracted patchedFiles ∧
      ((ofFiles patchedFiles).finish { eventOptions := some true }).1 =
        .ok (registryOf patchedFiles (some true)) ∧
      ∃ m, (registryOf patchedFiles (some true)).member? ⟨0, 0⟩ = some m ∧ m.kind = .event ∧
        EndsInOptions m.params := by
  obtain ⟨made, hmade, -, hevents, hgiven, -⟩ :=
    options_of_events extracted_patchedFiles finish_patchedFiles
  obtain ⟨-, rfl⟩ := build_eq_ok_iff.1 hmade
  refine ⟨extracted_patchedFiles, finish_patchedFiles, _, rfl, rfl, ?_⟩
  have hevent := hevents ⟨0, 0⟩ _ rfl rfl
  rw [if_pos ⟨hgiven (Or.inl rfl), by decide⟩] at hevent
  exact hevent

/-- Left open, events are not given the options object although a class entry comes from a definition
call; and set, an event does not have it in the end. -/
theorem events_without_options :
    (Extracted patchedFiles ∧
      (∃ e ∈ classEntries patchedFiles, e.name = "FooPatch" ∧ e.isDefined = true) ∧
      ((ofFiles patchedFiles).finish {}).1 = .ok (registryOf patchedFiles none) ∧
      ∃ m, (registryOf patchedFiles none).member? ⟨0, 0⟩ = some m ∧ m.kind = .event ∧
        ¬ EndsInOptions m.params) ∧
    Extracted fadingFiles ∧
      ((ofFiles fadingFiles).finish { eventOptions := some true }).1 =
        .ok (registryOf fadingFiles (some true)) ∧
      ∃ m, (registryOf fadingFiles (some true)).member? ⟨0, 1⟩ = some m ∧ m.kind = .event ∧
        ¬ EndsInOptions m.params := by
  refine ⟨⟨extracted_patchedFiles, by decide, rfl, _, rfl, rfl, by decide⟩, extracted_fadingFiles, rfl,
    _, rfl, rfl, by decide⟩

end Grouping
end ApiDoc
