/-
Where two members of a class end up with the same id.

The members of an enumeration all become properties, and a property that inherits from an option
becomes an option, whatever other members the class has.  These are the only ways in which ids that
were different become the same (`nodup_ids_iff_no_collision`), and both happen (`repeated_ids`).
-/
import ApiDoc.Proofs.Assembly.Ids
import ApiDoc.Proofs.Completion.Enumerations
import ApiDoc.Proofs.InheritedDocs.Chain

namespace ApiDoc

theorem nodup_iff_getElem? {α : Type} {xs : List α} :
    xs.Nodup ↔ ∀ (i j : Nat) (x : α), xs[i]? = some x → xs[j]? = some x → i = j := by
  rw [List.nodup_iff_getElem?_ne_getElem?]
  constructor
  · intro h i j x hi hj
    rcases Nat.lt_trichotomy i j with hij | hij | hij
    · exact absurd (hi.trans hj.symm) (h i j hij (List.getElem?_eq_some_iff.1 hj).1)
    · exact hij
    · exact absurd (hj.trans hi.symm) (h j i hij (List.getElem?_eq_some_iff.1 hi).1)
  · intro h i j hij hj hsame
    have hx := List.getElem?_eq_getElem hj
    exact Nat.ne_of_lt hij (h i j xs[j] (hsame.trans hx) hx)

namespace Enumeration

/-- What tells the values of an enumeration apart, `c` being the class as documented. -/
def valueNames (classes : List ClassDoc) (c : ClassDoc) (info : EnumInfo) : List (Bool × String) :=
  ((c.members ++ (info.pattern.map (aliasMembers c.name classes)).getD []).filter
    fun m => m.kind != .event).map fun m => (m.isStatic, m.name)

end Enumeration

namespace InheritedDocs
open Registry

/-- A property that comes from code alone and inherits from an option. -/
def becomesOption (r : Registry) (ref : MemberRef) (m : Member) : Bool :=
  m.inferred.member && m.kind == .property &&
    ((r.sourceOf? ref).bind fun start => r.member? (r.chainEnd longestChain start)).any
      fun last => last.kind == .config

theorem identity_inherit (m : Member) (h : Inherited) :
    (m.inherit h).identity =
      (m.isStatic, if m.inferred.member && m.kind == .property && h.source.kind == .config then .config
        else m.kind, m.name) := by
  unfold Member.inherit
  cases m.inferred.member with
  | true => rfl
  | false => rfl

/-- The pass leaves of a member what its id is made of, but properties can become options. -/
theorem identity_outcome {r : Registry} {ref : MemberRef} {m : Member} (hm : r.member? ref = some m) :
    (outcome r ref m).identity =
      (m.isStatic, if becomesOption r ref m then .config else m.kind, m.name) := by
  show _ = (_, if m.inferred.member && m.kind == .property && (r.endOf? ref).any _ then _ else _, _)
  cases hend : r.endOf? ref with
  | none =>
    obtain ⟨isPrivate, houtcome⟩ := outcome_of_no_end hm hend
    rw [houtcome, Option.any_none, Bool.and_false]
    rfl
  | some last =>
    obtain ⟨inheritdoc, -, houtcome⟩ := outcome_of_endOf? hm hend
    rw [houtcome, Option.any_some]
    exact identity_inherit m _

theorem kind_of_becomesOption {r : Registry} {ref : MemberRef} {m : Member}
    (h : becomesOption r ref m = true) : m.kind = .property := by
  unfold becomesOption at h
  rw [Bool.and_eq_true, Bool.and_eq_true, beq_iff_eq] at h
  exact h.1.2

theorem becomesOption_eq_false {r : Registry} {ref : MemberRef} {m : Member}
    (hm : r.member? ref = some m) (h : m.inferred.member = true → m.inheritdoc = none) :
    becomesOption r ref m = false := by
  unfold becomesOption sourceOf?
  cases hcode : m.inferred.member with
  | false => rfl
  | true =>
    rw [hm, Option.bind_some, h hcode]
    exact Bool.and_false _

/-- Where members are told apart and some properties become options, all are told apart still if none of
these meets an option of its name. -/
theorem nodup_becoming_iff {ms : List Member} (h : (ms.map Member.identity).Nodup)
    {becomes : Nat → Member → Bool} (hkind : ∀ k m, becomes k m = true → m.kind = .property) :
    (ms.mapIdx fun k m =>
        (m.isStatic, if becomes k m then EntityKind.config else m.kind, m.name)).Nodup ↔
      ∀ k m, ms[k]? = some m → becomes k m = true →
        ∀ d ∈ ms, d.identity ≠ (m.isStatic, .config, m.name) := by
  rw [nodup_iff_getElem?] at h ⊢
  have hsame : ∀ {i j : Nat} {x y : Member}, ms[i]? = some x → ms[j]? = some y →
      x.identity = y.identity → i = j := by
    intro i j x y hx hy hxy
    refine h i j x.identity ?_ ?_
    · rw [List.getElem?_map, hx, Option.map_some]
    · rw [List.getElem?_map, hy, Option.map_some, hxy]
  constructor
  · intro hnodup k m hm hbecomes d hd hmeets
    obtain ⟨l, hl⟩ := List.getElem?_of_mem hd
    have hstays : becomes l d = false := by
      by_contra hturns
      have hproperty := hkind l d (by simpa using hturns)
      have hconfig : d.kind = .config := congrArg (·.2.1) hmeets
      rw [hproperty] at hconfig
      exact absurd hconfig (by decide)
    have hkl : k = l := by
      refine hnodup k l (m.isStatic, .config, m.name) ?_ ?_
      · rw [List.getElem?_mapIdx, hm, Option.map_some, if_pos hbecomes]
      · rw [List.getElem?_mapIdx, hl, Option.map_some, hstays, if_neg Bool.false_ne_true]
        exact congrArg some hmeets
    rw [hkl, hl] at hm
    rw [hkl, ← Option.some.inj hm, hstays] at hbecomes
    exact absurd hbecomes Bool.false_ne_true
  · intro hclear i j p hi hj
    rw [List.getElem?_mapIdx] at hi hj
    obtain ⟨x, hx, hxp⟩ := Option.map_eq_some_iff.1 hi
    obtain ⟨y, hy, hyp⟩ := Option.map_eq_some_iff.1 hj
    have hxy := hxp.trans hyp.symm
    by_cases hbx : becomes i x = true
    · by_cases hby : becomes j y = true
      · refine hsame hx hy ?_
        rw [if_pos hbx, if_pos hby] at hxy
        obtain ⟨hstatic, hrest⟩ := Prod.mk.inj hxy
        rw [Member.identity, Member.identity, hkind i x hbx, hkind j y hby, hstatic,
          (Prod.mk.inj hrest).2]
      · rw [if_pos hbx, if_neg hby] at hxy
        exact absurd hxy.symm (hclear i x hx hbx y (List.mem_of_getElem? hy))
    · by_cases hby : becomes j y = true
      · rw [if_neg hbx, if_pos hby] at hxy
        exact absurd hxy (hclear j y hy hby x (List.mem_of_getElem? hx))
      · rw [if_neg hbx, if_neg hby] at hxy
        exact hsame hx hy hxy

theorem members_inheritDocs {r : Registry} (hr : r.Reliable) {i : Nat} {c done : ClassDoc}
    (hc : r.classes[i]? = some c) (hdone : r.inheritDocs.1.classes[i]? = some done) :
    done.members = c.members.mapIdx fun k m => outcome r ⟨i, k⟩ m := by
  rw [classes_inheritDocs, List.getElem?_mapIdx, hc, Option.map_some] at hdone
  rw [← Option.some.inj hdone]
  exact List.mapIdx_eq_mapIdx_iff.2 fun k _ =>
    outcome_renumber (looksAlike_lookedAll hr []) ⟨i, k⟩ _

/-- The ids in a class are different ones after the pass if they are made of different things. -/
theorem nodup_ids_inheritDocs {r : Registry} (hr : r.Reliable) {i : Nat} {c done : ClassDoc}
    (hc : r.classes[i]? = some c) (hdone : r.inheritDocs.1.classes[i]? = some done) :
    (done.members.map Member.id).Nodup ↔
      (c.members.mapIdx fun k m =>
        (m.isStatic, if becomesOption r ⟨i, k⟩ m then EntityKind.config else m.kind, m.name)).Nodup := by
  rw [nodup_ids_iff (id_inheritDocs r done (List.mem_of_getElem? hdone)), members_inheritDocs hr hc hdone,
    map_mapIdx]
  have hidentities : (c.members.mapIdx fun k m => (outcome r ⟨i, k⟩ m).identity) =
      c.members.mapIdx fun k m =>
        (m.isStatic, if becomesOption r ⟨i, k⟩ m then EntityKind.config else m.kind, m.name) := by
    refine List.mapIdx_eq_mapIdx_iff.2 fun k hk => identity_outcome ?_
    rw [member?, classAt?, hc, Option.bind_some]
    exact List.getElem?_eq_getElem hk
  rw [hidentities]

end InheritedDocs

namespace Member

/-- What the last passes over the members of a class leave alone. -/
def traits (m : Member) : (String × Bool × EntityKind × String) × Bool × Option InheritRef :=
  (m.label, m.inferred.member, m.inheritdoc)

theorem traits_withFires (methods : List Member) (m : Member) :
    (m.withFires methods).traits = m.traits := by
  obtain ⟨_, _, hframe⟩ := m.withFires_frame methods
  rw [hframe]
  rfl

end Member

theorem traits_completed (c : ClassDoc) :
    c.withFires.withTypes.members.map Member.traits = c.members.map Member.traits := by
  have hread : c.withFires.withTypes.members =
      c.members.map fun m => (m.withFires (c.members.filter (·.kind == .method))).withTypes :=
    List.map_map
  rw [hread, List.map_map]
  exact List.map_congr_left fun m _ => Member.traits_withFires _ m

theorem frame_prepared (withOptions : Bool) (c : ClassDoc) :
    ∃ members, prepared withOptions c = { c with members } := by
  refine ⟨(prepared withOptions c).members, ?_⟩
  cases withOptions with
  | true => rfl
  | false => rfl

namespace Enumeration

/-- The values that a pattern asks for do not depend on the members of classes. -/
theorem aliasMembers_prepared (withOptions : Bool) (owner pattern : String) (classes : List ClassDoc) :
    aliasMembers owner (classes.map (prepared withOptions)) pattern =
      aliasMembers owner classes pattern := by
  refine aliasMembers_congr ?_ owner pattern
  rw [List.map_map]
  refine List.map_congr_left fun c _ => ?_
  obtain ⟨members, hframe⟩ := frame_prepared withOptions c
  rw [Function.comp_apply, hframe]
  rfl

/-- The values of an enumeration that is complete are told apart by what they are called. -/
theorem identities_completed (withOptions : Bool) (classes : List ClassDoc) {c : ClassDoc}
    {info : EnumInfo} (hinfo : c.enumInfo = some info) :
    (completed withOptions classes c).members.map Member.identity =
      (valueNames classes c.claimMembers.withAccessors info).map fun v => (v.1, .property, v.2) := by
  have hlabels : ∀ xs ys : List Member, xs.map Member.label = ys.map Member.label →
      (xs.filter fun m => m.kind != .event).map (fun m => (m.isStatic, EntityKind.property, m.name)) =
        (ys.filter fun m => m.kind != .event).map
          fun m => (m.isStatic, EntityKind.property, m.name) := by
    intro xs ys h
    have hread : ∀ ms : List Member,
        (ms.filter fun m => m.kind != .event).map
            (fun m => (m.isStatic, EntityKind.property, m.name)) =
          ((ms.map Member.label).filter fun l => l.2.2.1 != .event).map
            fun l => (l.2.1, EntityKind.property, l.2.2.2) := by
      intro ms
      rw [List.filter_map, List.map_map]
      rfl
    rw [hread, hread, h]
  have htraits : ∀ ms : List Member, ms.map Member.identity =
      (ms.map Member.traits).map fun t => t.1.2 := by
    intro ms
    rw [List.map_map]
    rfl
  obtain ⟨members, hframe⟩ := frame_prepared withOptions c
  have hname : (prepared withOptions c).name = c.name := by rw [hframe]
  have hready : (prepared withOptions c).enumInfo = some info := by rw [hframe]; exact hinfo
  have hfound : (info.pattern.map (aliasMembers (prepared withOptions c).name
      (classes.map (prepared withOptions)))).getD [] =
      (info.pattern.map (aliasMembers c.name classes)).getD [] := by
    rw [hname, funext (aliasMembers_prepared withOptions c.name · classes)]
  rw [completed, htraits, traits_completed, ← htraits, complete_of_enumInfo _ hready, hfound,
    normalize, valueNames, List.map_map, List.map_map]
  refine hlabels _ _ ?_
  rw [List.map_append, List.map_append, ClassDoc.labels_prepared]
  rfl

/-- Values that come from code alone refer to nothing. -/
theorem inheritdoc_completed (withOptions : Bool) (classes : List ClassDoc) {c : ClassDoc}
    {info : EnumInfo} (hinfo : c.enumInfo = some info) {m : Member}
    (hm : m ∈ (completed withOptions classes c).members) (hcode : m.inferred.member = true) :
    m.inheritdoc = none := by
  obtain ⟨members, hframe⟩ := frame_prepared withOptions c
  have hready : (prepared withOptions c).enumInfo = some info := by rw [hframe]; exact hinfo
  have htraits := List.mem_map_of_mem (f := Member.traits) hm
  rw [completed, traits_completed, complete_of_enumInfo _ hready, normalize, List.map_map] at htraits
  obtain ⟨value, -, hsame⟩ := List.mem_map.1 htraits
  obtain ⟨-, hrest⟩ := Prod.mk.inj hsame
  obtain ⟨hinferred, hinheritdoc⟩ := Prod.mk.inj hrest
  rw [← hinheritdoc]
  exact if_pos (hinferred.trans hcode)

end Enumeration

theorem distinctIds_completed (withOptions : Bool) (classes : List ClassDoc) {c : ClassDoc}
    (hinfo : c.enumInfo = none) (h : c.DistinctIds) :
    (completed withOptions classes c).DistinctIds := by
  have hready : (Enumeration.complete (classes.map (prepared withOptions))
      (prepared withOptions c)).1 = prepared withOptions c := by
    obtain ⟨members, hframe⟩ := frame_prepared withOptions c
    rw [hframe]
    exact Enumeration.complete_of_plain _ hinfo
  refine (h.prepared withOptions).congr ?_
  have hlabels := congrArg (List.map Prod.fst) (traits_completed (prepared withOptions c))
  rw [List.map_map, List.map_map] at hlabels
  rw [completed, hready]
  exact hlabels

open InheritedDocs Registry in
/-- Of classes whose members have different ids, overrides, accessors, return values and the options of
events leave the ids different.  So in the finished registry the members of an enumeration have different
ids exactly if its values, all of which became properties, are called differently; and those of another
class exactly if no property that became an option meets an option of its name. -/
theorem nodup_ids_iff_no_collision {classes : List ClassDoc} (hids : ∀ c ∈ classes, c.DistinctIds)
    {options : AssemblyOptions} {ignored : List String} {made : Registry}
    (h : (build (completeMembers options (Override.absorb classes).1.1).1 ignored).1 = .ok made) :
    let kept := (Override.absorb classes).1.1
    (completeInheritance options (completeMembers options kept).1 ignored).1 =
        .ok made.inheritDocs.1 ∧
      made.inheritDocs.1.classes.length = kept.length ∧
      ∀ (i : Nat) (c done : ClassDoc), kept[i]? = some c →
        made.inheritDocs.1.classes[i]? = some done →
        ((done.members.map Member.id).Nodup ↔
          match c.enumInfo with
          | some info =>
            (Enumeration.valueNames kept c.claimMembers.withAccessors info).Nodup
          | none =>
            ∀ k m, made.member? ⟨i, k⟩ = some m → becomesOption made ⟨i, k⟩ m = true →
              ∀ l d, made.member? ⟨i, l⟩ = some d → d.identity ≠ (m.isStatic, .config, m.name)) := by
  intro kept
  have hclasses : made.classes = (completeMembers options kept).1 := by
    obtain ⟨-, rfl⟩ := build_eq_ok_iff.1 h
    rfl
  refine ⟨?_, ?_, fun i c done hc hdone => ?_⟩
  · rw [completeInheritance, h]
  · rw [classes_inheritDocs, List.length_mapIdx, hclasses, completeMembers_eq, List.length_map]
  · rw [completeMembers_eq] at hclasses
    have hready : ∃ w, made.classes[i]? = some (completed w kept c) :=
      ⟨_, by rw [hclasses, List.getElem?_map, hc, Option.map_some]⟩
    obtain ⟨w, hready⟩ := hready
    rw [nodup_ids_inheritDocs (reliable_of_build h) hready hdone]
    have hmember : ∀ k, made.member? ⟨i, k⟩ = (completed w kept c).members[k]? := by
      intro k
      rw [member?, classAt?, hready, Option.bind_some]
    cases hinfo : c.enumInfo with
    | some info =>
      have hsame : ((completed w kept c).members.mapIdx fun k m => (m.isStatic,
          if becomesOption made ⟨i, k⟩ m then EntityKind.config else m.kind, m.name)) =
          (completed w kept c).members.map Member.identity := by
        refine List.ext_getElem? fun k => ?_
        rw [List.getElem?_mapIdx, List.getElem?_map]
        cases hm : (completed w kept c).members[k]? with
        | none => rw [Option.map_none, Option.map_none]
        | some m =>
          have hcode := Enumeration.inheritdoc_completed w kept hinfo (List.mem_of_getElem? hm)
          rw [Option.map_some, Option.map_some, becomesOption_eq_false ((hmember k).trans hm) hcode,
            if_neg Bool.false_ne_true, Member.identity]
      rw [hsame, Enumeration.identities_completed w kept hinfo]
      refine List.nodup_map_iff fun v v' hv => ?_
      obtain ⟨hstatic, hrest⟩ := Prod.mk.inj hv
      exact Prod.ext hstatic (Prod.mk.inj hrest).2
    | none =>
      have hdistinct := distinctIds_completed w kept hinfo
        (Override.distinctIds_absorb hids c (List.mem_of_getElem? hc))
      rw [nodup_becoming_iff ((nodup_ids_iff hdistinct.current).1 hdistinct.nodup)
        fun k m => kind_of_becomesOption]
      refine forall₂_congr fun k m => ?_
      rw [hmember]
      refine imp_congr_right fun _ => imp_congr_right fun _ => ?_
      constructor
      · intro hclear l d hd
        rw [hmember] at hd
        exact hclear d (List.mem_of_getElem? hd)
      · intro hclear d hd
        obtain ⟨l, hl⟩ := List.getElem?_of_mem hd
        exact hclear l d ((hmember l).trans hl)

/-- An enumeration with an option and a property of one name, and a class with an option and a property
of one name of which the property inherits from an option. -/
def clashing : List ClassDoc :=
  [{ name := "Colours", enumInfo := some {}
     members := [Member.ofName .config "red", Member.ofName .property "red"] },
   { name := "Shape", members := [Member.ofName .config "width"] },
   { name := "Square", parent := some "Shape"
     members :=
      [Member.ofName .config "width",
        { Member.ofName .property "width" with
          inferred := { member := true }, inheritdoc := some {} }] }]

theorem distinctIds_clashing : ∀ c ∈ clashing, c.DistinctIds := by
  have hcurrent : ∀ c ∈ clashing, ∀ m ∈ c.members, m.id = m.currentId := by decide
  have hnodup : ∀ c ∈ clashing, (c.members.map Member.id).Nodup := by decide
  exact fun c hc => ⟨hcurrent c hc, hnodup c hc⟩

def clashingRegistry : Registry :=
  { classes := (completeMembers {} clashing).1
    names := Registry.namesOf (completeMembers {} clashing).1
    links := Registry.linksOf (Registry.namesOf (completeMembers {} clashing).1)
      (completeMembers {} clashing).1 }

theorem build_clashing :
    (Registry.build (completeMembers {} (Override.absorb clashing).1.1).1 []).1 =
      .ok clashingRegistry :=
  Registry.build_eq_ok_iff.2 ⟨by decide, rfl⟩

theorem nodup_ids_clashing :
    (∀ c ∈ clashing, c.DistinctIds) ∧
      (Registry.build (completeMembers {} (Override.absorb clashing).1.1).1 []).1 =
        .ok clashingRegistry ∧
      (∀ done, clashingRegistry.inheritDocs.1.classes[1]? = some done →
        (done.members.map Member.id).Nodup) ∧
      ∀ done, clashingRegistry.inheritDocs.1.classes[2]? = some done →
        ¬ (done.members.map Member.id).Nodup := by
  obtain ⟨-, -, hiff⟩ := nodup_ids_iff_no_collision distinctIds_clashing build_clashing
  refine ⟨distinctIds_clashing, build_clashing, fun done hdone => ?_, fun done hdone hnodup => ?_⟩
  · refine (hiff 1 _ done rfl hdone).2 fun k m hm hbecomes => ?_
    cases k with
    | zero =>
      obtain rfl := Option.some.inj hm
      exact absurd (InheritedDocs.kind_of_becomesOption hbecomes) (by decide)
    | succ k =>
      have hnone : clashingRegistry.member? ⟨1, k + 1⟩ = none := rfl
      exact absurd (hm.symm.trans hnone) (by simp)
  · exact (hiff 2 _ done rfl hdone).1 hnodup 1 _ rfl (by decide) 0 _ rfl (by decide)

/-- All ids were different ones, and two classes have an id twice. -/
theorem repeated_ids :
    (∀ c ∈ clashing, c.DistinctIds) ∧
      (completeInheritance {} (completeMembers {} (Override.absorb clashing).1.1).1 []).1 =
        .ok clashingRegistry.inheritDocs.1 ∧
      clashingRegistry.inheritDocs.1.classes.map (fun c => c.members.map Member.id) =
        [["property-red", "property-red"], ["cfg-width"], ["cfg-width", "cfg-width"]] := by
  refine ⟨distinctIds_clashing, ?_, by decide⟩
  rw [completeInheritance, build_clashing]

end ApiDoc
