/-
Members belong to the class that holds them.

When classes claim their members, every member gets its owner.  Whatever is added or changed later
keeps it so, and no pass renames a class (`KeepsOwners`, `SameOwners`).  Together with the names of the
classes being different ones, the owner of a member leads back to its class (`owners_resolve`).
-/
import ApiDoc.Proofs.Assembly.Names
import ApiDoc.Proofs.Assembly.Passes
import ApiDoc.Proofs.Inheritance.Build

namespace ApiDoc

/-- Every member belongs to the class. -/
def ClassDoc.Owns (c : ClassDoc) : Prop := ∀ m ∈ c.members, m.owner = c.name

/-- A pass over classes that renames none and leaves no member without its owner. -/
structure KeepsOwners (f : ClassDoc → ClassDoc) : Prop where
  name : ∀ c, (f c).name = c.name
  owns : ∀ c, c.Owns → (f c).Owns

theorem KeepsOwners.comp {f g : ClassDoc → ClassDoc} (hf : KeepsOwners f) (hg : KeepsOwners g) :
    KeepsOwners fun c => f (g c) :=
  ⟨fun c => (hf.name (g c)).trans (hg.name c), fun c h => hf.owns (g c) (hg.owns c h)⟩

theorem keepsOwners_map {f : ClassDoc → Member → Member} (hf : ∀ c m, (f c m).owner = m.owner) :
    KeepsOwners fun c => { c with members := c.members.map (f c) } := by
  refine ⟨fun c => rfl, fun c h m hm => ?_⟩
  obtain ⟨old, hold, rfl⟩ := List.mem_map.1 hm
  rw [hf]
  exact h old hold

theorem owns_claimMembers (c : ClassDoc) : c.claimMembers.Owns := by
  intro m hm
  obtain ⟨old, -, rfl⟩ := List.mem_map.1 hm
  rfl

theorem keepsOwners_withAccessors : KeepsOwners ClassDoc.withAccessors := by
  refine ⟨fun c => rfl, fun c h m hm => ?_⟩
  rcases ClassDoc.mem_withAccessors hm with hold | ⟨option, hoption, hderived⟩
  · exact h m hold
  · rw [hderived.owner]
    exact h option hoption

theorem keepsOwners_withReturns : KeepsOwners ClassDoc.withReturns := by
  refine keepsOwners_map fun c m => ?_
  obtain ⟨_, _, hframe⟩ := m.withReturn_frame c.name
  rw [hframe]

theorem keepsOwners_withEventOptions : KeepsOwners ClassDoc.withEventOptions := by
  refine keepsOwners_map (f := fun _ => Member.withEventOptions) fun c m => ?_
  obtain ⟨_, hframe⟩ := m.withEventOptions_frame
  rw [hframe]

theorem keepsOwners_withFires : KeepsOwners ClassDoc.withFires := by
  refine keepsOwners_map fun c m => ?_
  obtain ⟨_, _, hframe⟩ := m.withFires_frame (c.members.filter (·.kind == .method))
  rw [hframe]

theorem keepsOwners_withTypes : KeepsOwners ClassDoc.withTypes :=
  keepsOwners_map (f := fun _ => Member.withTypes) fun _ _ => rfl

/-- An enumeration owns the values that it had and those that its pattern asks for. -/
theorem keepsOwners_complete (classes : List ClassDoc) :
    KeepsOwners fun c => (Enumeration.complete classes c).1 := by
  have hname : ∀ c : ClassDoc, (Enumeration.complete classes c).1.name = c.name := by
    intro c
    obtain ⟨_, _, _, hframe⟩ := Enumeration.complete_frame classes c
    rw [hframe]
  refine ⟨hname, fun c h => ?_⟩
  cases hinfo : c.enumInfo with
  | none =>
    rw [Enumeration.complete_of_plain classes hinfo]
    exact h
  | some info =>
    intro m hm
    rw [hname]
    obtain ⟨_, value, rfl, ⟨hold, -⟩ | ⟨d, -, text, rfl⟩⟩ := Enumeration.exists_value hinfo hm
    · exact h value hold
    · rfl

theorem KeepsOwners.map_name {f : ClassDoc → ClassDoc} (hf : KeepsOwners f)
    (classes : List ClassDoc) : (classes.map f).map ClassDoc.name = classes.map ClassDoc.name := by
  rw [List.map_map]
  exact List.map_congr_left fun c _ => hf.name c

theorem KeepsOwners.map_owns {f : ClassDoc → ClassDoc} (hf : KeepsOwners f)
    {classes : List ClassDoc} (h : ∀ c ∈ classes, c.Owns) : ∀ c ∈ classes.map f, c.Owns := by
  intro c hc
  obtain ⟨old, hold, rfl⟩ := List.mem_map.1 hc
  exact hf.owns old (h old hold)

theorem owns_completeMembers (options : AssemblyOptions) (classes : List ClassDoc) :
    (completeMembers options classes).1.map ClassDoc.name = classes.map ClassDoc.name ∧
      ∀ c ∈ (completeMembers options classes).1, c.Owns := by
  have hclaimed : ∀ c ∈ classes.map fun c => c.claimMembers.withAccessors, c.Owns := by
    intro c hc
    obtain ⟨old, -, rfl⟩ := List.mem_map.1 hc
    exact keepsOwners_withAccessors.owns _ (owns_claimMembers old)
  have hnames : (classes.map fun c => c.claimMembers.withAccessors).map ClassDoc.name =
      classes.map ClassDoc.name := by
    rw [List.map_map]
    rfl
  have hreturns : ∀ withOptions : Bool, KeepsOwners fun c : ClassDoc =>
      if withOptions then c.withReturns.withEventOptions else c.withReturns := by
    intro withOptions
    cases withOptions with
    | false => exact keepsOwners_withReturns
    | true => exact keepsOwners_withEventOptions.comp keepsOwners_withReturns
  have henumerations : ∀ cs : List ClassDoc, (Enumeration.completeAll cs).1 =
      cs.map fun c => (Enumeration.complete cs c).1 := by
    intro cs
    rw [Enumeration.completeAll, List.map_map]
    rfl
  have hlast := keepsOwners_withTypes.comp keepsOwners_withFires
  unfold completeMembers
  dsimp only
  rw [henumerations]
  refine ⟨?_, ?_⟩
  · rw [hlast.map_name, (keepsOwners_complete _).map_name, (hreturns _).map_name, hnames]
  · exact hlast.map_owns ((keepsOwners_complete _).map_owns ((hreturns _).map_owns hclaimed))

namespace Registry

/-- What resolving inheritance leaves as it is, and that classes go on owning their members. -/
structure SameOwners (r r' : Registry) : Prop where
  names : r'.names = r.names
  ignored : r'.ignored = r.ignored
  heads : r'.classes.map ClassDoc.name = r.classes.map ClassDoc.name
  owns : (∀ c ∈ r.classes, c.Owns) → ∀ c ∈ r'.classes, c.Owns

theorem SameOwners.refl (r : Registry) : SameOwners r r := ⟨rfl, rfl, rfl, fun h => h⟩

theorem SameOwners.trans {a b c : Registry} (h : SameOwners a b) (h' : SameOwners b c) :
    SameOwners a c :=
  ⟨h'.names.trans h.names, h'.ignored.trans h.ignored, h'.heads.trans h.heads,
    fun howns => h'.owns (h.owns howns)⟩

theorem sameOwners_foldl {α : Type} (step : Registry → α → Registry)
    (hstep : ∀ r x, SameOwners r (step r x)) (xs : List α) (r : Registry) :
    SameOwners r (xs.foldl step r) := by
  induction xs generalizing r with
  | nil => exact SameOwners.refl r
  | cons x xs ih => exact (hstep r x).trans (ih (step r x))

theorem sameOwners_modifyAt {f : ClassDoc → ClassDoc} (hf : KeepsOwners f) (r : Registry) (i : Nat) :
    SameOwners r (r.modifyAt i f) := by
  refine ⟨rfl, rfl, map_modify_of_same hf.name r.classes i, fun h c hc => ?_⟩
  obtain ⟨k, hk⟩ := List.getElem?_of_mem hc
  rw [modifyAt, List.getElem?_modify] at hk
  obtain ⟨old, hold, rfl⟩ := Option.map_eq_some_iff.1 hk
  have howns := h old (List.mem_of_getElem? hold)
  split
  · exact hf.owns old howns
  · exact howns

theorem keepsOwners_modify {f : Member → Member} (hf : ∀ m, (f m).owner = m.owner) (i : Nat) :
    KeepsOwners fun c => { c with members := c.members.modify i f } := by
  refine ⟨fun c => rfl, fun c h m hm => ?_⟩
  obtain ⟨k, hk⟩ := List.getElem?_of_mem hm
  rw [List.getElem?_modify] at hk
  obtain ⟨old, hold, rfl⟩ := Option.map_eq_some_iff.1 hk
  have howner : old.owner = c.name := h old (List.mem_of_getElem? hold)
  show (if i = k then f old else old).owner = c.name
  split
  · rw [hf]
    exact howner
  · exact howner

theorem owner_apply (m : Member) (change : InheritedDocs.MemberChange) :
    (change.apply m).owner = m.owner := by
  cases change with
  | makePrivate => rfl
  | inherit h =>
    show (m.inherit h).owner = m.owner
    unfold Member.inherit
    split
    · rfl
    · rfl

theorem sameOwners_applyClass (r : Registry) (change : InheritedDocs.ClassChange) :
    SameOwners r (InheritedDocs.applyClass r change) := by
  have hdoc : KeepsOwners fun c =>
      { c with doc := if c.doc.isEmpty then change.doc else c.doc } := ⟨fun c => rfl, fun c h => h⟩
  unfold InheritedDocs.applyClass
  split
  · exact sameOwners_modifyAt hdoc r _
  · exact SameOwners.refl r

theorem keepsOwners_refreshClass : KeepsOwners refreshClass :=
  keepsOwners_map (f := fun _ => Member.refreshId) fun _ _ => rfl

/-- Resolving references to documentation moves no member and renames no class. -/
theorem sameOwners_inheritDocs (r : Registry) : SameOwners r r.inheritDocs.1 := by
  have hmembers := sameOwners_foldl InheritedDocs.applyMember
    (fun r change => sameOwners_modifyAt
      (keepsOwners_modify (fun m => owner_apply m change.2) change.1.memberAt) r change.1.classAt)
    (InheritedDocs.changes r).1.members r
  have hclasses := sameOwners_foldl InheritedDocs.applyClass sameOwners_applyClass
    (InheritedDocs.changes r).1.classes
    ((InheritedDocs.changes r).1.members.foldl InheritedDocs.applyMember r)
  have hrefreshed : ∀ r : Registry, SameOwners r r.refreshAll := fun r =>
    ⟨rfl, rfl, keepsOwners_refreshClass.map_name r.classes, keepsOwners_refreshClass.map_owns⟩
  exact (hmembers.trans hclasses).trans (hrefreshed _)

theorem id_inheritDocs (r : Registry) :
    ∀ c ∈ r.inheritDocs.1.classes, ∀ m ∈ c.members, m.id = m.currentId := by
  intro c hc m hm
  obtain ⟨old, -, rfl⟩ := List.mem_map.1 hc
  obtain ⟨stale, -, rfl⟩ := List.mem_map.1 hm
  rfl

theorem standsFor?_name {classes : List ClassDoc} (h : (classes.map ClassDoc.name).Nodup) {i : Nat}
    {c : ClassDoc} (hc : classes[i]? = some c) : standsFor? classes c.name = some i := by
  obtain ⟨hi, rfl⟩ := List.getElem?_eq_some_iff.1 hc
  have hfirst : (classes.findIdx? fun d => d.name == (classes[i]).name) = some i := by
    rw [List.findIdx?_eq_some_iff_getElem]
    refine ⟨hi, beq_self_eq_true _, fun j hj hsame => ?_⟩
    have hne := List.nodup_iff_getElem?_ne_getElem?.1 h j i hj (by simpa using hi)
    refine hne ?_
    rw [List.getElem?_map, List.getElem?_map, List.getElem?_eq_getElem hi,
      List.getElem?_eq_getElem (Nat.lt_trans hj hi), Option.map_some, Option.map_some,
      eq_of_beq hsame]
  rw [standsFor?, hfirst]
  rfl

theorem find?_name_of_build {classes : List ClassDoc} {ignored : List String} {r : Registry}
    (h : (build classes ignored).1 = .ok r) (hnodup : (classes.map ClassDoc.name).Nodup) :
    r.classes = classes ∧
      ∀ (i : Nat) (c : ClassDoc), r.classes[i]? = some c → r.find? c.name = some i := by
  obtain ⟨-, rfl⟩ := build_eq_ok_iff.1 h
  refine ⟨rfl, fun i c hc => ?_⟩
  rw [find?, lookup_namesOf]
  exact standsFor?_name hnodup hc

/-- A registry in which owners lead to classes. -/
structure Owned (r : Registry) : Prop where
  nodup : (r.classes.map ClassDoc.name).Nodup
  notIgnored : ∀ c ∈ r.classes, r.isIgnored c.name = false
  find : ∀ (i : Nat) (c : ClassDoc), r.classes[i]? = some c → r.find? c.name = some i
  owns : ∀ c ∈ r.classes, c.Owns

/-- A registry that is made of classes with different names which own their members. -/
theorem owned_of_build {classes : List ClassDoc} {ignored : List String} {r : Registry}
    (h : (build classes ignored).1 = .ok r) (hnodup : (classes.map ClassDoc.name).Nodup)
    (hignored : ∀ c ∈ classes, c.name ∉ ignored) (howns : ∀ c ∈ classes, c.Owns) : r.Owned := by
  obtain ⟨-, rfl⟩ := build_eq_ok_iff.1 h
  refine ⟨hnodup, fun c hc => ?_, fun i c hc => ?_, howns⟩
  · show ignored.contains c.name = false
    simpa using hignored c hc
  · show (namesOf classes).lookup c.name = some i
    rw [lookup_namesOf]
    exact standsFor?_name hnodup hc

theorem Owned.sameOwners {r r' : Registry} (h : r.Owned) (hs : SameOwners r r') : r'.Owned := by
  have hsameName : ∀ (i : Nat) (c : ClassDoc), r'.classes[i]? = some c →
      ∃ old, r.classes[i]? = some old ∧ old.name = c.name := by
    intro i c hc
    have hget : (r.classes.map ClassDoc.name)[i]? = some c.name := by
      rw [← hs.heads, List.getElem?_map, hc]
      rfl
    rw [List.getElem?_map] at hget
    exact Option.map_eq_some_iff.1 hget
  refine ⟨by rw [hs.heads]; exact h.nodup, fun c hc => ?_, fun i c hc => ?_, hs.owns h.owns⟩
  · obtain ⟨i, hi⟩ := List.getElem?_of_mem hc
    obtain ⟨old, hold, hname⟩ := hsameName i c hi
    rw [isIgnored, hs.ignored, ← hname]
    exact h.notIgnored old (List.mem_of_getElem? hold)
  · obtain ⟨old, hold, hname⟩ := hsameName i c hc
    rw [find?, hs.names, ← hname]
    exact h.find i old hold

theorem Owned.get?_name {r : Registry} (h : r.Owned) {i : Nat} {c : ClassDoc}
    (hc : r.classes[i]? = some c) : r.get? c.name = some c := by
  rw [get?, h.find i c hc]
  exact hc

theorem foldl_looked_frame (earlier : List Nat) (r : Registry) :
    (earlier.foldl looked r).classes = r.classes ∧ (earlier.foldl looked r).names = r.names ∧
      (earlier.foldl looked r).ignored = r.ignored := by
  induction earlier generalizing r with
  | nil => exact ⟨rfl, rfl, rfl⟩
  | cons i earlier ih => exact ih (r.looked i)

theorem Owned.looked {r : Registry} (h : r.Owned) (earlier : List Nat) :
    (earlier.foldl Registry.looked r).Owned := by
  obtain ⟨hclasses, hnames, hignored⟩ := foldl_looked_frame earlier r
  exact h.sameOwners ⟨hnames, hignored, by rw [hclasses], by rw [hclasses]; exact fun h => h⟩

/-- The owner of a member that is found leads to the class that holds the member. -/
theorem Owned.findMembers {r : Registry} (h : r.Owned) {i : Nat} {q : MemberQuery} {m : Member}
    (hm : m ∈ r.findMembers i q) :
    ∃ ref c, ref ∈ r.findRefs i q ∧ r.find? m.owner = some ref.classAt ∧
      r.get? m.owner = some c ∧ c.members[ref.memberAt]? = some m := by
  obtain ⟨ref, href, hmember⟩ := List.mem_filterMap.1 hm
  obtain ⟨c, hc, hplace⟩ := Option.bind_eq_some_iff.1 hmember
  have howner := h.owns c (List.mem_of_getElem? hc) m (List.mem_of_getElem? hplace)
  refine ⟨ref, c, href, ?_, ?_, hplace⟩
  · rw [howner]
    exact h.find ref.classAt c hc
  · rw [howner]
    exact h.get?_name hc

end Registry

theorem completeInheritance_eq_ok {options : AssemblyOptions} {classes : List ClassDoc}
    {ignored : List String} {r : Registry}
    (h : (completeInheritance options classes ignored).1 = .ok r) :
    ∃ made : Registry, (Registry.build classes ignored).1 = .ok made ∧ r = made.inheritDocs.1 := by
  unfold completeInheritance at h
  dsimp only at h
  cases hb : (Registry.build classes ignored).1 with
  | error e =>
    rw [hb] at h
    exact absurd h (by simp)
  | ok made =>
    rw [hb] at h
    exact ⟨made, rfl, (Except.ok.inj h).symm⟩

namespace Grouping
open Registry

theorem finish_fst (g : Grouping) (options : AssemblyOptions) :
    (g.finish options).1 =
      (completeInheritance options (completeMembers options g.resolve.1.1).1 g.resolve.1.2).1 := by
  rw [finish]

/-- In a registry that is made of files owners lead to classes, and ids are up to date. -/
theorem owned_finish {files : Files} {options : AssemblyOptions} {r : Registry}
    (h : ((ofFiles files).finish options).1 = .ok r) :
    r.Owned ∧ ∀ c ∈ r.classes, ∀ m ∈ c.members, m.id = m.currentId := by
  obtain ⟨hnodup, hignored⟩ := names_resolve files
  obtain ⟨hheads, howns⟩ := owns_completeMembers options (ofFiles files).resolve.1.1
  rw [finish_fst] at h
  obtain ⟨made, hmade, rfl⟩ := completeInheritance_eq_ok h
  refine ⟨?_, id_inheritDocs made⟩
  have hkept : ∀ c ∈ (completeMembers options (ofFiles files).resolve.1.1).1,
      c.name ∉ (ofFiles files).resolve.1.2 := by
    intro c hc
    have hname := List.mem_map_of_mem (f := ClassDoc.name) hc
    rw [hheads] at hname
    obtain ⟨old, hold, hsame⟩ := List.mem_map.1 hname
    rw [← hsame]
    exact hignored old hold
  exact (owned_of_build hmade (hheads ▸ hnodup) hkept howns).sameOwners (sameOwners_inheritDocs made)

/-- In every registry that is made of files the classes have different names, of which none is
ignored, and each name leads to its class.  Every member has the name of its class for its owner and
an id that is up to date.  So whatever is looked up, before or now, the owner of a member that is
found leads to the class that holds it. -/
theorem owners_resolve {files : Files} {options : AssemblyOptions} {r : Registry}
    (h : ((ofFiles files).finish options).1 = .ok r) :
    (r.classes.map ClassDoc.name).Nodup ∧
      (∀ c ∈ r.classes, r.isIgnored c.name = false ∧ r.get? c.name = some c) ∧
      (∀ (i : Nat) (c : ClassDoc), r.classes[i]? = some c → r.find? c.name = some i) ∧
      (∀ c ∈ r.classes, ∀ m ∈ c.members, m.owner = c.name ∧ m.id = m.currentId) ∧
      ∀ (earlier : List Nat) (i : Nat) (q : MemberQuery),
        ∀ m ∈ (earlier.foldl looked r).findMembers i q,
          ∃ ref c, ref ∈ (earlier.foldl looked r).findRefs i q ∧
            (earlier.foldl looked r).find? m.owner = some ref.classAt ∧
            (earlier.foldl looked r).get? m.owner = some c ∧ c.members[ref.memberAt]? = some m := by
  obtain ⟨howned, hids⟩ := owned_finish h
  refine ⟨howned.nodup, ?_, howned.find, ?_, ?_⟩
  · intro c hc
    obtain ⟨i, hi⟩ := List.getElem?_of_mem hc
    exact ⟨howned.notIgnored c hc, howned.get?_name hi⟩
  · intro c hc m hm
    exact ⟨howned.owns c hc m hm, hids c hc m hm⟩
  · intro earlier i q m hm
    exact (howned.looked earlier).findMembers hm

/-- Files whose members carry owners and ids that are of no use. -/
def strayFiles : Files :=
  [("a.js",
    [{ entity := .ofClass { name := "Base", alternateNames := ["Old"] } },
      { entity :=
          .ofMember { kind := .property, name := "size", id := "stale", owner := "Nobody" } }]),
   ("b.js",
    [{ entity := .ofMember { kind := .property, name := "late" }, memberOf := some "Child" },
      { entity := .ofClass { name := "Child", parent := some "Old" } },
      { entity := .ofMember { kind := .config, name := "width", owner := "Base" } }])]

def strayRegistry : Registry :=
  match ((ofFiles strayFiles).finish {}).1 with
  | .ok r => r
  | .error _ => {}

theorem finish_strayFiles : ((ofFiles strayFiles).finish {}).1 = .ok strayRegistry := by
  rfl

theorem owners_strayFiles :
    ((ofFiles strayFiles).finish {}).1 = .ok strayRegistry ∧
      (∀ c ∈ strayRegistry.classes, ∀ m ∈ c.members, m.owner = c.name ∧ m.id = m.currentId) ∧
      ∀ m ∈ ([1, 0].foldl looked strayRegistry).findMembers 1 {},
        ∃ c, ([1, 0].foldl looked strayRegistry).get? m.owner = some c ∧ m ∈ c.members := by
  obtain ⟨-, -, -, howners, hfound⟩ := owners_resolve finish_strayFiles
  refine ⟨finish_strayFiles, howners, fun m hm => ?_⟩
  obtain ⟨ref, c, -, -, hc, hplace⟩ := hfound [1, 0] 1 {} m hm
  exact ⟨c, hc, List.mem_of_getElem? hplace⟩

end Grouping
end ApiDoc
