/-
Overrides that reach their targets.

An override is grouped and folded like any other class before it is routed, and of all that went into
one class only the first target counts.  So an override reaches its target if nothing in its family
overrides another class and nothing in the family of the target is an override itself
(`members_reach_target`).  Two overrides without names in one file are a family, and the second one of
them goes to the target of the first (`unnamed_overrides_meet`).
-/
import ApiDoc.Proofs.Assembly.Outline
import ApiDoc.Proofs.Grouping.Origins

namespace ApiDoc

/-- Names from outside are not kin to names among which every class stays. -/
theorem Kin.mem_of_closed {classes : List ClassDoc} {names : List String}
    (hclosed : ∀ c ∈ classes, ∀ a ∈ c.answers, a ∈ names → ∀ b ∈ c.answers, b ∈ names) {a b : String}
    (h : Kin classes a b) (ha : a ∈ names) : b ∈ names := by
  induction h with
  | refl => exact ha
  | tail _ hlinked ih =>
    obtain ⟨c, hc, hfirst, hsecond⟩ := hlinked
    exact hclosed c hc _ hfirst ih _ hsecond

namespace Registry

/-- The first class that answers to a name is the one that the name stands for, unless another class has
the name as its own. -/
theorem standsFor?_of_first {classes : List ClassDoc} {name : String} {i : Nat}
    (hi : (classes.findIdx? fun c => c.answersTo name) = some i) {c : ClassDoc}
    (hc : classes[i]? = some c) (hown : c.name = name ∨ ∀ d ∈ classes, d.name ≠ name) :
    standsFor? classes name = some i := by
  obtain ⟨hlt, hanswers, hfirst⟩ := List.findIdx?_eq_some_iff_getElem.1 hi
  rw [List.getElem?_eq_getElem hlt] at hc
  obtain rfl := Option.some.inj hc
  rcases hown with hname | hnone
  · have hhead : (classes.findIdx? fun c => c.name == name) = some i := by
      rw [List.findIdx?_eq_some_iff_getElem]
      refine ⟨hlt, beq_iff_eq.2 hname, fun j hj hsame => hfirst j hj ?_⟩
      rw [ClassDoc.answersTo, hsame, Bool.true_or]
    rw [standsFor?, hhead]
    rfl
  · have hhead : (classes.findIdx? fun c => c.name == name) = none := by
      rw [List.findIdx?_eq_none_iff]
      exact fun d hd => beq_false_of_ne (hnone d hd)
    have halternate : (classes.findIdx? fun c => c.alternateNames.contains name) = some i := by
      rw [List.findIdx?_eq_some_iff_getElem]
      refine ⟨hlt, ?_, fun j hj hsame => hfirst j hj ?_⟩
      · rwa [ClassDoc.answersTo, beq_false_of_ne (hnone _ (List.getElem_mem hlt)), Bool.false_or,
          List.any_beq'] at hanswers
      · rw [ClassDoc.answersTo, List.any_beq', hsame, Bool.or_true]
    rw [standsFor?, hhead, halternate]
    rfl

end Registry

namespace Grouping

/-- An override entry with a target that entries answer to.  No entry of its family overrides anything
else, and none of the family of the target overrides anything.  The class to which the override goes is
not ignored, and one that answers to the target is not either. -/
structure Reaches (files : Files) (patch : ClassDoc) (target : String) : Prop where
  entry : patch ∈ classEntries files
  overrides : patch.overrideOf = some target
  answered : Known (classEntries files) target
  agrees : ∀ e ∈ classEntries files, Kin (classEntries files) patch.name e.name →
    e.overrideOf = none ∨ e.overrideOf = some target
  plain : ∀ e ∈ classEntries files, Kin (classEntries files) target e.name → e.overrideOf = none
  kept : ∀ c ∈ keptClasses files, patch.name ∈ c.answers → c.name ∉ leftOutNames files
  home : ∃ c ∈ keptClasses files, target ∈ c.answers ∧ c.name ∉ leftOutNames files

section
variable {files : Files}

/-- The members of a class entry are charged to its name. -/
theorem charged_of_entry {e : ClassDoc} (he : e ∈ classEntries files) {m : Member}
    (hm : m ∈ e.members) : (e.name, m) ∈ ledger files := by
  obtain ⟨f, hf, hnamed⟩ := List.mem_flatMap.1 he
  obtain ⟨entry, hentry, hnamed⟩ := List.mem_filterMap.1 hnamed
  obtain ⟨earlier, later, hplace⟩ := List.append_of_mem hentry
  refine mem_ledger.2 ⟨f, hf, earlier, entry, later, hplace, ?_⟩
  obtain ⟨entity, memberOf, isIgnored⟩ := entry
  cases entity with
  | ofMember other => exact absurd hnamed (by simp [namedClass?])
  | ofClass c =>
    rw [charges, hnamed]
    exact List.mem_map_of_mem hm

/-- The classes that are left and not ignored. -/
def remaining (files : Files) : List ClassDoc :=
  (keptClasses files).filter fun c =>
    !((ofFiles files).settleAll.1.ignored ++
      (Unified.ofClasses (ofFiles files).settleAll.1.classes).1.folded).contains c.name

theorem mem_remaining {kept : ClassDoc} (hkept : kept ∈ keptClasses files)
    (hname : kept.name ∉ leftOutNames files) : kept ∈ remaining files := by
  have hnodup := (Unified.names_folded_perm (ofFiles files).settleAll.1.classes).nodup_iff.2
    (nodup_settleAll files)
  have hfolded : kept.name ∉
      (Unified.ofClasses (ofFiles files).settleAll.1.classes).1.folded := fun hmem =>
    (List.nodup_append.1 hnodup).2.2 _ (List.mem_map_of_mem hkept) _ hmem rfl
  refine List.mem_filter.2 ⟨hkept, ?_⟩
  rw [(agrees_settleAll files).1.ignored]
  simp [hname, hfolded]

section
variable {patch : ClassDoc} {target : String}

/-- The class to which the override has come is an override of the same target. -/
theorem Reaches.remains (hr : Reaches files patch target) {kept : ClassDoc}
    (hkept : kept ∈ keptClasses files) (hname : patch.name ∈ kept.answers)
    (hoverride : kept.overrideOf.isSome) :
    kept ∈ remaining files ∧ kept.overrideOf = some target := by
  have hknown : Known (classEntries files) patch.name := ⟨patch, hr.entry, List.mem_cons_self⟩
  refine ⟨mem_remaining hkept (hr.kept kept hkept hname), ?_⟩
  obtain ⟨found, hfound⟩ := Option.isSome_iff_exists.1 hoverride
  obtain ⟨other, hother, hkin, htarget⟩ := overrides_of_kept hkept hname hknown hfound
  rcases hr.agrees other hother hkin with hnone | hagrees
  · exact absurd (htarget.symm.trans hnone) (by simp)
  · rw [hfound, ← htarget, hagrees]

/-- There is a class to which the override can go. -/
theorem Reaches.first (hr : Reaches files patch target) :
    ∃ i, (((remaining files).filter fun c => c.overrideOf.isNone).findIdx? fun c =>
      c.answersTo target) = some i := by
  obtain ⟨home, hhome, hanswers, hname⟩ := hr.home
  have hplain : home.overrideOf = none := by
    rw [Option.eq_none_iff_forall_ne_some]
    intro found hfound
    obtain ⟨other, hother, hkin, htarget⟩ := overrides_of_kept hhome hanswers hr.answered hfound
    rw [hr.plain other hother hkin] at htarget
    exact absurd htarget (by simp)
  rw [← Option.isSome_iff_exists, List.findIdx?_isSome, List.any_eq_true]
  refine ⟨home, List.mem_filter.2 ⟨mem_remaining hhome hname, ?_⟩, answersTo_of_mem hanswers⟩
  rw [hplain]
  rfl

/-- The override comes to the first class that answers to its target.  There its members are taken in,
and what marks only them is found nowhere else. -/
theorem Reaches.absorbed (hr : Reaches files patch target) :
    ∃ i before, (ofFiles files).resolve.1.1[i]? = some before ∧
      ((ofFiles files).resolve.1.1.findIdx? fun c => c.answersTo target) = some i ∧
      (∀ m, (patch.name, m) ∈ ledger files → before.TookIn m) ∧
      ∀ mark : FileRef, (∀ p ∈ ledger files, mark ∈ p.2.files → p.1 = patch.name) →
        (∀ e ∈ classEntries files, mark ∉ e.files) →
          Override.MarkedAt (ofFiles files).resolve.1.1 i mark := by
  obtain ⟨kept, hkept, hanswers, hoverride, hmembers, honly⟩ := kept_of_entry hr.entry
  obtain ⟨hremains, htarget⟩ := hr.remains hkept (hanswers _ List.mem_cons_self)
    (hoverride (by rw [hr.overrides]; rfl))
  obtain ⟨i, hi⟩ := hr.first
  obtain ⟨hfirst, before, hbefore, htook⟩ := Override.absorb_tookIn hremains htarget hi
  refine ⟨i, before, hbefore, hfirst, fun m hm => htook m (hmembers m hm), fun mark hmark hclear => ?_⟩
  refine Override.absorb_marked htarget hi (fun c hc hfile => ?_) fun c hc hmarked => ?_
  · rcases files_kept (List.mem_filter.1 hc).1 hfile with ⟨e, he, hfile⟩ | ⟨p, hp, hfile, hunknown⟩
    · exact hclear e he hfile
    · rw [hmark p hp hfile] at hunknown
      exact hunknown ⟨patch, hr.entry, List.mem_cons_self⟩
  · obtain ⟨m, hm, hfile⟩ := hmarked
    exact honly mark hmark c (List.mem_filter.1 hc).1 m hm hfile

end

end

/-- In every registry that is made of files, an override that reaches its target has come to the first
class that answers to the target, and that is the class which the target leads to unless another one
has the target for its own name.  Every member that is charged to the override, those of its entry
among them, was taken in there when overrides were absorbed, as a member of its own or as part of the
one with its id; and that member is still there in the end, with its name and its files, unless it is
an event of an enumeration.  What marks none but these members is found in no other class. -/
theorem members_reach_target {files : Files} {options : AssemblyOptions} {r : Registry}
    (h : ((ofFiles files).finish options).1 = .ok r) {patch : ClassDoc} {target : String}
    (hr : Reaches files patch target) :
    ∃ i c before, r.classes[i]? = some c ∧ (ofFiles files).resolve.1.1[i]? = some before ∧
      (r.classes.findIdx? fun d => d.answersTo target) = some i ∧
      ((c.name = target ∨ ∀ d ∈ r.classes, d.name ≠ target) → r.get? target = some c) ∧
      (∀ m ∈ patch.members, (patch.name, m) ∈ ledger files) ∧
      (∀ m, (patch.name, m) ∈ ledger files →
        ∃ merged ∈ before.members, merged.id = m.id ∧ m.files ⊆ merged.files ∧
          ((c.enumInfo.isSome → merged.kind ≠ .event) →
            ∃ m' ∈ c.members, m'.name = merged.name ∧ m'.files = merged.files)) ∧
      ∀ mark : FileRef, (∀ p ∈ ledger files, mark ∈ p.2.files → p.1 = patch.name) →
        (∀ e ∈ classEntries files, mark ∉ e.files) →
          ∀ (k : Nat) (d : ClassDoc), r.classes[k]? = some d → d.Marked mark → k = i := by
  obtain ⟨hresolved, hnames, hcompletes⟩ := completes_finish h
  obtain ⟨i, before, hbefore, hfirst, htook, hmarked⟩ := hr.absorbed
  -- Completing keeps the order of the classes, so what is known of the place `i` holds in the end too.
  have hlength : r.classes.length = (ofFiles files).resolve.1.1.length := by
    rw [← List.length_map ClassDoc.answers, hnames, List.length_map]
  have hsources : ∀ (k : Nat) (d : ClassDoc), r.classes[k]? = some d →
      ∃ source, (ofFiles files).resolve.1.1[k]? = some source ∧
        Completes (ofFiles files).resolve.1.1 source d := by
    intro k d hd
    have hlt := (List.getElem?_eq_some_iff.1 hd).1
    rw [hlength] at hlt
    have hsource := List.getElem?_eq_getElem hlt
    exact ⟨_, hsource, hcompletes k _ d hsource hd⟩
  have hlt := (List.getElem?_eq_some_iff.1 hbefore).1
  rw [← hlength] at hlt
  have hc := List.getElem?_eq_getElem hlt
  have hcomplete := hcompletes i before _ hbefore hc
  have hanswers := (ClassDoc.findIdx?_answersTo hnames target).trans hfirst
  refine ⟨i, _, before, hc, hbefore, hanswers, fun hown => ?_, fun m hm => charged_of_entry hr.entry hm,
    fun m hm => ?_, fun mark hmark hclear k d hd hfound => ?_⟩
  · rw [Registry.get?, Registry.find?, hresolved.names, Registry.lookup_namesOf,
      Registry.standsFor?_of_first hanswers hc hown]
    exact hc
  · obtain ⟨merged, hmerged, hid, hfiles⟩ := htook m hm
    refine ⟨merged, hmerged, hid, hfiles, fun hkind => ?_⟩
    obtain ⟨m', hm', hsource⟩ := hcomplete.members merged hmerged (hcomplete.isEnumeration ▸ hkind)
    exact ⟨m', hm', congrArg (·.1) hsource, congrArg (·.2) hsource⟩
  · obtain ⟨source, hsource, hcompleted⟩ := hsources k d hd
    have hat := hmarked mark hmark hclear
    rcases hcompleted.marked mark hfound with hold | ⟨other, hother, hfile⟩
    · exact hat.members k source hsource hold
    · exact absurd hfile (hat.files other hother)

/-- A class with an alternate name, and an override without a name that has the alternate name for its
target.  One of its members has the id of a member of the class. -/
def renamedTarget : Files :=
  [("list.js",
    [{ entity := .ofClass
        { name := "List", alternateNames := ["Rows"], files := [⟨"list.js", 1⟩]
          members := [{ Member.ofName .property "size" with files := [⟨"list.js", 2⟩] }] } }]),
   ("patches.js",
    [{ entity := .ofClass
        { overrideOf := some "Rows", files := [⟨"patches.js", 1⟩]
          members :=
            [{ Member.ofName .property "size" with files := [⟨"patches.js", 2⟩] },
              { Member.ofName .property "rows" with files := [⟨"patches.js", 3⟩] }] } }])]

def rowsPatch : ClassDoc :=
  { name := "patches.js", overrideOf := some "Rows", files := [⟨"patches.js", 1⟩]
    members :=
      [{ Member.ofName .property "size" with files := [⟨"patches.js", 2⟩] },
        { Member.ofName .property "rows" with files := [⟨"patches.js", 3⟩] }] }

def renamedRegistry : Registry :=
  match ((ofFiles renamedTarget).finish {}).1 with
  | .ok r => r
  | .error _ => {}

theorem finish_renamedTarget : ((ofFiles renamedTarget).finish {}).1 = .ok renamedRegistry := by
  rfl

theorem reaches_rowsPatch : Reaches renamedTarget rowsPatch "Rows" := by
  have hpatch : ∀ {name : String}, Kin (classEntries renamedTarget) "patches.js" name →
      name ∈ ["patches.js"] := fun h => h.mem_of_closed (by decide) (by decide)
  have htarget : ∀ {name : String}, Kin (classEntries renamedTarget) "Rows" name →
      name ∈ ["List", "Rows"] := fun h => h.mem_of_closed (by decide) (by decide)
  have hplain : ∀ e ∈ classEntries renamedTarget, e.name ∈ ["List", "Rows"] →
      e.overrideOf = none := by decide
  have hagrees : ∀ e ∈ classEntries renamedTarget,
      e.overrideOf = none ∨ e.overrideOf = some "Rows" := by decide
  refine ⟨?_, rfl, ⟨_, List.mem_cons_self, ?_⟩, fun e he _ => hagrees e he,
    fun e he hkin => hplain e he (htarget hkin), fun _ _ _ => List.not_mem_nil, ?_⟩
  · exact List.mem_cons_of_mem _ List.mem_cons_self
  · decide
  · decide

theorem members_reach_rows :
    ((ofFiles renamedTarget).finish {}).1 = .ok renamedRegistry ∧
      Reaches renamedTarget rowsPatch "Rows" ∧
      ∃ i c, renamedRegistry.classes[i]? = some c ∧ renamedRegistry.get? "Rows" = some c ∧
        (∀ m ∈ rowsPatch.members, ∃ m' ∈ c.members, m.files ⊆ m'.files) ∧
        ∀ (k : Nat) (d : ClassDoc), renamedRegistry.classes[k]? = some d →
          d.Marked ⟨"patches.js", 3⟩ → k = i := by
  obtain ⟨i, c, before, hc, -, -, hget, hcharged, htook, hmarked⟩ :=
    members_reach_target finish_renamedTarget reaches_rowsPatch
  have hnames : ∀ d ∈ renamedRegistry.classes, d.name ≠ "Rows" := by decide
  have hplain : ∀ d ∈ renamedRegistry.classes, d.enumInfo.isSome = false := by
    decide
  refine ⟨finish_renamedTarget, reaches_rowsPatch, i, c, hc, hget (Or.inr hnames), fun m hm => ?_,
    hmarked ⟨"patches.js", 3⟩ (by decide) (by decide)⟩
  obtain ⟨merged, -, -, hfiles, hkept⟩ := htook m (hcharged m hm)
  obtain ⟨m', hm', -, hsame⟩ := hkept fun henum => by
    rw [hplain c (List.mem_of_getElem? hc)] at henum
    exact absurd henum Bool.false_ne_true
  exact ⟨m', hm', hsame ▸ hfiles⟩

/-- Two classes, and a file with an override of each, neither of which has a name. -/
def unnamedOverrides : Files :=
  [("foo.js", [{ entity := .ofClass { name := "Foo" } }]),
   ("bar.js", [{ entity := .ofClass { name := "Bar" } }]),
   ("patches.js",
    [{ entity := .ofClass { overrideOf := some "Foo", members := [Member.ofName .property "one"] } },
      { entity :=
          .ofClass { overrideOf := some "Bar", members := [Member.ofName .property "two"] } }])]

def unnamedRegistry : Registry :=
  match ((ofFiles unnamedOverrides).finish {}).1 with
  | .ok r => r
  | .error _ => {}

/-- The member of the second override goes to the target of the first one. -/
theorem unnamed_overrides_meet :
    ((ofFiles unnamedOverrides).finish {}).1 = .ok unnamedRegistry ∧
      (∃ patch ∈ classEntries unnamedOverrides, patch.overrideOf = some "Bar" ∧
        patch.members = [Member.ofName .property "two"]) ∧
      (∃ e ∈ classEntries unnamedOverrides, e.overrideOf = none ∧ e.name = "Bar") ∧
      leftOutNames unnamedOverrides = [] ∧
      (unnamedRegistry.get? "Bar").map (fun c => c.members.map Member.name) = some [] ∧
      (unnamedRegistry.get? "Foo").map (fun c => c.members.map Member.name) =
        some ["one", "two"] := by
  refine ⟨rfl, ?_, by decide, rfl, by decide, by decide⟩
  exact ⟨_, List.mem_cons_of_mem _ (List.mem_cons_of_mem _ (List.mem_cons_of_mem _
    List.mem_cons_self)), rfl, rfl⟩

end Grouping
end ApiDoc
