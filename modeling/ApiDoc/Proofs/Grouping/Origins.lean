/-
Where the classes that are left come from.

Entries are grouped into classes, and classes that share names are folded.  So a class that is left
goes back to a family of entries, all kin to one another, and overrides only what these override
(`overrides_of_kept`).  An entry comes out in one class that is left, together with all members that
are charged to its name (`kept_of_entry`).
-/
import ApiDoc.Proofs.Grouping.Entries

namespace ApiDoc

namespace Unified

/-- Every class is left under its name, or its name is among those that are folded. -/
theorem names_folded_perm (classes : List ClassDoc) :
    ((ofClasses classes).1.classes.map ClassDoc.name ++ (ofClasses classes).1.folded).Perm
      (classes.map ClassDoc.name) := by
  have hone : ∀ (u : Unified) (c : ClassDoc),
      ((u.add c).1.classes.map ClassDoc.name ++ (u.add c).1.folded).Perm
        ((u.classes.map ClassDoc.name ++ u.folded) ++ [c.name]) := by
    intro u c
    rcases add_cases u c with ⟨-, hadd⟩ | ⟨_, i, -, -, hadd⟩
    · rw [hadd, List.map_append, List.append_assoc, List.append_assoc]
      exact List.perm_append_comm.append_left _
    · rw [hadd, map_modify_of_same fun target => name_fold target (tidied c), List.append_assoc]
  have hrun : ∀ (u : Unified) (before : List String),
      (u.classes.map ClassDoc.name ++ u.folded).Perm before →
        ((reportEach add u classes).1.classes.map ClassDoc.name ++
          (reportEach add u classes).1.folded).Perm (before ++ classes.map ClassDoc.name) := by
    induction classes with
    | nil =>
      intro u before h
      rw [List.map_nil, List.append_nil]
      exact h
    | cons c classes ih =>
      intro u before h
      rw [List.map_cons, List.append_cons]
      exact ih (u.add c).1 _ ((hone u c).trans (h.append_right _))
  exact hrun {} [] (List.Perm.refl [])

end Unified

namespace Grouping

/-- The classes that are left when classes that share names are folded. -/
def keptClasses (files : Files) : List ClassDoc :=
  (Unified.ofClasses (ofFiles files).settleAll.1.classes).1.classes

section
variable {files : Files}

/-- A grouped class is put together from entries, or it was made for members that waited. -/
theorem settled_cases {i : Nat} {c : ClassDoc}
    (hc : (ofFiles files).settleAll.1.classes[i]? = some c) :
    c.MadeOf ((roster files).entriesAt (classEntries files) i) ∨
      ∃ name ∈ madeNames files, c = madeClass (ledger files) name := by
  rw [classes_settleAll] at hc
  by_cases hi : i < (ofFiles files).classes.length
  · rw [List.getElem?_append_left hi] at hc
    exact Or.inl ((written_ofFiles ClassDoc.composes_madeOf files).made i c hc)
  · rw [List.getElem?_append_right (Nat.le_of_not_lt hi)] at hc
    obtain ⟨name, hname, rfl⟩ := List.mem_map.1 (List.mem_of_getElem? hc)
    exact Or.inr ⟨name, hname, rfl⟩

theorem known_classEntries {name : String} :
    Known (classEntries files) name ↔ ((roster files).find? name).isSome :=
  (Roster.isSome_find?_addAll _ _).symm

theorem not_known_of_mem_madeNames {name : String} (h : name ∈ madeNames files) :
    ¬ Known (classEntries files) name := by
  rw [known_classEntries, (mem_madeNames.1 h).2.2]
  exact Bool.false_ne_true

/-- A class that answers to a name of an entry is put together from entries. -/
theorem madeOf_of_known {c : ClassDoc} (hc : c ∈ (ofFiles files).settleAll.1.classes) {name : String}
    (hname : name ∈ c.answers) (hknown : Known (classEntries files) name) :
    ∃ i, c.MadeOf ((roster files).entriesAt (classEntries files) i) := by
  obtain ⟨i, hi⟩ := List.getElem?_of_mem hc
  rcases settled_cases hi with hmade | ⟨own, hown, rfl⟩
  · exact ⟨i, hmade⟩
  · obtain rfl : name = own := List.mem_singleton.1 hname
    exact absurd hknown (not_known_of_mem_madeNames hown)

/-- What a class answers to is kin to the names of all entries that it is made of. -/
theorem kin_of_madeOf {c e : ClassDoc} {i : Nat}
    (hmade : c.MadeOf ((roster files).entriesAt (classEntries files) i)) {name : String}
    (hname : name ∈ c.answers) (he : e ∈ (roster files).entriesAt (classEntries files) i) :
    Kin (classEntries files) name e.name := by
  obtain ⟨other, hother, hmem⟩ := (hmade.answers name).1 hname
  obtain ⟨hentry, hstands⟩ := Roster.mem_entriesAt.1 hother
  exact (kin_of_mem hentry hmem List.mem_cons_self).trans
    (Roster.kin_of_find?_addAll _ hstands (Roster.mem_entriesAt.1 he).2)

/-- Grouping joins no families: names that grouped classes make kin are kin by the entries. -/
theorem kin_of_kin_settled {a b : String} (h : Kin (ofFiles files).settleAll.1.classes a b)
    (ha : Known (classEntries files) a) :
    Kin (classEntries files) a b ∧ Known (classEntries files) b := by
  induction h with
  | refl => exact ⟨Relation.ReflTransGen.refl, ha⟩
  | tail _ hlinked ih =>
    obtain ⟨hkin, hknown⟩ := ih
    obtain ⟨c, hc, hfirst, hsecond⟩ := hlinked
    obtain ⟨i, hmade⟩ := madeOf_of_known hc hfirst hknown
    obtain ⟨e, he, hmem⟩ := (hmade.answers _).1 hsecond
    have hentry := (Roster.mem_entriesAt.1 he).1
    refine ⟨hkin.trans ((kin_of_madeOf hmade hfirst he).trans ?_), e, hentry, hmem⟩
    exact kin_of_mem hentry List.mem_cons_self hmem

/-- A class that is left, if it answers to a name of an entry, overrides only what an entry of that
family overrides. -/
theorem overrides_of_kept {kept : ClassDoc} (hkept : kept ∈ keptClasses files) {name : String}
    (hname : name ∈ kept.answers) (hknown : Known (classEntries files) name) {target : String}
    (htarget : kept.overrideOf = some target) :
    ∃ e ∈ classEntries files, Kin (classEntries files) name e.name ∧ e.overrideOf = some target := by
  obtain ⟨placed, hplaced, hgathers, hkindred, -⟩ :=
    Unified.ofClasses_gathers (ofFiles files).settleAll.1.classes
  obtain ⟨k, hk⟩ := List.getElem?_of_mem hkept
  have hmade := hgathers.made k kept hk
  rw [hmade.overrideOf] at htarget
  obtain ⟨part, hpart, hpartTarget⟩ := List.exists_of_findSome?_eq_some htarget
  have hsettled : part ∈ (ofFiles files).settleAll.1.classes := by
    rw [← hplaced]
    exact List.mem_map_of_mem (Unified.mem_partsAt.1 hpart)
  have hown := (hmade.answers part.name).2 ⟨part, hpart, List.mem_cons_self⟩
  obtain ⟨hkin, hpartKnown⟩ := kin_of_kin_settled (hkindred k kept hk name hname _ hown) hknown
  obtain ⟨i, hmadePart⟩ := madeOf_of_known hsettled List.mem_cons_self hpartKnown
  rw [hmadePart.overrideOf] at hpartTarget
  obtain ⟨e, he, hentryTarget⟩ := List.exists_of_findSome?_eq_some hpartTarget
  exact ⟨e, (Roster.mem_entriesAt.1 he).1,
    hkin.trans (kin_of_madeOf hmadePart List.mem_cons_self he), hentryTarget⟩

theorem find?_fullRoster_of_some {name : String} {i : Nat} (h : (roster files).find? name = some i) :
    (fullRoster files).find? name = some i := by
  have hrun : ∀ (entries : List ClassDoc) (t : Roster), t.find? name = some i →
      (t.addAll entries).find? name = some i := by
    intro entries
    induction entries with
    | nil => exact fun t ht => ht
    | cons c entries ih => exact fun t ht => ih (t.add c) (Roster.find?_add_of_some ht c)
  exact hrun _ _ h

/-- The class that is grouped under the name of an entry, and where it goes. -/
theorem placed_of_entry {placed : List (ClassDoc × Nat)}
    (hplaced : placed.map Prod.fst = (ofFiles files).settleAll.1.classes) {e : ClassDoc}
    (he : e ∈ classEntries files) :
    ∃ i grouped k, (fullRoster files).find? e.name = some i ∧ placed[i]? = some (grouped, k) ∧
      grouped.MadeOf ((roster files).entriesAt (classEntries files) i) ∧
      e ∈ (roster files).entriesAt (classEntries files) i := by
  have hwritten := written_ofFiles ClassDoc.composes_madeOf files
  obtain ⟨i, hi⟩ := Option.isSome_iff_exists.1 (hwritten.known e he)
  obtain ⟨grouped, hgrouped, -⟩ := answering_iff.1 (follows_ofFiles files).answering e.name i hi
  have hsettled : (placed.map Prod.fst)[i]? = some grouped := by
    rw [hplaced, classes_settleAll,
      List.getElem?_append_left (List.getElem?_eq_some_iff.1 hgrouped).1, hgrouped]
  rw [List.getElem?_map] at hsettled
  obtain ⟨⟨_, k⟩, hpair, rfl⟩ := Option.map_eq_some_iff.1 hsettled
  exact ⟨i, _, k, find?_fullRoster_of_some hi, hpair, hwritten.made i _ hgrouped,
    Roster.mem_entriesAt.2 ⟨he, hi⟩⟩

theorem mem_members_placed {placed : List (ClassDoc × Nat)}
    (hplaced : placed.map Prod.fst = (ofFiles files).settleAll.1.classes) {i k : Nat}
    {grouped : ClassDoc} (hi : placed[i]? = some (grouped, k)) {m : Member} :
    m ∈ grouped.members ↔
      ∃ name, (name, m) ∈ ledger files ∧ (fullRoster files).find? name = some i := by
  have hsettled : (ofFiles files).settleAll.1.classes[i]? = some grouped := by
    rw [← hplaced, List.getElem?_map, hi]
    rfl
  rw [((agrees_settleAll files).1.landed i grouped hsettled).mem_iff, landedAt]
  simp

/-- The members of a class that is left are charged to names which stand for classes that went there. -/
theorem placed_of_member {placed : List (ClassDoc × Nat)}
    (hplaced : placed.map Prod.fst = (ofFiles files).settleAll.1.classes)
    (hgathers : (Unified.ofClasses (ofFiles files).settleAll.1.classes).1.Gathers placed) {c : ClassDoc}
    {k : Nat} (hc : (keptClasses files)[k]? = some c) {m : Member} (hm : m ∈ c.members) :
    ∃ i grouped name, placed[i]? = some (grouped, k) ∧ (name, m) ∈ ledger files ∧
      (fullRoster files).find? name = some i := by
  rw [hgathers.members k c hc, Unified.blockAt, List.mem_flatMap] at hm
  obtain ⟨⟨grouped, place⟩, hplace, hm⟩ := hm
  obtain ⟨hmem, hto⟩ := List.mem_filter.1 hplace
  obtain rfl : place = k := eq_of_beq hto
  obtain ⟨i, hi⟩ := List.getElem?_of_mem hmem
  obtain ⟨name, hcharged, hstands⟩ := (mem_members_placed hplaced hi).1 hm
  exact ⟨i, grouped, name, hi, hcharged, hstands⟩

theorem charged_of_kept {c : ClassDoc} (hc : c ∈ keptClasses files) {m : Member} (hm : m ∈ c.members) :
    ∃ name, (name, m) ∈ ledger files := by
  obtain ⟨placed, hplaced, hgathers, -⟩ :=
    Unified.ofClasses_gathers (ofFiles files).settleAll.1.classes
  obtain ⟨k, hk⟩ := List.getElem?_of_mem hc
  obtain ⟨-, -, name, -, hcharged, -⟩ := placed_of_member hplaced hgathers hk hm
  exact ⟨name, hcharged⟩

/-- An entry comes out in one class that is left.  That class answers to the names of the entry, is an
override if the entry is one, and has all members that are charged to the name of the entry; and what
marks none but these members is found in the members of this class only. -/
theorem kept_of_entry {e : ClassDoc} (he : e ∈ classEntries files) :
    ∃ kept ∈ keptClasses files, (∀ name ∈ e.answers, name ∈ kept.answers) ∧
      (e.overrideOf.isSome → kept.overrideOf.isSome) ∧
      (∀ m, (e.name, m) ∈ ledger files → m ∈ kept.members) ∧
      ∀ mark : FileRef, (∀ p ∈ ledger files, mark ∈ p.2.files → p.1 = e.name) →
        ∀ c ∈ keptClasses files, ∀ m ∈ c.members, mark ∈ m.files → c = kept := by
  obtain ⟨placed, hplaced, hgathers, -⟩ :=
    Unified.ofClasses_gathers (ofFiles files).settleAll.1.classes
  obtain ⟨i, grouped, k, hi, hpair, hmade, hentry⟩ := placed_of_entry hplaced he
  have hplace := List.mem_of_getElem? hpair
  obtain ⟨kept, hkept, hanswers⟩ := hgathers.answers_at hplace
  refine ⟨kept, List.mem_of_getElem? hkept, ?_, ?_, ?_, ?_⟩
  · exact fun name hname => hanswers name ((hmade.answers name).2 ⟨e, hentry, hname⟩)
  · intro hoverride
    rw [(hgathers.made k kept hkept).overrideOf, List.findSome?_isSome_iff]
    refine ⟨grouped, Unified.mem_partsAt.2 hplace, ?_⟩
    rw [hmade.overrideOf, List.findSome?_isSome_iff]
    exact ⟨e, hentry, hoverride⟩
  · intro m hm
    rw [hgathers.members k kept hkept, Unified.blockAt, List.mem_flatMap]
    exact ⟨(grouped, k), List.mem_filter.2 ⟨hplace, beq_self_eq_true k⟩,
      (mem_members_placed hplaced hpair).2 ⟨e.name, hm, hi⟩⟩
  · intro mark honly c hc m hm hmark
    obtain ⟨j, hj⟩ := List.getElem?_of_mem hc
    obtain ⟨n, _, name, hn, hcharged, hstands⟩ := placed_of_member hplaced hgathers hj hm
    obtain rfl : name = e.name := honly (name, m) hcharged hmark
    rw [hi] at hstands
    rw [← Option.some.inj hstands, hpair] at hn
    obtain ⟨-, rfl⟩ := Prod.mk.inj (Option.some.inj hn)
    exact Option.some.inj (hj.symm.trans hkept)

/-- The files of a class that is left are those of entries, or it was made for members of these. -/
theorem files_kept {kept : ClassDoc} (hkept : kept ∈ keptClasses files) {place : FileRef}
    (hplace : place ∈ kept.files) :
    (∃ e ∈ classEntries files, place ∈ e.files) ∨
      ∃ p ∈ ledger files, place ∈ p.2.files ∧ ¬ Known (classEntries files) p.1 := by
  obtain ⟨placed, hplaced, hgathers, -⟩ :=
    Unified.ofClasses_gathers (ofFiles files).settleAll.1.classes
  obtain ⟨k, hk⟩ := List.getElem?_of_mem hkept
  obtain ⟨part, hpart, hmem⟩ := (hgathers.made k kept hk).files place hplace
  have hsettled : part ∈ (ofFiles files).settleAll.1.classes := by
    rw [← hplaced]
    exact List.mem_map_of_mem (Unified.mem_partsAt.1 hpart)
  obtain ⟨i, hi⟩ := List.getElem?_of_mem hsettled
  rcases settled_cases hi with hmade | ⟨name, hname, rfl⟩
  · obtain ⟨e, he, hin⟩ := hmade.files place hmem
    exact Or.inl ⟨e, (Roster.mem_entriesAt.1 he).1, hin⟩
  · have hwaited : place ∈ (((chargedTo (ledger files) name).filterMap fun m =>
        m.files.head?).head?).toList := hmem
    obtain ⟨m, hm, hfirst⟩ := List.mem_filterMap.1 (List.mem_of_head? (Option.mem_toList.1 hwaited))
    obtain ⟨p, hp, rfl⟩ := List.mem_map.1 hm
    obtain ⟨hcharged, hsame⟩ := List.mem_filter.1 hp
    refine Or.inr ⟨p, hcharged, List.mem_of_head? hfirst, ?_⟩
    rw [eq_of_beq hsame]
    exact not_known_of_mem_madeNames hname

end

end Grouping
end ApiDoc
