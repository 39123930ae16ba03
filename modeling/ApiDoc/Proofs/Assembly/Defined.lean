/-
Which classes come from definition calls.

A class comes from a definition call if one of the descriptions does that it is put together from, and
that stays so while descriptions are merged and classes are folded.  Overrides are another matter: what
they are absorbed into takes over their members and their files, but not that they were defined.  So a
definition counts in the end if its class is no override and is not left out (`defined_of_stays`).
-/
import ApiDoc.Proofs.Assembly.Routing

namespace ApiDoc

/-- One of the classes comes from a definition call and answers to the name. -/
def Defines (classes : List ClassDoc) (name : String) : Prop :=
  ∃ c ∈ classes, c.isDefined = true ∧ name ∈ c.answers

theorem ClassDoc.composes_isDefined :
    Composes fun c parts => c.isDefined = parts.any ClassDoc.isDefined := by
  refine ⟨fun c => (Bool.or_false _).symm, fun {c later parts} h _ => ?_, fun {c c' parts} h hsame => ?_⟩
  · show (c.isDefined || later.isDefined) = _
    rw [h, List.any_append, List.any_cons, List.any_nil, Bool.or_false]
  · have hdefined : c'.isDefined = c.isDefined := congrArg (·.isDefined) hsame
    rw [hdefined, h]

namespace Unified

theorem isDefined_fold (target c : ClassDoc) :
    (fold target c).isDefined = (target.isDefined || c.isDefined) := by
  unfold fold
  split
  · rfl
  · rfl

section
variable {u : Unified} {placed : List (ClassDoc × Nat)}

/-- A class that is added brings its definition with it, and takes none away. -/
theorem Gathers.defines_add (h : u.Gathers placed) (c : ClassDoc) {name : String}
    (hname : Defines u.classes name ∨ c.isDefined = true ∧ name ∈ c.answers) :
    Defines (u.add c).1.classes name := by
  rcases add_cases u c with ⟨-, hadd⟩ | ⟨shared, i, -, hi, hadd⟩
  · rw [hadd]
    rcases hname with ⟨old, hold, hdefined, hanswers⟩ | ⟨hdefined, hanswers⟩
    · exact ⟨old, List.mem_append_left _ hold, hdefined, hanswers⟩
    · exact ⟨tidied c, List.mem_append_right _ (List.mem_singleton_self _), hdefined,
        mem_answers_tidied.2 hanswers⟩
  · rw [hadd]
    have hmem : ∀ k old, u.classes[k]? = some old →
        (if i = k then fold old (tidied c) else old) ∈
          u.classes.modify i fun target => fold target (tidied c) := by
      intro k old hold
      refine List.mem_of_getElem? (i := k) ?_
      rw [List.getElem?_modify, hold]
      rfl
    rcases hname with ⟨old, hold, hdefined, hanswers⟩ | ⟨hdefined, hanswers⟩
    · obtain ⟨k, hk⟩ := List.getElem?_of_mem hold
      refine ⟨_, hmem k old hk, ?_, ?_⟩
      · split
        · rw [isDefined_fold, hdefined, Bool.true_or]
        · exact hdefined
      · split
        · exact mem_answers_fold_iff.2 (Or.inl hanswers)
        · exact hanswers
    · have hat := hmem i _ (List.getElem?_eq_getElem (h.lt shared i hi))
      rw [if_pos rfl] at hat
      refine ⟨_, hat, ?_, mem_answers_fold_iff.2 (Or.inr (mem_answers_tidied.2 hanswers))⟩
      rw [isDefined_fold]
      exact Bool.or_eq_true_iff.2 (Or.inr hdefined)

theorem Gathers.defines_addAll (classes : List ClassDoc) (h : u.Gathers placed) {name : String}
    (hname : Defines u.classes name ∨ Defines classes name) :
    Defines (reportEach Unified.add u classes).1.classes name := by
  induction classes generalizing u placed with
  | nil =>
    refine hname.resolve_right ?_
    rintro ⟨c, hc, -⟩
    exact List.not_mem_nil hc
  | cons c classes ih =>
    obtain ⟨i, hone, -⟩ := h.add c
    refine ih hone ?_
    rcases hname with hold | ⟨d, hd, hdefined, hanswers⟩
    · exact Or.inl (h.defines_add c (Or.inl hold))
    · rcases List.mem_cons.1 hd with rfl | hd
      · exact Or.inl (h.defines_add d (Or.inr ⟨hdefined, hanswers⟩))
      · exact Or.inr ⟨d, hd, hdefined, hanswers⟩

end

/-- Folding keeps definitions, at a class that answers to the names of the one that was defined. -/
theorem defines_ofClasses {classes : List ClassDoc} {name : String} (h : Defines classes name) :
    Defines (ofClasses classes).1.classes name :=
  gathers_empty.defines_addAll classes (Or.inr h)

theorem any_isDefined_add (u : Unified) (c : ClassDoc)
    (h : (u.add c).1.classes.any ClassDoc.isDefined = true) :
    u.classes.any ClassDoc.isDefined = true ∨ c.isDefined = true := by
  obtain ⟨kept, hkept, hdefined⟩ := List.any_eq_true.1 h
  rcases add_cases u c with ⟨-, hadd⟩ | ⟨_, i, -, -, hadd⟩
  · rw [hadd] at hkept
    rcases List.mem_append.1 hkept with hold | hnew
    · exact Or.inl (List.any_eq_true.2 ⟨kept, hold, hdefined⟩)
    · rw [List.mem_singleton.1 hnew] at hdefined
      exact Or.inr hdefined
  · rw [hadd] at hkept
    obtain ⟨k, hk⟩ := List.getElem?_of_mem hkept
    rw [List.getElem?_modify] at hk
    obtain ⟨old, hold, rfl⟩ := Option.map_eq_some_iff.1 hk
    have hmem := List.mem_of_getElem? hold
    split at hdefined
    · rw [isDefined_fold, Bool.or_eq_true] at hdefined
      exact hdefined.imp_left fun hdefined => List.any_eq_true.2 ⟨old, hmem, hdefined⟩
    · exact Or.inl (List.any_eq_true.2 ⟨old, hmem, hdefined⟩)

theorem any_isDefined_addAll (classes : List ClassDoc) (u : Unified)
    (h : (reportEach add u classes).1.classes.any ClassDoc.isDefined = true) :
    u.classes.any ClassDoc.isDefined = true ∨ classes.any ClassDoc.isDefined = true := by
  induction classes generalizing u with
  | nil => exact Or.inl h
  | cons c classes ih =>
    rw [List.any_cons, Bool.or_eq_true]
    rcases ih (u.add c).1 h with hone | hrest
    · exact (any_isDefined_add u c hone).imp_right Or.inl
    · exact Or.inr (Or.inr hrest)

/-- Folding makes no definitions. -/
theorem any_isDefined_ofClasses {classes : List ClassDoc}
    (h : (ofClasses classes).1.classes.any ClassDoc.isDefined = true) :
    classes.any ClassDoc.isDefined = true :=
  (any_isDefined_addAll classes {} h).resolve_left Bool.false_ne_true

end Unified

namespace Override

theorem isDefined_apply (c patch : ClassDoc) : (apply c patch).isDefined = c.isDefined := by
  obtain ⟨members, hall⟩ := foldl_addMember_frame patch.name patch.members c
  rw [apply, hall]

end Override

namespace Grouping

/-- No entry in the family of the entry is an override, and the class to which it comes is not left
out. -/
structure Stays (files : Files) (e : ClassDoc) : Prop where
  plain : ∀ e' ∈ classEntries files, Kin (classEntries files) e.name e'.name → e'.overrideOf = none
  kept : ∀ c ∈ keptClasses files, e.name ∈ c.answers → c.name ∉ leftOutNames files

section
variable {files : Files}

/-- An entry that is defined makes the class defined that is grouped under its name. -/
theorem defines_settleAll {e : ClassDoc} (he : e ∈ classEntries files) (hdefined : e.isDefined = true) :
    Defines (ofFiles files).settleAll.1.classes e.name := by
  have hwritten := written_ofFiles ClassDoc.composes_isDefined files
  obtain ⟨i, hi⟩ := Option.isSome_iff_exists.1 (hwritten.known e he)
  obtain ⟨grouped, hgrouped, hanswers⟩ := answering_iff.1 (follows_ofFiles files).answering e.name i hi
  refine ⟨grouped, ?_, ?_, hanswers⟩
  · rw [classes_settleAll]
    exact List.mem_append_left _ (List.mem_of_getElem? hgrouped)
  · rw [hwritten.made i grouped hgrouped, List.any_eq_true]
    exact ⟨e, Roster.mem_entriesAt.2 ⟨he, hi⟩, hdefined⟩

theorem defined_entry_of_settled {c : ClassDoc} (hc : c ∈ (ofFiles files).settleAll.1.classes)
    (hdefined : c.isDefined = true) : ∃ e ∈ classEntries files, e.isDefined = true := by
  rw [classes_settleAll] at hc
  rcases List.mem_append.1 hc with hc | hc
  · obtain ⟨i, hi⟩ := List.getElem?_of_mem hc
    rw [(written_ofFiles ClassDoc.composes_isDefined files).made i c hi, List.any_eq_true] at hdefined
    obtain ⟨e, he, hdefined⟩ := hdefined
    exact ⟨e, (Roster.mem_entriesAt.1 he).1, hdefined⟩
  · -- What is made for members that waited is not defined.
    obtain ⟨name, -, rfl⟩ := List.mem_map.1 hc
    exact absurd hdefined Bool.false_ne_true

/-- What is defined of the classes that remain is what is defined of those that are no overrides. -/
theorem isDefined_resolve (files : Files) :
    (ofFiles files).resolve.1.1.map ClassDoc.isDefined =
      ((remaining files).filter fun c => c.overrideOf.isNone).map ClassDoc.isDefined :=
  Override.map_absorb Override.isDefined_apply (remaining files)

/-- If a class that remains is defined, an entry is. -/
theorem defined_entry_of_resolved {c : ClassDoc} (hc : c ∈ (ofFiles files).resolve.1.1)
    (hdefined : c.isDefined = true) : ∃ e ∈ classEntries files, e.isDefined = true := by
  have hflag : true ∈ (ofFiles files).resolve.1.1.map ClassDoc.isDefined :=
    List.mem_map.2 ⟨c, hc, hdefined⟩
  rw [isDefined_resolve] at hflag
  obtain ⟨kept, hkept, hdefined⟩ := List.mem_map.1 hflag
  have hmem : kept ∈ keptClasses files := (List.mem_filter.1 (List.mem_filter.1 hkept).1).1
  obtain ⟨settled, hsettled, hdefined⟩ := List.any_eq_true.1
    (Unified.any_isDefined_ofClasses (List.any_eq_true.2 ⟨kept, hmem, hdefined⟩))
  exact defined_entry_of_settled hsettled hdefined

/-- If an entry is defined and stays, a class that remains is defined. -/
theorem defined_of_stays {e : ClassDoc} (he : e ∈ classEntries files) (hdefined : e.isDefined = true)
    (hstays : Stays files e) : ∃ c ∈ (ofFiles files).resolve.1.1, c.isDefined = true := by
  obtain ⟨kept, hkept, hdefined, hname⟩ := Unified.defines_ofClasses (defines_settleAll he hdefined)
  have hplain : kept.overrideOf = none := by
    rw [Option.eq_none_iff_forall_ne_some]
    intro target htarget
    obtain ⟨other, hother, hkin, hoverride⟩ :=
      overrides_of_kept hkept hname ⟨e, he, List.mem_cons_self⟩ htarget
    rw [hstays.plain other hother hkin] at hoverride
    exact absurd hoverride (by simp)
  have hremains := mem_remaining hkept (hstays.kept kept hkept hname)
  have hflag : true ∈ ((remaining files).filter fun c => c.overrideOf.isNone).map ClassDoc.isDefined :=
    List.mem_map.2 ⟨kept, List.mem_filter.2 ⟨hremains, by rw [hplain]; rfl⟩, hdefined⟩
  rw [← isDefined_resolve] at hflag
  exact List.mem_map.1 hflag

end

end Grouping
end ApiDoc
