/-
What options add to a class.

Proposals are taken one after another, each if its name is still free.  So what is added has names of its
own, every proposed name is taken in the end, and proposing the same again adds nothing (`Fills`).  As
nothing that is added is an option, completing a class twice is completing it once
(`withAccessors_fills`).
-/
import ApiDoc.Completion.Accessors

namespace ApiDoc
namespace Accessor

/-- `added` is what proposals add to members: some of them in their order, under names that were free,
until all proposed names are taken. -/
structure Fills (ms proposals added : List Member) : Prop where
  sublist : added.Sublist proposals
  nodup : (added.map Member.name).Nodup
  fresh : ∀ m ∈ added, ∀ old ∈ ms, m.name ≠ old.name
  covers : ∀ m ∈ proposals, ∃ same ∈ ms ++ added, same.name = m.name

theorem Fills.nil (ms : List Member) : Fills ms [] [] :=
  ⟨List.Sublist.slnil, List.nodup_nil, by simp, by simp⟩

/-- A proposal whose name is taken adds nothing. -/
theorem Fills.skip {ms proposals added : List Member} {m : Member} (h : Fills ms proposals added)
    (htaken : ∃ old ∈ ms, old.name = m.name) : Fills ms (m :: proposals) added := by
  obtain ⟨old, hold, hname⟩ := htaken
  refine ⟨h.sublist.cons m, h.nodup, h.fresh, fun p hp => ?_⟩
  rcases List.mem_cons.1 hp with rfl | hp
  · exact ⟨old, List.mem_append_left added hold, hname⟩
  · exact h.covers p hp

/-- A proposal whose name is free is added, and takes the name. -/
theorem Fills.take {ms proposals added : List Member} {m : Member}
    (h : Fills (ms ++ [m]) proposals added) (hfree : ∀ old ∈ ms, m.name ≠ old.name) :
    Fills ms (m :: proposals) (m :: added) := by
  have hkept : ms ++ m :: added = (ms ++ [m]) ++ added := by simp
  refine ⟨h.sublist.cons_cons m, ?_, fun p hp => ?_, fun p hp => ?_⟩
  · refine List.nodup_cons.2 ⟨fun hmem => ?_, h.nodup⟩
    obtain ⟨p, hp, hname⟩ := List.mem_map.1 hmem
    exact h.fresh p hp m (by simp) hname
  · rcases List.mem_cons.1 hp with rfl | hp
    · exact hfree
    · exact fun old hold => h.fresh p hp old (List.mem_append_left [m] hold)
  · rw [hkept]
    rcases List.mem_cons.1 hp with rfl | hp
    · exact ⟨p, by simp, rfl⟩
    · exact h.covers p hp

theorem exists_fills (proposals ms : List Member) :
    ∃ added, proposals.foldl appendIfNew ms = ms ++ added ∧ Fills ms proposals added := by
  induction proposals generalizing ms with
  | nil => exact ⟨[], (List.append_nil ms).symm, .nil ms⟩
  | cons m proposals ih =>
    rw [List.foldl_cons, appendIfNew]
    by_cases htaken : ∃ old ∈ ms, old.name = m.name
    · rw [if_pos (by simpa using htaken)]
      obtain ⟨added, hadded, hfills⟩ := ih ms
      exact ⟨added, hadded, hfills.skip htaken⟩
    · rw [if_neg (by simpa using htaken)]
      obtain ⟨added, hadded, hfills⟩ := ih (ms ++ [m])
      refine ⟨m :: added, by rw [hadded]; simp, hfills.take fun old hold hname => ?_⟩
      exact htaken ⟨old, hold, hname.symm⟩

/-- Where all proposed names are taken, nothing is added. -/
theorem foldl_appendIfNew_of_taken {proposals ms : List Member}
    (h : ∀ m ∈ proposals, ∃ old ∈ ms, old.name = m.name) :
    proposals.foldl appendIfNew ms = ms := by
  obtain ⟨added, hadded, hfills⟩ := exists_fills proposals ms
  cases added with
  | nil => rw [hadded, List.append_nil]
  | cons m added =>
    obtain ⟨old, hold, hname⟩ := h m (hfills.sublist.subset List.mem_cons_self)
    exact absurd hname.symm (hfills.fresh m List.mem_cons_self old hold)

theorem mem_allFor_iff {className : String} {option m : Member} :
    m ∈ allFor className option ↔ m = getter option ∨ m = setter option ∨
      option.isEvented = true ∧ m = changeEvent className option := by
  unfold allFor
  cases option.isEvented <;> simp

theorem isWanted_iff {m : Member} : isWanted m = true ↔ m.kind = .config ∧ m.isAccessor = true := by
  simp [isWanted]

/-- A member derived from an option: its getter, its setter or, for an option that tells of changes, its
change event.  It is as visible and as deprecated as the option, belongs to the same class and comes
from the same places. -/
structure DerivedFrom (className : String) (option m : Member) : Prop where
  isOption : option.kind = .config ∧ option.isAccessor = true
  form : m = getter option ∨ m = setter option ∨
    option.isEvented = true ∧ m = changeEvent className option
  isPlain : m.isAccessor = false ∧ m.isEvented = false
  visibility : m.isPrivate = option.isPrivate ∧ m.isProtected = option.isProtected ∧
    m.isHidden = option.isHidden
  deprecated : m.deprecated = option.deprecated
  owner : m.owner = option.owner
  files : m.files = option.files

theorem derivedFrom_of_mem_allFor {className : String} {option m : Member}
    (hoption : isWanted option = true) (h : m ∈ allFor className option) :
    DerivedFrom className option m := by
  have hwanted := isWanted_iff.1 hoption
  have hform := mem_allFor_iff.1 h
  rcases hform with rfl | rfl | ⟨-, rfl⟩
  · exact ⟨hwanted, mem_allFor_iff.1 h, ⟨rfl, rfl⟩, ⟨rfl, rfl, rfl⟩, rfl, rfl, rfl⟩
  · exact ⟨hwanted, mem_allFor_iff.1 h, ⟨rfl, rfl⟩, ⟨rfl, rfl, rfl⟩, rfl, rfl, rfl⟩
  · exact ⟨hwanted, mem_allFor_iff.1 h, ⟨rfl, rfl⟩, ⟨rfl, rfl, rfl⟩, rfl, rfl, rfl⟩

/-- The members that the options of a class propose, option by option. -/
def proposals (c : ClassDoc) : List Member := (c.members.filter isWanted).flatMap (allFor c.name)

theorem exists_derivedFrom {c : ClassDoc} {m : Member} (h : m ∈ proposals c) :
    ∃ option ∈ c.members, DerivedFrom c.name option m := by
  obtain ⟨option, hoption, hm⟩ := List.mem_flatMap.1 h
  obtain ⟨hmem, hwanted⟩ := List.mem_filter.1 hoption
  exact ⟨option, hmem, derivedFrom_of_mem_allFor hwanted hm⟩

theorem mem_proposals {c : ClassDoc} {option m : Member} (hoption : option ∈ c.members)
    (hwanted : option.kind = .config ∧ option.isAccessor = true) (h : m ∈ allFor c.name option) :
    m ∈ proposals c :=
  List.mem_flatMap.2 ⟨option, List.mem_filter.2 ⟨hoption, isWanted_iff.2 hwanted⟩, h⟩

/-- What is no option itself proposes nothing. -/
theorem proposals_append {c : ClassDoc} {added : List Member}
    (h : ∀ m ∈ added, m.isAccessor = false) :
    proposals { c with members := c.members ++ added } = proposals c := by
  have hnone : added.filter isWanted = [] := by
    refine List.filter_eq_nil_iff.2 fun m hm hwanted => ?_
    exact Bool.false_ne_true ((h m hm).symm.trans (isWanted_iff.1 hwanted).2)
  rw [proposals, List.filter_append, hnone, List.append_nil, proposals]

end Accessor

namespace ClassDoc
open Accessor

theorem withAccessors_eq (c : ClassDoc) :
    c.withAccessors = { c with members := (proposals c).foldl appendIfNew c.members } := rfl

theorem exists_withAccessors (c : ClassDoc) :
    ∃ added, c.withAccessors = { c with members := c.members ++ added } ∧
      Fills c.members (proposals c) added := by
  obtain ⟨added, hadded, hfills⟩ := exists_fills (proposals c) c.members
  exact ⟨added, by rw [withAccessors_eq, hadded], hfills⟩

theorem subset_withAccessors (c : ClassDoc) : c.members ⊆ c.withAccessors.members := by
  obtain ⟨added, hadded, -⟩ := c.exists_withAccessors
  rw [hadded]
  exact List.subset_append_left c.members added

/-- Options get their accessors, and nothing else is added. -/
theorem mem_withAccessors {c : ClassDoc} {m : Member} (h : m ∈ c.withAccessors.members) :
    m ∈ c.members ∨ ∃ option ∈ c.members, DerivedFrom c.name option m := by
  obtain ⟨added, hadded, hfills⟩ := c.exists_withAccessors
  rw [hadded] at h
  rcases List.mem_append.1 h with hold | hnew
  · exact Or.inl hold
  · exact Or.inr (exists_derivedFrom (hfills.sublist.subset hnew))

/-- Completing a class once more changes nothing. -/
theorem withAccessors_withAccessors (c : ClassDoc) :
    c.withAccessors.withAccessors = c.withAccessors := by
  obtain ⟨added, hadded, hfills⟩ := c.exists_withAccessors
  have hsame : proposals { c with members := c.members ++ added } = proposals c := by
    refine proposals_append fun m hm => ?_
    obtain ⟨option, -, hderived⟩ := exists_derivedFrom (hfills.sublist.subset hm)
    exact hderived.isPlain.1
  rw [hadded, withAccessors_eq, hsame, foldl_appendIfNew_of_taken hfills.covers]

/-- A class keeps its members, in their order, and the members that are added behind them are derived
from its options.  Their names differ from one another and from those of the other members.  In the end
every option has a getter and a setter, and a change event if it tells of changes, or else another
member has the name; and to complete the class once more changes nothing. -/
theorem withAccessors_fills (c : ClassDoc) :
    (∃ added, c.withAccessors = { c with members := c.members ++ added } ∧
      (added.map Member.name).Nodup ∧
      ∀ m ∈ added, m.isAccessor = false ∧ m.isEvented = false ∧
        (∀ old ∈ c.members, m.name ≠ old.name) ∧
        ∃ option ∈ c.members, DerivedFrom c.name option m) ∧
    (∀ option ∈ c.members, option.kind = .config ∧ option.isAccessor = true →
      (∃ m ∈ c.withAccessors.members, m.name = "get" ++ Text.capitalize option.name) ∧
      (∃ m ∈ c.withAccessors.members, m.name = "set" ++ Text.capitalize option.name) ∧
      (option.isEvented = true →
        ∃ m ∈ c.withAccessors.members, m.name = Text.lowercase option.name ++ "change")) ∧
    c.withAccessors.withAccessors = c.withAccessors := by
  obtain ⟨added, hadded, hfills⟩ := c.exists_withAccessors
  refine ⟨⟨added, hadded, hfills.nodup, fun m hm => ?_⟩, fun option hoption hwanted => ?_,
    c.withAccessors_withAccessors⟩
  · obtain ⟨option, hoption, hderived⟩ := exists_derivedFrom (hfills.sublist.subset hm)
    exact ⟨hderived.isPlain.1, hderived.isPlain.2, hfills.fresh m hm, option, hoption, hderived⟩
  · have hcovers : ∀ m ∈ allFor c.name option, ∃ same ∈ c.withAccessors.members,
        same.name = m.name := by
      intro m hm
      rw [hadded]
      exact hfills.covers m (mem_proposals hoption hwanted hm)
    refine ⟨?_, ?_, fun hevented => ?_⟩
    · exact hcovers _ (mem_allFor_iff.2 (Or.inl rfl))
    · exact hcovers _ (mem_allFor_iff.2 (Or.inr (Or.inl rfl)))
    · exact hcovers _ (mem_allFor_iff.2 (Or.inr (Or.inr ⟨hevented, rfl⟩)))

/-- Two options whose accessors have the same names, and one whose getter is written by hand. -/
def dial : ClassDoc :=
  { name := "Dial"
    members :=
      [{ Member.ofName .config "angle" with isAccessor := true, isEvented := true },
        { Member.ofName .config "Angle" with isAccessor := true, isEvented := true },
        Member.ofName .method "getUnit",
        { Member.ofName .config "unit" with isAccessor := true, isProtected := true }] }

theorem withAccessors_fills_dial :
    dial.withAccessors.members.map Member.name =
        ["angle", "Angle", "getUnit", "unit", "getAngle", "setAngle", "anglechange", "setUnit"] ∧
      (∃ m ∈ dial.withAccessors.members, m.name = "getAngle") ∧
      (∃ m ∈ dial.withAccessors.members, m.name = "anglechange") ∧
      dial.withAccessors.withAccessors = dial.withAccessors := by
  obtain ⟨-, hoptions, htwice⟩ := withAccessors_fills dial
  obtain ⟨hgetter, -, hchange⟩ := hoptions
    { Member.ofName .config "Angle" with isAccessor := true, isEvented := true }
    (by simp [dial]) ⟨rfl, rfl⟩
  have hcapital : "get" ++ Text.capitalize "Angle" = "getAngle" := by decide
  have hsmall : Text.lowercase "Angle" ++ "change" = "anglechange" := by decide
  refine ⟨by decide, hcapital ▸ hgetter, hsmall ▸ hchange rfl, htwice⟩

end ClassDoc
end ApiDoc
