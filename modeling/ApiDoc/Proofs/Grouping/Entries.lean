/-
What grouped classes are made of.

Every class is put together from the class entries whose names stand for it, in the order of the
files (`written_ofFiles`), and the names of these entries are kin.  Members that come later leave all
of this as it is, so it holds for whatever is read off the rest of a class (`Composes`).
-/
import ApiDoc.Proofs.Grouping.Conservation
import ApiDoc.Proofs.Grouping.Families
import Mathlib.Data.List.Induction

namespace ApiDoc
namespace ClassDoc

/-- What does not depend on the members of a class. -/
def withoutMembers (c : ClassDoc) : ClassDoc := { c with members := [] }

theorem MadeOf.congr {c c' : ClassDoc} {parts : List ClassDoc} (h : c.MadeOf parts)
    (hsame : c'.withoutMembers = c.withoutMembers) : c'.MadeOf parts := by
  have hname : c'.name = c.name := congrArg (·.name) hsame
  have halternates : c'.alternateNames = c.alternateNames := congrArg (·.alternateNames) hsame
  have hoverride : c'.overrideOf = c.overrideOf := congrArg (·.overrideOf) hsame
  have hfiles : c'.files = c.files := congrArg (·.files) hsame
  refine ⟨?_, ?_, ?_, ?_⟩
  · rw [hname, h.named]
  · have hanswers : c'.answers = c.answers := by
      rw [ClassDoc.answers, ClassDoc.answers, hname, halternates]
    rw [hanswers]
    exact h.answers
  · rw [hoverride, h.overrideOf]
  · rw [hfiles]
    exact h.files

/-- A way to read classes as composed of descriptions: of themselves, if of nothing else, and of one more
description when that is merged into them.  Members play no part in it. -/
structure Composes (R : ClassDoc → List ClassDoc → Prop) : Prop where
  self : ∀ c, R c [c]
  merge : ∀ {c later : ClassDoc} {parts : List ClassDoc}, R c parts → later.name ∈ c.answers →
    R (c.merge later) (parts ++ [later])
  congr : ∀ {c c' : ClassDoc} {parts : List ClassDoc}, R c parts →
    c'.withoutMembers = c.withoutMembers → R c' parts

theorem composes_madeOf : Composes MadeOf := ⟨madeOf_self, MadeOf.merge, MadeOf.congr⟩

end ClassDoc

namespace Grouping

open ClassDoc

/-- The class entries that count, under the names by which they are grouped. -/
def classEntries (files : Files) : List ClassDoc :=
  files.flatMap fun f => f.2.filterMap (namedClass? f.1)

namespace Roster

/-- The entries whose names stand for the class at a place. -/
def entriesAt (t : Roster) (entries : List ClassDoc) (i : Nat) : List ClassDoc :=
  entries.filter fun e => t.find? e.name == some i

theorem mem_entriesAt {t : Roster} {entries : List ClassDoc} {i : Nat} {e : ClassDoc} :
    e ∈ t.entriesAt entries i ↔ e ∈ entries ∧ t.find? e.name = some i := by
  rw [entriesAt, List.mem_filter, beq_iff_eq]

theorem addAll_concat (t : Roster) (entries : List ClassDoc) (c : ClassDoc) :
    t.addAll (entries ++ [c]) = (t.addAll entries).add c := addAll_append t entries [c]

theorem known_concat {entries : List ClassDoc} {c : ClassDoc} {name : String} :
    Known (entries ++ [c]) name ↔ Known entries name ∨ name ∈ c.answers := by
  simp [Known, or_and_right, exists_or]

/-- The names that stand for classes are those that entries have. -/
theorem isSome_find?_addAll (entries : List ClassDoc) (name : String) :
    ((({} : Roster).addAll entries).find? name).isSome ↔ Known entries name := by
  induction entries using List.reverseRecOn with
  | nil => simp [addAll, find?, Known]
  | append_singleton entries c ih =>
    rw [addAll_concat, find?_add, Option.isSome_or, Bool.or_eq_true, ih, known_concat]
    by_cases hname : name ∈ c.answers
    · simp [hname]
    · simp [hname]

/-- Names that stand for one class are kin. -/
theorem kin_of_find?_addAll (entries : List ClassDoc) {a b : String} {i : Nat}
    (ha : (({} : Roster).addAll entries).find? a = some i)
    (hb : (({} : Roster).addAll entries).find? b = some i) : Kin entries a b := by
  induction entries using List.reverseRecOn generalizing a b i with
  | nil => exact absurd ha (by simp [addAll, find?])
  | append_singleton entries c ih =>
    rw [addAll_concat] at ha hb
    have hmore : entries ⊆ entries ++ [c] := List.subset_append_left _ _
    have hown : ∀ name ∈ c.answers, Kin (entries ++ [c]) c.name name := fun name hname =>
      kin_of_mem (List.mem_append_right _ (List.mem_singleton_self c)) List.mem_cons_self hname
    -- A name that the entry brings stands for the class of the entry's own name.
    have hcases : ∀ name, (((({} : Roster).addAll entries).add c).find? name = some i) →
        (({} : Roster).addAll entries).find? name = some i ∨
          (((({} : Roster).addAll entries).add c).find? c.name = some i ∧ name ∈ c.answers) := by
      intro name hname
      rcases find?_add_cases hname with hold | ⟨hmem, rfl⟩
      · exact Or.inl hold
      · exact Or.inr ⟨find?_add_self _ c, hmem⟩
    have hnew : ∀ name, (({} : Roster).addAll entries).find? name = some i →
        ((({} : Roster).addAll entries).add c).find? c.name = some i →
          Kin (entries ++ [c]) c.name name := by
      intro name hname hself
      rw [find?_add_self] at hself
      cases hc : (({} : Roster).addAll entries).find? c.name with
      | some k =>
        rw [hc] at hself
        exact (ih (hc.trans hself) hname).mono hmore
      | none =>
        rw [hc] at hself
        have hlt := (valid_empty.addAll entries).lt name i hname
        rw [← Option.some.inj hself] at hlt
        exact absurd hlt (Nat.lt_irrefl _)
    rcases hcases a ha with hold | ⟨hself, hmem⟩
    · rcases hcases b hb with hold' | ⟨hself, hmem'⟩
      · exact (ih hold hold').mono hmore
      · exact (hnew a hold hself).symm.trans (hown b hmem')
    · rcases hcases b hb with hold' | ⟨-, hmem'⟩
      · exact (hown a hmem).symm.trans (hnew b hold' hself)
      · exact (hown a hmem).symm.trans (hown b hmem')

/-- An entry that is added belongs to the class of its name, and all others stay where they are. -/
theorem entriesAt_add {t : Roster} {entries : List ClassDoc}
    (hknown : ∀ e ∈ entries, (t.find? e.name).isSome) (c : ClassDoc) (k : Nat) :
    (t.add c).entriesAt (entries ++ [c]) k =
      t.entriesAt entries k ++
        if (t.find? c.name).getD t.heads.length = k then [c] else [] := by
  rw [entriesAt, List.filter_append, entriesAt]
  congr 1
  · refine List.filter_congr fun e he => ?_
    obtain ⟨i, hi⟩ := Option.isSome_iff_exists.1 (hknown e he)
    rw [find?_add_of_some hi, hi]
  · rw [List.filter_singleton, find?_add_self]
    by_cases h : (t.find? c.name).getD t.heads.length = k
    · simp [h]
    · simp [h, beq_false_of_ne h]

end Roster

/-- Every class is composed of the entries whose names stand for it. -/
structure Written (R : ClassDoc → List ClassDoc → Prop) (g : Grouping) (t : Roster)
    (entries : List ClassDoc) : Prop where
  composes : Composes R
  made : ∀ (i : Nat) (c : ClassDoc), g.classes[i]? = some c → R c (t.entriesAt entries i)
  known : ∀ e ∈ entries, (t.find? e.name).isSome

section
variable {g g' : Grouping} {t : Roster} {l : List (String × Member)} {leftOut : List String}
  {entries : List ClassDoc} {R : ClassDoc → List ClassDoc → Prop}

theorem Written.congr (hw : Written R g t entries)
    (hsame : g'.classes.map withoutMembers = g.classes.map withoutMembers) :
    Written R g' t entries := by
  refine ⟨hw.composes, fun i c hc => ?_, hw.known⟩
  have hat : (g.classes.map withoutMembers)[i]? = some c.withoutMembers := by
    rw [← hsame, List.getElem?_map, hc]
    rfl
  rw [List.getElem?_map] at hat
  obtain ⟨old, hold, hold'⟩ := Option.map_eq_some_iff.1 hat
  exact hw.composes.congr (hw.made i old hold) hold'.symm

theorem withoutMembers_addMembersAt (g : Grouping) (i : Nat) (ms : List Member) :
    (g.addMembersAt i ms).classes.map withoutMembers = g.classes.map withoutMembers :=
  map_modify_of_same (f := fun c => c.addMembers ms) (fun _ => rfl) g.classes i

theorem withoutMembers_assign (g : Grouping) (target : String) (m : Member) :
    (g.assign target m).1.classes.map withoutMembers = g.classes.map withoutMembers := by
  unfold assign
  split
  · exact withoutMembers_addMembersAt g _ _
  · rfl

theorem withoutMembers_addMember (g : Grouping) (place : Place) (memberOf : Option String)
    (m : Member) :
    (g.addMember place memberOf m).1.classes.map withoutMembers = g.classes.map withoutMembers := by
  unfold addMember
  split
  · exact withoutMembers_assign g _ m
  · exact withoutMembers_addMembersAt g _ _
  · exact withoutMembers_assign g _ m
  · rfl

theorem withoutMembers_adopt (i : Nat) (g : Grouping) (name : String) :
    (adopt i g name).1.classes.map withoutMembers = g.classes.map withoutMembers := by
  unfold adopt
  split
  · split
    · exact withoutMembers_addMembersAt _ _ _
    · rfl
  · rfl

theorem withoutMembers_adoptAll (i : Nat) (names : List String) (g : Grouping) :
    (reportEach (adopt i) g names).1.classes.map withoutMembers = g.classes.map withoutMembers := by
  induction names generalizing g with
  | nil => rfl
  | cons name names ih => exact (ih (adopt i g name).1).trans (withoutMembers_adopt i g name)

/-- An entry comes behind those that the class of its name is made of already. -/
theorem Written.place (hw : Written R g t entries) (h : Follows g t l leftOut) (ht : t.Valid)
    (c : ClassDoc) : Written R (g.place c).1 (t.add c) (entries ++ [c]) := by
  refine ⟨hw.composes, fun k kept hkept => ?_, fun e he => ?_⟩
  · rw [Roster.entriesAt_add hw.known]
    unfold Grouping.place at hkept
    rw [h.find?] at hkept
    cases hc : t.find? c.name with
    | some i =>
      rw [hc] at hkept
      dsimp only at hkept
      rw [List.getElem?_modify] at hkept
      obtain ⟨old, hold, rfl⟩ := Option.map_eq_some_iff.1 hkept
      rw [Option.getD_some]
      by_cases hik : i = k
      · rw [if_pos hik, if_pos hik]
        refine hw.composes.merge (hw.made k old hold) ?_
        obtain ⟨named, hnamed, hmem⟩ := answering_iff.1 h.answering c.name i hc
        rw [hik, hold] at hnamed
        exact Option.some.inj hnamed ▸ hmem
      · rw [if_neg hik, if_neg hik, List.append_nil]
        exact hw.made k old hold
    | none =>
      rw [hc] at hkept
      rw [Option.getD_none, ← h.length]
      rcases getElem?_concat_cases hkept with hold | ⟨rfl, rfl⟩
      · rw [if_neg (Nat.ne_of_gt (List.getElem?_eq_some_iff.1 hold).1), List.append_nil]
        exact hw.made k kept hold
      · have hnew : t.entriesAt entries g.classes.length = [] := by
          refine List.filter_eq_nil_iff.2 fun e _ he => ?_
          have hlt := ht.lt e.name _ (beq_iff_eq.1 he)
          rw [h.length] at hlt
          exact Nat.lt_irrefl _ hlt
        rw [if_pos rfl, hnew]
        exact hw.composes.self kept
  · rcases List.mem_append.1 he with he | he
    · obtain ⟨i, hi⟩ := Option.isSome_iff_exists.1 (hw.known e he)
      rw [Roster.find?_add_of_some hi]
      rfl
    · rw [List.mem_singleton.1 he, Roster.find?_add_self]
      rfl

theorem Written.addNamed (hw : Written R g t entries) (h : Follows g t l leftOut) (ht : t.Valid)
    (c : ClassDoc) : Written R (g.addNamed c).1.1 (t.add c) (entries ++ [c]) :=
  (hw.place h ht c).congr (withoutMembers_adoptAll _ _ _)

theorem Written.addEntry (hw : Written R g t entries) (h : Follows g t l leftOut) (ht : t.Valid)
    (filename : String) (place : Place) (e : Entry) :
    Written R (Grouping.addEntry filename (g, place) e).1.1
      (t.addAll (namedClass? filename e).toList) (entries ++ (namedClass? filename e).toList) := by
  obtain ⟨entity, memberOf, isIgnored⟩ := e
  cases entity with
  | ofClass c =>
    rw [addEntry_ofClass]
    cases hc : namedClass? filename ⟨.ofClass c, memberOf, isIgnored⟩ with
    | some c => exact hw.addNamed h ht c
    | none =>
      show Written R _ t (entries ++ [])
      rw [List.append_nil]
      exact hw.congr rfl
  | ofMember m =>
    show Written R _ t (entries ++ [])
    rw [List.append_nil]
    refine hw.congr ?_
    rw [Grouping.addEntry]
    dsimp only
    split
    · rfl
    · split
      · rfl
      · exact withoutMembers_addMember g place memberOf m

theorem Written.addEntries {filename : String} (es : List Entry) {place : Place}
    (hw : Written R g t entries) (h : Follows g t l leftOut) (ht : t.Valid) {before : List Entry}
    (hp : Fits t (currentName? filename before) place) :
    Written R (reportEach (Grouping.addEntry filename) (g, place) es).1.1
      (t.addAll (es.filterMap (namedClass? filename)))
      (entries ++ es.filterMap (namedClass? filename)) := by
  induction es generalizing g t l leftOut place before entries with
  | nil =>
    show Written R g t (entries ++ [])
    rw [List.append_nil]
    exact hw
  | cons e es ih =>
    obtain ⟨hone, hfits⟩ := h.addEntry ht hp e
    have hrest := ih (hw.addEntry h ht filename place e) hone (ht.addAll _) hfits
    rw [filterMap_cons_toList, Roster.addAll_append, ← List.append_assoc]
    exact hrest

theorem Written.addFiles (files : Files) (hw : Written R g t entries) (h : Follows g t l leftOut)
    (ht : t.Valid) :
    Written R (reportEach (fun g f => g.addFile f.1 f.2) g files).1
      (t.addAll (classEntries files)) (entries ++ classEntries files) := by
  induction files generalizing g t l leftOut entries with
  | nil =>
    show Written R g t (entries ++ [])
    rw [List.append_nil]
    exact hw
  | cons f files ih =>
    have hfits : Fits t (currentName? f.1 []) .outside := rfl
    have hrest := ih (hw.addEntries f.2 h ht hfits) (h.addFile ht f.1 f.2) (ht.addAll _)
    rw [classEntries, List.flatMap_cons, Roster.addAll_append, ← List.append_assoc]
    exact hrest

end

/-- Grouped classes are composed of class entries, in whatever way classes are read. -/
theorem written_ofFiles {R : ClassDoc → List ClassDoc → Prop} (hR : Composes R) (files : Files) :
    Written R (ofFiles files) (roster files) (classEntries files) := by
  have hempty : Follows {} {} [] [] :=
    ⟨⟨rfl, rfl, fun _ _ h => absurd h (by simp [Roster.find?]), fun _ _ h => by simp at h, rfl⟩, rfl⟩
  have hnone : Written R {} {} [] :=
    ⟨hR, fun _ _ h => absurd h (by simp), fun _ h => absurd h List.not_mem_nil⟩
  exact hnone.addFiles files hempty Roster.valid_empty

end Grouping
end ApiDoc
