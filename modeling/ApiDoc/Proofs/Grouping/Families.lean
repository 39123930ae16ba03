/-
Classes that share names, and families of names.

Two names are kin if a chain of classes leads from one to the other, each class sharing a name with
the next.  Folding joins only what is kin, but it joins all of it only if no class belongs to two
families of the classes before it: such a class goes to one of the two, and the other one keeps the
shared name as well (`sharesNoName_iff`).
-/
import ApiDoc.Proofs.Grouping.Parts
import Mathlib.Logic.Relation

namespace ApiDoc

/-- One of the classes answers to the name. -/
def Known (classes : List ClassDoc) (name : String) : Prop := ∃ c ∈ classes, name ∈ c.answers

/-- One of the classes answers to both names. -/
def Linked (classes : List ClassDoc) (a b : String) : Prop :=
  ∃ c ∈ classes, a ∈ c.answers ∧ b ∈ c.answers

abbrev Kin (classes : List ClassDoc) : String → String → Prop :=
  Relation.ReflTransGen (Linked classes)

theorem Linked.mono {classes classes' : List ClassDoc} (h : classes ⊆ classes') {a b : String}
    (hab : Linked classes a b) : Linked classes' a b := by
  obtain ⟨c, hc, hnames⟩ := hab
  exact ⟨c, h hc, hnames⟩

theorem Kin.mono {classes classes' : List ClassDoc} (h : classes ⊆ classes') {a b : String}
    (hab : Kin classes a b) : Kin classes' a b :=
  Relation.ReflTransGen.mono (fun _ _ hlinked => Linked.mono h hlinked) a b hab

theorem Linked.symm {classes : List ClassDoc} {a b : String} (h : Linked classes a b) :
    Linked classes b a := by
  obtain ⟨c, hc, ha, hb⟩ := h
  exact ⟨c, hc, hb, ha⟩

theorem Kin.symm {classes : List ClassDoc} {a b : String} (h : Kin classes a b) :
    Kin classes b a := by
  induction h with
  | refl => exact Relation.ReflTransGen.refl
  | tail _ hlinked ih => exact Relation.ReflTransGen.head hlinked.symm ih

theorem kin_of_mem {classes : List ClassDoc} {c : ClassDoc} (hc : c ∈ classes) {a b : String}
    (ha : a ∈ c.answers) (hb : b ∈ c.answers) : Kin classes a b :=
  Relation.ReflTransGen.single ⟨c, hc, ha, hb⟩

/-- No name is answered to at two places. -/
def SharesNoName (classes : List ClassDoc) : Prop :=
  ∀ (i k : Nat) (c d : ClassDoc), classes[i]? = some c → classes[k]? = some d →
    ∀ name ∈ c.answers, name ∈ d.answers → i = k

/-- All names of the class that earlier classes know belong to one family of these. -/
def JoinsOneFamily (before : List ClassDoc) (c : ClassDoc) : Prop :=
  ∀ a ∈ c.answers, ∀ b ∈ c.answers, Known before a → Known before b → Kin before a b

namespace Unified

/-- The names of a class that is left are kin. -/
def Kindred (u : Unified) (before : List ClassDoc) : Prop :=
  ∀ (k : Nat) (kept : ClassDoc), u.classes[k]? = some kept →
    ∀ a ∈ kept.answers, ∀ b ∈ kept.answers, Kin before a b

/-- The names of a class that is left lead to it. -/
def Leads (u : Unified) : Prop :=
  ∀ (k : Nat) (kept : ClassDoc), u.classes[k]? = some kept →
    ∀ name ∈ kept.answers, u.names.lookup name = some k

section
variable {u : Unified} {placed : List (ClassDoc × Nat)}

theorem Gathers.known_iff (h : u.Gathers placed) (name : String) :
    (u.names.lookup name).isSome ↔ Known (placed.map Prod.fst) name := by
  rw [h.known, Known]
  simp

/-- A class answers, at the place to which it went, to all of its names. -/
theorem Gathers.answers_at (h : u.Gathers placed) {c : ClassDoc} {k : Nat} (hc : (c, k) ∈ placed) :
    ∃ kept, u.classes[k]? = some kept ∧ ∀ name ∈ c.answers, name ∈ kept.answers := by
  obtain ⟨kept, hkept, -⟩ := h.answering _ hc
  exact ⟨kept, hkept, fun name hname =>
    ((h.made k kept hkept).answers name).2 ⟨c, mem_partsAt.2 hc, hname⟩⟩

theorem Gathers.known_of_mem (h : u.Gathers placed) {k : Nat} {kept : ClassDoc}
    (hkept : u.classes[k]? = some kept) {name : String} (hname : name ∈ kept.answers) :
    ∃ i, u.names.lookup name = some i := by
  obtain ⟨c, hc, hanswers⟩ := ((h.made k kept hkept).answers name).1 hname
  exact Option.isSome_iff_exists.1 ((h.known name).2 ⟨_, mem_partsAt.1 hc, hanswers⟩)

theorem Gathers.leads_iff (h : u.Gathers placed) : u.Leads ↔ SharesNoName u.classes := by
  constructor
  · intro hleads i k c d hc hd name hnc hnd
    have hi := hleads i c hc name hnc
    rw [hleads k d hd name hnd] at hi
    exact (Option.some.inj hi).symm
  · intro hapart k kept hkept name hname
    obtain ⟨i, hi⟩ := h.known_of_mem hkept hname
    obtain ⟨other, hother, hnother⟩ := h.answered name i hi
    rw [hi, hapart i k other kept hother hkept name hnother hname]

/-- Where names lead to the classes that answer to them, names of one family lead to one place. -/
theorem Gathers.lookup_of_kin (h : u.Gathers placed) (hleads : u.Leads) {a b : String}
    (hab : Kin (placed.map Prod.fst) a b) : u.names.lookup a = u.names.lookup b := by
  induction hab with
  | refl => rfl
  | tail _ hlinked ih =>
    obtain ⟨c, hc, hb, hd⟩ := hlinked
    obtain ⟨p, hp, rfl⟩ := List.mem_map.1 hc
    obtain ⟨kept, hkept, hanswers⟩ := h.answers_at hp
    rw [ih, hleads _ kept hkept _ (hanswers _ hb), hleads _ kept hkept _ (hanswers _ hd)]

theorem lookup_add_of_some (c : ClassDoc) {name : String} {i : Nat}
    (h : u.names.lookup name = some i) : (u.add c).1.names.lookup name = some i := by
  rcases add_cases u c with ⟨-, hadd⟩ | ⟨_, _, -, -, hadd⟩
  · rw [hadd, List.lookup_append, h]
    rfl
  · rw [hadd, List.lookup_append, h]
    rfl

/-- What a class that is left answers to, it goes on answering to. -/
theorem mem_answers_add (c : ClassDoc) {k : Nat} {kept : ClassDoc}
    (hkept : u.classes[k]? = some kept) :
    ∃ kept', (u.add c).1.classes[k]? = some kept' ∧ ∀ name ∈ kept.answers, name ∈ kept'.answers := by
  rcases add_cases u c with ⟨-, hadd⟩ | ⟨_, i, -, -, hadd⟩
  · refine ⟨kept, ?_, fun name hname => hname⟩
    rw [hadd, List.getElem?_append_left (List.getElem?_eq_some_iff.1 hkept).1, hkept]
  · refine ⟨if i = k then fold kept (tidied c) else kept, ?_, fun name hname => ?_⟩
    · rw [hadd, List.getElem?_modify, hkept]
      rfl
    · split
      · exact mem_answers_fold_iff.2 (Or.inl hname)
      · exact hname

theorem Kindred.add (hkin : u.Kindred (placed.map Prod.fst)) (h : u.Gathers placed) (c : ClassDoc) :
    (u.add c).1.Kindred (placed.map Prod.fst ++ [c]) := by
  have hmore : placed.map Prod.fst ⊆ placed.map Prod.fst ++ [c] := List.subset_append_left _ _
  have hown : ∀ a ∈ c.answers, ∀ b ∈ c.answers, Kin (placed.map Prod.fst ++ [c]) a b :=
    fun a ha b hb => kin_of_mem (List.mem_append_right _ (List.mem_singleton_self c)) ha hb
  intro k kept hkept
  rcases add_cases u c with ⟨-, hadd⟩ | ⟨shared, i, hshared, hi, hadd⟩
  · rw [hadd] at hkept
    rcases getElem?_concat_cases hkept with hold | ⟨-, rfl⟩
    · exact fun a ha b hb => (hkin k kept hold a ha b hb).mono hmore
    · exact fun a ha b hb => hown a (mem_answers_tidied.1 ha) b (mem_answers_tidied.1 hb)
  · rw [hadd, List.getElem?_modify] at hkept
    obtain ⟨old, hold, rfl⟩ := Option.map_eq_some_iff.1 hkept
    by_cases hik : i = k
    · rw [if_pos hik]
      -- Everything that the class answers to now is kin to the name that led to it.
      have hlead : ∀ a ∈ (fold old (tidied c)).answers, Kin (placed.map Prod.fst ++ [c]) shared a := by
        intro a ha
        rcases mem_answers_fold_iff.1 ha with ha | ha
        · obtain ⟨kept, hkept, hmem⟩ := h.answered shared i hi
          rw [hik, hold] at hkept
          obtain rfl := Option.some.inj hkept
          exact (hkin k old hold shared hmem a ha).mono hmore
        · exact hown shared hshared a (mem_answers_tidied.1 ha)
      exact fun a ha b hb => (hlead a ha).symm.trans (hlead b hb)
    · rw [if_neg hik]
      exact fun a ha b hb => (hkin k old hold a ha b hb).mono hmore

/-- Names go on leading to the classes that answer to them if the class that is added belongs to one
family at most. -/
theorem Leads.add (hleads : u.Leads) (h : u.Gathers placed) {c : ClassDoc}
    (hjoins : JoinsOneFamily (placed.map Prod.fst) c) : (u.add c).1.Leads := by
  intro k kept hkept name hname
  rcases add_cases u c with ⟨hnew, hadd⟩ | ⟨shared, i, hshared, hi, hadd⟩
  · rw [hadd] at hkept
    rcases getElem?_concat_cases hkept with hold | ⟨rfl, rfl⟩
    · exact lookup_add_of_some c (hleads k kept hold name hname)
    · rw [hadd, List.lookup_append, hnew name (mem_answers_tidied.1 hname), lookup_map_pair,
        if_pos hname]
      rfl
  · rw [hadd, List.getElem?_modify] at hkept
    obtain ⟨old, hold, rfl⟩ := Option.map_eq_some_iff.1 hkept
    by_cases hik : i = k
    · subst hik
      rw [if_pos rfl] at hname
      rcases mem_answers_fold_iff.1 hname with hname | hname
      · exact lookup_add_of_some c (hleads i old hold name hname)
      · cases hlookup : u.names.lookup name with
        | none =>
          rw [hadd, List.lookup_append, hlookup, lookup_map_pair, if_pos hname]
          rfl
        | some j =>
          refine lookup_add_of_some c ?_
          have hkin := hjoins shared hshared name (mem_answers_tidied.1 hname)
            ((h.known_iff shared).1 (by rw [hi]; rfl)) ((h.known_iff name).1 (by rw [hlookup]; rfl))
          rw [← h.lookup_of_kin hleads hkin, hi]
    · rw [if_neg hik] at hname
      exact lookup_add_of_some c (hleads k old hold name hname)

/-- If names lead to the classes that answer to them after a class is added, they did so before, and
the class belongs to one family at most. -/
theorem leads_of_add (h : u.Gathers placed) (hkin : u.Kindred (placed.map Prod.fst)) {c : ClassDoc}
    (hleads : (u.add c).1.Leads) : u.Leads ∧ JoinsOneFamily (placed.map Prod.fst) c := by
  obtain ⟨i, hadded, -⟩ := h.add c
  obtain ⟨kept', hkept', hanswers'⟩ := hadded.answers_at (c := c) (k := i)
    (List.mem_append_right _ (List.mem_singleton_self _))
  have hlead : u.Leads := by
    intro k kept hkept name hname
    obtain ⟨j, hj⟩ := h.known_of_mem hkept hname
    obtain ⟨later, hlater, hmore⟩ := mem_answers_add c hkept
    have hk := hleads k later hlater name (hmore name hname)
    rw [lookup_add_of_some c hj] at hk
    rw [hj, Option.some.inj hk]
  -- Whatever the class answers to and is known leads to the place to which the class went.
  have hplace : ∀ a ∈ c.answers, Known (placed.map Prod.fst) a → u.names.lookup a = some i := by
    intro a ha hknown
    obtain ⟨j, hj⟩ := Option.isSome_iff_exists.1 ((h.known_iff a).2 hknown)
    have hi := hleads i kept' hkept' a (hanswers' a ha)
    rw [lookup_add_of_some c hj] at hi
    rw [hj, hi]
  refine ⟨hlead, fun a ha b hb hka hkb => ?_⟩
  obtain ⟨kept, hkept, hmem⟩ := h.answered a i (hplace a ha hka)
  obtain ⟨_, hsame, hmem'⟩ := h.answered b i (hplace b hb hkb)
  rw [hkept] at hsame
  obtain rfl := Option.some.inj hsame
  exact hkin i kept hkept a hmem b hmem'

theorem Gathers.addAll (classes : List ClassDoc) (h : u.Gathers placed)
    (hkin : u.Kindred (placed.map Prod.fst)) :
    ∃ more, more.map Prod.fst = classes ∧
      (reportEach Unified.add u classes).1.Gathers (placed ++ more) ∧
      (reportEach Unified.add u classes).1.Kindred (placed.map Prod.fst ++ classes) ∧
      ((reportEach Unified.add u classes).1.Leads ↔ u.Leads ∧
        ∀ before c, before ++ [c] <+: classes →
          JoinsOneFamily (placed.map Prod.fst ++ before) c) := by
  induction classes generalizing u placed with
  | nil =>
    refine ⟨[], rfl, ?_, ?_, ?_⟩
    · rw [List.append_nil]
      exact h
    · rw [List.append_nil]
      exact hkin
    · refine (and_iff_left fun before c hprefix => ?_).symm
      exact absurd hprefix (by simp)
  | cons c classes ih =>
    obtain ⟨i, hone, -⟩ := h.add c
    have hmap : (placed ++ [(c, i)]).map Prod.fst = placed.map Prod.fst ++ [c] := List.map_append
    obtain ⟨more, hmore, hall, hallkin, hiff⟩ := ih hone (hmap ▸ hkin.add h c)
    refine ⟨(c, i) :: more, by rw [List.map_cons, hmore], ?_, ?_, ?_⟩
    · rw [List.append_cons]
      exact hall
    · rw [List.append_cons, ← hmap]
      exact hallkin
    · have hstep : (u.add c).1.Leads ↔ u.Leads ∧ JoinsOneFamily (placed.map Prod.fst) c :=
        ⟨leads_of_add h hkin, fun hboth => hboth.1.add h hboth.2⟩
      refine hiff.trans ?_
      rw [hstep, hmap, and_assoc]
      refine and_congr_right fun _ => ?_
      constructor
      · rintro ⟨hfirst, hrest⟩ before d hprefix
        cases before with
        | nil =>
          obtain rfl : d = c := (List.cons_prefix_cons.1 hprefix).1
          rw [List.append_nil]
          exact hfirst
        | cons first before =>
          rw [List.cons_append, List.cons_prefix_cons] at hprefix
          obtain ⟨rfl, hprefix⟩ := hprefix
          rw [List.append_cons]
          exact hrest before d hprefix
      · intro hjoins
        refine ⟨?_, fun before d hprefix => ?_⟩
        · rw [← List.append_nil (placed.map Prod.fst)]
          exact hjoins [] c (List.cons_prefix_cons.2 ⟨rfl, List.nil_prefix⟩)
        · rw [← List.append_cons]
          exact hjoins (c :: before) d (List.cons_prefix_cons.2 ⟨rfl, hprefix⟩)

end

/-- What folding makes of classes. -/
theorem ofClasses_gathers (classes : List ClassDoc) :
    ∃ placed, placed.map Prod.fst = classes ∧ (ofClasses classes).1.Gathers placed ∧
      (ofClasses classes).1.Kindred classes ∧
      (SharesNoName (ofClasses classes).1.classes ↔
        ∀ before c, before ++ [c] <+: classes → JoinsOneFamily before c) := by
  obtain ⟨placed, hplaced, hgathers, hkin, hleads⟩ :=
    gathers_empty.addAll classes fun _ _ hkept => absurd hkept (by simp)
  have hempty : ({} : Unified).Leads := fun _ _ hkept => absurd hkept (by simp)
  refine ⟨placed, hplaced, hgathers, hkin, ?_⟩
  refine hgathers.leads_iff.symm.trans (hleads.trans ?_)
  rw [and_iff_right hempty]
  rfl

/-- Folding keeps the names of all classes and joins only classes whose names are kin.  The classes that
are left share no name exactly if every class belongs to one family of the classes before it at most,
and then they are the families: every name is answered to at one place, and two names at the same place
exactly if they are kin. -/
theorem sharesNoName_iff (classes : List ClassDoc) :
    let kept := (ofClasses classes).1.classes
    (∀ name, Known kept name ↔ Known classes name) ∧
      (∀ c ∈ kept, ∀ a ∈ c.answers, ∀ b ∈ c.answers, Kin classes a b) ∧
      (SharesNoName kept ↔ ∀ before c, before ++ [c] <+: classes → JoinsOneFamily before c) ∧
      (SharesNoName kept → ∀ name, Known classes name →
        ∃ k c, kept[k]? = some c ∧ ∀ (i : Nat) (d : ClassDoc), kept[i]? = some d →
          ∀ name', Kin classes name name' → (name' ∈ d.answers ↔ i = k)) := by
  intro kept
  obtain ⟨placed, hplaced, hgathers, hkin, hiff⟩ := ofClasses_gathers classes
  have hnames : ∀ name, Known kept name ↔ Known classes name := by
    intro name
    rw [← hplaced, ← hgathers.known_iff]
    constructor
    · rintro ⟨c, hc, hname⟩
      obtain ⟨k, hk⟩ := List.getElem?_of_mem hc
      exact Option.isSome_iff_exists.2 (hgathers.known_of_mem hk hname)
    · intro hsome
      obtain ⟨i, hi⟩ := Option.isSome_iff_exists.1 hsome
      obtain ⟨c, hc, hname⟩ := hgathers.answered name i hi
      exact ⟨c, List.mem_of_getElem? hc, hname⟩
  refine ⟨hnames, fun c hc => ?_, hiff, fun hapart name hname => ?_⟩
  · obtain ⟨k, hk⟩ := List.getElem?_of_mem hc
    exact hkin k c hk
  · obtain ⟨c, hc, hmem⟩ := (hnames name).2 hname
    obtain ⟨k, hk⟩ := List.getElem?_of_mem hc
    have hleads := hgathers.leads_iff.2 hapart
    refine ⟨k, c, hk, fun i d hd name' hkin' => ?_⟩
    rw [← hplaced] at hkin'
    have hlookup := hgathers.lookup_of_kin hleads hkin'
    rw [hleads k c hk name hmem] at hlookup
    constructor
    · intro hmem'
      rw [hleads i d hd name' hmem'] at hlookup
      exact (Option.some.inj hlookup).symm
    · rintro rfl
      obtain ⟨e, he, hmem'⟩ := hgathers.answered name' i hlookup.symm
      rw [hd] at he
      exact Option.some.inj he ▸ hmem'

/-- Two classes, and a later one that has the names of both as alternate names. -/
def bridged : List ClassDoc :=
  [{ name := "A" }, { name := "B" }, { name := "C", alternateNames := ["A", "B"] }]

/-- The later class goes to the first of the two, and the second one keeps the name that is shared. -/
theorem bridged_shares_name :
    (bridged.map ClassDoc.name).Nodup ∧ ∃ a b,
      (ofClasses bridged).1.classes = [a, b] ∧ "B" ∈ a.answers ∧ "B" ∈ b.answers := by
  refine ⟨by decide, { name := "A", alternateNames := ["C", "B"] }, { name := "B" }, rfl, ?_, ?_⟩
  · decide
  · decide

end Unified
end ApiDoc
