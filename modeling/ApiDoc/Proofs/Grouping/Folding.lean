/-
Folding classes that share names keeps their members.

Every class goes to a place among the classes that remain.  What remains there answers to its name and
holds, one after another, the members of all classes that went there (`ofClasses_holds`).
-/
import ApiDoc.Grouping.SharedNames
import ApiDoc.Proofs.Buckets
import ApiDoc.Proofs.Tables

namespace ApiDoc
namespace Unified

/-- The members of the classes that went to a place. -/
def blockAt (placed : List (ClassDoc × Nat)) (k : Nat) : List Member :=
  (placed.filter fun p => p.2 == k).flatMap fun p => p.1.members

theorem blockAt_append (placed placed' : List (ClassDoc × Nat)) (k : Nat) :
    blockAt (placed ++ placed') k = blockAt placed k ++ blockAt placed' k := by
  rw [blockAt, List.filter_append, List.flatMap_append]
  rfl

theorem blockAt_singleton (c : ClassDoc) (i k : Nat) :
    blockAt [(c, i)] k = if i = k then c.members else [] := by
  by_cases h : i = k
  · simp [blockAt, h]
  · simp [blockAt, h]

theorem members_fold (target c : ClassDoc) :
    (fold target c).members = target.members ++ c.members := by
  unfold fold
  split
  · rfl
  · rfl

theorem name_fold (target c : ClassDoc) : (fold target c).name = target.name := by
  unfold fold
  split
  · rfl
  · rfl

/-- A class that takes another one in answers to its own names still, and to the other's name. -/
theorem mem_answers_fold {target c : ClassDoc} {name : String}
    (h : name ∈ target.answers ∨ name = c.name) : name ∈ (fold target c).answers := by
  rw [fold, ClassDoc.mem_answers_merge]
  refine Or.inl ?_
  by_cases hsame : target.name = c.name
  · rw [if_pos (by simpa using hsame)]
    rcases h with h | rfl
    · exact h
    · exact List.mem_cons.2 (Or.inl hsame.symm)
  · rw [if_neg (by simpa using hsame)]
    show name ∈ target.name :: appendNew target.alternateNames [c.name]
    rw [List.mem_cons, mem_appendNew, List.mem_singleton]
    rcases h with h | rfl
    · exact (List.mem_cons.1 h).imp_right Or.inl
    · exact Or.inr (Or.inr rfl)

structure Holds (u : Unified) (placed : List (ClassDoc × Nat)) : Prop where
  lt : ∀ name i, u.names.lookup name = some i → i < u.classes.length
  members : ∀ (k : Nat) (kept : ClassDoc), u.classes[k]? = some kept → kept.members = blockAt placed k
  answering : ∀ p ∈ placed, ∃ kept, u.classes[p.2]? = some kept ∧ p.1.name ∈ kept.answers

theorem Holds.blockAt_length {u : Unified} {placed : List (ClassDoc × Nat)} (h : u.Holds placed) :
    blockAt placed u.classes.length = [] := by
  rw [blockAt, List.filter_eq_nil_iff.2, List.flatMap_nil]
  intro p hp hlen
  obtain ⟨kept, hkept, -⟩ := h.answering p hp
  have := (List.getElem?_eq_some_iff.1 hkept).1
  rw [eq_of_beq hlen] at this
  exact Nat.lt_irrefl _ this

/-- A class that shares no name gets a place of its own. -/
theorem Holds.append {u : Unified} {placed : List (ClassDoc × Nat)} (h : u.Holds placed)
    {c c' : ClassDoc} (hname : c'.name = c.name) (hmembers : c'.members = c.members)
    (keys folded : List String) :
    Holds
      { classes := u.classes ++ [c'], folded
        names := u.names ++ keys.map fun name => (name, u.classes.length) }
      (placed ++ [(c, u.classes.length)]) := by
  refine ⟨?_, ?_, ?_⟩
  · intro name i hi
    rw [List.length_append, List.length_singleton]
    rcases lookup_append_map_pair hi with hold | ⟨-, rfl⟩
    · exact Nat.lt_succ_of_lt (h.lt name i hold)
    · exact Nat.lt_succ_self _
  · intro k kept hkept
    rw [blockAt_append, blockAt_singleton]
    rcases getElem?_concat_cases hkept with hold | ⟨rfl, rfl⟩
    · have hk := (List.getElem?_eq_some_iff.1 hold).1
      rw [if_neg (Ne.symm (Nat.ne_of_lt hk)), List.append_nil]
      exact h.members k kept hold
    · rw [if_pos rfl, h.blockAt_length, hmembers]
      rfl
  · intro p hp
    rcases List.mem_append.1 hp with hp | hp
    · obtain ⟨kept, hkept, hanswer⟩ := h.answering p hp
      refine ⟨kept, ?_, hanswer⟩
      rw [List.getElem?_append_left (List.getElem?_eq_some_iff.1 hkept).1, hkept]
    · obtain rfl := List.mem_singleton.1 hp
      refine ⟨c', by simp, ?_⟩
      rw [← hname]
      exact List.mem_cons_self

/-- A class that shares a name goes to the place of the class that has it. -/
theorem Holds.modify {u : Unified} {placed : List (ClassDoc × Nat)} (h : u.Holds placed)
    {c c' : ClassDoc} (hname : c'.name = c.name) (hmembers : c'.members = c.members) {i : Nat}
    (hi : i < u.classes.length) (keys folded : List String) :
    Holds
      { classes := u.classes.modify i fun target => fold target c', folded
        names := u.names ++ keys.map fun name => (name, i) }
      (placed ++ [(c, i)]) := by
  have hget : ∀ k, (u.classes.modify i fun target => fold target c')[k]? =
      (u.classes[k]?).map fun old => if i = k then fold old c' else old := fun k =>
    List.getElem?_modify _ _ _ _
  refine ⟨?_, ?_, ?_⟩
  · intro name k hk
    rw [List.length_modify]
    rcases lookup_append_map_pair hk with hold | ⟨-, rfl⟩
    · exact h.lt name k hold
    · exact hi
  · intro k kept hkept
    rw [hget] at hkept
    obtain ⟨old, hold, rfl⟩ := Option.map_eq_some_iff.1 hkept
    rw [blockAt_append, blockAt_singleton, ← h.members k old hold]
    by_cases hik : i = k
    · rw [if_pos hik, if_pos hik, members_fold, hmembers]
    · rw [if_neg hik, if_neg hik, List.append_nil]
  · intro p hp
    rcases List.mem_append.1 hp with hp | hp
    · obtain ⟨old, hold, hanswer⟩ := h.answering p hp
      refine ⟨_, (hget p.2).trans (by rw [hold, Option.map_some]), ?_⟩
      split
      · exact mem_answers_fold (Or.inl hanswer)
      · exact hanswer
    · obtain rfl := List.mem_singleton.1 hp
      refine ⟨fold u.classes[i] c', ?_, mem_answers_fold (Or.inr hname.symm)⟩
      rw [hget, List.getElem?_eq_getElem hi, Option.map_some, if_pos rfl]

theorem Holds.add {u : Unified} {placed : List (ClassDoc × Nat)} (h : u.Holds placed)
    (c : ClassDoc) : ∃ i, (u.add c).1.Holds (placed ++ [(c, i)]) := by
  unfold Unified.add
  dsimp only
  split
  · exact ⟨_, h.append (c := c) (by rfl) (by rfl) _ _⟩
  · next i hi =>
    obtain ⟨name, -, hname⟩ := List.exists_of_findSome?_eq_some hi
    exact ⟨i, h.modify (c := c) (by rfl) (by rfl) (h.lt name i hname) _ _⟩

theorem Holds.addAll {u : Unified} (classes : List ClassDoc) {placed : List (ClassDoc × Nat)}
    (h : u.Holds placed) :
    ∃ more, more.map Prod.fst = classes ∧ (reportEach Unified.add u classes).1.Holds (placed ++ more) := by
  induction classes generalizing u placed with
  | nil => exact ⟨[], rfl, by rw [List.append_nil]; exact h⟩
  | cons c classes ih =>
    obtain ⟨i, hone⟩ := h.add c
    obtain ⟨more, hmore, hrest⟩ := ih hone
    refine ⟨(c, i) :: more, by rw [List.map_cons, hmore], ?_⟩
    rw [List.append_cons]
    exact hrest

theorem ofClasses_holds (classes : List ClassDoc) :
    ∃ placed, placed.map Prod.fst = classes ∧ (ofClasses classes).1.Holds placed := by
  have hempty : Holds {} [] :=
    ⟨fun _ _ h => absurd h (by simp), fun _ _ h => absurd h (by simp), fun _ h => absurd h (by simp)⟩
  exact hempty.addAll classes

theorem Holds.members_perm {u : Unified} {placed : List (ClassDoc × Nat)} (h : u.Holds placed) :
    (u.classes.flatMap ClassDoc.members).Perm ((placed.map Prod.fst).flatMap ClassDoc.members) := by
  have hbuckets := flatMap_perm_range u.classes ClassDoc.members (blockAt placed) fun k kept hk =>
    List.Perm.of_eq (h.members k kept hk)
  have hall : (placed.filter fun p => (some p.2).any fun i => decide (i < u.classes.length)) =
      placed := by
    refine List.filter_eq_self.2 fun p hp => ?_
    obtain ⟨kept, hkept, -⟩ := h.answering p hp
    simpa using (List.getElem?_eq_some_iff.1 hkept).1
  have hsorted := range_flatMap_filter_perm placed (fun p => some p.2) (fun p => p.1.members)
    u.classes.length
  rw [hall] at hsorted
  rw [List.flatMap_map]
  exact hbuckets.trans hsorted

end Unified
end ApiDoc
