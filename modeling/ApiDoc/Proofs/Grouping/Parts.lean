/-
What classes are put together from.

Descriptions of one class are combined in two places: where entries are grouped, and where classes
that share names are folded.  Both times the outcome answers to the names of all its parts, overrides
what the first part with an override overrides, and has no files but those of its parts (`MadeOf`).
-/
import ApiDoc.Proofs.Grouping.Folding

namespace ApiDoc
namespace ClassDoc

/-- The class is put together from these descriptions, the first one of which named it. -/
structure MadeOf (c : ClassDoc) (parts : List ClassDoc) : Prop where
  named : parts.head?.map ClassDoc.name = some c.name
  answers : ∀ name, name ∈ c.answers ↔ ∃ p ∈ parts, name ∈ p.answers
  overrideOf : c.overrideOf = parts.findSome? ClassDoc.overrideOf
  files : ∀ f ∈ c.files, ∃ p ∈ parts, f ∈ p.files

theorem madeOf_self (c : ClassDoc) : c.MadeOf [c] := by
  refine ⟨rfl, fun name => by simp, ?_, fun f hf => ⟨c, by simp, hf⟩⟩
  rw [List.findSome?_singleton]

theorem findSome?_concat {α β : Type} (f : α → Option β) (xs : List α) (x : α) :
    (xs ++ [x]).findSome? f = (xs.findSome? f <|> f x) := by
  rw [List.findSome?_append, List.findSome?_singleton, Option.orElse_eq_orElse, Option.orElse_eq_or]

theorem MadeOf.ne_nil {c : ClassDoc} {parts : List ClassDoc} (h : c.MadeOf parts) : parts ≠ [] := by
  rintro rfl
  exact absurd h.named (by simp)

/-- A further part comes behind those that are there. -/
theorem MadeOf.concat {c c' later : ClassDoc} {parts : List ClassDoc} (h : c.MadeOf parts)
    (hname : c'.name = c.name)
    (hanswers : ∀ name, name ∈ c'.answers ↔ name ∈ c.answers ∨ name ∈ later.answers)
    (hoverride : c'.overrideOf = (c.overrideOf <|> later.overrideOf))
    (hfiles : c'.files = c.files ++ later.files) : c'.MadeOf (parts ++ [later]) := by
  refine ⟨?_, fun name => ?_, ?_, fun f hf => ?_⟩
  · rw [List.head?_append_of_ne_nil parts h.ne_nil, h.named, hname]
  · rw [hanswers, h.answers]
    simp [or_and_right, exists_or]
  · rw [hoverride, h.overrideOf, findSome?_concat]
  · rw [hfiles] at hf
    rcases List.mem_append.1 hf with hf | hf
    · obtain ⟨p, hp, hpf⟩ := h.files f hf
      exact ⟨p, List.mem_append_left _ hp, hpf⟩
    · exact ⟨later, by simp, hf⟩

/-- A description of a class is combined with what the class is made of, if its name is known. -/
theorem MadeOf.merge {c later : ClassDoc} {parts : List ClassDoc} (h : c.MadeOf parts)
    (hname : later.name ∈ c.answers) : (c.merge later).MadeOf (parts ++ [later]) := by
  refine h.concat rfl (fun name => ?_) rfl rfl
  rw [mem_answers_merge]
  constructor
  · exact Or.imp_right (List.mem_cons_of_mem _)
  · rintro (hold | hnew)
    · exact Or.inl hold
    · rcases List.mem_cons.1 hnew with rfl | halternate
      · exact Or.inl hname
      · exact Or.inr halternate

end ClassDoc

namespace Unified

/-- A class does not count its own name among its alternate names. -/
def tidied (c : ClassDoc) : ClassDoc :=
  { c with alternateNames := c.alternateNames.filter (· != c.name) }

theorem name_tidied (c : ClassDoc) : (tidied c).name = c.name := rfl

theorem members_tidied (c : ClassDoc) : (tidied c).members = c.members := rfl

theorem mem_answers_tidied {c : ClassDoc} {name : String} :
    name ∈ (tidied c).answers ↔ name ∈ c.answers := by
  show name ∈ c.name :: c.alternateNames.filter (· != c.name) ↔ name ∈ c.name :: c.alternateNames
  rw [List.mem_cons, List.mem_cons, List.mem_filter, bne_iff_ne]
  by_cases h : name = c.name
  · simp [h]
  · simp [h]

/-- A class that takes another one in answers to the names of both. -/
theorem mem_answers_fold_iff {target c : ClassDoc} {name : String} :
    name ∈ (fold target c).answers ↔ name ∈ target.answers ∨ name ∈ c.answers := by
  constructor
  · intro h
    rw [fold, ClassDoc.mem_answers_merge] at h
    rcases h with hknown | hmore
    · split at hknown
      · exact Or.inl hknown
      · rcases List.mem_cons.1 hknown with rfl | hknown
        · exact Or.inl List.mem_cons_self
        · rcases mem_appendNew.1 hknown with hold | hnew
          · exact Or.inl (List.mem_cons_of_mem _ hold)
          · rw [List.mem_singleton.1 hnew]
            exact Or.inr List.mem_cons_self
    · exact Or.inr (List.mem_cons_of_mem _ (List.mem_filter.1 hmore).1)
  · rintro (htarget | hc)
    · exact mem_answers_fold (Or.inl htarget)
    · rcases List.mem_cons.1 hc with rfl | halternate
      · exact mem_answers_fold (Or.inr rfl)
      · by_cases hsame : name = target.name
        · exact mem_answers_fold (Or.inl (List.mem_cons.2 (Or.inl hsame)))
        · rw [fold, ClassDoc.mem_answers_merge]
          exact Or.inr (List.mem_filter.2 ⟨halternate, bne_iff_ne.2 hsame⟩)

theorem overrideOf_fold (target c : ClassDoc) :
    (fold target c).overrideOf = (target.overrideOf <|> c.overrideOf) := by
  unfold fold
  split
  · rfl
  · rfl

theorem files_fold (target c : ClassDoc) : (fold target c).files = target.files ++ c.files := by
  unfold fold
  split
  · rfl
  · rfl

/-- What adding a class does: it gets a place of its own if none of its names is known, and else goes
to the place of one that is. -/
theorem add_cases (u : Unified) (c : ClassDoc) :
    ((∀ name ∈ c.answers, u.names.lookup name = none) ∧
      (u.add c).1 =
        { classes := u.classes ++ [tidied c], folded := u.folded
          names := u.names ++ (tidied c).answers.map fun name => (name, u.classes.length) }) ∨
    ∃ name i, name ∈ c.answers ∧ u.names.lookup name = some i ∧
      (u.add c).1 =
        { classes := u.classes.modify i fun target => fold target (tidied c)
          folded := u.folded ++ [c.name]
          names := u.names ++ (tidied c).answers.map fun name => (name, i) } := by
  unfold add
  dsimp only
  split
  · next hnone =>
    exact Or.inl ⟨fun name hname =>
      List.findSome?_eq_none_iff.1 hnone name (mem_answers_tidied.2 hname), rfl⟩
  · next i hfound =>
    obtain ⟨name, hname, hi⟩ := List.exists_of_findSome?_eq_some hfound
    exact Or.inr ⟨name, i, mem_answers_tidied.1 hname, hi, rfl⟩

/-- The classes that went to a place, in their order. -/
def partsAt (placed : List (ClassDoc × Nat)) (k : Nat) : List ClassDoc :=
  (placed.filter fun p => p.2 == k).map Prod.fst

theorem mem_partsAt {placed : List (ClassDoc × Nat)} {k : Nat} {c : ClassDoc} :
    c ∈ partsAt placed k ↔ (c, k) ∈ placed := by
  rw [partsAt, List.mem_map]
  constructor
  · rintro ⟨p, hp, rfl⟩
    obtain ⟨hmem, hk⟩ := List.mem_filter.1 hp
    rw [← eq_of_beq hk]
    exact hmem
  · intro h
    exact ⟨(c, k), List.mem_filter.2 ⟨h, beq_self_eq_true k⟩, rfl⟩

theorem partsAt_concat (placed : List (ClassDoc × Nat)) (c : ClassDoc) (i k : Nat) :
    partsAt (placed ++ [(c, i)]) k = partsAt placed k ++ if i = k then [c] else [] := by
  rw [partsAt, List.filter_append, List.map_append]
  by_cases h : i = k
  · simp [partsAt, h]
  · simp [partsAt, h]

/-- Every class that is left is put together from the classes that went to its place, and the known
names are the names of these classes. -/
structure Gathers (u : Unified) (placed : List (ClassDoc × Nat)) : Prop
    extends Holds u placed where
  made : ∀ (k : Nat) (kept : ClassDoc), u.classes[k]? = some kept → kept.MadeOf (partsAt placed k)
  answered : ∀ name i, u.names.lookup name = some i →
    ∃ kept, u.classes[i]? = some kept ∧ name ∈ kept.answers
  known : ∀ name, (u.names.lookup name).isSome ↔ ∃ p ∈ placed, name ∈ p.1.answers

theorem Gathers.partsAt_length {u : Unified} {placed : List (ClassDoc × Nat)} (h : u.Gathers placed) :
    partsAt placed u.classes.length = [] := by
  rw [List.eq_nil_iff_forall_not_mem]
  intro c hc
  obtain ⟨kept, hkept, -⟩ := h.answering _ (mem_partsAt.1 hc)
  exact Nat.lt_irrefl _ (List.getElem?_eq_some_iff.1 hkept).1

theorem known_append {u : Unified} {placed : List (ClassDoc × Nat)} (h : u.Gathers placed)
    (c : ClassDoc) (i : Nat) (name : String) :
    ((u.names ++ (tidied c).answers.map fun name => (name, i)).lookup name).isSome ↔
      ∃ p ∈ placed ++ [(c, i)], name ∈ p.1.answers := by
  rw [List.lookup_append, Option.isSome_or, Bool.or_eq_true, h.known, lookup_map_pair]
  by_cases hname : name ∈ c.answers
  · rw [if_pos (mem_answers_tidied.2 hname)]
    simp [hname]
  · rw [if_neg (mt mem_answers_tidied.1 hname)]
    simp [hname, or_and_right, exists_or]

theorem Gathers.append {u : Unified} {placed : List (ClassDoc × Nat)} (h : u.Gathers placed)
    (c : ClassDoc) (folded : List String) :
    Gathers
      { classes := u.classes ++ [tidied c], folded
        names := u.names ++ (tidied c).answers.map fun name => (name, u.classes.length) }
      (placed ++ [(c, u.classes.length)]) := by
  refine ⟨h.toHolds.append (name_tidied c) (members_tidied c) _ folded, ?_, ?_,
    known_append h c _⟩
  · intro k kept hkept
    rw [partsAt_concat]
    rcases getElem?_concat_cases hkept with hold | ⟨rfl, rfl⟩
    · rw [if_neg (Nat.ne_of_gt (List.getElem?_eq_some_iff.1 hold).1), List.append_nil]
      exact h.made k kept hold
    · rw [if_pos rfl, h.partsAt_length]
      exact ⟨rfl, fun name => by simp [mem_answers_tidied],
        (List.findSome?_singleton ..).symm, fun f hf => ⟨c, by simp, hf⟩⟩
  · intro name i hi
    rcases lookup_append_map_pair hi with hold | ⟨hname, rfl⟩
    · obtain ⟨kept, hkept, hmem⟩ := h.answered name i hold
      refine ⟨kept, ?_, hmem⟩
      rw [List.getElem?_append_left (List.getElem?_eq_some_iff.1 hkept).1, hkept]
    · exact ⟨tidied c, List.getElem?_concat_length, hname⟩

theorem Gathers.modify {u : Unified} {placed : List (ClassDoc × Nat)} (h : u.Gathers placed)
    (c : ClassDoc) {i : Nat} (hi : i < u.classes.length) (folded : List String) :
    Gathers
      { classes := u.classes.modify i fun target => fold target (tidied c), folded
        names := u.names ++ (tidied c).answers.map fun name => (name, i) }
      (placed ++ [(c, i)]) := by
  refine ⟨h.toHolds.modify (name_tidied c) (members_tidied c) hi _ folded, ?_, ?_,
    known_append h c _⟩
  · intro k kept hkept
    rw [List.getElem?_modify] at hkept
    obtain ⟨old, hold, rfl⟩ := Option.map_eq_some_iff.1 hkept
    rw [partsAt_concat]
    by_cases hik : i = k
    · rw [if_pos hik, if_pos hik]
      refine (h.made k old hold).concat (name_fold _ _) (fun name => ?_) (overrideOf_fold _ _)
        (files_fold _ _)
      rw [mem_answers_fold_iff, mem_answers_tidied]
    · rw [if_neg hik, if_neg hik, List.append_nil]
      exact h.made k old hold
  · intro name k hk
    rw [List.getElem?_modify]
    rcases lookup_append_map_pair hk with hold | ⟨hname, rfl⟩
    · obtain ⟨kept, hkept, hmem⟩ := h.answered name k hold
      rw [hkept]
      refine ⟨_, rfl, ?_⟩
      split
      · exact mem_answers_fold_iff.2 (Or.inl hmem)
      · exact hmem
    · rw [List.getElem?_eq_getElem hi]
      refine ⟨_, rfl, ?_⟩
      split
      · exact mem_answers_fold_iff.2 (Or.inr hname)
      · next hne => exact absurd rfl hne

theorem gathers_empty : Gathers {} [] := by
  refine ⟨⟨?_, ?_, ?_⟩, ?_, ?_, ?_⟩
  · exact fun _ _ h => absurd h (by simp)
  · exact fun _ _ h => absurd h (by simp)
  · exact fun _ h => absurd h (by simp)
  · exact fun _ _ h => absurd h (by simp)
  · exact fun _ _ h => absurd h (by simp)
  · exact fun _ => by simp

/-- A class goes to the place of its own, or to one where a name of it is answered to already. -/
theorem Gathers.add {u : Unified} {placed : List (ClassDoc × Nat)} (h : u.Gathers placed)
    (c : ClassDoc) :
    ∃ i, (u.add c).1.Gathers (placed ++ [(c, i)]) ∧
      (i = u.classes.length ∨ ∃ name ∈ c.answers, u.names.lookup name = some i) := by
  rcases add_cases u c with ⟨-, hadd⟩ | ⟨name, i, hname, hi, hadd⟩
  · rw [hadd]
    exact ⟨_, h.append c _, Or.inl rfl⟩
  · rw [hadd]
    exact ⟨i, h.modify c (h.lt name i hi) _, Or.inr ⟨name, hname, hi⟩⟩

end Unified
end ApiDoc
