/-
The own names of the classes that remain.

No two classes are grouped under one name, and what happens then only takes classes away: those that
are folded into others, those that are left out, and overrides.  So the names of what remains are
different ones, and none of them is among the names of what is gone.
-/
import ApiDoc.Assembly
import ApiDoc.Proofs.Grouping.Conservation
import Mathlib.Data.List.Nodup

namespace ApiDoc

theorem Grouping.Roster.Valid.nodup_heads {t : Grouping.Roster} (h : t.Valid) : t.heads.Nodup := by
  rw [List.nodup_iff_injective_getElem]
  intro i j hij
  have hi := h.own i.1 t.heads[i.1] (List.getElem?_eq_getElem i.2)
  have hj := h.own j.1 t.heads[j.1] (List.getElem?_eq_getElem j.2)
  have hsame : t.heads[i.1] = t.heads[j.1] := hij
  rw [hsame, hj] at hi
  exact Fin.ext (Option.some.inj hi).symm

namespace Unified

theorem names_add (u : Unified) (c : ClassDoc) :
    (u.add c).1.classes.map ClassDoc.name = u.classes.map ClassDoc.name ∨
      (u.add c).1.classes.map ClassDoc.name = u.classes.map ClassDoc.name ++ [c.name] := by
  unfold Unified.add
  dsimp only
  split
  · exact Or.inr List.map_append
  · exact Or.inl (map_modify_of_same (fun target => name_fold target _) _ _)

/-- The classes that remain when names are unified are some of the classes, in their order. -/
theorem names_ofClasses (classes : List ClassDoc) :
    ((ofClasses classes).1.classes.map ClassDoc.name).Sublist (classes.map ClassDoc.name) := by
  have hrun : ∀ (u : Unified) (before : List String),
      (u.classes.map ClassDoc.name).Sublist before →
        ((reportEach add u classes).1.classes.map ClassDoc.name).Sublist
          (before ++ classes.map ClassDoc.name) := by
    induction classes with
    | nil =>
      intro u before h
      rw [List.map_nil, List.append_nil]
      exact h
    | cons c classes ih =>
      intro u before h
      have hone : ((u.add c).1.classes.map ClassDoc.name).Sublist (before ++ [c.name]) := by
        rcases names_add u c with hsame | hmore
        · rw [hsame]
          exact h.trans (List.sublist_append_left before [c.name])
        · rw [hmore]
          exact h.append_right [c.name]
      have hrest := ih (u.add c).1 (before ++ [c.name]) hone
      rw [List.append_assoc] at hrest
      exact hrest
  exact hrun {} [] (List.Sublist.refl [])

end Unified

namespace Override

theorem name_addMember (source : String) (c : ClassDoc) (m : Member) :
    (addMember source c m).name = c.name := by
  unfold addMember
  split
  · rfl
  · rfl

theorem name_apply (c patch : ClassDoc) : (apply c patch).name = c.name := by
  have hfold : ∀ (ms : List Member) (c : ClassDoc),
      (ms.foldl (addMember patch.name) c).name = c.name := by
    intro ms
    induction ms with
    | nil => exact fun c => rfl
    | cons m ms ih => exact fun c => (ih (addMember patch.name c m)).trans (name_addMember _ c m)
  exact hfold patch.members c

/-- What an override leaves as it is of its target stays as it is of all classes. -/
theorem map_applyTo {β : Type} {g : ClassDoc → β} (hg : ∀ c patch, g (apply c patch) = g c)
    (classes : List ClassDoc) (patch : ClassDoc) :
    (applyTo classes patch).1.map g = classes.map g := by
  unfold applyTo
  dsimp only
  split
  · exact map_modify_of_same (fun c => hg c patch) _ _
  · rfl

theorem map_absorb {β : Type} {g : ClassDoc → β} (hg : ∀ c patch, g (apply c patch) = g c)
    (classes : List ClassDoc) :
    (absorb classes).1.1.map g = (classes.filter fun c => c.overrideOf.isNone).map g := by
  have hrun : ∀ (patches targets : List ClassDoc),
      (reportEach applyTo targets patches).1.map g = targets.map g := by
    intro patches
    induction patches with
    | nil => exact fun targets => rfl
    | cons patch patches ih =>
      exact fun targets => (ih (applyTo targets patch).1).trans (map_applyTo hg targets patch)
  exact hrun _ _

theorem names_absorb (classes : List ClassDoc) :
    (absorb classes).1.1.map ClassDoc.name =
      (classes.filter fun c => c.overrideOf.isNone).map ClassDoc.name :=
  map_absorb name_apply classes

end Override

namespace Grouping

theorem nodup_settleAll (files : Files) :
    ((ofFiles files).settleAll.1.classes.map ClassDoc.name).Nodup := by
  rw [(agrees_settleAll files).1.heads]
  exact (valid_fullRoster files).nodup_heads

/-- The classes that remain have different names, and none of them is ignored. -/
theorem names_resolve (files : Files) :
    ((ofFiles files).resolve.1.1.map ClassDoc.name).Nodup ∧
      ∀ c ∈ (ofFiles files).resolve.1.1, c.name ∉ (ofFiles files).resolve.1.2 := by
  have hnodup : ∀ p : ClassDoc → Bool,
      (((Unified.ofClasses (ofFiles files).settleAll.1.classes).1.classes.filter p).map
        ClassDoc.name).Nodup := by
    intro p
    have hall := (nodup_settleAll files).sublist (Unified.names_ofClasses _)
    exact hall.sublist (List.filter_sublist.map ClassDoc.name)
  refine ⟨?_, ?_⟩
  · show ((Override.absorb _).1.1.map ClassDoc.name).Nodup
    rw [Override.names_absorb, List.filter_filter]
    exact hnodup _
  · intro c hc
    have hname : c.name ∈ (Override.absorb _).1.1.map ClassDoc.name := List.mem_map_of_mem hc
    rw [Override.names_absorb] at hname
    obtain ⟨d, hd, hdname⟩ := List.mem_map.1 hname
    obtain ⟨hkept, hplain⟩ := List.mem_filter.1 hd
    show c.name ∉ _ ++ List.map ClassDoc.name (List.filter _ _)
    rw [List.mem_append, not_or, ← hdname]
    refine ⟨by simpa using (List.mem_filter.1 hkept).2, ?_⟩
    intro hpatch
    obtain ⟨patch, hp, hpname⟩ := List.mem_map.1 hpatch
    obtain ⟨hpkept, hpo⟩ := List.mem_filter.1 hp
    obtain rfl := List.inj_on_of_nodup_map (hnodup _) hpkept hkept hpname
    rw [Option.isNone_iff_eq_none] at hplain
    rw [hplain] at hpo
    exact absurd hpo (by simp)

end Grouping
end ApiDoc
