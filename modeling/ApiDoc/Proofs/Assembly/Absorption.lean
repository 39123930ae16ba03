/-
Where the members of overrides go.

An override goes to the first class that answers to its target.  There each of its members is taken
in, as a member of its own or as part of the one that has its id (`TookIn`), and stays in while
further overrides are absorbed.  What marks only the members of one override is found in no other
class (`absorb_marked`).
-/
import ApiDoc.Proofs.Assembly.Names

namespace ApiDoc

namespace ClassDoc

/-- The class took a member in, as one of its own or as part of the one that has its id. -/
def TookIn (c : ClassDoc) (m : Member) : Prop :=
  ∃ merged ∈ c.members, merged.id = m.id ∧ m.files ⊆ merged.files

/-- A member of the class comes from this place, or part of it does. -/
def Marked (c : ClassDoc) (mark : FileRef) : Prop := ∃ m ∈ c.members, mark ∈ m.files

theorem answersTo_eq (c : ClassDoc) (name : String) : c.answersTo name = c.answers.contains name := by
  rw [answersTo, answers, List.contains_cons, List.any_beq', BEq.comm (a := name)]

/-- Which class answers to a name first depends on what the classes answer to alone. -/
theorem findIdx?_answersTo {classes classes' : List ClassDoc}
    (h : classes'.map answers = classes.map answers) (name : String) :
    (classes'.findIdx? fun c => c.answersTo name) = classes.findIdx? fun c => c.answersTo name := by
  have hread : ∀ cs : List ClassDoc, (cs.findIdx? fun c => c.answersTo name) =
      (cs.map answers).findIdx? fun names => names.contains name := by
    intro cs
    rw [List.findIdx?_map]
    congr 1
    funext c
    exact answersTo_eq c name
  rw [hread, hread, h]

end ClassDoc

namespace Override

theorem addMember_frame (source : String) (c : ClassDoc) (m : Member) :
    ∃ members, addMember source c m = { c with members } := by
  unfold addMember
  split
  · exact ⟨_, rfl⟩
  · exact ⟨_, rfl⟩

theorem foldl_addMember_frame (source : String) (ms : List Member) (c : ClassDoc) :
    ∃ members, ms.foldl (addMember source) c = { c with members } := by
  induction ms generalizing c with
  | nil => exact ⟨c.members, rfl⟩
  | cons m ms ih =>
    obtain ⟨one, hone⟩ := addMember_frame source c m
    obtain ⟨members, hall⟩ := ih (addMember source c m)
    refine ⟨members, hall.trans ?_⟩
    rw [hone]

theorem answers_apply (c patch : ClassDoc) : (apply c patch).answers = c.answers := by
  obtain ⟨members, hall⟩ := foldl_addMember_frame patch.name patch.members c
  rw [apply, hall]
  rfl

theorem files_apply (c patch : ClassDoc) : (apply c patch).files = c.files ++ patch.files := by
  obtain ⟨members, hall⟩ := foldl_addMember_frame patch.name patch.members c
  rw [apply, hall]

theorem tookIn_addMember (source : String) (c : ClassDoc) (m : Member) :
    (addMember source c m).TookIn m := by
  unfold addMember
  cases hi : c.members.findIdx? fun old => old.id == m.id with
  | none =>
    exact ⟨newMember source c.name m, List.mem_append_right _ (List.mem_singleton_self _), rfl,
      List.Subset.refl _⟩
  | some i =>
    obtain ⟨hlt, hid, -⟩ := List.findIdx?_eq_some_iff_getElem.1 hi
    refine ⟨patchMember source c.members[i] m, List.mem_of_getElem? (i := i) ?_, eq_of_beq hid,
      List.subset_append_right _ _⟩
    rw [List.getElem?_modify, List.getElem?_eq_getElem hlt, Option.map_eq_map, Option.map_some,
      if_pos rfl]

theorem tookIn_addMember_of_tookIn {c : ClassDoc} {m : Member} (h : c.TookIn m) (source : String)
    (more : Member) : (addMember source c more).TookIn m := by
  obtain ⟨merged, hmerged, hid, hfiles⟩ := h
  unfold addMember
  cases c.members.findIdx? fun old => old.id == more.id with
  | none => exact ⟨merged, List.mem_append_left _ hmerged, hid, hfiles⟩
  | some i =>
    obtain ⟨k, hk⟩ := List.getElem?_of_mem hmerged
    by_cases hik : i = k
    · refine ⟨patchMember source merged more, List.mem_of_getElem? (i := k) ?_, hid,
        List.subset_append_of_subset_left _ hfiles⟩
      rw [List.getElem?_modify, hk]
      simp [hik]
    · refine ⟨merged, List.mem_of_getElem? (i := k) ?_, hid, hfiles⟩
      rw [List.getElem?_modify, hk]
      simp [hik]

theorem tookIn_foldl_of_tookIn (source : String) (ms : List Member) {c : ClassDoc} {m : Member}
    (h : c.TookIn m) : (ms.foldl (addMember source) c).TookIn m := by
  induction ms generalizing c with
  | nil => exact h
  | cons more ms ih => exact ih (tookIn_addMember_of_tookIn h source more)

theorem tookIn_foldl (source : String) {ms : List Member} {m : Member} (hm : m ∈ ms) (c : ClassDoc) :
    (ms.foldl (addMember source) c).TookIn m := by
  induction ms generalizing c with
  | nil => exact absurd hm List.not_mem_nil
  | cons first ms ih =>
    rcases List.mem_cons.1 hm with rfl | hm
    · exact tookIn_foldl_of_tookIn source ms (tookIn_addMember source c m)
    · exact ih hm (addMember source c first)

/-- An override leaves in what was taken in before, and is taken in itself. -/
theorem tookIn_apply {c patch : ClassDoc} {m : Member} (h : c.TookIn m ∨ m ∈ patch.members) :
    (apply c patch).TookIn m := by
  rcases h with h | hm
  · exact tookIn_foldl_of_tookIn patch.name patch.members h
  · exact tookIn_foldl patch.name hm c

theorem marked_addMember {source : String} {c : ClassDoc} {m : Member} {mark : FileRef}
    (h : (addMember source c m).Marked mark) : c.Marked mark ∨ mark ∈ m.files := by
  obtain ⟨merged, hmerged, hmark⟩ := h
  unfold addMember at hmerged
  cases hi : c.members.findIdx? fun old => old.id == m.id with
  | none =>
    rw [hi] at hmerged
    rcases List.mem_append.1 hmerged with hold | hnew
    · exact Or.inl ⟨merged, hold, hmark⟩
    · rw [List.mem_singleton.1 hnew] at hmark
      exact Or.inr hmark
  | some i =>
    rw [hi] at hmerged
    obtain ⟨k, hk⟩ := List.getElem?_of_mem hmerged
    rw [List.getElem?_modify] at hk
    obtain ⟨old, hold, rfl⟩ := Option.map_eq_some_iff.1 hk
    split at hmark
    · exact (List.mem_append.1 hmark).imp_left fun hmark => ⟨old, List.mem_of_getElem? hold, hmark⟩
    · exact Or.inl ⟨old, List.mem_of_getElem? hold, hmark⟩

theorem marked_apply {c patch : ClassDoc} {mark : FileRef} (h : (apply c patch).Marked mark) :
    c.Marked mark ∨ patch.Marked mark := by
  have hrun : ∀ (ms : List Member) (c : ClassDoc),
      (ms.foldl (addMember patch.name) c).Marked mark → c.Marked mark ∨ ∃ m ∈ ms, mark ∈ m.files := by
    intro ms
    induction ms with
    | nil => exact fun c h => Or.inl h
    | cons m ms ih =>
      intro c h
      rcases ih (addMember patch.name c m) h with h | ⟨more, hmore, hmark⟩
      · exact (marked_addMember h).imp_right fun hmark => ⟨m, List.mem_cons_self, hmark⟩
      · exact Or.inr ⟨more, List.mem_cons_of_mem m hmore, hmark⟩
  exact hrun patch.members c h

/-- What one override does: it goes to the first class that answers to its target, if there is one. -/
theorem applyTo_cases (classes : List ClassDoc) (patch : ClassDoc) :
    (∃ i, (classes.findIdx? fun c => c.answersTo (patch.overrideOf.getD "")) = some i ∧
      (applyTo classes patch).1 = classes.modify i fun c => apply c patch) ∨
    ((classes.findIdx? fun c => c.answersTo (patch.overrideOf.getD "")) = none ∧
      (applyTo classes patch).1 = classes) := by
  unfold applyTo
  dsimp only
  split
  · next i hi => exact Or.inl ⟨i, hi, rfl⟩
  · next hnone => exact Or.inr ⟨hnone, rfl⟩

theorem findIdx?_applyTo (classes : List ClassDoc) (patch : ClassDoc) (name : String) :
    ((applyTo classes patch).1.findIdx? fun c => c.answersTo name) =
      classes.findIdx? fun c => c.answersTo name := by
  rcases applyTo_cases classes patch with ⟨i, -, hmodified⟩ | ⟨-, hsame⟩
  · rw [hmodified]
    exact ClassDoc.findIdx?_answersTo
      (map_modify_of_same (fun c => answers_apply c patch) classes i) name
  · rw [hsame]

/-- A class keeps what it took in when an override is absorbed, wherever that goes. -/
theorem tookIn_applyTo {classes : List ClassDoc} (patch : ClassDoc) {i : Nat} {ms : List Member}
    (h : ∃ c, classes[i]? = some c ∧ ∀ m ∈ ms, c.TookIn m) :
    ∃ c, (applyTo classes patch).1[i]? = some c ∧ ∀ m ∈ ms, c.TookIn m := by
  obtain ⟨c, hc, htook⟩ := h
  rcases applyTo_cases classes patch with ⟨k, -, hmodified⟩ | ⟨-, hsame⟩
  · rw [hmodified, List.getElem?_modify, hc]
    refine ⟨_, rfl, fun m hm => ?_⟩
    split
    · exact tookIn_apply (Or.inl (htook m hm))
    · exact htook m hm
  · rw [hsame]
    exact ⟨c, hc, htook⟩

/-- A mark is found nowhere but in the members of the class at `i`. -/
structure MarkedAt (classes : List ClassDoc) (i : Nat) (mark : FileRef) : Prop where
  files : ∀ c ∈ classes, mark ∉ c.files
  members : ∀ (k : Nat) (c : ClassDoc), classes[k]? = some c → c.Marked mark → k = i

theorem MarkedAt.applyTo {classes : List ClassDoc} {i : Nat} {mark : FileRef}
    (h : MarkedAt classes i mark) {patch : ClassDoc} (hfiles : mark ∉ patch.files)
    (hgoes : patch.Marked mark →
      (classes.findIdx? fun c => c.answersTo (patch.overrideOf.getD "")) = some i) :
    MarkedAt (applyTo classes patch).1 i mark := by
  rcases applyTo_cases classes patch with ⟨k, hk, hmodified⟩ | ⟨-, hsame⟩
  · have hget : ∀ (n : Nat) (c : ClassDoc), (Override.applyTo classes patch).1[n]? = some c →
        ∃ old, classes[n]? = some old ∧ c = if k = n then apply old patch else old := by
      intro n c hc
      rw [hmodified, List.getElem?_modify] at hc
      obtain ⟨old, hold, rfl⟩ := Option.map_eq_some_iff.1 hc
      exact ⟨old, hold, rfl⟩
    refine ⟨fun c hc => ?_, fun n c hc hmarked => ?_⟩
    · obtain ⟨n, hn⟩ := List.getElem?_of_mem hc
      obtain ⟨old, hold, rfl⟩ := hget n c hn
      have hclear := h.files old (List.mem_of_getElem? hold)
      split
      · rw [files_apply, List.mem_append, not_or]
        exact ⟨hclear, hfiles⟩
      · exact hclear
    · obtain ⟨old, hold, rfl⟩ := hget n c hc
      split at hmarked
      · next hkn =>
        rcases marked_apply hmarked with hmarked | hmarked
        · exact h.members n old hold hmarked
        · rw [hgoes hmarked] at hk
          rw [← hkn, Option.some.inj hk]
      · exact h.members n old hold hmarked
  · rw [hsame]
    exact h

/-- The classes after some overrides are absorbed. -/
def applyAll (classes patches : List ClassDoc) : List ClassDoc := (reportEach applyTo classes patches).1

theorem findIdx?_applyAll (classes patches : List ClassDoc) (name : String) :
    ((applyAll classes patches).findIdx? fun c => c.answersTo name) =
      classes.findIdx? fun c => c.answersTo name := by
  induction patches generalizing classes with
  | nil => rfl
  | cons patch patches ih =>
    exact (ih (applyTo classes patch).1).trans (findIdx?_applyTo classes patch name)

theorem tookIn_applyAll_of_tookIn (patches : List ClassDoc) {classes : List ClassDoc} {i : Nat}
    {ms : List Member} (h : ∃ c, classes[i]? = some c ∧ ∀ m ∈ ms, c.TookIn m) :
    ∃ c, (applyAll classes patches)[i]? = some c ∧ ∀ m ∈ ms, c.TookIn m := by
  induction patches generalizing classes with
  | nil => exact h
  | cons patch patches ih => exact ih (tookIn_applyTo patch h)

theorem tookIn_applyAll {patches : List ClassDoc} {patch : ClassDoc} (hpatch : patch ∈ patches)
    {target : String} (htarget : patch.overrideOf = some target) {classes : List ClassDoc} {i : Nat}
    (hi : (classes.findIdx? fun c => c.answersTo target) = some i) :
    ∃ c, (applyAll classes patches)[i]? = some c ∧ ∀ m ∈ patch.members, c.TookIn m := by
  induction patches generalizing classes with
  | nil => exact absurd hpatch List.not_mem_nil
  | cons first patches ih =>
    rcases List.mem_cons.1 hpatch with rfl | hpatch
    · refine tookIn_applyAll_of_tookIn patches ?_
      rcases applyTo_cases classes patch with ⟨k, hk, hmodified⟩ | ⟨hnone, -⟩
      · rw [htarget, Option.getD_some, hi] at hk
        obtain rfl := Option.some.inj hk
        obtain ⟨hlt, -⟩ := List.findIdx?_eq_some_iff_getElem.1 hi
        rw [hmodified, List.getElem?_modify, List.getElem?_eq_getElem hlt]
        refine ⟨_, rfl, fun m hm => ?_⟩
        show (if i = i then apply classes[i] patch else classes[i]).TookIn m
        rw [if_pos rfl]
        exact tookIn_apply (Or.inr hm)
      · rw [htarget, Option.getD_some, hi] at hnone
        exact absurd hnone (by simp)
    · refine ih hpatch ?_
      rw [findIdx?_applyTo]
      exact hi

theorem MarkedAt.applyAll {classes patches : List ClassDoc} {i : Nat} {mark : FileRef}
    (h : MarkedAt classes i mark) (hfiles : ∀ patch ∈ patches, mark ∉ patch.files)
    (hgoes : ∀ patch ∈ patches, patch.Marked mark →
      (classes.findIdx? fun c => c.answersTo (patch.overrideOf.getD "")) = some i) :
    MarkedAt (applyAll classes patches) i mark := by
  induction patches generalizing classes with
  | nil => exact h
  | cons patch patches ih =>
    refine ih (h.applyTo (hfiles patch List.mem_cons_self) (hgoes patch List.mem_cons_self))
      (fun more hmore => hfiles more (List.mem_cons_of_mem patch hmore)) fun more hmore hmarked => ?_
    rw [findIdx?_applyTo]
    exact hgoes more (List.mem_cons_of_mem patch hmore) hmarked

theorem absorb_eq (classes : List ClassDoc) :
    (absorb classes).1.1 = applyAll (classes.filter fun c => c.overrideOf.isNone)
      (classes.filter fun c => c.overrideOf.isSome) := rfl

/-- What holds of all classes holds of those that have absorbed the overrides among them, if a class and
an override of which it holds make one of which it holds. -/
theorem absorb_forall {P : ClassDoc → Prop} (happly : ∀ c patch, P c → P patch → P (apply c patch))
    {classes : List ClassDoc} (h : ∀ c ∈ classes, P c) : ∀ c ∈ (absorb classes).1.1, P c := by
  have hone : ∀ patch, P patch → ∀ classes : List ClassDoc, (∀ c ∈ classes, P c) →
      ∀ c ∈ (applyTo classes patch).1, P c := by
    intro patch hpatch classes h c hc
    rcases applyTo_cases classes patch with ⟨i, -, hmodified⟩ | ⟨-, hsame⟩
    · rw [hmodified] at hc
      obtain ⟨k, hk⟩ := List.getElem?_of_mem hc
      rw [List.getElem?_modify] at hk
      obtain ⟨old, hold, rfl⟩ := Option.map_eq_some_iff.1 hk
      have hbefore := h old (List.mem_of_getElem? hold)
      split
      · exact happly old patch hbefore hpatch
      · exact hbefore
    · exact h c (hsame ▸ hc)
  have hrun : ∀ patches classes : List ClassDoc, (∀ c ∈ patches, P c) → (∀ c ∈ classes, P c) →
      ∀ c ∈ applyAll classes patches, P c := by
    intro patches
    induction patches with
    | nil => exact fun classes _ h => h
    | cons patch patches ih =>
      intro classes hpatches h
      exact ih _ (fun c hc => hpatches c (List.mem_cons_of_mem _ hc))
        (hone patch (hpatches patch List.mem_cons_self) classes h)
  rw [absorb_eq]
  exact hrun _ _ (fun c hc => h c (List.mem_filter.1 hc).1) fun c hc => h c (List.mem_filter.1 hc).1

/-- An override ends up in the first class without an override that answers to its target. -/
theorem absorb_tookIn {classes : List ClassDoc} {patch : ClassDoc} (hpatch : patch ∈ classes)
    {target : String} (htarget : patch.overrideOf = some target) {i : Nat}
    (hi : ((classes.filter fun c => c.overrideOf.isNone).findIdx? fun c => c.answersTo target) =
      some i) :
    ((absorb classes).1.1.findIdx? fun c => c.answersTo target) = some i ∧
      ∃ c, (absorb classes).1.1[i]? = some c ∧ ∀ m ∈ patch.members, c.TookIn m := by
  rw [absorb_eq, findIdx?_applyAll]
  refine ⟨hi, tookIn_applyAll (List.mem_filter.2 ⟨hpatch, ?_⟩) htarget hi⟩
  rw [htarget]
  rfl

theorem absorb_marked {classes : List ClassDoc} {patch : ClassDoc} {target : String}
    (htarget : patch.overrideOf = some target) {i : Nat}
    (hi : ((classes.filter fun c => c.overrideOf.isNone).findIdx? fun c => c.answersTo target) =
      some i) {mark : FileRef} (hfiles : ∀ c ∈ classes, mark ∉ c.files)
    (honly : ∀ c ∈ classes, c.Marked mark → c = patch) : MarkedAt (absorb classes).1.1 i mark := by
  rw [absorb_eq]
  have hclear : MarkedAt (classes.filter fun c => c.overrideOf.isNone) i mark := by
    refine ⟨fun c hc => hfiles c (List.mem_filter.1 hc).1, fun k c hc hmarked => ?_⟩
    obtain ⟨hmem, hplain⟩ := List.mem_filter.1 (List.mem_of_getElem? hc)
    rw [honly c hmem hmarked, htarget] at hplain
    exact absurd hplain Bool.false_ne_true
  refine hclear.applyAll (fun c hc => hfiles c (List.mem_filter.1 hc).1) fun c hc hmarked => ?_
  rw [honly c (List.mem_filter.1 hc).1 hmarked, htarget]
  exact hi

end Override
end ApiDoc
