/-
Members of a class have different ids.

An id says whether a member is static, of which kind it is and what it is called, and nothing else
(`currentId_eq_iff`).  Overrides are absorbed by ids and accessors are added by names, so classes whose
members have different ids keep them different (`distinctIds_absorb`, `DistinctIds.withAccessors`).
-/
import ApiDoc.Proofs.Assembly.Outline

namespace ApiDoc

theorem append_dash_inj {a a' b b' : List Char} (ha : '-' ∉ a) (ha' : '-' ∉ a')
    (h : a ++ '-' :: b = a' ++ '-' :: b') : a = a' ∧ b = b' := by
  induction a generalizing a' with
  | nil =>
    cases a' with
    | nil => exact ⟨rfl, (List.cons.inj h).2⟩
    | cons x a' =>
      have hx : '-' = x := (List.cons.inj h).1
      exact absurd (hx ▸ List.mem_cons_self) ha'
  | cons x a ih =>
    cases a' with
    | nil =>
      have hx : x = '-' := (List.cons.inj h).1
      exact absurd (hx ▸ List.mem_cons_self) ha
    | cons x' a' =>
      obtain ⟨hx, h⟩ := List.cons.inj h
      obtain ⟨hrest, hb⟩ :=
        ih (fun hm => ha (List.mem_cons_of_mem x hm)) (fun hm => ha' (List.mem_cons_of_mem x' hm)) h
      exact ⟨hx ▸ hrest ▸ rfl, hb⟩

theorem EntityKind.dash_not_mem_word (k : EntityKind) : '-' ∉ k.word.toList := by
  cases k <;> decide

theorem EntityKind.word_ne_static (k : EntityKind) : "static".toList ≠ k.word.toList := by
  cases k <;> decide

/-- An id tells what it is made of, because no kind is written with a dash or as `static`. -/
theorem memberId_inj {s s' : Bool} {k k' : EntityKind} {n n' : String}
    (h : memberId s k n = memberId s' k' n') : s = s' ∧ k = k' ∧ n = n' := by
  have hstatic : '-' ∉ "static".toList := by decide
  have hplain : ∀ {k k' : EntityKind} {n n' : String},
      k.word.toList ++ '-' :: n.toList = k'.word.toList ++ '-' :: n'.toList → k = k' ∧ n = n' := by
    intro k k' n n' h
    obtain ⟨hword, hname⟩ := append_dash_inj k.dash_not_mem_word k'.dash_not_mem_word h
    exact ⟨EntityKind.word_injective (String.toList_inj.1 hword), String.toList_inj.1 hname⟩
  have hlists := congrArg String.toList h
  rw [toList_memberId, toList_memberId] at hlists
  cases s with
  | false =>
    cases s' with
    | false => exact ⟨rfl, hplain hlists⟩
    | true =>
      exact absurd (append_dash_inj k.dash_not_mem_word hstatic hlists).1.symm k.word_ne_static
  | true =>
    cases s' with
    | false =>
      exact absurd (append_dash_inj hstatic k'.dash_not_mem_word hlists).1 k'.word_ne_static
    | true => exact ⟨rfl, hplain (append_dash_inj hstatic hstatic hlists).2⟩

namespace Member

/-- What the id of a member is made of. -/
def identity (m : Member) : Bool × EntityKind × String := (m.isStatic, m.kind, m.name)

/-- The id of a member, and what it should be made of. -/
def label (m : Member) : String × Bool × EntityKind × String := (m.id, m.identity)

theorem currentId_eq_iff {m m' : Member} : m.currentId = m'.currentId ↔ m.identity = m'.identity := by
  constructor
  · intro h
    obtain ⟨hstatic, hkind, hname⟩ := memberId_inj h
    rw [identity, identity, hstatic, hkind, hname]
  · intro h
    obtain ⟨hstatic, hkind, hname⟩ : m.isStatic = m'.isStatic ∧ m.kind = m'.kind ∧ m.name = m'.name := by
      simpa [identity] using h
    rw [currentId, currentId, hstatic, hkind, hname]

theorem currentId_eq_of_label {m m' : Member} (h : m.label = m'.label) (hid : m'.id = m'.currentId) :
    m.id = m.currentId := by
  obtain ⟨hsame, hidentity⟩ := Prod.mk.inj h
  rw [hsame, hid, currentId_eq_iff, hidentity]

theorem label_withReturn (className : String) (m : Member) :
    (m.withReturn className).label = m.label := by
  obtain ⟨_, _, hframe⟩ := m.withReturn_frame className
  rw [hframe]
  rfl

theorem label_withEventOptions (m : Member) : m.withEventOptions.label = m.label := by
  obtain ⟨_, hframe⟩ := m.withEventOptions_frame
  rw [hframe]
  rfl

end Member

theorem nodup_ids_iff {ms : List Member} (h : ∀ m ∈ ms, m.id = m.currentId) :
    (ms.map Member.id).Nodup ↔ (ms.map Member.identity).Nodup := by
  rw [List.Nodup, List.Nodup, List.pairwise_map, List.pairwise_map]
  refine List.Pairwise.iff_of_mem fun hm hm' => ?_
  rw [h _ hm, h _ hm', Ne, Ne, Member.currentId_eq_iff]

/-- The ids of the members of a class are up to date, and no two are the same. -/
structure ClassDoc.DistinctIds (c : ClassDoc) : Prop where
  current : ∀ m ∈ c.members, m.id = m.currentId
  nodup : (c.members.map Member.id).Nodup

namespace ClassDoc

theorem DistinctIds.congr {c c' : ClassDoc} (h : c.DistinctIds)
    (hlabels : c'.members.map Member.label = c.members.map Member.label) : c'.DistinctIds := by
  refine ⟨fun m hm => ?_, ?_⟩
  · have hlabel := List.mem_map_of_mem (f := Member.label) hm
    rw [hlabels] at hlabel
    obtain ⟨old, hold, hsame⟩ := List.mem_map.1 hlabel
    exact Member.currentId_eq_of_label hsame.symm (h.current old hold)
  · have hids := congrArg (List.map Prod.fst) hlabels
    rw [List.map_map, List.map_map] at hids
    have hread : Prod.fst ∘ Member.label = Member.id := rfl
    rw [hread] at hids
    rw [hids]
    exact h.nodup

theorem DistinctIds.concat {c : ClassDoc} (h : c.DistinctIds) {m : Member} (hid : m.id = m.currentId)
    (hfresh : m.id ∉ c.members.map Member.id) : (c.addMembers [m]).DistinctIds := by
  refine ⟨fun more hmore => ?_, ?_⟩
  · rcases List.mem_append.1 hmore with hold | hnew
    · exact h.current more hold
    · rw [List.mem_singleton.1 hnew]
      exact hid
  · rw [addMembers, List.map_append, List.nodup_append]
    refine ⟨h.nodup, List.nodup_singleton _, fun id hold id' hnew => ?_⟩
    rw [List.map_singleton, List.mem_singleton] at hnew
    exact fun hsame => hfresh (hnew ▸ hsame ▸ hold)

theorem DistinctIds.claimMembers {c : ClassDoc} (h : c.DistinctIds) : c.claimMembers.DistinctIds := by
  refine h.congr ?_
  rw [ClassDoc.claimMembers, List.map_map]
  rfl

/-- Accessors are added under names that no member has. -/
theorem DistinctIds.withAccessors {c : ClassDoc} (h : c.DistinctIds) : c.withAccessors.DistinctIds := by
  obtain ⟨added, hadded, hfills⟩ := c.exists_withAccessors
  have hcurrent : ∀ m ∈ c.members ++ added, m.id = m.currentId := by
    intro m hm
    rcases List.mem_append.1 hm with hold | hnew
    · exact h.current m hold
    · obtain ⟨option, -, hderived⟩ := Accessor.exists_derivedFrom (hfills.sublist.subset hnew)
      rcases hderived.form with rfl | rfl | ⟨-, rfl⟩
      · rfl
      · rfl
      · rfl
  rw [hadded]
  refine ⟨hcurrent, (nodup_ids_iff hcurrent).2 ?_⟩
  rw [List.map_append, List.nodup_append]
  refine ⟨(nodup_ids_iff h.current).1 h.nodup, ?_, fun new hnew old hold hsame => ?_⟩
  · refine List.Nodup.of_map (fun identity => identity.2.2) ?_
    rw [List.map_map]
    exact hfills.nodup
  · obtain ⟨m, hm, rfl⟩ := List.mem_map.1 hold
    obtain ⟨m', hm', rfl⟩ := List.mem_map.1 hnew
    exact hfills.fresh m hm m' hm' (congrArg (·.2.2) hsame.symm)

theorem labels_prepared (withOptions : Bool) (c : ClassDoc) :
    (prepared withOptions c).members.map Member.label =
      c.claimMembers.withAccessors.members.map Member.label := by
  have hreturns : ∀ c : ClassDoc, c.withReturns.members.map Member.label =
      c.members.map Member.label := by
    intro c
    rw [withReturns, List.map_map]
    exact List.map_congr_left fun m _ => Member.label_withReturn c.name m
  have hoptions : ∀ c : ClassDoc, c.withEventOptions.members.map Member.label =
      c.members.map Member.label := by
    intro c
    rw [withEventOptions, List.map_map]
    exact List.map_congr_left fun m _ => Member.label_withEventOptions m
  unfold prepared
  split
  · rw [hoptions, hreturns]
  · exact hreturns _

theorem DistinctIds.prepared {c : ClassDoc} (h : c.DistinctIds) (withOptions : Bool) :
    (prepared withOptions c).DistinctIds :=
  h.claimMembers.withAccessors.congr (labels_prepared withOptions c)

end ClassDoc

namespace Override

theorem distinctIds_addMember {c : ClassDoc} (h : c.DistinctIds) (source : String) {m : Member}
    (hid : m.id = m.currentId) : (addMember source c m).DistinctIds := by
  unfold addMember
  cases hi : c.members.findIdx? fun old => old.id == m.id with
  | some i =>
    exact h.congr
      (map_modify_of_same (f := fun old => patchMember source old m) (fun _ => rfl) c.members i)
  | none =>
    refine h.concat (m := newMember source c.name m) hid fun hold => ?_
    obtain ⟨old, hold, hsame⟩ := List.mem_map.1 hold
    have hne := List.findIdx?_eq_none_iff.1 hi old hold
    rw [beq_eq_false_iff_ne] at hne
    exact hne hsame

theorem distinctIds_apply {c patch : ClassDoc} (h : c.DistinctIds) (hpatch : patch.DistinctIds) :
    (apply c patch).DistinctIds := by
  have hmembers : (patch.members.foldl (addMember patch.name) c).DistinctIds :=
    List.foldlRecOn patch.members (addMember patch.name) h fun _ h m hm =>
      distinctIds_addMember h patch.name (hpatch.current m hm)
  exact hmembers.congr rfl

/-- Overrides are taken in by ids, so the ids of the members of a class stay different ones. -/
theorem distinctIds_absorb {classes : List ClassDoc} (h : ∀ c ∈ classes, c.DistinctIds) :
    ∀ c ∈ (absorb classes).1.1, c.DistinctIds :=
  absorb_forall (P := ClassDoc.DistinctIds) (fun _ _ => distinctIds_apply) h

end Override
end ApiDoc
