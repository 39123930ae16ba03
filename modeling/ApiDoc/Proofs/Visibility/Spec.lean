/-
What is visible in a class.

This says which member a class shows under an id and in which order its ids come, by recursion over
inheritance alone.  Indices, kept answers and the places in ordered maps do not occur here.
-/
import ApiDoc.Proofs.Inheritance.Build
import Mathlib.Tactic.Tauto

namespace ApiDoc
namespace Registry

def membersOf (r : Registry) (i : Nat) : List Member :=
  ((r.classAt? i).map ClassDoc.members).getD []

/-- The last member of an id that a class declares. -/
def lastOwn? (r : Registry) (i : Nat) (id : String) : Option MemberRef :=
  ((r.membersOf i).zipIdx.reverse.find? fun m => m.1.id == id).map fun m => ⟨i, m.2⟩

/-- Whether subclasses inherit the member at a place. -/
def handsOn (r : Registry) (ref : MemberRef) : Bool :=
  (r.member? ref).any fun m => !m.isLocalStatic

/-- The member that is visible in a class under an id: the last one of its own, or else the one of the
last mixin that hands one on, or else the one that the parent hands on. -/
def visible? (r : Registry) (h : r.Sound) (id : String) (i : Nat) : Option MemberRef :=
  (r.lastOwn? i id).or <|
    ((r.links.mixinsOf i).attach.filterMap fun j =>
      (r.visible? h id j.1).filter r.handsOn).getLast?.or <|
    (r.links.parentOf? i).attach.bind fun p => (r.visible? h id p.1).filter r.handsOn
termination_by WellFounded.wrap ⟨h.ends⟩ i
decreasing_by
  · exact Links.inherits_of_mem_mixinsOf j.2
  · exact Links.inherits_of_parentOf? p.2

/-- The ids under which something is visible in a class, in the order in which they appear: those
that the parent hands on, those that the mixins hand on, and those of the class's own members. -/
def visibleIds (r : Registry) (h : r.Sound) (i : Nat) : List String :=
  distinct <|
    ((r.links.parentOf? i).toList.attach.flatMap fun p =>
      (r.visibleIds h p.1).filter fun id => (r.visible? h id p.1).any r.handsOn) ++
    ((r.links.mixinsOf i).attach.flatMap fun j =>
      (r.visibleIds h j.1).filter fun id => (r.visible? h id j.1).any r.handsOn) ++
    (r.membersOf i).map Member.id
termination_by WellFounded.wrap ⟨h.ends⟩ i
decreasing_by
  · exact Links.inherits_of_parentOf? (Option.mem_toList.1 p.2)
  · exact Links.inherits_of_mem_mixinsOf j.2

def handed? (r : Registry) (h : r.Sound) (id : String) (i : Nat) : Option MemberRef :=
  (r.visible? h id i).filter r.handsOn

def handedIds (r : Registry) (h : r.Sound) (i : Nat) : List String :=
  (r.visibleIds h i).filter fun id => (r.visible? h id i).any r.handsOn

theorem visible?_eq (r : Registry) (h : r.Sound) (id : String) (i : Nat) :
    r.visible? h id i =
      (r.lastOwn? i id).or (((r.links.mixinsOf i).filterMap (r.handed? h id)).getLast?.or
        ((r.links.parentOf? i).bind (r.handed? h id))) := by
  rw [visible?, List.filterMap_subtype (g := r.handed? h id) fun _ _ => rfl, List.unattach_attach]
  cases hp : r.links.parentOf? i with
  | none => rfl
  | some p => rfl

theorem visibleIds_eq (r : Registry) (h : r.Sound) (i : Nat) :
    r.visibleIds h i =
      distinct ((r.links.parentOf? i).toList.flatMap (r.handedIds h) ++
        (r.links.mixinsOf i).flatMap (r.handedIds h) ++ (r.membersOf i).map Member.id) := by
  rw [visibleIds, List.flatMap_subtype (g := r.handedIds h) fun _ _ => rfl,
    List.flatMap_subtype (g := r.handedIds h) fun _ _ => rfl, List.unattach_attach,
    List.unattach_attach]

theorem handed?_eq_some {r : Registry} {h : r.Sound} {id : String} {i : Nat} {ref : MemberRef} :
    r.handed? h id i = some ref ↔ r.visible? h id i = some ref ∧ r.handsOn ref = true := by
  rw [handed?, Option.filter_eq_some_iff]

theorem member?_of_mem_zipIdx {r : Registry} {i k : Nat} {m : Member}
    (h : (m, k) ∈ (r.membersOf i).zipIdx) : r.member? ⟨i, k⟩ = some m := by
  have hget : (r.membersOf i)[k]? = some m := by
    simpa using List.mem_zipIdx_iff_getElem?.1 h
  rw [member?]
  unfold membersOf at hget
  cases hc : r.classAt? i with
  | none => simp [hc] at hget
  | some c => simpa [hc] using hget

theorem lastOwn?_eq_some {r : Registry} {i : Nat} {id : String} {ref : MemberRef}
    (h : r.lastOwn? i id = some ref) :
    ref.classAt = i ∧ ∃ m, r.member? ref = some m ∧ m.id = id := by
  obtain ⟨⟨m, k⟩, hfind, rfl⟩ := Option.map_eq_some_iff.1 h
  have hmem : (m, k) ∈ (r.membersOf i).zipIdx :=
    List.mem_reverse.1 (List.mem_of_find?_eq_some hfind)
  have hid : m.id = id := by simpa using List.find?_some hfind
  exact ⟨rfl, m, member?_of_mem_zipIdx hmem, hid⟩

theorem isSome_lastOwn? {r : Registry} {i : Nat} {id : String} :
    (r.lastOwn? i id).isSome ↔ id ∈ (r.membersOf i).map Member.id := by
  rw [lastOwn?, Option.isSome_map, List.find?_isSome, List.mem_map]
  constructor
  · rintro ⟨⟨m, k⟩, hm, hid⟩
    refine ⟨m, ?_, by simpa using hid⟩
    exact (List.mem_zipIdx (List.mem_reverse.1 hm)).2.2 ▸ List.getElem_mem _
  · rintro ⟨m, hm, rfl⟩
    obtain ⟨k, hk, rfl⟩ := List.getElem_of_mem hm
    refine ⟨((r.membersOf i)[k], k), ?_, by simp⟩
    exact List.mem_reverse.2 (List.mem_zipIdx_iff_getElem?.2 (by simp [hk]))

theorem visible?_cases {r : Registry} {h : r.Sound} {id : String} {i : Nat} {ref : MemberRef}
    (hv : r.visible? h id i = some ref) :
    r.lastOwn? i id = some ref ∨ ∃ j, r.links.Inherits i j ∧ r.handed? h id j = some ref := by
  rw [visible?_eq, Option.or_eq_some_iff, Option.or_eq_some_iff] at hv
  rcases hv with hown | ⟨-, hmixin | ⟨-, hparent⟩⟩
  · exact Or.inl hown
  · obtain ⟨j, hj, href⟩ := List.mem_filterMap.1 (List.mem_of_getLast? hmixin)
    exact Or.inr ⟨j, Links.inherits_of_mem_mixinsOf hj, href⟩
  · obtain ⟨p, hp, href⟩ := Option.bind_eq_some_iff.1 hparent
    exact Or.inr ⟨p, Links.inherits_of_parentOf? hp, href⟩

theorem member?_of_visible? {r : Registry} {h : r.Sound} {id : String} {i : Nat} {ref : MemberRef}
    (hv : r.visible? h id i = some ref) : ∃ m, r.member? ref = some m ∧ m.id = id := by
  induction h.ends i with
  | intro i _ ih =>
    rcases visible?_cases hv with hown | ⟨j, hj, href⟩
    · exact (lastOwn?_eq_some hown).2
    · exact ih j hj (handed?_eq_some.1 href).1

/-- A static member that stays with its class is visible in that class only. -/
theorem classAt_of_visible? {r : Registry} {h : r.Sound} {id : String} {i : Nat} {ref : MemberRef}
    (hv : r.visible? h id i = some ref) (hstays : r.handsOn ref = false) : ref.classAt = i := by
  rcases visible?_cases hv with hown | ⟨j, -, href⟩
  · exact (lastOwn?_eq_some hown).1
  · rw [(handed?_eq_some.1 href).2] at hstays
    exact absurd hstays (by decide)

/-- The ids that are listed are those under which something is visible. -/
theorem mem_visibleIds {r : Registry} {h : r.Sound} {id : String} {i : Nat} :
    id ∈ r.visibleIds h i ↔ (r.visible? h id i).isSome := by
  induction h.ends i with
  | intro i _ ih =>
    have hbase : ∀ j, r.links.Inherits i j →
        (id ∈ r.handedIds h j ↔ (r.handed? h id j).isSome) := by
      intro j hj
      rw [handedIds, List.mem_filter, ih j hj, handed?]
      cases r.visible? h id j with
      | none => simp
      | some ref => cases href : r.handsOn ref <;> simp [href]
    have hparent : (∃ p ∈ (r.links.parentOf? i).toList, id ∈ r.handedIds h p) ↔
        ((r.links.parentOf? i).bind (r.handed? h id)).isSome := by
      cases hp : r.links.parentOf? i with
      | none => simp
      | some p => simpa using hbase p (Links.inherits_of_parentOf? hp)
    have hmixins : (∃ j ∈ r.links.mixinsOf i, id ∈ r.handedIds h j) ↔
        ((r.links.mixinsOf i).filterMap (r.handed? h id)).getLast?.isSome := by
      rw [List.getLast?_isSome]
      constructor
      · rintro ⟨j, hj, hid⟩
        obtain ⟨ref, href⟩ :=
          Option.isSome_iff_exists.1 ((hbase j (Links.inherits_of_mem_mixinsOf hj)).1 hid)
        exact List.ne_nil_of_mem (List.mem_filterMap.2 ⟨j, hj, href⟩)
      · intro hne
        obtain ⟨ref, hmem⟩ := List.exists_mem_of_ne_nil _ hne
        obtain ⟨j, hj, href⟩ := List.mem_filterMap.1 hmem
        exact ⟨j, hj, (hbase j (Links.inherits_of_mem_mixinsOf hj)).2 (by rw [href]; rfl)⟩
    rw [visibleIds_eq, mem_distinct, List.mem_append, List.mem_append, ← isSome_lastOwn?,
      List.mem_flatMap, List.mem_flatMap, hparent, hmixins, visible?_eq, Option.isSome_or,
      Option.isSome_or, Bool.or_eq_true, Bool.or_eq_true]
    tauto

theorem nodup_visibleIds (r : Registry) (h : r.Sound) (i : Nat) : (r.visibleIds h i).Nodup := by
  rw [visibleIds_eq]
  exact nodup_distinct _

end Registry
end ApiDoc
