/-
References that say in full which member they mean.

Ids tell name, kind and whether a member is static, so where ids are up to date a class shows at most one
member of which all three are as wanted, and the search for a source comes upon that one first
(`candidate?_of_visible?`).  It is then refused if it has the name of the member that refers to it and
stands in the same class, although it can be of another kind, or static where that one is not.  So a
reference in full leads to the member that it means unless that is such a namesake
(`explicit_reference_found_iff`).
-/
import ApiDoc.Proofs.Assembly.Ids
import ApiDoc.Proofs.InheritedDocs.Chain

namespace ApiDoc
namespace Registry

/-- The ids of all members are up to date. -/
def IdsCurrent (r : Registry) : Prop := ∀ ref m, r.member? ref = some m → m.id = m.currentId

/-- Looking up members gives those that are visible, as far as the query wants them. -/
theorem mem_findRefs_iff {r : Registry} {h : r.Sound} (hl : r.Faithful h r.lookups) {i : Nat}
    {q : MemberQuery} (hq : q.isOwn = false) {ref : MemberRef} :
    ref ∈ r.findRefs i q ↔ ∃ id m, r.visible? h id i = some ref ∧ r.member? ref = some m ∧
      q.wantsMember m = true := by
  have hindex : (r.index i).1 = r.trueIndex h i := (index_true h hl i).1
  rw [findRefs, hindex, hq, if_neg Bool.false_ne_true, trueIndex, visibleMap, MemberMap.ofIds]
  constructor
  · intro href
    obtain ⟨e, he, rfl⟩ := List.mem_map.1 href
    obtain ⟨hentry, hadmits⟩ := List.mem_filter.1 he
    obtain ⟨⟨id, e'⟩, hmem, rfl⟩ := List.mem_map.1 hentry
    obtain ⟨id', -, hplace⟩ := List.mem_filterMap.1 hmem
    obtain ⟨e'', hread, hsame⟩ := Option.map_eq_some_iff.1 hplace
    obtain ⟨rfl, rfl⟩ := Prod.mk.inj hsame
    obtain ⟨shown, hshown, hindexed⟩ := Option.bind_eq_some_iff.1 hread
    obtain ⟨m, hm, rfl⟩ := Option.map_eq_some_iff.1 hindexed
    exact ⟨id', m, hshown, hm, hadmits⟩
  · rintro ⟨id, m, hshown, hm, hwants⟩
    have hread : (r.visible? h id i).bind r.indexed? = some (Indexed.ofMember ref m) := by
      rw [hshown, Option.bind_some, indexed?, hm, Option.map_some]
    refine List.mem_map.2 ⟨Indexed.ofMember ref m, List.mem_filter.2 ⟨?_, hwants⟩, rfl⟩
    refine List.mem_map.2 ⟨(id, Indexed.ofMember ref m), List.mem_filterMap.2 ⟨id, ?_, ?_⟩, rfl⟩
    · rw [mem_visibleIds, hshown]
      rfl
    · rw [hread, Option.map_some]

/-- What is visible under an id is what the id tells. -/
theorem member?_of_visible?_memberId {r : Registry} {h : r.Sound} (hids : r.IdsCurrent)
    {isStatic : Bool} {kind : EntityKind} {name : String} {i : Nat} {ref : MemberRef}
    (hv : r.visible? h (memberId isStatic kind name) i = some ref) :
    ∃ m, r.member? ref = some m ∧ m.isStatic = isStatic ∧ m.kind = kind ∧ m.name = name := by
  obtain ⟨m, hm, hid⟩ := member?_of_visible? hv
  rw [hids ref m hm] at hid
  exact ⟨m, hm, memberId_inj hid⟩

/-- The search for a source comes upon the visible member of that name and kind. -/
theorem candidate?_of_visible? {r : Registry} {h : r.Sound} (hl : r.Faithful h r.lookups)
    (hids : r.IdsCurrent) {isStatic : Bool} {kind : EntityKind} {name : String} {i : Nat}
    {ref : MemberRef} (hv : r.visible? h (memberId isStatic kind name) i = some ref)
    (lenient : Bool) : r.candidate? i name isStatic kind lenient = some ref := by
  let q : MemberQuery := { name := some name, isStatic := some isStatic }
  have hwants : ∀ m : Member,
      q.wantsMember m = true ↔ name = m.name ∧ isStatic = m.isStatic := by
    intro m
    simp [q, MemberQuery.wantsMember, MemberQuery.wants]
  obtain ⟨m, hm, hstatic, hkind, hname⟩ := member?_of_visible?_memberId hids hv
  have hmem : (ref, m) ∈ r.membersAt (r.findRefs i q) := by
    refine List.mem_filterMap.2 ⟨ref, ?_, by rw [hm, Option.map_some]⟩
    exact (mem_findRefs_iff hl rfl).2 ⟨_, m, hv, hm, (hwants m).2 ⟨hname.symm, hstatic.symm⟩⟩
  -- Another member that is as wanted would be visible under the same id.
  have honly : ∀ c ∈ r.membersAt (r.findRefs i q), c.2.kind = kind → c.1 = ref := by
    intro c hc hckind
    obtain ⟨place, hplace, hread⟩ := List.mem_filterMap.1 hc
    obtain ⟨m', hm', rfl⟩ := Option.map_eq_some_iff.1 hread
    obtain ⟨id, m'', hshown, hm'', hwanted⟩ := (mem_findRefs_iff hl rfl).1 hplace
    obtain rfl := Option.some.inj (hm'.symm.trans hm'')
    obtain ⟨hname', hstatic'⟩ := (hwants m').1 hwanted
    obtain ⟨shown, hshown', hid⟩ := member?_of_visible? hshown
    obtain rfl := Option.some.inj (hm'.symm.trans hshown')
    rw [← hid, hids place m' hm', Member.currentId, ← hstatic', hckind, ← hname', hv] at hshown
    exact (Option.some.inj hshown).symm
  rw [candidate?, pick?]
  cases hfind : (r.membersAt (r.findRefs i q)).find? fun c => c.2.kind == kind with
  | none =>
    have hnot := List.find?_eq_none.1 hfind (ref, m) hmem
    exact absurd (beq_iff_eq.2 hkind) hnot
  | some c =>
    have hckind : c.2.kind = kind := by simpa using List.find?_some hfind
    have hc := honly c (List.mem_of_find?_eq_some hfind) hckind
    rw [← hc]
    rfl

/-- The class that a reference is about which a member of the class at `i` makes. -/
def targetOf? (r : Registry) (i : Nat) (ref : InheritRef) : Option Nat :=
  match ref.className with
  | some name => r.find? name
  | none => some i

/-- A reference in full leads to the member that it means, unless that is refused. -/
theorem source?_of_visible? {r : Registry} {h : r.Sound} (hl : r.Faithful h r.lookups)
    (hids : r.IdsCurrent) {i t : Nat} {m : Member} {ref : InheritRef} {kind : EntityKind}
    {name : String} {found : MemberRef} (hname : ref.memberName = some name)
    (hkind : ref.kind = some kind) (hstatic : m.isStatic = true → ref.isStatic = true)
    (ht : r.targetOf? i ref = some t)
    (hfound : r.visible? h (memberId ref.isStatic kind name) t = some found) :
    r.source? i m ref = if found.classAt = i ∧ name = m.name then none else some found := by
  obtain ⟨f, hf, -, -, hfname⟩ := member?_of_visible?_memberId hids hfound
  have hflag : (ref.isStatic || m.isStatic) = ref.isStatic := by
    cases hm : m.isStatic with
    | false => exact Bool.or_false _
    | true => rw [hstatic hm, Bool.or_true]
  have hcandidate : ((r.targetOf? i ref).bind fun t => r.candidate? t (ref.memberName.getD m.name)
      (ref.isStatic || m.isStatic) (ref.kind.getD m.kind)
      (m.inferred.member || ref.kind.isNone)) = some found := by
    rw [ht, hname, hkind, hflag]
    exact candidate?_of_visible? hl hids hfound _
  rw [source?, if_pos (by simp [hname]), namedSource?]
  show (Option.bind (r.targetOf? i ref) _).filter _ = _
  rw [hcandidate, Option.filter_some, hf, Option.map_some, hfname]
  by_cases hsame : found.classAt = i ∧ name = m.name
  · rw [if_neg (by simp [hsame]), if_pos hsame]
  · rw [if_pos (by simpa [imp_iff_not_or] using hsame), if_neg hsame]

/-- References lead where they lead whatever was looked up before. -/
theorem sourceOf?_looked {r : Registry} (hr : r.Reliable) (earlier : List Nat) (place : MemberRef) :
    (earlier.foldl looked r).sourceOf? place = r.sourceOf? place := by
  have hlike := looksAlike_looked hr earlier
  have hmember : (earlier.foldl looked r).member? place = r.member? place := hlike.member? place
  rw [sourceOf?, hmember, sourceOf?]
  refine congrArg (Option.bind _) (funext fun m => congrArg (Option.bind _) (funext fun ref => ?_))
  exact (hlike.source? place.classAt m ref).trans Option.map_id'

theorem idsCurrent_of_build {classes : List ClassDoc} {ignored : List String} {r : Registry}
    (h : (build classes ignored).1 = .ok r) (hids : ∀ c ∈ classes, ∀ m ∈ c.members, m.id = m.currentId) :
    r.IdsCurrent := by
  intro ref m hm
  obtain ⟨c, hc, hm⟩ := Option.bind_eq_some_iff.1 hm
  have hmem : c ∈ classes := classes_of_build h ▸ List.mem_of_getElem? hc
  exact hids c hmem m (List.mem_of_getElem? hm)

/-- A member refers in full to another one: by name and kind, and with a mark if that is static, which is
there whenever the member itself is static.  In a registry whose ids are up to date, and whatever was
looked up before, the reference leads to the member that is visible under these in the class that is
meant, if and only if that is no namesake in the class of the member that refers to it; otherwise the
reference leads nowhere. -/
theorem explicit_reference_found_iff {classes : List ClassDoc} {ignored : List String} {r : Registry}
    (h : (build classes ignored).1 = .ok r)
    (hids : ∀ c ∈ classes, ∀ m ∈ c.members, m.id = m.currentId) (earlier : List Nat)
    {place found : MemberRef} {m : Member} {ref : InheritRef} {name : String} {kind : EntityKind}
    {t : Nat} (hm : r.member? place = some m) (href : m.inheritdoc = some ref)
    (hname : ref.memberName = some name) (hkind : ref.kind = some kind)
    (hstatic : m.isStatic = true → ref.isStatic = true)
    (ht : r.targetOf? place.classAt ref = some t)
    (hfound : r.visible? (sound_of_build h) (memberId ref.isStatic kind name) t = some found) :
    ((earlier.foldl looked r).sourceOf? place = some found ↔
      ¬ (found.classAt = place.classAt ∧ name = m.name)) ∧
    (found.classAt = place.classAt ∧ name = m.name →
      (earlier.foldl looked r).sourceOf? place = none) := by
  obtain ⟨hs, hl⟩ := reliable_of_build h
  have hsource : (earlier.foldl looked r).sourceOf? place =
      if found.classAt = place.classAt ∧ name = m.name then none else some found := by
    rw [sourceOf?_looked (reliable_of_build h), sourceOf?, hm, Option.bind_some, href,
      Option.bind_some]
    exact source?_of_visible? hl (idsCurrent_of_build h hids) hname hkind hstatic ht hfound
  rw [hsource]
  by_cases hsame : found.classAt = place.classAt ∧ name = m.name
  · rw [if_pos hsame]
    exact ⟨⟨fun hnone => absurd hnone (by simp), fun hnot => absurd hsame hnot⟩, fun _ => rfl⟩
  · rw [if_neg hsame]
    exact ⟨⟨fun _ => hsame, fun _ => rfl⟩, fun hsame' => absurd hsame' hsame⟩

/-- An event that refers to the method of the same name, in the class of the method and in another
one. -/
def clicks : List ClassDoc :=
  [{ name := "Foo"
     members :=
      [{ Member.ofName .method "click" with doc := "Clicks it." },
        { Member.ofName .event "click" with
          inheritdoc := some { memberName := some "click", kind := some .method } }] },
   { name := "Bar"
     members :=
      [{ Member.ofName .event "click" with
          inheritdoc := some
            { className := some "Foo", memberName := some "click", kind := some .method } }] }]

def clicksRegistry : Registry :=
  { classes := clicks, names := namesOf clicks, links := linksOf (namesOf clicks) clicks }

theorem build_clicks : (build clicks []).1 = .ok clicksRegistry :=
  build_eq_ok_iff.2 ⟨by decide, rfl⟩

theorem idsCurrent_clicks : ∀ c ∈ clicks, ∀ m ∈ c.members, m.id = m.currentId := by decide

theorem visible_click :
    clicksRegistry.visible? (sound_of_build build_clicks) "method-click" 0 = some ⟨0, 0⟩ := by
  have hown : clicksRegistry.lastOwn? 0 "method-click" = some ⟨0, 0⟩ := by decide
  rw [visible?_eq, hown]
  rfl

theorem reference_found_bar :
    (build clicks []).1 = .ok clicksRegistry ∧
      (∀ c ∈ clicks, ∀ m ∈ c.members, m.id = m.currentId) ∧
      ([1].foldl looked clicksRegistry).sourceOf? ⟨1, 0⟩ = some ⟨0, 0⟩ := by
  have hplace : clicksRegistry.member? ⟨1, 0⟩ = some _ := rfl
  obtain ⟨hfound, -⟩ := explicit_reference_found_iff build_clicks idsCurrent_clicks [1] hplace rfl rfl
    rfl (by decide) (by decide) visible_click
  exact ⟨build_clicks, idsCurrent_clicks, hfound.2 (by decide)⟩

/-- The method of that name is visible and is another member, and still it is not found from the event
in its class. -/
theorem namesake_not_found :
    (build clicks []).1 = .ok clicksRegistry ∧
      (∀ c ∈ clicks, ∀ m ∈ c.members, m.id = m.currentId) ∧
      (∃ m ref, clicksRegistry.member? ⟨0, 1⟩ = some m ∧ m.inheritdoc = some ref ∧
        ref.memberName = some "click" ∧ ref.kind = some .method ∧ m.isStatic = false ∧
        ref.isStatic = false ∧ clicksRegistry.targetOf? 0 ref = some 0) ∧
      clicksRegistry.visible? (sound_of_build build_clicks) (memberId false .method "click") 0 =
        some ⟨0, 0⟩ ∧
      clicksRegistry.sourceOf? ⟨0, 1⟩ = none :=
  ⟨build_clicks, idsCurrent_clicks, ⟨_, _, rfl, rfl, rfl, rfl, rfl, rfl, rfl⟩, visible_click,
    by decide⟩

end Registry
end ApiDoc
