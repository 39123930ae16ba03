/-
Looking members up gives what is visible.

Every index that is kept is the one that the recursion over inheritance describes, whatever was
looked up before (`Faithful`).  So the answers do not depend on earlier look-ups
(`findRefs_eq_visible`).
-/
import ApiDoc.Proofs.Visibility.Map
import ApiDoc.Proofs.Visibility.Spec

namespace ApiDoc
namespace Lookups

/-- Placing members puts them into the map and leaves the kept indices alone. -/
theorem foldl_place (s : MemberMap × Lookups) (ps : List (String × Indexed)) :
    (ps.foldl place s).1 = s.1.putAll ps ∧ (ps.foldl place s).2.indices = s.2.indices := by
  induction ps generalizing s with
  | nil => exact ⟨rfl, rfl⟩
  | cons p ps ih =>
    have hindices : (place s p).2.indices = s.2.indices := by
      unfold place
      cases s.1.get? p.1 with
      | none => rfl
      | some loser =>
        show (if _ then s.2 else s.2.note _ _).indices = _
        split
        · rfl
        · rfl
    obtain ⟨hmap, hkept⟩ := ih (place s p)
    exact ⟨hmap, hkept.trans hindices⟩

end Lookups

def MemberQuery.wantsMember (q : MemberQuery) (m : Member) : Bool :=
  wants q.name m.name && wants q.kind m.kind && wants q.isStatic m.isStatic

namespace Registry

def indexed? (r : Registry) (ref : MemberRef) : Option Indexed :=
  (r.member? ref).map (Indexed.ofMember ref)

/-- What is visible in a class, as a map. -/
def visibleMap (r : Registry) (h : r.Sound) (i : Nat) : MemberMap :=
  MemberMap.ofIds (r.visibleIds h i) fun id => (r.visible? h id i).bind r.indexed?

/-- What a class hands on, as a map. -/
def handedMap (r : Registry) (h : r.Sound) (i : Nat) : MemberMap :=
  MemberMap.ofIds (r.visibleIds h i) fun id => (r.handed? h id i).bind r.indexed?

theorem isSome_indexed? {r : Registry} {h : r.Sound} {id : String} {i : Nat} {ref : MemberRef}
    (hv : r.visible? h id i = some ref) : (r.indexed? ref).isSome := by
  obtain ⟨m, hm, -⟩ := member?_of_visible? hv
  rw [indexed?, hm]
  rfl

theorem inheritable_visibleMap (r : Registry) (h : r.Sound) (i : Nat) :
    (r.visibleMap h i).inheritable = r.handedMap h i := by
  rw [visibleMap, MemberMap.inheritable_ofIds, handedMap]
  congr 1
  funext id
  rw [handed?]
  cases r.visible? h id i with
  | none => rfl
  | some ref =>
    have hentry : (some ref).bind r.indexed? = (r.member? ref).map (Indexed.ofMember ref) := rfl
    rw [hentry, Option.filter_some, handsOn]
    cases hm : r.member? ref with
    | none => rfl
    | some m =>
      rw [Option.map_some, Option.filter_some, Option.any_some, Indexed.ofMember]
      split
      · rw [hentry, hm]
        rfl
      · rfl

theorem get?_visibleMap (r : Registry) (h : r.Sound) (i : Nat) (id : String) :
    (r.visibleMap h i).get? id = (r.visible? h id i).bind r.indexed? := by
  rw [visibleMap, MemberMap.get?_ofIds, ite_eq_left_iff]
  intro hid
  rw [mem_visibleIds, Option.not_isSome_iff_eq_none] at hid
  rw [hid]
  rfl

theorem get?_handedMap (r : Registry) (h : r.Sound) (i : Nat) (id : String) :
    (r.handedMap h i).get? id = (r.handed? h id i).bind r.indexed? := by
  rw [handedMap, MemberMap.get?_ofIds, ite_eq_left_iff]
  intro hid
  rw [mem_visibleIds, Option.not_isSome_iff_eq_none] at hid
  rw [handed?, hid]
  rfl

theorem ids_visibleMap (r : Registry) (h : r.Sound) (i : Nat) :
    (r.visibleMap h i).ids = r.visibleIds h i := by
  rw [visibleMap, MemberMap.ids_ofIds, List.filter_eq_self]
  intro id hid
  obtain ⟨ref, href⟩ := Option.isSome_iff_exists.1 (mem_visibleIds.1 hid)
  rw [href]
  exact isSome_indexed? href

theorem ids_handedMap (r : Registry) (h : r.Sound) (i : Nat) :
    (r.handedMap h i).ids = r.handedIds h i := by
  rw [handedMap, MemberMap.ids_ofIds, handedIds]
  refine List.filter_congr fun id _ => ?_
  rw [handed?]
  cases hv : r.visible? h id i with
  | none => rfl
  | some ref =>
    rw [Option.filter_some, Option.any_some]
    cases r.handsOn ref with
    | false => rfl
    | true => exact isSome_indexed? hv

def parentMap (r : Registry) (h : r.Sound) (i : Nat) : MemberMap :=
  ((r.links.parentOf? i).map (r.handedMap h)).getD []

theorem get?_parentMap (r : Registry) (h : r.Sound) (i : Nat) (id : String) :
    (r.parentMap h i).get? id =
      ((r.links.parentOf? i).bind (r.handed? h id)).bind r.indexed? := by
  rw [parentMap]
  cases r.links.parentOf? i with
  | none => rfl
  | some p => exact get?_handedMap r h p id

theorem ids_parentMap (r : Registry) (h : r.Sound) (i : Nat) :
    (r.parentMap h i).ids = (r.links.parentOf? i).toList.flatMap (r.handedIds h) := by
  rw [parentMap]
  cases r.links.parentOf? i with
  | none => rfl
  | some p =>
    rw [Option.toList_some, List.flatMap_singleton]
    exact ids_handedMap r h p

theorem lookup_ownEntries (r : Registry) (i : Nat) (id : String) :
    (r.ownEntries i).reverse.lookup id = (r.lastOwn? i id).bind r.indexed? := by
  have hentries : (r.ownEntries i).reverse = (r.membersOf i).zipIdx.reverse.map fun m =>
      (m.1.id, Indexed.ofMember ⟨i, m.2⟩ m.1) := List.map_reverse.symm
  rw [hentries, lookup_map, lastOwn?]
  cases hfind : (r.membersOf i).zipIdx.reverse.find? fun m => m.1.id == id with
  | none => rfl
  | some m =>
    have hm := member?_of_mem_zipIdx (List.mem_reverse.1 (List.mem_of_find?_eq_some hfind))
    show _ = r.indexed? ⟨i, m.2⟩
    rw [indexed?, hm]
    rfl

/-- Members that exist keep others from being asked for, before and after they are read. -/
theorem or_bind_indexed? {r : Registry} {a b : Option MemberRef}
    (ha : ∀ ref, a = some ref → (r.indexed? ref).isSome) :
    (a.or b).bind r.indexed? = (a.bind r.indexed?).or (b.bind r.indexed?) := by
  cases a with
  | none => rfl
  | some ref =>
    obtain ⟨e, he⟩ := Option.isSome_iff_exists.1 (ha ref rfl)
    show r.indexed? ref = (r.indexed? ref).or _
    rw [he]
    rfl

/-- Among what several classes hand on, the first one that hands on something under an id counts. -/
theorem lookup_handedMaps (r : Registry) (h : r.Sound) (bases : List Nat) (id : String) :
    (bases.flatMap fun j => (r.handedMap h j).reverse).lookup id =
      (bases.findSome? (r.handed? h id)).bind r.indexed? := by
  induction bases with
  | nil => rfl
  | cons j bases ih =>
    have hn : ((r.handedMap h j).map Prod.fst).Nodup := by
      rw [← MemberMap.ids, ids_handedMap]
      exact (nodup_visibleIds r h j).filter _
    have hj : (r.handedMap h j).reverse.lookup id = (r.handed? h id j).bind r.indexed? := by
      rw [lookup_reverse hn]
      exact get?_handedMap r h j id
    have hlive : ∀ ref, r.handed? h id j = some ref → (r.indexed? ref).isSome :=
      fun ref href => isSome_indexed? (handed?_eq_some.1 href).1
    rw [List.flatMap_cons, List.lookup_append, ih, hj, ← or_bind_indexed? hlive, List.findSome?_cons]
    cases r.handed? h id j with
    | none => rfl
    | some ref => rfl

/-- Putting everything into a map in the order of inheritance leaves in it what is visible. -/
theorem putAll_parentMap (r : Registry) (h : r.Sound) (i : Nat) :
    (r.parentMap h i).putAll ((r.links.mixinsOf i).flatMap (r.handedMap h) ++ r.ownEntries i) =
      r.visibleMap h i := by
  have hmixins : ((r.links.mixinsOf i).flatMap (r.handedMap h)).map Prod.fst =
      (r.links.mixinsOf i).flatMap (r.handedIds h) := by
    rw [List.map_flatMap]
    exact List.flatMap_congr fun j _ => ids_handedMap r h j
  have hown : (r.ownEntries i).map Prod.fst = (r.membersOf i).map Member.id := by
    show ((r.membersOf i).zipIdx.map _).map Prod.fst = _
    rw [List.map_map]
    have hfirst : (r.membersOf i).zipIdx.map Prod.fst = r.membersOf i := List.zipIdx_map_fst 0 _
    conv_rhs => rw [← hfirst, List.map_map]
    rfl
  have hparent : (r.parentMap h i).ids = distinct (r.parentMap h i).ids := by
    refine (distinct_eq_self ?_).symm
    rw [ids_parentMap]
    cases r.links.parentOf? i with
    | none => exact List.nodup_nil
    | some p =>
      rw [Option.toList_some, List.flatMap_singleton]
      exact (nodup_visibleIds r h p).filter _
  have hids : ((r.parentMap h i).putAll
      ((r.links.mixinsOf i).flatMap (r.handedMap h) ++ r.ownEntries i)).ids =
      (r.visibleMap h i).ids := by
    rw [MemberMap.ids_putAll, List.map_append, hmixins, hown, hparent, ids_parentMap, distinct,
      ← appendNew_append, ids_visibleMap, visibleIds_eq, distinct, List.append_assoc]
  refine MemberMap.eq_of_get? hids ?_ fun id => ?_
  · rw [hids, ids_visibleMap]
    exact nodup_visibleIds r h i
  · have hownLive : ∀ ref, r.lastOwn? i id = some ref → (r.indexed? ref).isSome := by
      intro ref href
      obtain ⟨-, m, hm, -⟩ := lastOwn?_eq_some href
      rw [indexed?, hm]
      rfl
    have hmixinLive : ∀ ref, (r.links.mixinsOf i).reverse.findSome? (r.handed? h id) = some ref →
        (r.indexed? ref).isSome := by
      intro ref href
      obtain ⟨j, -, hj⟩ := List.exists_of_findSome?_eq_some href
      exact isSome_indexed? (handed?_eq_some.1 hj).1
    rw [MemberMap.get?_putAll, List.reverse_append, List.lookup_append, List.reverse_flatMap,
      lookup_ownEntries, get?_parentMap, get?_visibleMap, visible?_eq, List.getLast?_filterMap,
      or_bind_indexed? hownLive, or_bind_indexed? hmixinLive, ← lookup_handedMaps, Option.or_assoc]
    rfl

/-- The index of a class as it should be. -/
def trueIndex (r : Registry) (h : r.Sound) (i : Nat) : ClassIndex :=
  { visible := r.visibleMap h i, own := (r.ownEntries i).map (·.2) }

/-- Every index that is kept is as it should be. -/
def Faithful (r : Registry) (h : r.Sound) (l : Lookups) : Prop :=
  ∀ i index, l.indices.lookup i = some index → index = r.trueIndex h i

/-- Indices that are made on the way are as they should be. -/
def MakesTrue (r : Registry) (h : r.Sound) (indexOf : Nat → Lookups → ClassIndex × Lookups)
    (i : Nat) : Prop :=
  ∀ l, r.Faithful h l → (indexOf i l).1 = r.trueIndex h i ∧ r.Faithful h (indexOf i l).2

theorem foldl_addMixin {r : Registry} {h : r.Sound}
    {indexOf : Nat → Lookups → ClassIndex × Lookups} {mixins : List Nat}
    (hindex : ∀ j ∈ mixins, r.MakesTrue h indexOf j) {s : MemberMap × Lookups}
    (hs : r.Faithful h s.2) :
    (mixins.foldl (addMixin indexOf) s).1 = s.1.putAll (mixins.flatMap (r.handedMap h)) ∧
      r.Faithful h (mixins.foldl (addMixin indexOf) s).2 := by
  induction mixins generalizing s with
  | nil => exact ⟨rfl, hs⟩
  | cons j mixins ih =>
    obtain ⟨htrue, hkept⟩ := hindex j List.mem_cons_self s.2 hs
    obtain ⟨hmap, hindices⟩ :=
      Lookups.foldl_place (s.1, (indexOf j s.2).2) (indexOf j s.2).1.visible.inheritable
    have hhanded : (indexOf j s.2).1.visible.inheritable = r.handedMap h j := by
      rw [htrue]
      exact inheritable_visibleMap r h j
    have hnext : r.Faithful h (addMixin indexOf s j).2 := by
      intro i index hi
      exact hkept i index (hindices ▸ hi)
    obtain ⟨hrest, hfaithful⟩ :=
      ih (fun k hk => hindex k (List.mem_cons_of_mem j hk)) hnext
    refine ⟨?_, hfaithful⟩
    have hfirst : (addMixin indexOf s j).1 = s.1.putAll (r.handedMap h j) := by
      rw [← hhanded]
      exact hmap
    rw [List.foldl_cons, hrest, hfirst, List.flatMap_cons]
    exact List.foldl_append.symm

/-- An index is as it should be if those of the bases are. -/
theorem makeIndex_true {r : Registry} {h : r.Sound}
    {indexOf : Nat → Lookups → ClassIndex × Lookups} {i : Nat}
    (hindex : ∀ j, r.links.Inherits i j → r.MakesTrue h indexOf j) :
    r.MakesTrue h (r.makeIndex indexOf) i := by
  intro l hl
  have hparent : (r.inherited indexOf i l).1 = r.parentMap h i ∧
      r.Faithful h (r.inherited indexOf i l).2 := by
    unfold inherited parentMap
    cases hp : r.links.parentOf? i with
    | none => exact ⟨rfl, hl⟩
    | some p =>
      obtain ⟨htrue, hkept⟩ := hindex p (Links.inherits_of_parentOf? hp) l hl
      refine ⟨?_, hkept⟩
      show (indexOf p l).1.visible.inheritable = r.handedMap h p
      rw [htrue]
      exact inheritable_visibleMap r h p
  obtain ⟨hmixed, hmixedKept⟩ := foldl_addMixin
    (fun j hj => hindex j (Links.inherits_of_mem_mixinsOf hj)) hparent.2
  obtain ⟨hall, hindices⟩ := Lookups.foldl_place
    ((r.links.mixinsOf i).foldl (addMixin indexOf) (r.inherited indexOf i l)) (r.ownEntries i)
  have htrue : (r.makeIndex indexOf i l).1 = r.trueIndex h i := by
    have hvisible : (r.makeIndex indexOf i l).1.visible = r.visibleMap h i := by
      show ((r.ownEntries i).foldl Lookups.place _).1 = _
      rw [hall, hmixed, hparent.1, ← putAll_parentMap]
      exact List.foldl_append.symm
    rw [trueIndex, ← hvisible]
    rfl
  refine ⟨htrue, ?_⟩
  intro k index hk
  have hlookup : (r.makeIndex indexOf i l).2.indices =
      (i, (r.makeIndex indexOf i l).1) ::
        ((r.links.mixinsOf i).foldl (addMixin indexOf) (r.inherited indexOf i l)).2.indices := by
    rw [← hindices]
    rfl
  rw [hlookup, lookup_cons_if] at hk
  by_cases hki : k = i
  · rw [if_pos hki] at hk
    rw [← Option.some.inj hk, htrue, hki]
  · rw [if_neg hki] at hk
    exact hmixedKept k index hk

theorem indexFrom_true {r : Registry} (h : r.Sound) {d i : Nat} (hd : r.links.Shallow d i) :
    r.MakesTrue h (r.indexFrom d) i := by
  induction d generalizing i with
  | zero => exact hd.elim
  | succ d ih =>
    intro l hl
    rw [indexFrom]
    cases hi : l.indices.lookup i with
    | some index => exact ⟨hl i index hi, hl⟩
    | none => exact makeIndex_true (fun j hj => ih (hd j hj)) l hl

theorem indexFrom_lookups (r : Registry) (kept : Lookups) (d : Nat) :
    { r with lookups := kept }.indexFrom d = r.indexFrom d := by
  induction d with
  | zero => rfl
  | succ d ih =>
    funext i l
    rw [indexFrom, indexFrom, ih]
    rfl

theorem index_true {r : Registry} (h : r.Sound) {l : Lookups} (hl : r.Faithful h l) (i : Nat) :
    ({ r with lookups := l }.index i).1 = r.trueIndex h i ∧
      r.Faithful h ({ r with lookups := l }.index i).2 := by
  rw [index, indexFrom_lookups]
  exact indexFrom_true h (h.shallow i) l hl

/-- After any look-ups a registry differs in what is kept only, and that is as it should be. -/
theorem foldl_looked {r : Registry} (h : r.Sound) {l : Lookups} (hl : r.Faithful h l)
    (earlier : List Nat) :
    ∃ l', earlier.foldl looked { r with lookups := l } = { r with lookups := l' } ∧
      r.Faithful h l' := by
  induction earlier generalizing l with
  | nil => exact ⟨l, rfl, hl⟩
  | cons i earlier ih => exact ih (index_true h hl i).2

/-- Filtering members by how they are indexed is filtering them by what they are. -/
theorem filter_entries (r : Registry) (q : MemberQuery) (refs : List MemberRef) :
    ((refs.filterMap r.indexed?).filter q.admits).map Indexed.ref =
      refs.filter fun ref => (r.member? ref).any q.wantsMember := by
  induction refs with
  | nil => rfl
  | cons ref refs ih =>
    rw [List.filterMap_cons, List.filter_cons, ← ih, indexed?]
    cases hm : r.member? ref with
    | none => rfl
    | some m =>
      have hq : q.admits (Indexed.ofMember ref m) = q.wantsMember m := rfl
      show ((Indexed.ofMember ref m :: _).filter q.admits).map Indexed.ref =
        if q.wantsMember m = true then _ else _
      rw [List.filter_cons, hq]
      cases q.wantsMember m with
      | false => rfl
      | true => rfl

/-- Whatever was looked up before, looking up the members of a class gives one member for each id
under which something is visible, in the order of the ids and as far as the query wants them.  The ids
are different ones, they are those of the members, and a static member that subclasses do not inherit
is found in its own class only. -/
theorem findRefs_eq_visible {classes : List ClassDoc} {ignored : List String} {r : Registry}
    (h : (build classes ignored).1 = .ok r) (earlier : List Nat) (i : Nat) {q : MemberQuery}
    (hq : q.isOwn = false) :
    (earlier.foldl looked r).findRefs i q =
        ((r.visibleIds (sound_of_build h) i).filterMap fun id =>
          r.visible? (sound_of_build h) id i).filter
            (fun ref => (r.member? ref).any q.wantsMember) ∧
      (r.visibleIds (sound_of_build h) i).Nodup ∧
      (∀ id, id ∈ r.visibleIds (sound_of_build h) i ↔
        (r.visible? (sound_of_build h) id i).isSome) ∧
      (∀ id ref, r.visible? (sound_of_build h) id i = some ref →
        ∃ m, r.member? ref = some m ∧ m.id = id) ∧
      ∀ ref ∈ (earlier.foldl looked r).findRefs i q,
        ∀ m, r.member? ref = some m → m.isLocalStatic = true → ref.classAt = i := by
  have hsound := sound_of_build h
  have hnew : r.Faithful hsound r.lookups := by
    intro k index hk
    obtain ⟨-, rfl⟩ := build_eq_ok_iff.1 h
    exact absurd hk (by simp)
  obtain ⟨l, hl, hfaithful⟩ := foldl_looked hsound hnew earlier
  have hindex := (index_true hsound hfaithful i).1
  have hanswer : (earlier.foldl looked r).findRefs i q =
      ((r.visibleIds hsound i).filterMap fun id => r.visible? hsound id i).filter
        (fun ref => (r.member? ref).any q.wantsMember) := by
    have hentries : (r.visibleMap hsound i).map (·.2) =
        ((r.visibleIds hsound i).filterMap fun id => r.visible? hsound id i).filterMap r.indexed? := by
      rw [visibleMap, MemberMap.ofIds, List.map_filterMap, List.filterMap_filterMap]
      refine List.filterMap_congr fun id _ => ?_
      rw [Option.map_map]
      exact Option.map_id'
    rw [hl, findRefs, hindex, hq, if_neg Bool.false_ne_true, trueIndex, hentries, filter_entries]
  refine ⟨hanswer, nodup_visibleIds r hsound i, fun id => mem_visibleIds,
    fun id ref => member?_of_visible?, ?_⟩
  intro ref href m hm hstays
  rw [hanswer] at href
  obtain ⟨id, -, hv⟩ := List.mem_filterMap.1 (List.mem_filter.1 href).1
  refine classAt_of_visible? hv ?_
  rw [handsOn, hm, Option.any_some, hstays]
  rfl

/-- A class with a parent and a mixin that shadow one another. -/
def family : List ClassDoc :=
  [{ name := "Parent"
     members :=
      [{ Member.ofName .method "create" with isStatic := true },
        { Member.ofName .method "shared" with isStatic := true, isInheritable := true },
        Member.ofName .method "foo", Member.ofName .method "bar"] },
   { name := "Mixin", members := [Member.ofName .method "baz", Member.ofName .method "foo"] },
   { name := "Child", parent := some "Parent", mixins := ["Mixin"]
     members := [Member.ofName .method "bar", Member.ofName .method "bar"] }]

def familyRegistry : Registry :=
  { classes := family, names := namesOf family, links := linksOf (namesOf family) family }

theorem build_family : (build family []).1 = .ok familyRegistry :=
  build_eq_ok_iff.2 ⟨by decide, rfl⟩

theorem visible_family :
    ((familyRegistry.visibleIds (sound_of_build build_family) 2).filterMap fun id =>
        familyRegistry.visible? (sound_of_build build_family) id 2).filter
          (fun ref => (familyRegistry.member? ref).any { : MemberQuery }.wantsMember) =
      [⟨0, 1⟩, ⟨1, 1⟩, ⟨2, 1⟩, ⟨1, 0⟩] := by
  rw [← (findRefs_eq_visible build_family [0, 2] 2 (q := {}) rfl).1]
  decide

end Registry
end ApiDoc
