/-
What resolving references to documentation leaves.

All changes are found before anything is changed, and no place gets more than one.  So the pass has a
closed form, in which the order of the changes does not occur: each member becomes what its own change
makes of it, with its id brought up to date (`classes_inheritDocs`).
-/
import ApiDoc.Completion.InheritedDocs
import ApiDoc.Proofs.Tables
import Mathlib.Data.List.Nodup

namespace ApiDoc
namespace InheritedDocs

/-- The change of the member at a place.  The name of its class occurs in warnings only. -/
def change? (r : Registry) (ref : MemberRef) (m : Member) : Option MemberChange :=
  (changeOf r "" ref m).1

/-- A member with its change made, if there is one. -/
def changed (m : Member) (change? : Option MemberChange) : Member :=
  (change?.map (MemberChange.apply m)).getD m

/-- What becomes of the member at a place. -/
def outcome (r : Registry) (ref : MemberRef) (m : Member) : Member :=
  (changed m (change? r ref m)).refreshId

/-- The documentation of the class at a place after changes of classes. -/
def docAfter (find? : String → Option Nat) (changes : List ClassChange) (i : Nat) (doc : String) :
    String :=
  (changes.filter fun change => find? change.className == some i).foldl
    (fun doc change => if doc.isEmpty then change.doc else doc) doc

theorem fst_changeOf (r : Registry) (className : String) (ref : MemberRef) (m : Member) :
    (changeOf r className ref m).1 = change? r ref m := by
  unfold change? changeOf
  cases m.inheritdoc with
  | none => rfl
  | some inheritdoc =>
    dsimp only
    cases r.source? ref.classAt m inheritdoc with
    | some start => rfl
    | none =>
      dsimp only
      split
      · rfl
      · rfl

/-- All members with their places, class by class. -/
def membersIn (cs : List (ClassDoc × Nat)) : List (MemberRef × Member) :=
  cs.flatMap fun c => c.1.members.zipIdx.map fun m => (⟨c.2, m.2⟩, m.1)

def memberChanges (r : Registry) (ms : List (MemberRef × Member)) :
    List (MemberRef × MemberChange) :=
  ms.filterMap fun m => (change? r m.1 m.2).map fun change => (m.1, change)

/-- The warnings about the references of one class. -/
def warningsOf (r : Registry) (c : ClassDoc × Nat) : List Warning :=
  (c.1.members.zipIdx.flatMap fun m => (changeOf r c.1.name ⟨c.2, m.2⟩ m.1).2)
    ++ (classChangeOf r c.2 c.1).2

theorem changesOf_eq (r : Registry) (s : Changes) (c : ClassDoc × Nat) :
    changesOf r s c =
      ({ members := s.members ++ memberChanges r (membersIn [c])
         classes := s.classes ++ (classChangeOf r c.2 c.1).1.toList }, warningsOf r c) := by
  have hmembers : memberChanges r (membersIn [c]) =
      (c.1.members.zipIdx.map fun m => ((⟨c.2, m.2⟩ : MemberRef),
        changeOf r c.1.name ⟨c.2, m.2⟩ m.1)).filterMap
          fun f => f.2.1.map fun change => (f.1, change) := by
    rw [memberChanges, membersIn, List.flatMap_singleton, List.filterMap_map, List.filterMap_map]
    refine List.filterMap_congr fun m _ => ?_
    show (change? r ⟨c.2, m.2⟩ m.1).map _ = (changeOf r c.1.name ⟨c.2, m.2⟩ m.1).1.map _
    rw [fst_changeOf]
  rw [hmembers, warningsOf, changesOf, List.flatMap_map]

theorem reportEach_changesOf (r : Registry) (cs : List (ClassDoc × Nat)) (s : Changes) :
    reportEach (changesOf r) s cs =
      ({ members := s.members ++ memberChanges r (membersIn cs)
         classes := s.classes ++ cs.filterMap fun c => (classChangeOf r c.2 c.1).1 },
        cs.flatMap (warningsOf r)) := by
  induction cs generalizing s with
  | nil => simp [reportEach, memberChanges, membersIn]
  | cons c cs ih =>
    have hmembers : memberChanges r (membersIn (c :: cs)) =
        memberChanges r (membersIn [c]) ++ memberChanges r (membersIn cs) := by
      rw [memberChanges, membersIn, List.flatMap_cons, List.filterMap_append, membersIn,
        List.flatMap_singleton]
      rfl
    rw [reportEach, changesOf_eq, ih, hmembers, List.filterMap_cons, List.flatMap_cons]
    cases (classChangeOf r c.2 c.1).1 with
    | none => simp
    | some change => simp

theorem changes_eq (r : Registry) :
    changes r =
      ({ members := memberChanges r.lookedAll (membersIn r.classes.zipIdx)
         classes := r.classes.zipIdx.filterMap fun c => (classChangeOf r.lookedAll c.2 c.1).1 },
        r.classes.zipIdx.flatMap (warningsOf r.lookedAll)) := by
  rw [changes, reportEach_changesOf]
  rfl

theorem mem_membersIn {classes : List ClassDoc} {ref : MemberRef} {m : Member} :
    (ref, m) ∈ membersIn classes.zipIdx ↔
      ∃ c, classes[ref.classAt]? = some c ∧ c.members[ref.memberAt]? = some m := by
  rw [membersIn, List.mem_flatMap]
  constructor
  · rintro ⟨⟨c, i⟩, hc, hm⟩
    obtain ⟨⟨m', k⟩, hm', hsame⟩ := List.mem_map.1 hm
    obtain ⟨rfl, rfl⟩ := Prod.mk.inj hsame
    exact ⟨c, List.mem_zipIdx_iff_getElem?.1 hc, List.mem_zipIdx_iff_getElem?.1 hm'⟩
  · rintro ⟨c, hc, hm⟩
    exact ⟨(c, ref.classAt), List.mem_zipIdx_iff_getElem?.2 hc,
      List.mem_map.2 ⟨(m, ref.memberAt), List.mem_zipIdx_iff_getElem?.2 hm, rfl⟩⟩

/-- No two members have the same place. -/
theorem nodup_membersIn (classes : List ClassDoc) :
    ((membersIn classes.zipIdx).map Prod.fst).Nodup := by
  rw [membersIn, List.map_flatMap]
  refine List.nodup_flatMap.2 ⟨fun c _ => ?_, ?_⟩
  · have hplaces : (c.1.members.zipIdx.map fun m => ((⟨c.2, m.2⟩ : MemberRef), m.1)).map Prod.fst =
        (c.1.members.zipIdx.map Prod.snd).map (MemberRef.mk c.2) := by
      rw [List.map_map, List.map_map]
      rfl
    rw [hplaces, List.zipIdx_map_snd]
    exact List.Nodup.map (fun a b h => (MemberRef.mk.inj h).2) List.nodup_range'
  · have hclasses : (classes.zipIdx.map Prod.snd).Nodup := by
      rw [List.zipIdx_map_snd]
      exact List.nodup_range'
    refine (List.pairwise_map.1 hclasses).imp ?_
    intro c d hne ref hfirst hsecond
    have hplace : ∀ c : ClassDoc × Nat,
        ref ∈ (c.1.members.zipIdx.map fun m => ((⟨c.2, m.2⟩ : MemberRef), m.1)).map Prod.fst →
          ref.classAt = c.2 := by
      intro c h
      obtain ⟨p, hp, rfl⟩ := List.mem_map.1 h
      obtain ⟨m, -, rfl⟩ := List.mem_map.1 hp
      rfl
    exact hne ((hplace c hfirst).symm.trans (hplace d hsecond))

theorem classes_applyMember (r : Registry) (change : MemberRef × MemberChange) :
    (applyMember r change).classes = r.classes.mapIdx fun i c =>
      { c with
        members := c.members.mapIdx fun k m =>
          if (⟨i, k⟩ : MemberRef) = change.1 then change.2.apply m else m } := by
  show r.classes.modify change.1.classAt _ = _
  rw [modify_eq_mapIdx]
  refine List.mapIdx_eq_mapIdx_iff.2 fun i hi => ?_
  by_cases hat : change.1.classAt = i
  · rw [if_pos hat, modify_eq_mapIdx]
    subst hat
    congr 1
    refine List.mapIdx_eq_mapIdx_iff.2 fun k hk => ?_
    by_cases hmember : change.1.memberAt = k
    · subst hmember
      rw [if_pos rfl, if_pos rfl]
    · rw [if_neg hmember, if_neg fun hsame => hmember (congrArg MemberRef.memberAt hsame).symm]
  · rw [if_neg hat]
    have hmembers : (r.classes[i].members.mapIdx fun k m =>
        if (⟨i, k⟩ : MemberRef) = change.1 then change.2.apply m else m) = r.classes[i].members := by
      refine (List.mapIdx_eq_mapIdx_iff.2 fun k hk => ?_).trans (mapIdx_self _)
      rw [if_neg fun hsame => hat (congrArg MemberRef.classAt hsame).symm]
    rw [hmembers]

/-- Making changes one after another changes each member once, in its place. -/
theorem classes_foldl_applyMember {changes : List (MemberRef × MemberChange)}
    (h : (changes.map Prod.fst).Nodup) (r : Registry) :
    (changes.foldl applyMember r).classes = r.classes.mapIdx fun i c =>
      { c with members := c.members.mapIdx fun k m => changed m (changes.lookup ⟨i, k⟩) } := by
  induction changes generalizing r with
  | nil =>
    have hnone : ∀ c : ClassDoc, ∀ i, (c.members.mapIdx fun k m => changed m
        (([] : List (MemberRef × MemberChange)).lookup ⟨i, k⟩)) = c.members :=
      fun c i => mapIdx_self _
    simp only [hnone]
    exact (mapIdx_self _).symm
  | cons first changes ih =>
    obtain ⟨hfresh, h⟩ := List.nodup_cons.1 h
    rw [List.foldl_cons, ih h, classes_applyMember, List.mapIdx_mapIdx]
    refine List.mapIdx_eq_mapIdx_iff.2 fun i hi => ?_
    dsimp only [Function.comp_apply]
    rw [List.mapIdx_mapIdx]
    congr 1
    refine List.mapIdx_eq_mapIdx_iff.2 fun k hk => ?_
    rw [Function.comp_apply, lookup_cons_if]
    by_cases hplace : (⟨i, k⟩ : MemberRef) = first.1
    · rw [if_pos hplace, if_pos hplace, hplace, lookup_eq_none_of_not_mem hfresh]
      rfl
    · rw [if_neg hplace, if_neg hplace]

theorem find?_foldl_applyMember (changes : List (MemberRef × MemberChange)) (r : Registry) :
    (changes.foldl applyMember r).find? = r.find? := by
  induction changes generalizing r with
  | nil => rfl
  | cons first changes ih => exact ih (applyMember r first)

theorem classes_foldl_applyClass (changes : List ClassChange) (r : Registry) :
    (changes.foldl applyClass r).classes = r.classes.mapIdx fun i c =>
      { c with doc := docAfter r.find? changes i c.doc } := by
  induction changes generalizing r with
  | nil => exact (mapIdx_self _).symm
  | cons first changes ih =>
    have hnames : (applyClass r first).find? = r.find? := by
      unfold applyClass
      split
      · rfl
      · rfl
    have hclasses : (applyClass r first).classes = r.classes.mapIdx fun i c =>
        { c with
          doc :=
            if r.find? first.className == some i then if c.doc.isEmpty then first.doc else c.doc
            else c.doc } := by
      unfold applyClass
      cases r.find? first.className with
      | none =>
        refine (mapIdx_self r.classes).symm.trans (List.mapIdx_eq_mapIdx_iff.2 fun i hi => ?_)
        rw [if_neg (by simp)]
      | some at? =>
        show r.classes.modify at? _ = _
        rw [modify_eq_mapIdx]
        refine List.mapIdx_eq_mapIdx_iff.2 fun i hi => ?_
        by_cases hat : at? = i
        · simp [hat]
        · simp [hat]
    rw [List.foldl_cons, ih, hnames, hclasses, List.mapIdx_mapIdx]
    refine List.mapIdx_eq_mapIdx_iff.2 fun i hi => ?_
    dsimp only [Function.comp_apply]
    rw [docAfter, docAfter, List.filter_cons]
    split
    · rfl
    · rfl

/-- What the pass leaves of the classes.  What becomes of a member is read off the registry as it was
before, so neither the order of the classes nor that of the changes plays a part. -/
theorem classes_inheritDocs (r : Registry) :
    r.inheritDocs.1.classes = r.classes.mapIdx fun i c =>
      { c with
        doc := docAfter r.find? (changes r).1.classes i c.doc
        members := c.members.mapIdx fun k m => outcome r.lookedAll ⟨i, k⟩ m } := by
  have hnodup : ((changes r).1.members.map Prod.fst).Nodup := by
    rw [changes_eq]
    exact (nodup_membersIn r.classes).sublist (keys_filterMap_sublist _ _ _)
  show (((changes r).1.classes.foldl applyClass _).classes).map Registry.refreshClass = _
  rw [classes_foldl_applyClass, classes_foldl_applyMember hnodup, find?_foldl_applyMember,
    List.mapIdx_mapIdx, map_mapIdx]
  refine List.mapIdx_eq_mapIdx_iff.2 fun i hi => ?_
  dsimp only [Function.comp_apply, Registry.refreshClass]
  rw [map_mapIdx]
  congr 1
  refine List.mapIdx_eq_mapIdx_iff.2 fun k hk => ?_
  have hmem : ((⟨i, k⟩ : MemberRef), r.classes[i].members[k]) ∈ membersIn r.classes.zipIdx :=
    mem_membersIn.2 ⟨_, List.getElem?_eq_getElem hi, List.getElem?_eq_getElem hk⟩
  have hchange : (changes r).1.members.lookup ⟨i, k⟩ =
      change? r.lookedAll ⟨i, k⟩ r.classes[i].members[k] := by
    rw [changes_eq]
    exact lookup_filterMap _ (nodup_membersIn r.classes) hmem
  rw [hchange, outcome]

theorem warnings_inheritDocs (r : Registry) :
    r.inheritDocs.2 = r.classes.zipIdx.flatMap (warningsOf r.lookedAll) := by
  show (changes r).2 = _
  rw [changes_eq]

/-- The documentation of a class with its change made, if there is one. -/
def docWith (doc : String) (change? : Option ClassChange) : String :=
  (change?.map fun change => if doc.isEmpty then change.doc else doc).getD doc

/-- Where names lead to classes, a class gets no change but its own. -/
theorem docAfter_changes {r : Registry}
    (h : ∀ (i : Nat) (c : ClassDoc), r.classes[i]? = some c → r.find? c.name = some i) {i : Nat}
    {c : ClassDoc} (hc : r.classes[i]? = some c) :
    docAfter r.find? (changes r).1.classes i c.doc =
      docWith c.doc (classChangeOf r.lookedAll i c).1 := by
  have hname : ∀ (d : ClassDoc) (j : Nat) (change : ClassChange),
      (classChangeOf r.lookedAll j d).1 = some change → change.className = d.name := by
    intro d j change hchange
    unfold classChangeOf at hchange
    split at hchange
    · exact absurd hchange (by simp)
    · dsimp only at hchange
      split at hchange
      · rw [← Option.some.inj hchange]
      · exact absurd hchange (by simp)
  have hown : ((changes r).1.classes.filter fun change => r.find? change.className == some i) =
      (classChangeOf r.lookedAll i c).1.toList := by
    rw [changes_eq, List.filter_filterMap,
      ← filterMap_zipIdx_at hc fun c => (classChangeOf r.lookedAll c.2 c.1).1]
    refine List.filterMap_congr fun d hd => ?_
    have hfind := h d.2 d.1 (List.mem_zipIdx_iff_getElem?.1 hd)
    cases hchange : (classChangeOf r.lookedAll d.2 d.1).1 with
    | none => simp
    | some change =>
      rw [Option.filter_some, hname d.1 d.2 change hchange, hfind]
      by_cases hi : d.2 = i
      · simp [hi]
      · simp [hi]
  rw [docAfter, hown]
  cases (classChangeOf r.lookedAll i c).1 with
  | none => rfl
  | some change => rfl

end InheritedDocs
end ApiDoc
