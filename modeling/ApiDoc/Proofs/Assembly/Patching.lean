/-
What classes become that absorb overrides.

Overrides are applied one after the other to classes that grow in between.  Still each class depends on
its own overrides alone, in their order: the members that it had stay where they are and only get more
documentation and places, and behind them stand the members of the overrides with ids that were not there
yet (`absorb_patched`).
-/
import ApiDoc.Proofs.Assembly.Absorption
import Mathlib.Data.List.Induction

namespace ApiDoc

theorem prefix_addParagraph (doc paragraph : String) :
    doc.toList <+: (addParagraph doc paragraph).toList := by
  unfold addParagraph
  split
  · next h =>
    rw [String.isEmpty_iff.1 h]
    exact List.nil_prefix
  · rw [String.toList_append, String.toList_append, List.append_assoc]
    exact List.prefix_append _ _

theorem suffix_addParagraph (doc paragraph : String) :
    paragraph.toList <:+ (addParagraph doc paragraph).toList := by
  unfold addParagraph
  split
  · exact List.suffix_rfl
  · rw [String.toList_append]
    exact List.suffix_append _ _

theorem Override.suffix_noteOn (source : String) {doc : String} (h : doc ≠ "") :
    doc.toList <:+ (noteOn source doc).toList := by
  have hdoc : ¬ doc.isEmpty = true := fun hempty => h (String.isEmpty_iff.1 hempty)
  have hquote : (noteOn source doc).toList =
      ("**From override " ++ source ++ ":** ").toList ++ doc.toList := by
    rw [noteOn, if_neg hdoc]
    exact String.toList_append
  rw [hquote]
  exact List.suffix_append _ _

namespace Member

/-- The member was given more documentation and more places, and is otherwise as it was. -/
structure Extends (m done : Member) : Prop where
  frame : done = { m with doc := done.doc, files := done.files }
  doc : m.doc.toList <+: done.doc.toList
  files : m.files <+: done.files

theorem Extends.refl (m : Member) : m.Extends m := ⟨rfl, List.prefix_rfl, List.prefix_rfl⟩

theorem Extends.trans {m m' done : Member} (h : m.Extends m') (h' : m'.Extends done) :
    m.Extends done := by
  refine ⟨?_, h.doc.trans h'.doc, h.files.trans h'.files⟩
  rw [h'.frame, h.frame]

theorem Extends.id {m done : Member} (h : m.Extends done) : done.id = m.id := by rw [h.frame]

theorem extends_patchMember (source : String) (m patch : Member) :
    m.Extends (Override.patchMember source m patch) :=
  ⟨rfl, prefix_addParagraph _ _, List.prefix_append _ _⟩

theorem extends_newMember (source owner : String) (m : Member) :
    ({ m with owner } : Member).Extends (Override.newMember source owner m) :=
  ⟨rfl, prefix_addParagraph _ _, List.prefix_rfl⟩

/-- The members are the same ones in the same order, each given more or as it was. -/
def AllExtend (ms done : List Member) : Prop := List.Forall₂ Extends ms done

theorem AllExtend.refl (ms : List Member) : AllExtend ms ms :=
  List.forall₂_same.2 fun m _ => .refl m

theorem AllExtend.trans {ms ms' done : List Member} (h : AllExtend ms ms') (h' : AllExtend ms' done) :
    AllExtend ms done := by
  induction h generalizing done with
  | nil => exact h'
  | cons hm _ ih =>
    obtain ⟨_, rest, hm', hrest, rfl⟩ := List.forall₂_cons_left_iff.1 h'
    exact List.Forall₂.cons (hm.trans hm') (ih hrest)

theorem AllExtend.append {ms ms' done done' : List Member} (h : AllExtend ms done)
    (h' : AllExtend ms' done') : AllExtend (ms ++ ms') (done ++ done') :=
  List.rel_append h h'

theorem AllExtend.ids {ms done : List Member} (h : AllExtend ms done) :
    done.map Member.id = ms.map Member.id := by
  induction h with
  | nil => rfl
  | cons hm _ ih => rw [List.map_cons, List.map_cons, ih, hm.id]

theorem AllExtend.find? {ms done : List Member} (h : AllExtend ms done) {id : String} {m : Member}
    (hm : ms.find? (fun m => m.id == id) = some m) :
    ∃ m', done.find? (fun m => m.id == id) = some m' ∧ m.Extends m' := by
  induction h with
  | nil => exact absurd hm (by simp)
  | @cons first first' rest rest' hfirst _ ih =>
    rw [List.find?_cons] at hm ⊢
    rw [hfirst.id]
    cases hid : first.id == id with
    | true =>
      rw [hid] at hm
      exact ⟨first', rfl, Option.some.inj hm ▸ hfirst⟩
    | false =>
      rw [hid] at hm
      exact ih hm

theorem allExtend_modify {f : Member → Member} (hf : ∀ m : Member, m.Extends (f m))
    (ms : List Member) (i : Nat) : AllExtend ms (ms.modify i f) := by
  induction ms generalizing i with
  | nil =>
    rw [List.modify_nil]
    exact List.Forall₂.nil
  | cons m ms ih =>
    cases i with
    | zero => exact List.Forall₂.cons (hf m) (AllExtend.refl ms)
    | succ i => exact List.Forall₂.cons (.refl m) (ih i)

end Member

namespace Override
open Member

/-- The members whose ids are not there yet.  The first member with an id brings it in. -/
def newcomers (ids : List String) : List Member → List Member
  | [] => []
  | m :: ms => if ids.contains m.id then newcomers ids ms else m :: newcomers (ids ++ [m.id]) ms

theorem newcomers_append (ids : List String) (ms more : List Member) :
    newcomers ids (ms ++ more) =
      newcomers ids ms ++ newcomers (appendNew ids (ms.map Member.id)) more := by
  induction ms generalizing ids with
  | nil => rfl
  | cons m ms ih =>
    rw [List.cons_append, newcomers, newcomers, List.map_cons, appendNew_cons]
    split
    · exact ih ids
    · rw [ih, List.cons_append]

theorem ids_newcomers (ids : List String) (ms : List Member) :
    ids ++ (newcomers ids ms).map Member.id = appendNew ids (ms.map Member.id) := by
  induction ms generalizing ids with
  | nil => simp [newcomers]
  | cons m ms ih =>
    rw [newcomers, List.map_cons, appendNew_cons]
    split
    · exact ih ids
    · rw [← ih, List.map_cons, List.append_assoc, List.singleton_append]

/-- The members that a class has when it took others in: its own, and the newcomers as its own. -/
def withNewcomers (c : ClassDoc) (ms : List Member) : List Member :=
  c.members ++ (newcomers (c.members.map Member.id) ms).map fun m => { m with owner := c.name }

theorem ids_withNewcomers (c : ClassDoc) (ms : List Member) :
    (withNewcomers c ms).map Member.id = appendNew (c.members.map Member.id) (ms.map Member.id) := by
  rw [withNewcomers, List.map_append, List.map_map, ← ids_newcomers]
  rfl

theorem withNewcomers_concat (c : ClassDoc) (ms : List Member) (m : Member) :
    withNewcomers c (ms ++ [m]) =
      if ((withNewcomers c ms).map Member.id).contains m.id then withNewcomers c ms
      else withNewcomers c ms ++ [{ m with owner := c.name }] := by
  rw [ids_withNewcomers, withNewcomers, newcomers_append, newcomers]
  split
  · rw [newcomers, List.append_nil]
    rfl
  · rw [newcomers, List.map_append, ← List.append_assoc]
    rfl

/-- What taking members in leaves of a class.  What they say is found where their ids are. -/
structure TakesIn (c : ClassDoc) (ms : List Member) (done : ClassDoc) : Prop where
  name : done.name = c.name
  members : AllExtend (withNewcomers c ms) done.members
  told : ∀ m ∈ ms, m.doc ≠ "" →
    ∃ t, done.memberById? m.id = some t ∧ m.doc.toList <:+: t.doc.toList

theorem addMember_of_some {source : String} {c : ClassDoc} {m : Member} {i : Nat}
    (h : (c.members.findIdx? fun old => old.id == m.id) = some i) :
    addMember source c m =
      { c with members := c.members.modify i fun old => patchMember source old m } := by
  rw [addMember, h]

theorem addMember_of_none {source : String} {c : ClassDoc} {m : Member}
    (h : (c.members.findIdx? fun old => old.id == m.id) = none) :
    addMember source c m = c.addMembers [newMember source c.name m] := by
  rw [addMember, h]

/-- A member is put on record where the first member with its id stands afterwards. -/
theorem told_addMember (source : String) (c : ClassDoc) {m : Member} (hdoc : m.doc ≠ "") :
    ∃ t, (addMember source c m).memberById? m.id = some t ∧ m.doc.toList <:+: t.doc.toList := by
  cases hi : c.members.findIdx? fun old => old.id == m.id with
  | some i =>
    have hfound : ∀ (ms : List Member) (i : Nat), (ms.findIdx? fun old => old.id == m.id) = some i →
        ∃ old, (ms.modify i fun old => patchMember source old m).find? (fun t => t.id == m.id) =
          some (patchMember source old m) := by
      intro ms
      induction ms with
      | nil => exact fun i h => absurd h (by simp)
      | cons first ms ih =>
        intro i h
        rw [List.findIdx?_cons] at h
        split at h
        · next hid =>
          obtain rfl := Option.some.inj h
          exact ⟨first, List.find?_cons_of_pos (p := fun t : Member => t.id == m.id) hid⟩
        · next hid =>
          obtain ⟨k, hk, rfl⟩ := Option.map_eq_some_iff.1 h
          obtain ⟨old, hold⟩ := ih k hk
          refine ⟨old, ?_⟩
          rw [List.modify_succ_cons]
          exact (List.find?_cons_of_neg (p := fun t : Member => t.id == m.id) hid).trans hold
    obtain ⟨old, hold⟩ := hfound c.members i hi
    rw [addMember_of_some hi]
    refine ⟨_, hold, ?_⟩
    exact (suffix_noteOn source hdoc).isInfix.trans (suffix_addParagraph _ _).isInfix
  | none =>
    rw [addMember_of_none hi]
    refine ⟨newMember source c.name m, ?_, (prefix_addParagraph _ _).isInfix⟩
    have hfresh : c.members.find? (fun t => t.id == m.id) = none := by
      rw [List.find?_eq_none]
      intro t ht
      rw [List.findIdx?_eq_none_iff.1 hi t ht]
      exact Bool.false_ne_true
    rw [ClassDoc.memberById?, ClassDoc.addMembers, List.find?_append, hfresh, Option.none_or]
    exact List.find?_cons_of_pos (beq_self_eq_true m.id)

/-- A member either finds its id among the members, or is added to them. -/
theorem allExtend_addMember (source : String) (c : ClassDoc) (m : Member) :
    AllExtend
      (if (c.members.map Member.id).contains m.id then c.members
        else c.members ++ [{ m with owner := c.name }])
      (addMember source c m).members := by
  cases hi : c.members.findIdx? fun old => old.id == m.id with
  | some i =>
    obtain ⟨hlt, hid, -⟩ := List.findIdx?_eq_some_iff_getElem.1 hi
    have hmem : m.id ∈ c.members.map Member.id :=
      List.mem_map.2 ⟨c.members[i], List.getElem_mem hlt, eq_of_beq hid⟩
    rw [addMember_of_some hi, if_pos (List.contains_iff_mem.2 hmem)]
    exact allExtend_modify (fun old => old.extends_patchMember source m) c.members i
  | none =>
    have hmem : m.id ∉ c.members.map Member.id := by
      intro hmem
      obtain ⟨old, hold, hid⟩ := List.mem_map.1 hmem
      have hne := List.findIdx?_eq_none_iff.1 hi old hold
      rw [hid, beq_self_eq_true] at hne
      exact Bool.false_ne_true hne.symm
    rw [addMember_of_none hi, if_neg fun h => hmem (List.contains_iff_mem.1 h)]
    exact (AllExtend.refl c.members).append
      (List.Forall₂.cons (m.extends_newMember source c.name) List.Forall₂.nil)

theorem TakesIn.add {c done : ClassDoc} {ms : List Member} (h : TakesIn c ms done) (source : String)
    (m : Member) : TakesIn c (ms ++ [m]) (addMember source done m) := by
  have hstep := allExtend_addMember source done m
  rw [h.members.ids, h.name] at hstep
  refine ⟨(name_addMember source done m).trans h.name, ?_, fun told htold hdoc => ?_⟩
  · rw [withNewcomers_concat]
    split
    · next hold =>
      rw [if_pos hold] at hstep
      exact h.members.trans hstep
    · next hnew =>
      rw [if_neg hnew] at hstep
      exact AllExtend.trans (h.members.append (.refl _)) hstep
  · rcases List.mem_append.1 htold with hold | hlast
    · obtain ⟨t, ht, hinfix⟩ := h.told told hold hdoc
      have hfind : (if ((withNewcomers c ms).map Member.id).contains m.id then done.members
          else done.members ++ [{ m with owner := c.name }]).find? (fun t => t.id == told.id) =
            some t := by
        split
        · exact ht
        · rw [List.find?_append, show done.members.find? _ = some t from ht, Option.some_or]
      obtain ⟨t', ht', hextends⟩ := hstep.find? hfind
      exact ⟨t', ht', hinfix.trans hextends.doc.isInfix⟩
    · rw [List.mem_singleton.1 hlast] at hdoc ⊢
      exact told_addMember source done hdoc

theorem TakesIn.addAll {c done : ClassDoc} {ms : List Member} (h : TakesIn c ms done) (source : String)
    (more : List Member) : TakesIn c (ms ++ more) (more.foldl (addMember source) done) := by
  induction more generalizing ms done with
  | nil =>
    rw [List.append_nil]
    exact h
  | cons m more ih =>
    have hrest := ih (h.add source m)
    rw [List.append_assoc, List.singleton_append] at hrest
    exact hrest

/-- What absorbing overrides leaves of a class.  It is the class with other documentation, files and
members.  It took in the members of the overrides, override by override. -/
structure Patched (c : ClassDoc) (patches : List ClassDoc) (done : ClassDoc) : Prop
    extends TakesIn c (patches.flatMap ClassDoc.members) done where
  frame : done = { c with doc := done.doc, files := done.files, members := done.members }
  files : done.files = c.files ++ patches.flatMap ClassDoc.files
  doc : c.doc.toList <+: done.doc.toList
  nodup : (c.members.map Member.id).Nodup → (done.members.map Member.id).Nodup
  untouched : patches = [] → done = c

theorem TakesIn.nodup {c done : ClassDoc} {ms : List Member} (h : TakesIn c ms done)
    (hc : (c.members.map Member.id).Nodup) : (done.members.map Member.id).Nodup := by
  rw [h.members.ids, ids_withNewcomers]
  exact nodup_appendNew hc

theorem prefix_doc_apply (c patch : ClassDoc) : c.doc.toList <+: (apply c patch).doc.toList := by
  obtain ⟨members, hall⟩ := foldl_addMember_frame patch.name patch.members c
  rw [apply, hall]
  dsimp only
  split
  · exact List.prefix_rfl
  · exact prefix_addParagraph _ _

theorem apply_frame (c patch : ClassDoc) : apply c patch =
    { c with
      doc := (apply c patch).doc
      files := (apply c patch).files
      members := (apply c patch).members } := by
  obtain ⟨members, hall⟩ := foldl_addMember_frame patch.name patch.members c
  rw [apply, hall]

theorem Patched.refl (c : ClassDoc) : Patched c [] c where
  name := rfl
  members := by
    rw [withNewcomers, List.flatMap_nil, newcomers, List.map_nil, List.append_nil]
    exact .refl c.members
  told := fun _ hm => absurd hm List.not_mem_nil
  frame := rfl
  files := (List.append_nil c.files).symm
  doc := List.prefix_rfl
  nodup := id
  untouched := fun _ => rfl

theorem Patched.apply {c done : ClassDoc} {patches : List ClassDoc} (h : Patched c patches done)
    (patch : ClassDoc) : Patched c (patches ++ [patch]) (apply done patch) := by
  have hall := h.toTakesIn.addAll patch.name patch.members
  have hmembers : (patches ++ [patch]).flatMap ClassDoc.members =
      patches.flatMap ClassDoc.members ++ patch.members := by
    rw [List.flatMap_append, List.flatMap_singleton]
  have htakes : TakesIn c ((patches ++ [patch]).flatMap ClassDoc.members)
      (Override.apply done patch) := by
    rw [hmembers]
    exact ⟨hall.name, hall.members, hall.told⟩
  refine { htakes with
    frame := ?_
    files := ?_
    doc := h.doc.trans (prefix_doc_apply done patch)
    nodup := htakes.nodup
    untouched := fun hnone => absurd hnone (List.append_ne_nil_of_right_ne_nil _ (List.cons_ne_nil _ _)) }
  · have hframe := apply_frame done patch
    rw [h.frame] at hframe ⊢
    exact hframe
  · rw [files_apply, h.files, List.append_assoc, List.flatMap_append, List.flatMap_singleton]

theorem patched_foldl (c : ClassDoc) (patches : List ClassDoc) :
    Patched c patches (patches.foldl Override.apply c) := by
  induction patches using List.reverseRecOn with
  | nil => exact .refl c
  | append_singleton patches patch ih =>
    rw [List.foldl_concat]
    exact ih.apply patch

/-- The overrides that go to the class at `i`: the first one that answers to their target. -/
def patchesOf (plain patches : List ClassDoc) (i : Nat) : List ClassDoc :=
  patches.filter fun p => (plain.findIdx? fun c => c.answersTo (p.overrideOf.getD "")) == some i

theorem patchesOf_applyTo (plain : List ClassDoc) (patch : ClassDoc) (patches : List ClassDoc) (i : Nat) :
    patchesOf (applyTo plain patch).1 patches i = patchesOf plain patches i := by
  unfold patchesOf
  congr 1
  funext p
  rw [findIdx?_applyTo]

theorem getElem?_applyTo (plain : List ClassDoc) (patch : ClassDoc) (i : Nat) :
    (applyTo plain patch).1[i]? =
      plain[i]?.map fun c => (patchesOf plain [patch] i).foldl Override.apply c := by
  have hone : patchesOf plain [patch] i =
      if (plain.findIdx? fun c => c.answersTo (patch.overrideOf.getD "")) = some i then [patch]
      else [] := by
    rw [patchesOf, List.filter_cons, List.filter_nil]
    simp only [beq_iff_eq]
  rcases applyTo_cases plain patch with ⟨k, hk, hmodified⟩ | ⟨hnone, hsame⟩
  · rw [hmodified, List.getElem?_modify, hone, hk, Option.map_eq_map]
    congr 1
    funext c
    by_cases hki : k = i
    · rw [if_pos hki, if_pos (congrArg some hki)]
      rfl
    · rw [if_neg hki, if_neg fun h => hki (Option.some.inj h)]
      rfl
  · rw [hsame, hone, hnone, if_neg (Option.some_ne_none i).symm]
    exact Option.map_id'.symm

/-- Every class absorbs its own overrides one after the other, whatever becomes of the other classes. -/
theorem getElem?_applyAll (plain patches : List ClassDoc) (i : Nat) :
    (applyAll plain patches)[i]? =
      plain[i]?.map fun c => (patchesOf plain patches i).foldl Override.apply c := by
  induction patches generalizing plain with
  | nil => exact Option.map_id'.symm
  | cons patch patches ih =>
    have hsplit : patchesOf plain (patch :: patches) i =
        patchesOf plain [patch] i ++ patchesOf plain patches i := by
      rw [patchesOf, show patch :: patches = [patch] ++ patches from rfl, List.filter_append]
      rfl
    refine (ih (applyTo plain patch).1).trans ?_
    rw [getElem?_applyTo, patchesOf_applyTo, Option.map_map, hsplit]
    congr 1
    funext c
    exact List.foldl_append.symm

/-- No class answers to the target of the override. -/
def unmet (plain : List ClassDoc) (patch : ClassDoc) : Bool :=
  !plain.any fun c => c.answersTo (patch.overrideOf.getD "")

def targetMissing (patch : ClassDoc) : Warning where
  kind := .overrideTarget
  message := "Class " ++ patch.overrideOf.getD "" ++ " not found for override " ++ patch.name
  file := patch.files.head?

theorem findIdx?_eq_none_iff_unmet (plain : List ClassDoc) (patch : ClassDoc) :
    (plain.findIdx? fun c => c.answersTo (patch.overrideOf.getD "")) = none ↔ unmet plain patch = true := by
  rw [unmet, List.not_any_eq_all_not, List.all_eq_true, List.findIdx?_eq_none_iff]
  simp only [Bool.not_eq_true']

theorem unmet_applyTo (plain : List ClassDoc) (patch : ClassDoc) :
    unmet (applyTo plain patch).1 = unmet plain := by
  funext p
  rw [Bool.eq_iff_iff, ← findIdx?_eq_none_iff_unmet, ← findIdx?_eq_none_iff_unmet, findIdx?_applyTo]

theorem warnings_applyTo (plain : List ClassDoc) (patch : ClassDoc) :
    (applyTo plain patch).2 = if unmet plain patch then [targetMissing patch] else [] := by
  unfold applyTo
  dsimp only
  split
  · next i hi =>
    rw [if_neg]
    intro hunmet
    rw [(findIdx?_eq_none_iff_unmet plain patch).2 hunmet] at hi
    exact absurd hi (Option.some_ne_none i).symm
  · next hnone =>
    rw [if_pos ((findIdx?_eq_none_iff_unmet plain patch).1 hnone)]
    rfl

/-- Absorbing warns of the overrides without a class, in their order. -/
theorem warnings_applyAll (plain patches : List ClassDoc) :
    (reportEach applyTo plain patches).2 = (patches.filter (unmet plain)).map targetMissing := by
  induction patches generalizing plain with
  | nil => rfl
  | cons patch patches ih =>
    rw [reportEach, ih, unmet_applyTo, warnings_applyTo, List.filter_cons]
    split
    · rfl
    · rfl

/-- What becomes of classes when the overrides among them are absorbed.  The others stay in their order,
and each takes in the overrides that are meant for it.  The names of all overrides are answered, and those
without a class are warned of, as far as the rules allow. -/
theorem absorb_patched (classes : List ClassDoc) (ws : Warnings) :
    let plain := classes.filter fun c => c.overrideOf.isNone
    let patches := classes.filter fun c => c.overrideOf.isSome
    let done := absorb classes
    done.1.1.length = plain.length ∧
    (∀ (i : Nat) (c : ClassDoc), plain[i]? = some c →
      ∃ d, done.1.1[i]? = some d ∧ Patched c (patchesOf plain patches i) d) ∧
    done.1.2 = patches.map ClassDoc.name ∧
    (ws.addAll done.2).collected = ws.collected ++
      ((patches.filter (unmet plain)).map targetMissing).filter fun w =>
        Warnings.isOn ws.rules .overrideTarget (Warnings.filenameOf w) := by
  intro plain patches done
  have hget : ∀ i, done.1.1[i]? =
      plain[i]?.map fun c => (patchesOf plain patches i).foldl Override.apply c :=
    getElem?_applyAll plain patches
  refine ⟨?_, fun i c hc => ⟨_, (hget i).trans (congrArg _ hc), patched_foldl c _⟩, rfl, ?_⟩
  · have hmap := congrArg List.length (map_absorb (g := fun _ => ()) (fun _ _ => rfl) classes)
    rwa [List.length_map, List.length_map] at hmap
  · have hdone : done.2 = (patches.filter (unmet plain)).map targetMissing :=
      warnings_applyAll plain patches
    rw [Warnings.collected_addAll, hdone, List.filter_map, List.filter_map]
    rfl

end Override
end ApiDoc
