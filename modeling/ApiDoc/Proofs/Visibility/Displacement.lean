/-
Which members displace which others.

A class first takes over what its parent hands on, then what its mixins do, and then adds its own
members.  A member that arrives while another one holds its id displaces it.  Look-ups note this
when they make indices, which they do in the order in which classes are asked for.  Still, once all
classes are indexed the notes are the displacements of all classes, each noted once, whatever was asked
before (`overridesOf_eq_displaced`).
-/
import ApiDoc.Proofs.Registry.Session
import ApiDoc.Proofs.Visibility.Lookup

namespace ApiDoc

/-- The member that came last under an id holds it. -/
def holder? (arrived : List (String × MemberRef)) (id : String) : Option MemberRef :=
  arrived.reverse.lookup id

/-- Members arrive after others, and one of them, `winner`, comes while `loser` holds its id. -/
def Displaces (arrived arriving : List (String × MemberRef)) (winner loser : MemberRef) : Prop :=
  winner ≠ loser ∧ ∃ before id after, arriving = before ++ (id, winner) :: after ∧
    holder? (arrived ++ before) id = some loser

variable {arrived arriving : List (String × MemberRef)} {w x : MemberRef}

theorem holder?_concat (arrived : List (String × MemberRef)) (p : String × MemberRef) (id : String) :
    holder? (arrived ++ [p]) id = if id = p.1 then some p.2 else holder? arrived id := by
  rw [holder?, List.reverse_append, List.reverse_singleton, List.singleton_append, lookup_cons_if]
  rfl

theorem mem_of_holder? {id : String} (h : holder? arrived id = some x) : (id, x) ∈ arrived := by
  obtain ⟨before, after, hsplit, -⟩ := List.lookup_eq_some_iff.1 h
  rw [← List.mem_reverse, hsplit]
  exact List.mem_append_right _ List.mem_cons_self

theorem not_displaces_nil : ¬ Displaces arrived [] w x := by
  rintro ⟨-, before, id, after, hsplit, -⟩
  exact List.append_ne_nil_of_right_ne_nil before (List.cons_ne_nil _ _) hsplit.symm

theorem displaces_cons {p : String × MemberRef} :
    Displaces arrived (p :: arriving) w x ↔
      (w ≠ x ∧ w = p.2 ∧ holder? arrived p.1 = some x) ∨
        Displaces (arrived ++ [p]) arriving w x := by
  constructor
  · rintro ⟨hne, before, id, after, hsplit, hheld⟩
    cases before with
    | nil =>
      obtain ⟨rfl, -⟩ := List.cons.inj hsplit
      rw [List.append_nil] at hheld
      exact Or.inl ⟨hne, rfl, hheld⟩
    | cons q before =>
      obtain ⟨rfl, hrest⟩ := List.cons.inj hsplit
      rw [List.append_cons] at hheld
      exact Or.inr ⟨hne, before, id, after, hrest, hheld⟩
  · rintro (⟨hne, rfl, hheld⟩ | ⟨hne, before, id, after, rfl, hheld⟩)
    · refine ⟨hne, [], p.1, arriving, rfl, ?_⟩
      rw [List.append_nil]
      exact hheld
    · rw [← List.append_cons] at hheld
      exact ⟨hne, p :: before, id, after, rfl, hheld⟩

theorem displaces_append {later : List (String × MemberRef)} :
    Displaces arrived (arriving ++ later) w x ↔
      Displaces arrived arriving w x ∨ Displaces (arrived ++ arriving) later w x := by
  induction arriving generalizing arrived with
  | nil =>
    rw [List.append_nil]
    exact (or_iff_right not_displaces_nil).symm
  | cons p arriving ih =>
    rw [List.cons_append, displaces_cons, ih, displaces_cons, or_assoc, ← List.append_cons]

/-- Where all ids are different, nothing is displaced. -/
theorem not_displaces_of_nodup (h : (arriving.map Prod.fst).Nodup) :
    ¬ Displaces [] arriving w x := by
  rintro ⟨-, before, id, after, rfl, hheld⟩
  rw [List.map_append, List.map_cons] at h
  have hid := List.mem_map_of_mem (f := Prod.fst) (mem_of_holder? hheld)
  exact (List.nodup_append.1 h).2.2 id hid id List.mem_cons_self rfl

theorem Displaces.mem (h : Displaces [] arriving w x) :
    ∃ id, (id, w) ∈ arriving ∧ (id, x) ∈ arriving := by
  obtain ⟨-, before, id, after, rfl, hheld⟩ := h
  exact ⟨id, List.mem_append_right _ List.mem_cons_self,
    List.mem_append_left _ (mem_of_holder? hheld)⟩

theorem map_some_filterMap {α β : Type} {f : α → Option β} {xs : List α}
    (h : ∀ x ∈ xs, (f x).isSome) : (xs.filterMap f).map some = xs.map f := by
  induction xs with
  | nil => rfl
  | cons y xs ih =>
    obtain ⟨b, hb⟩ := Option.isSome_iff_exists.1 (h y List.mem_cons_self)
    rw [List.filterMap_cons_some hb, List.map_cons, List.map_cons, hb,
      ih fun z hz => h z (List.mem_cons_of_mem y hz)]

namespace MemberMap

def refs (m : List (String × Indexed)) : List (String × MemberRef) :=
  m.map fun p => (p.1, p.2.ref)

/-- The map shows for each id the member that holds it. -/
def Shows (m : MemberMap) (arrived : List (String × MemberRef)) : Prop :=
  ∀ id, (m.get? id).map Indexed.ref = holder? arrived id

theorem Shows.put {m : MemberMap} (h : m.Shows arrived) (p : String × Indexed) :
    (m.put p.1 p.2).Shows (arrived ++ [(p.1, p.2.ref)]) := by
  intro id
  rw [get?_put, holder?_concat, ← h id]
  split
  · rfl
  · rfl

theorem shows_refs {m : MemberMap} (h : m.ids.Nodup) : m.Shows (refs m) := by
  intro id
  have hrefs : ((refs m).map Prod.fst).Nodup := by
    rw [refs, List.map_map]
    exact h
  rw [holder?, lookup_reverse hrefs, get?]
  clear h hrefs
  induction m with
  | nil => rfl
  | cons p m ih =>
    rw [refs, List.map_cons, lookup_cons_if, lookup_cons_if]
    split
    · rfl
    · exact ih

end MemberMap

namespace Lookups

/-- There is an index for the class at a place. -/
def Has (l : Lookups) (i : Nat) : Prop := (l.indices.lookup i).isSome

/-- What is noted is what `D` says, each pair once. -/
structure Notes (l : Lookups) (D : MemberRef → MemberRef → Prop) : Prop where
  nodup : ∀ w, (l.displacedBy w).Nodup
  mem_iff : ∀ w x, x ∈ l.displacedBy w ↔ D w x

theorem Notes.congr {l : Lookups} {D D' : MemberRef → MemberRef → Prop} (h : l.Notes D)
    (hD : ∀ w x, D w x ↔ D' w x) : l.Notes D' :=
  ⟨h.nodup, fun w x => (h.mem_iff w x).trans (hD w x)⟩

theorem displacedBy_note (l : Lookups) (winner loser w : MemberRef) :
    (l.note winner loser).displacedBy w =
      if w = winner then
        if loser ∈ l.displacedBy w then l.displacedBy w else l.displacedBy w ++ [loser]
      else l.displacedBy w := by
  obtain ⟨indices, displaced⟩ := l
  unfold note displacedBy
  induction displaced with
  | nil =>
    show (([(winner, [loser])].lookup w).getD []) = _
    rw [lookup_cons_if]
    by_cases hw : w = winner
    · simp [hw]
    · simp [hw]
  | cons p rest ih =>
    obtain ⟨key, losers⟩ := p
    dsimp only at ih ⊢
    rw [noteIn]
    by_cases hk : key = winner
    · subst hk
      rw [if_pos (beq_self_eq_true key), lookup_cons_if, lookup_cons_if]
      by_cases hw : w = key
      · simp only [hw, if_true, Option.getD_some, List.contains_iff_mem]
      · simp only [hw, if_false]
    · rw [if_neg (ne_true_of_eq_false (beq_false_of_ne hk)), lookup_cons_if, lookup_cons_if]
      by_cases hw : w = key
      · have hne : w ≠ winner := hw ▸ hk
        simp only [hw, if_true, if_neg (hw ▸ hne)]
      · simp only [hw, if_false]
        exact ih

theorem Notes.note {l : Lookups} {D : MemberRef → MemberRef → Prop} (h : l.Notes D)
    (winner loser : MemberRef) :
    (l.note winner loser).Notes fun w x => D w x ∨ w = winner ∧ x = loser := by
  refine ⟨fun w => ?_, fun w x => ?_⟩
  · rw [displacedBy_note]
    split
    · split
      · exact h.nodup w
      · next hnew =>
        refine List.nodup_append.2 ⟨h.nodup w, List.pairwise_singleton _ loser, ?_⟩
        rintro y hy z hz rfl
        exact hnew (List.mem_singleton.1 hz ▸ hy)
    · exact h.nodup w
  · rw [displacedBy_note, ← h.mem_iff]
    by_cases hw : w = winner
    · rw [if_pos hw]
      by_cases hold : loser ∈ l.displacedBy w
      · rw [if_pos hold]
        exact ⟨Or.inl, fun hx => hx.elim id fun hx => hx.2 ▸ hold⟩
      · rw [if_neg hold, List.mem_append, List.mem_singleton]
        exact or_congr_right (and_iff_right hw).symm
    · rw [if_neg hw]
      exact (or_iff_left fun hx => hw hx.1).symm

/-- Placing a member notes which other one it displaces. -/
theorem Notes.place {m : MemberMap} {l : Lookups} {D : MemberRef → MemberRef → Prop}
    (h : l.Notes D) (hm : m.Shows arrived) (p : String × Indexed) :
    (Lookups.place (m, l) p).2.Notes fun w x =>
      D w x ∨ w ≠ x ∧ w = p.2.ref ∧ holder? arrived p.1 = some x := by
  have hheld := hm p.1
  unfold Lookups.place
  dsimp only
  cases hget : m.get? p.1 with
  | none =>
    rw [hget] at hheld
    refine h.congr fun w x => (or_iff_left ?_).symm
    rintro ⟨-, -, hx⟩
    exact absurd (hheld.trans hx) (by simp)
  | some loser =>
    rw [hget] at hheld
    have hholds : ∀ x, holder? arrived p.1 = some x ↔ x = loser.ref := by
      intro x
      rw [← hheld]
      exact ⟨fun hx => (Option.some.inj hx).symm, fun hx => congrArg some hx.symm⟩
    dsimp only
    by_cases hsame : loser.ref = p.2.ref
    · rw [if_pos (beq_iff_eq.2 hsame)]
      refine h.congr fun w x => (or_iff_left ?_).symm
      rintro ⟨hne, hw, hx⟩
      exact hne (hw.trans (hsame.symm.trans ((hholds x).1 hx).symm))
    · rw [if_neg (ne_true_of_eq_false (beq_false_of_ne hsame))]
      refine (h.note p.2.ref loser.ref).congr fun w x => or_congr_right ?_
      rw [hholds]
      constructor
      · rintro ⟨rfl, rfl⟩
        exact ⟨Ne.symm hsame, rfl, rfl⟩
      · exact fun hx => hx.2

theorem Notes.foldl_place {m : MemberMap} {l : Lookups} {D : MemberRef → MemberRef → Prop}
    (h : l.Notes D) (hm : m.Shows arrived) (ps : List (String × Indexed)) :
    (ps.foldl Lookups.place (m, l)).1.Shows (arrived ++ MemberMap.refs ps) ∧
      (ps.foldl Lookups.place (m, l)).2.Notes fun w x =>
        D w x ∨ Displaces arrived (MemberMap.refs ps) w x := by
  induction ps generalizing m l D arrived with
  | nil =>
    refine ⟨?_, h.congr fun w x => (or_iff_left not_displaces_nil).symm⟩
    rw [MemberMap.refs, List.map_nil, List.append_nil]
    exact hm
  | cons p ps ih =>
    obtain ⟨hshows, hnotes⟩ := ih (h.place hm p) (hm.put p)
    refine ⟨?_, hnotes.congr fun w x => ?_⟩
    · rw [MemberMap.refs, List.map_cons, List.append_cons]
      exact hshows
    · rw [or_assoc]
      exact or_congr_right (displaces_cons (p := (p.1, p.2.ref))).symm

end Lookups

namespace Registry

/-- What a class hands on, in the order of the ids. -/
def handedRefs (r : Registry) (h : r.Sound) (i : Nat) : List (String × MemberRef) :=
  (r.visibleIds h i).filterMap fun id => (r.handed? h id i).map fun ref => (id, ref)

def ownRefs (r : Registry) (i : Nat) : List (String × MemberRef) :=
  (r.membersOf i).zipIdx.map fun m => (m.1.id, ⟨i, m.2⟩)

/-- The members that arrive in a class: those that the parent hands on, then those that each mixin
hands on, then its own ones. -/
def arrivals (r : Registry) (h : r.Sound) (i : Nat) : List (String × MemberRef) :=
  (r.links.parentOf? i).toList.flatMap (r.handedRefs h) ++
    (r.links.mixinsOf i).flatMap (r.handedRefs h) ++ r.ownRefs i

theorem refs_handedMap (r : Registry) (h : r.Sound) (i : Nat) :
    MemberMap.refs (r.handedMap h i) = r.handedRefs h i := by
  rw [MemberMap.refs, handedMap, MemberMap.ofIds, List.map_filterMap, handedRefs]
  refine List.filterMap_congr fun id _ => ?_
  cases hid : r.handed? h id i with
  | none => rfl
  | some ref =>
    obtain ⟨m, hm, -⟩ := member?_of_visible? (handed?_eq_some.1 hid).1
    rw [Option.bind_some, indexed?, hm]
    rfl

theorem refs_parentMap (r : Registry) (h : r.Sound) (i : Nat) :
    MemberMap.refs (r.parentMap h i) =
      (r.links.parentOf? i).toList.flatMap (r.handedRefs h) := by
  rw [parentMap]
  cases r.links.parentOf? i with
  | none => rfl
  | some p =>
    rw [Option.toList_some, List.flatMap_singleton]
    exact refs_handedMap r h p

theorem refs_ownEntries (r : Registry) (i : Nat) :
    MemberMap.refs (r.ownEntries i) = r.ownRefs i := by
  rw [MemberMap.refs, ownEntries, List.map_map]
  rfl

theorem nodup_ids_parentMap (r : Registry) (h : r.Sound) (i : Nat) :
    (r.parentMap h i).ids.Nodup := by
  rw [ids_parentMap]
  cases r.links.parentOf? i with
  | none => exact List.nodup_nil
  | some p =>
    rw [Option.toList_some, List.flatMap_singleton]
    exact (nodup_visibleIds r h p).filter _

/-- Arriving members are members of the registry. -/
theorem member?_of_mem_arrivals {r : Registry} {h : r.Sound} {i : Nat} {p : String × MemberRef}
    (hp : p ∈ r.arrivals h i) : ∃ m, r.member? p.2 = some m ∧ m.id = p.1 := by
  have hhanded : ∀ j, p ∈ r.handedRefs h j → ∃ m, r.member? p.2 = some m ∧ m.id = p.1 := by
    intro j hj
    obtain ⟨id, -, hid⟩ := List.mem_filterMap.1 hj
    obtain ⟨ref, href, rfl⟩ := Option.map_eq_some_iff.1 hid
    exact member?_of_visible? (handed?_eq_some.1 href).1
  rw [arrivals, List.mem_append, List.mem_append, List.mem_flatMap, List.mem_flatMap] at hp
  rcases hp with (⟨j, -, hj⟩ | ⟨j, -, hj⟩) | hown
  · exact hhanded j hj
  · exact hhanded j hj
  · obtain ⟨m, hm, rfl⟩ := List.mem_map.1 hown
    exact ⟨m.1, member?_of_mem_zipIdx hm, rfl⟩

/-- Nothing arrives where there is no class. -/
theorem arrivals_of_length_le {r : Registry} (h : r.Sound) {i : Nat} (hi : r.classes.length ≤ i) :
    r.arrivals h i = [] := by
  have hbases : ∀ j, ¬ r.links.Inherits i j := fun j hj => Nat.not_le.2 (h.closed i j hj).1 hi
  have hparent : r.links.parentOf? i = none := by
    cases hp : r.links.parentOf? i with
    | none => rfl
    | some p => exact absurd (Links.inherits_of_parentOf? hp) (hbases p)
  have hmixins : r.links.mixinsOf i = [] :=
    List.eq_nil_iff_forall_not_mem.2 fun j hj => hbases j (Links.inherits_of_mem_mixinsOf hj)
  have hmembers : r.membersOf i = [] := by
    rw [membersOf, classAt?, List.getElem?_eq_none hi]
    rfl
  rw [arrivals, hparent, hmixins, ownRefs, hmembers]
  rfl

/-- When the index of a class is made, one member displaces another one. -/
def DisplacesIn (r : Registry) (h : r.Sound) (i : Nat) : MemberRef → MemberRef → Prop :=
  Displaces [] (r.arrivals h i)

theorem displacesIn_iff {r : Registry} {h : r.Sound} {i : Nat} :
    r.DisplacesIn h i w x ↔
      Displaces (MemberMap.refs (r.parentMap h i))
          ((r.links.mixinsOf i).flatMap (r.handedRefs h)) w x ∨
        Displaces
          (MemberMap.refs (r.parentMap h i) ++ (r.links.mixinsOf i).flatMap (r.handedRefs h))
          (r.ownRefs i) w x := by
  have hparent : ¬ Displaces [] (MemberMap.refs (r.parentMap h i)) w x := by
    refine not_displaces_of_nodup ?_
    rw [MemberMap.refs, List.map_map]
    exact nodup_ids_parentMap r h i
  rw [DisplacesIn, arrivals, ← refs_parentMap, displaces_append, displaces_append,
    or_iff_right hparent, List.nil_append, List.nil_append]

/-- Kept indices are as they should be.  What is noted are the displacements of the classes that have
an index, and `more`, those that were met since. -/
structure Accounts (r : Registry) (h : r.Sound) (l : Lookups)
    (more : MemberRef → MemberRef → Prop) : Prop where
  faithful : r.Faithful h l
  notes : l.Notes fun w x => (∃ i, l.Has i ∧ r.DisplacesIn h i w x) ∨ more w x

theorem Accounts.congr {r : Registry} {h : r.Sound} {l : Lookups}
    {more more' : MemberRef → MemberRef → Prop} (ha : r.Accounts h l more)
    (hmore : ∀ w x, more w x ↔ more' w x) : r.Accounts h l more' :=
  ⟨ha.faithful, ha.notes.congr fun w x => or_congr_right (hmore w x)⟩

theorem Accounts.foldl_place {r : Registry} {h : r.Sound} {m : MemberMap} {l : Lookups}
    {more : MemberRef → MemberRef → Prop} (ha : r.Accounts h l more) (hm : m.Shows arrived)
    (ps : List (String × Indexed)) :
    (ps.foldl Lookups.place (m, l)).1.Shows (arrived ++ MemberMap.refs ps) ∧
      r.Accounts h (ps.foldl Lookups.place (m, l)).2
        fun w x => more w x ∨ Displaces arrived (MemberMap.refs ps) w x := by
  obtain ⟨hshows, hnotes⟩ := ha.notes.foldl_place hm ps
  have hindices := (Lookups.foldl_place (m, l) ps).2
  have hhas : ∀ i, (ps.foldl Lookups.place (m, l)).2.Has i ↔ l.Has i := by
    intro i
    rw [Lookups.Has, hindices, Lookups.Has]
  refine ⟨hshows, ?_, hnotes.congr fun w x => ?_⟩
  · intro i index hi
    exact ha.faithful i index (hindices ▸ hi)
  · simp only [hhas, or_assoc]

/-- Asking for an index leaves accounts right, forgets no index, and makes that of the class. -/
structure Tells (r : Registry) (h : r.Sound) (indexOf : Nat → Lookups → ClassIndex × Lookups)
    (i : Nat) : Prop where
  accounts : ∀ {l : Lookups} {more : MemberRef → MemberRef → Prop}, r.Accounts h l more →
    r.Accounts h (indexOf i l).2 more
  keeps : ∀ {l : Lookups} {k : Nat}, l.Has k → (indexOf i l).2.Has k
  makes : ∀ l : Lookups, (indexOf i l).2.Has i

theorem foldl_addMixin_accounts {r : Registry} {h : r.Sound}
    {indexOf : Nat → Lookups → ClassIndex × Lookups} {mixins : List Nat}
    (htrue : ∀ j ∈ mixins, r.MakesTrue h indexOf j) (htells : ∀ j ∈ mixins, r.Tells h indexOf j)
    {m : MemberMap} {l : Lookups} {more : MemberRef → MemberRef → Prop} (ha : r.Accounts h l more)
    (hm : m.Shows arrived) :
    (mixins.foldl (addMixin indexOf) (m, l)).1.Shows
        (arrived ++ mixins.flatMap (r.handedRefs h)) ∧
      r.Accounts h (mixins.foldl (addMixin indexOf) (m, l)).2
        fun w x => more w x ∨ Displaces arrived (mixins.flatMap (r.handedRefs h)) w x := by
  induction mixins generalizing m l arrived more with
  | nil =>
    refine ⟨?_, ha.congr fun w x => (or_iff_left not_displaces_nil).symm⟩
    rw [List.flatMap_nil, List.append_nil]
    exact hm
  | cons j mixins ih =>
    have hhanded : (indexOf j l).1.visible.inheritable = r.handedMap h j := by
      rw [(htrue j List.mem_cons_self l ha.faithful).1]
      exact inheritable_visibleMap r h j
    obtain ⟨hshows, hnext⟩ :=
      ((htells j List.mem_cons_self).accounts ha).foldl_place hm (r.handedMap h j)
    rw [refs_handedMap] at hshows hnext
    obtain ⟨hrest, haccounts⟩ := ih (fun k hk => htrue k (List.mem_cons_of_mem j hk))
      (fun k hk => htells k (List.mem_cons_of_mem j hk)) hnext hshows
    rw [List.foldl_cons, addMixin]
    dsimp only
    rw [hhanded, List.flatMap_cons]
    rw [List.append_assoc] at hrest
    refine ⟨hrest, haccounts.congr fun w x => ?_⟩
    rw [or_assoc, displaces_append]

theorem foldl_addMixin_keeps {r : Registry} {h : r.Sound}
    {indexOf : Nat → Lookups → ClassIndex × Lookups} {mixins : List Nat}
    (htells : ∀ j ∈ mixins, r.Tells h indexOf j) {s : MemberMap × Lookups} {k : Nat}
    (hk : s.2.Has k) : (mixins.foldl (addMixin indexOf) s).2.Has k := by
  induction mixins generalizing s with
  | nil => exact hk
  | cons j mixins ih =>
    refine ih (fun i hi => htells i (List.mem_cons_of_mem j hi)) ?_
    rw [Lookups.Has, addMixin, (Lookups.foldl_place _ _).2]
    exact (htells j List.mem_cons_self).keeps hk

/-- With the index of a class kept, what was met for that class counts among its displacements. -/
theorem Accounts.keep {r : Registry} {h : r.Sound} {l : Lookups} {i : Nat}
    {more : MemberRef → MemberRef → Prop}
    (ha : r.Accounts h l fun w x => more w x ∨ r.DisplacesIn h i w x) {index : ClassIndex}
    (hindex : index = r.trueIndex h i) :
    r.Accounts h { l with indices := (i, index) :: l.indices } more := by
  have hhas : ∀ k, Lookups.Has { l with indices := (i, index) :: l.indices } k ↔ k = i ∨ l.Has k := by
    intro k
    rw [Lookups.Has, lookup_cons_if, Lookups.Has]
    by_cases hk : k = i
    · simp [hk]
    · simp [hk]
  refine ⟨?_, ⟨ha.notes.nodup, fun w x => (ha.notes.mem_iff w x).trans ?_⟩⟩
  · intro k index' hk
    rw [lookup_cons_if] at hk
    by_cases hki : k = i
    · rw [if_pos hki] at hk
      rw [← Option.some.inj hk, hindex, hki]
    · rw [if_neg hki] at hk
      exact ha.faithful k index' hk
  · simp only [hhas, or_and_right, exists_or, exists_eq_left]
    rw [or_comm, or_assoc, or_comm, or_assoc]

/-- Making the index of a class adds the displacements of that class to the notes. -/
theorem makeIndex_tells {r : Registry} {h : r.Sound}
    {indexOf : Nat → Lookups → ClassIndex × Lookups} {i : Nat}
    (htrue : ∀ j, r.links.Inherits i j → r.MakesTrue h indexOf j)
    (htells : ∀ j, r.links.Inherits i j → r.Tells h indexOf j) :
    r.Tells h (r.makeIndex indexOf) i := by
  have hmixins := fun j hj => htells j (Links.inherits_of_mem_mixinsOf (i := i) hj)
  refine ⟨fun {l more} ha => ?_, fun {l k} hk => ?_, fun l => ?_⟩
  · have hparent : (r.inherited indexOf i l).1 = r.parentMap h i ∧
        r.Accounts h (r.inherited indexOf i l).2 more := by
      unfold inherited parentMap
      cases hp : r.links.parentOf? i with
      | none => exact ⟨rfl, ha⟩
      | some p =>
        have hip := Links.inherits_of_parentOf? hp
        refine ⟨?_, (htells p hip).accounts ha⟩
        show (indexOf p l).1.visible.inheritable = r.handedMap h p
        rw [(htrue p hip l ha.faithful).1]
        exact inheritable_visibleMap r h p
    have hstart : (r.inherited indexOf i l).1.Shows (MemberMap.refs (r.parentMap h i)) := by
      rw [hparent.1]
      exact MemberMap.shows_refs (nodup_ids_parentMap r h i)
    obtain ⟨hmixed, hmixedNotes⟩ := foldl_addMixin_accounts
      (fun j hj => htrue j (Links.inherits_of_mem_mixinsOf hj)) hmixins hparent.2 hstart
    -- Up to here the class has no index: what arrived in it counts as met since, not as its own.
    obtain ⟨-, hall⟩ := hmixedNotes.foldl_place hmixed (r.ownEntries i)
    refine Accounts.keep (hall.congr fun w x => ?_) (makeIndex_true htrue l ha.faithful).1
    rw [or_assoc, displacesIn_iff, refs_ownEntries]
  · show ((((i, _) :: _ : List (Nat × ClassIndex)).lookup k).isSome)
    rw [lookup_cons_if]
    split
    · rfl
    · rw [(Lookups.foldl_place _ _).2]
      refine foldl_addMixin_keeps hmixins ?_
      unfold inherited
      cases hp : r.links.parentOf? i with
      | none => exact hk
      | some p => exact (htells p (Links.inherits_of_parentOf? hp)).keeps hk
  · show ((((i, _) :: _ : List (Nat × ClassIndex)).lookup i).isSome)
    rw [lookup_cons_if, if_pos rfl]
    rfl

theorem indexFrom_tells {r : Registry} (h : r.Sound) {d i : Nat} (hd : r.links.Shallow d i) :
    r.Tells h (r.indexFrom d) i := by
  induction d generalizing i with
  | zero => exact hd.elim
  | succ d ih =>
    have hmade : r.Tells h (r.makeIndex (r.indexFrom d)) i :=
      makeIndex_tells (fun j hj => indexFrom_true h (hd j hj)) fun j hj => ih (hd j hj)
    have hcases : ∀ l, (r.indexFrom (d + 1) i l).2 = l ∧ l.Has i ∨
        r.indexFrom (d + 1) i l = r.makeIndex (r.indexFrom d) i l := by
      intro l
      rw [indexFrom]
      cases hi : l.indices.lookup i with
      | some index => exact Or.inl ⟨rfl, by rw [Lookups.Has, hi]; rfl⟩
      | none => exact Or.inr rfl
    refine ⟨fun {l more} ha => ?_, fun {l k} hk => ?_, fun l => ?_⟩
    · rcases hcases l with ⟨hl, -⟩ | hl
      · rw [hl]
        exact ha
      · rw [hl]
        exact hmade.accounts ha
    · rcases hcases l with ⟨hl, -⟩ | hl
      · rw [hl]
        exact hk
      · rw [hl]
        exact hmade.keeps hk
    · rcases hcases l with ⟨hl, hi⟩ | hl
      · rw [hl]
        exact hi
      · rw [hl]
        exact hmade.makes l

/-- A registry that has the links and members of `r`, and what it keeps of look-ups is right. -/
structure Reads (r : Registry) (h : r.Sound) (read : Registry) : Prop where
  links : read.links = r.links
  members : read.classes.map ClassDoc.members = r.classes.map ClassDoc.members
  accounts : r.Accounts h read.lookups fun _ _ => False

theorem Fresh.reads {r : Registry} (h : r.Fresh) : r.Reads h.sound r := by
  refine ⟨rfl, rfl, ?_, ⟨fun w => ?_, fun w x => ?_⟩⟩
  · intro i index hi
    rw [h.lookups] at hi
    exact absurd hi (by simp)
  · rw [h.lookups]
    exact List.nodup_nil
  · rw [h.lookups]
    constructor
    · exact fun hx => absurd hx List.not_mem_nil
    · rintro (⟨i, hi, -⟩ | hmore)
      · exact absurd hi (by simp [Lookups.Has])
      · exact hmore.elim

section

variable {r read : Registry} {h : r.Sound}

theorem Reads.length (hr : r.Reads h read) : read.classes.length = r.classes.length := by
  rw [← List.length_map ClassDoc.members, hr.members, List.length_map]

theorem Reads.map_members_classAt? (hr : r.Reads h read) (i : Nat) :
    (read.classAt? i).map ClassDoc.members = (r.classAt? i).map ClassDoc.members := by
  rw [classAt?, classAt?, ← List.getElem?_map, hr.members, List.getElem?_map]

theorem Reads.member? (hr : r.Reads h read) : read.member? = r.member? := by
  funext ref
  have hread : ∀ r : Registry, r.member? ref =
      ((r.classAt? ref.classAt).map ClassDoc.members).bind (·[ref.memberAt]?) := by
    intro r
    rw [Registry.member?]
    cases r.classAt? ref.classAt with
    | none => rfl
    | some c => rfl
  rw [hread, hread, hr.map_members_classAt?]

/-- Indices are made of links and members, and of nothing else. -/
theorem Reads.indexFrom (hr : r.Reads h read) (d : Nat) : read.indexFrom d = r.indexFrom d := by
  have hown : ∀ i, read.ownEntries i = r.ownEntries i := by
    intro i
    rw [ownEntries, ownEntries, hr.map_members_classAt?]
  induction d with
  | zero => rfl
  | succ d ih =>
    funext i l
    rw [Registry.indexFrom, Registry.indexFrom, ih]
    simp only [makeIndex, inherited, hr.links, hown]

theorem Reads.lookups_looked (hr : r.Reads h read) (i : Nat) :
    (read.looked i).lookups = (r.indexFrom (r.classes.length + 1) i read.lookups).2 := by
  show (read.indexFrom (read.classes.length + 1) i read.lookups).2 = _
  rw [hr.indexFrom, hr.length]

theorem Reads.looked (hr : r.Reads h read) (i : Nat) : r.Reads h (read.looked i) := by
  refine ⟨hr.links, hr.members, ?_⟩
  rw [hr.lookups_looked i]
  exact (indexFrom_tells h (h.shallow i)).accounts hr.accounts

theorem Reads.has_looked (hr : r.Reads h read) {i k : Nat} (hk : k = i ∨ read.lookups.Has k) :
    (read.looked i).lookups.Has k := by
  rw [hr.lookups_looked i]
  rcases hk with rfl | hk
  · exact (indexFrom_tells h (h.shallow k)).makes _
  · exact (indexFrom_tells h (h.shallow i)).keeps hk

/-- After look-ups, what they asked for is there, and what was there before. -/
theorem Reads.foldl_looked (hr : r.Reads h read) (earlier : List Nat) :
    r.Reads h (earlier.foldl Registry.looked read) ∧
      ∀ k, k ∈ earlier ∨ read.lookups.Has k →
        (earlier.foldl Registry.looked read).lookups.Has k := by
  induction earlier generalizing read with
  | nil => exact ⟨hr, fun k hk => hk.resolve_left List.not_mem_nil⟩
  | cons i earlier ih =>
    obtain ⟨hreads, hhas⟩ := ih (hr.looked i)
    refine ⟨hreads, fun k hk => hhas k ?_⟩
    rw [List.mem_cons, or_right_comm] at hk
    rcases hk with hk | hk
    · exact Or.inr (hr.has_looked hk)
    · exact Or.inl hk

theorem Reads.lookedAll (hr : r.Reads h read) : r.Reads h read.lookedAll :=
  (hr.foldl_looked _).1

theorem Reads.ask (hr : r.Reads h read) (q : Request) : r.Reads h (read.ask q).2 := by
  cases q with
  | refs i q => exact hr.looked i
  | members i q => exact hr.looked i
  | overrides ref => exact hr
  | «export» => exact hr.lookedAll

/-- A command that leaves the members alone adds no more than what look-ups note. -/
theorem Reads.perform (hr : r.Reads h read) {c : Command} (hc : c.KeepsMembers) :
    r.Reads h (read.perform c).1 := by
  cases c with
  | ask q => exact hr.ask q
  | change name f =>
    rw [Registry.perform, modifyClass]
    cases read.find? name with
    | none => exact hr
    | some i => exact ⟨hr.links, (map_modify_of_same hc read.classes i).trans hr.members, hr.accounts⟩
  | changeMember ref f => exact hc.elim
  | refresh name => exact hc.elim
  | refreshAll => exact hc.elim
  | ignore name =>
    rw [Registry.perform, Registry.ignore]
    split
    · exact hr
    · exact ⟨hr.links, hr.members, hr.accounts⟩

theorem Reads.after (hr : r.Reads h read) {commands : List Command}
    (hc : ∀ c ∈ commands, c.KeepsMembers) : r.Reads h (read.after commands) := by
  induction commands generalizing read with
  | nil => exact hr
  | cons c commands ih =>
    exact ih (hr.perform (hc c List.mem_cons_self)) fun d hd => hc d (List.mem_cons_of_mem c hd)

/-- Once all classes are indexed, the notes are the displacements of all classes. -/
theorem Reads.notes_lookedAll (hr : r.Reads h read) :
    read.lookedAll.lookups.Notes
      fun w x => ∃ i, i < r.classes.length ∧ r.DisplacesIn h i w x := by
  obtain ⟨hreads, hhas⟩ := hr.foldl_looked (List.range read.classes.length)
  refine hreads.accounts.notes.congr fun w x => ?_
  rw [or_false]
  refine exists_congr fun i => and_congr_left fun hi => ⟨fun _ => ?_, fun hlt => ?_⟩
  · by_contra hge
    rw [DisplacesIn, arrivals_of_length_le h (Nat.le_of_not_lt hge)] at hi
    exact not_displaces_nil hi
  · refine hhas i (Or.inl (List.mem_range.2 ?_))
    rw [hr.length]
    exact hlt

theorem Reads.overridesOf_lookedAll (hr : r.Reads h read) (w : MemberRef) :
    read.lookedAll.overridesOf w =
      (read.lookedAll.lookups.displacedBy w).filterMap r.member? := by
  rw [overridesOf, hr.lookedAll.member?]

theorem classes_foldl_looked (earlier : List Nat) :
    (earlier.foldl Registry.looked read).classes = read.classes := by
  induction earlier generalizing read with
  | nil => rfl
  | cons i earlier ih => exact ih

end

/-- Let a registry be made or refreshed, and then look up, export and change what one likes but members
and their ids.  In an export the members that a member overrides are those that it displaces in some
class, each once and never itself.  They are all there to be exported, and what came before changes no
more than their order. -/
theorem overridesOf_eq_displaced {r : Registry} (h : r.Fresh) {commands : List Command}
    (hc : ∀ c ∈ commands, c.KeepsMembers) :
    let now := r.after commands
    let done := now.exportAll.2
    (∀ w, (done.lookups.displacedBy w).Nodup ∧ w ∉ done.lookups.displacedBy w ∧
      ∀ x, x ∈ done.lookups.displacedBy w ↔
        ∃ i, i < r.classes.length ∧ r.DisplacesIn h.sound i w x) ∧
    (∀ w, (done.overridesOf w).map some = (done.lookups.displacedBy w).map r.member?) ∧
    now.exportAll.1 = now.classes.zipIdx.map (fun c =>
      { entry := c.1
        overrides := (List.range c.1.members.length).map fun k => done.overridesOf ⟨c.2, k⟩ }) ∧
    ∀ others : List Command, (∀ c ∈ others, c.KeepsMembers) → ∀ w,
      (done.lookups.displacedBy w).Perm ((r.after others).exportAll.2.lookups.displacedBy w) ∧
        (done.overridesOf w).Perm ((r.after others).exportAll.2.overridesOf w) := by
  intro now done
  have hreads : r.Reads h.sound now := h.reads.after hc
  have hnotes := hreads.notes_lookedAll
  refine ⟨fun w => ⟨hnotes.nodup w, fun hw => ?_, hnotes.mem_iff w⟩, fun w => ?_, ?_,
    fun others hothers w => ?_⟩
  · obtain ⟨i, -, hne, -⟩ := (hnotes.mem_iff w w).1 hw
    exact hne rfl
  · have hlive : ∀ x ∈ done.lookups.displacedBy w, (r.member? x).isSome := by
      intro x hx
      obtain ⟨i, -, hi⟩ := (hnotes.mem_iff w x).1 hx
      obtain ⟨id, -, harrives⟩ := hi.mem
      obtain ⟨m, hm, -⟩ := member?_of_mem_arrivals harrives
      rw [hm]
      rfl
    show (now.lookedAll.overridesOf w).map some = _
    rw [hreads.overridesOf_lookedAll]
    exact map_some_filterMap hlive
  · show now.lookedAll.classes.zipIdx.map _ = _
    rw [lookedAll, classes_foldl_looked]
    rfl
  · have hreads' : r.Reads h.sound (r.after others) := h.reads.after hothers
    have hnotes' := hreads'.notes_lookedAll
    have hperm : (now.lookedAll.lookups.displacedBy w).Perm
        ((r.after others).lookedAll.lookups.displacedBy w) := by
      refine (List.perm_ext_iff_of_nodup (hnotes.nodup w) (hnotes'.nodup w)).2 fun x => ?_
      rw [hnotes.mem_iff, hnotes'.mem_iff]
    refine ⟨hperm, ?_⟩
    show (now.lookedAll.overridesOf w).Perm ((r.after others).lookedAll.overridesOf w)
    rw [hreads.overridesOf_lookedAll, hreads'.overridesOf_lookedAll]
    exact hperm.filterMap _

def familyCalls : List Command :=
  [.ask (.refs 2 {}), .change "Child" fun c => { c with doc := "A child." }, .ask .export]

theorem keepsMembers_familyCalls : ∀ c ∈ familyCalls, c.KeepsMembers := by
  simp [familyCalls, Command.KeepsMembers]

/-- The mixin's member displaces the parent's in the subclass, and the last of two members of its own
displaces the other one. -/
theorem overridesOf_family :
    let done := (familyRegistry.after familyCalls).exportAll.2
    done.lookups.displacedBy ⟨1, 1⟩ = [⟨0, 2⟩] ∧ done.lookups.displacedBy ⟨2, 1⟩ = [⟨2, 0⟩] ∧
      (∃ i, i < 3 ∧ familyRegistry.DisplacesIn (sound_of_build build_family) i ⟨1, 1⟩ ⟨0, 2⟩) ∧
      ¬ ∃ i, i < 3 ∧ familyRegistry.DisplacesIn (sound_of_build build_family) i ⟨2, 1⟩ ⟨0, 3⟩ := by
  obtain ⟨hnotes, -⟩ := overridesOf_eq_displaced (.made build_family) keepsMembers_familyCalls
  refine ⟨by decide, by decide, (((hnotes ⟨1, 1⟩).2.2 ⟨0, 2⟩).1 (by decide)), fun hdisplaced => ?_⟩
  exact absurd (((hnotes ⟨2, 1⟩).2.2 ⟨0, 3⟩).2 hdisplaced) (by decide)

end Registry
end ApiDoc
