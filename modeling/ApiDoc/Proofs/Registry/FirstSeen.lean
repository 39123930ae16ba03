/-
What a registry remembers of classes that change.

A class is indexed when it is first looked up, by itself or on the way to the index of a class that
inherits from it, and its index is kept until a refresh.  So up to the refresh a registry answers like
the one in which every class still stands as it did when it was first looked up; a class that was not
looked up stands there as it does now (`findRefs_eq_firstSeen`).
-/
import ApiDoc.Proofs.Visibility.Displacement

namespace ApiDoc

/-- Class `i` is class `j` or inherits from it, perhaps through others. -/
def Links.Descends (l : Links) : Nat → Nat → Prop := Relation.ReflTransGen l.Inherits

theorem Links.descends_iff {l : Links} {i k : Nat} :
    l.Descends i k ↔ k = i ∨ (∃ p, l.parentOf? i = some p ∧ l.Descends p k) ∨
      ∃ j ∈ l.mixinsOf i, l.Descends j k := by
  have hbases : ∀ j, l.Inherits i j ↔ l.parentOf? i = some j ∨ j ∈ l.mixinsOf i := by
    intro j
    rw [Links.Inherits, Links.bases, List.mem_append, Option.mem_toList]
  rw [Links.Descends, Relation.ReflTransGen.cases_head_iff, eq_comm]
  simp only [hbases, or_and_right, exists_or]

namespace Lookups

instance (l : Lookups) (i : Nat) : Decidable (l.Has i) :=
  inferInstanceAs (Decidable (_ = true))

/-- With a class, its bases are kept. -/
def Closed (l : Lookups) (links : Links) : Prop := ∀ i j, l.Has i → links.Inherits i j → l.Has j

theorem Closed.of_descends {l : Lookups} {links : Links} (h : l.Closed links) {i k : Nat}
    (hi : l.Has i) (hk : links.Descends i k) : l.Has k := by
  induction hk with
  | refl => exact hi
  | tail _ hstep ih => exact h _ _ ih hstep

theorem Closed.grow {l l' : Lookups} {links : Links} (h : l.Closed links) {p : Nat → Prop}
    (hl : ∀ k, l'.Has k ↔ l.Has k ∨ ∃ i, p i ∧ links.Descends i k) : l'.Closed links := by
  intro i j hi hij
  rw [hl] at hi ⊢
  rcases hi with hi | ⟨k, hp, hk⟩
  · exact .inl (h i j hi hij)
  · exact .inr ⟨k, hp, Relation.ReflTransGen.tail hk hij⟩

theorem has_foldl_place (s : MemberMap × Lookups) (ps : List (String × Indexed)) (k : Nat) :
    (ps.foldl place s).2.Has k ↔ s.2.Has k := by
  rw [Has, (foldl_place s ps).2, Has]

end Lookups

namespace Registry

/-! ### Which classes a look-up indexes -/

/-- Asking for the index of a class keeps that of the class and of all that it inherits from. -/
def Reveals (links : Links) (indexOf : Nat → Lookups → ClassIndex × Lookups) (i : Nat) : Prop :=
  ∀ l : Lookups, l.Closed links → ∀ k, (indexOf i l).2.Has k ↔ l.Has k ∨ links.Descends i k

theorem Reveals.closed {links : Links} {indexOf : Nat → Lookups → ClassIndex × Lookups} {i : Nat}
    (h : Reveals links indexOf i) {l : Lookups} (hl : l.Closed links) :
    (indexOf i l).2.Closed links := by
  refine hl.grow (p := (· = i)) fun k => ?_
  rw [h l hl k, exists_eq_left]

section

variable {r : Registry} {indexOf : Nat → Lookups → ClassIndex × Lookups}

theorem has_inherited {i : Nat} (h : ∀ j, r.links.Inherits i j → Reveals r.links indexOf j)
    {l : Lookups} (hl : l.Closed r.links) (k : Nat) :
    (r.inherited indexOf i l).2.Has k ↔
      l.Has k ∨ ∃ p, r.links.parentOf? i = some p ∧ r.links.Descends p k := by
  unfold inherited
  cases hp : r.links.parentOf? i with
  | none => simp
  | some p => simpa using h p (Links.inherits_of_parentOf? hp) l hl k

theorem has_foldl_addMixin {mixins : List Nat} (h : ∀ j ∈ mixins, Reveals r.links indexOf j)
    {s : MemberMap × Lookups} (hs : s.2.Closed r.links) (k : Nat) :
    (mixins.foldl (addMixin indexOf) s).2.Has k ↔
      s.2.Has k ∨ ∃ j ∈ mixins, r.links.Descends j k := by
  induction mixins generalizing s with
  | nil => simp
  | cons j mixins ih =>
    have hj := h j List.mem_cons_self
    have hnext : ∀ k, (addMixin indexOf s j).2.Has k ↔ (indexOf j s.2).2.Has k :=
      fun k => Lookups.has_foldl_place _ _ k
    have hclosed : (addMixin indexOf s j).2.Closed r.links := by
      intro a b
      rw [hnext, hnext]
      exact hj.closed hs a b
    rw [List.foldl_cons, ih (fun i hi => h i (List.mem_cons_of_mem j hi)) hclosed, hnext,
      hj s.2 hs k, or_assoc]
    simp

theorem makeIndex_reveals {i : Nat} (h : ∀ j, r.links.Inherits i j → Reveals r.links indexOf j) :
    Reveals r.links (r.makeIndex indexOf) i := by
  intro l hl k
  have hparent := has_inherited h hl
  have hclosed : (r.inherited indexOf i l).2.Closed r.links := hl.grow hparent
  have hkept : (r.makeIndex indexOf i l).2.Has k ↔
      k = i ∨ ((r.links.mixinsOf i).foldl (addMixin indexOf) (r.inherited indexOf i l)).2.Has k := by
    rw [← Lookups.has_foldl_place _ (r.ownEntries i)]
    show ((((i, _) :: _ : List (Nat × ClassIndex)).lookup k).isSome) ↔ _
    rw [lookup_cons_if]
    split
    · next hk => simp [hk]
    · next hk => simp [hk, Lookups.Has]
  rw [hkept, has_foldl_addMixin (fun j hj => h j (Links.inherits_of_mem_mixinsOf hj)) hclosed,
    hparent, Links.descends_iff, or_assoc, or_left_comm]

theorem indexFrom_reveals {d i : Nat} (hd : r.links.Shallow d i) :
    Reveals r.links (r.indexFrom d) i := by
  induction d generalizing i with
  | zero => exact hd.elim
  | succ d ih =>
    intro l hl k
    rw [indexFrom]
    cases hi : l.indices.lookup i with
    | none => exact makeIndex_reveals (fun j hj => ih (hd j hj)) l hl k
    | some index =>
      have hhas : l.Has i := by rw [Lookups.Has, hi]; rfl
      exact (or_iff_left_of_imp fun hk => hl.of_descends hhas hk).symm

end

/-! ### Indices are made of the classes that have none yet -/

/-- Two registries make the same index of a class if they agree on its own members and make the same
indices of its bases. -/
theorem makeIndex_agree {r s : Registry} (hlinks : s.links = r.links) {i : Nat} {l : Lookups}
    (hown : s.ownEntries i = r.ownEntries i) {f g : Nat → Lookups → ClassIndex × Lookups}
    (hfg : ∀ j, r.links.Inherits i j → ∀ l' : Lookups, (∀ k, l.Has k → l'.Has k) → f j l' = g j l')
    (hkeeps : ∀ j, r.links.Inherits i j → ∀ l' : Lookups, ∀ k, l'.Has k → (g j l').2.Has k) :
    s.makeIndex f i l = r.makeIndex g i l := by
  have hparent : s.inherited f i l = r.inherited g i l := by
    unfold inherited
    rw [hlinks]
    cases hp : r.links.parentOf? i with
    | none => rfl
    | some p => simp only [hfg p (Links.inherits_of_parentOf? hp) l fun _ hk => hk]
  have hgrown : ∀ k, l.Has k → (r.inherited g i l).2.Has k := by
    intro k hk
    unfold inherited
    cases hp : r.links.parentOf? i with
    | none => exact hk
    | some p => exact hkeeps p (Links.inherits_of_parentOf? hp) l k hk
  have hmixins : ∀ (mixins : List Nat) (m : MemberMap × Lookups), mixins ⊆ r.links.mixinsOf i →
      (∀ k, l.Has k → m.2.Has k) →
      mixins.foldl (addMixin f) m = mixins.foldl (addMixin g) m := by
    intro mixins
    induction mixins with
    | nil => exact fun _ _ _ => rfl
    | cons j mixins ih =>
      intro m hsub hm
      have hj := Links.inherits_of_mem_mixinsOf (hsub List.mem_cons_self)
      have hstep : addMixin f m j = addMixin g m j := by
        simp only [addMixin, hfg j hj m.2 hm]
      rw [List.foldl_cons, List.foldl_cons, hstep]
      refine ih _ (fun _ hx => hsub (List.mem_cons_of_mem j hx)) fun k hk => ?_
      exact (Lookups.has_foldl_place _ _ k).2 (hkeeps j hj m.2 k (hm k hk))
  simp only [makeIndex, hlinks, hparent, hmixins _ _ (fun _ hx => hx) hgrown, hown]

/-- The index of a class is made of those classes alone that it inherits from and that have none. -/
theorem indexFrom_agree {r s : Registry} (h : r.Sound) (hlinks : s.links = r.links) {d i : Nat}
    (hd : r.links.Shallow d i) {l : Lookups}
    (hclasses : ∀ k, r.links.Descends i k → ¬ l.Has k → s.classAt? k = r.classAt? k) :
    s.indexFrom d i l = r.indexFrom d i l := by
  induction d generalizing i l with
  | zero => exact hd.elim
  | succ d ih =>
    rw [indexFrom, indexFrom]
    cases hi : l.indices.lookup i with
    | some index => rfl
    | none =>
      have hown : s.ownEntries i = r.ownEntries i := by
        have hnone : ¬ l.Has i := by simp [Lookups.Has, hi]
        rw [ownEntries, ownEntries, hclasses i Relation.ReflTransGen.refl hnone]
      refine makeIndex_agree hlinks hown (fun j hj l' hl' => ih (hd j hj) fun k hk hnot => ?_)
        fun j hj l' k => (indexFrom_tells h (hd j hj)).keeps
      exact hclasses k (Relation.ReflTransGen.head hj hk) fun hk => hnot (hl' k hk)

/-- The true index of a class depends on that class and on what it inherits from. -/
theorem trueIndex_agree {r s : Registry} (h : r.Sound) (h' : s.Sound) (hlinks : s.links = r.links)
    (hlength : s.classes.length = r.classes.length) {i : Nat}
    (hclasses : ∀ k, r.links.Descends i k → s.classAt? k = r.classAt? k) :
    s.trueIndex h' i = r.trueIndex h i := by
  have hmade : ∀ (r : Registry) (h : r.Sound),
      (r.indexFrom (r.classes.length + 1) i {}).1 = r.trueIndex h i :=
    fun r h => (indexFrom_true h (h.shallow i) {} fun i index hi => absurd hi (by simp)).1
  rw [← hmade r h, ← hmade s h', hlength,
    indexFrom_agree h hlinks (h.shallow i) fun k hk _ => hclasses k hk]

/-! ### A registry and what it remembers -/

/-- `now` remembers `stood`: its indices are those of `stood`, and the classes that have none are as
they are in `stood`. -/
structure Remembers (stood : Registry) (h : stood.Sound) (now : Registry) : Prop where
  links : now.links = stood.links
  length : now.classes.length = stood.classes.length
  closed : now.lookups.Closed stood.links
  faithful : stood.Faithful h now.lookups
  unseen : ∀ k, ¬ now.lookups.Has k → now.classAt? k = stood.classAt? k

theorem Sound.fst_index_of_new {r : Registry} (h : r.Sound) (hnew : r.lookups = {}) (i : Nat) :
    (r.index i).1 = r.trueIndex h i := by
  refine (index_true h (l := r.lookups) ?_ i).1
  rw [hnew]
  exact fun i index hi => absurd hi (by simp)

theorem Fresh.remembers {r : Registry} (h : r.Fresh) : r.Remembers h.sound r := by
  have hnone : ∀ k, ¬ r.lookups.Has k := by simp [h.lookups, Lookups.Has]
  refine ⟨rfl, rfl, fun i _ hi => absurd hi (hnone i), fun i index hi => ?_, fun _ _ => rfl⟩
  rw [h.lookups] at hi
  exact absurd hi (by simp)

section

variable {stood now : Registry} {h : stood.Sound}

theorem Remembers.index (hr : stood.Remembers h now) (i : Nat) :
    now.index i = stood.indexFrom (stood.classes.length + 1) i now.lookups := by
  rw [Registry.index, hr.length]
  exact indexFrom_agree h hr.links (h.shallow i) fun k _ hk => hr.unseen k hk

/-- What is remembered is what is answered. -/
theorem Remembers.fst_index (hr : stood.Remembers h now) (i : Nat) :
    (now.index i).1 = stood.trueIndex h i := by
  rw [hr.index, (indexFrom_true h (h.shallow i) _ hr.faithful).1]

theorem Remembers.looked (hr : stood.Remembers h now) (i : Nat) :
    stood.Remembers h (now.looked i) := by
  have hreveals := indexFrom_reveals (h.shallow i)
  have hlookups : (now.looked i).lookups =
      (stood.indexFrom (stood.classes.length + 1) i now.lookups).2 := congrArg Prod.snd (hr.index i)
  refine ⟨hr.links, hr.length, ?_, ?_, fun k hk => hr.unseen k fun hhas => hk ?_⟩
  · rw [hlookups]
    exact hreveals.closed hr.closed
  · rw [hlookups]
    exact (indexFrom_true h (h.shallow i) _ hr.faithful).2
  · rw [hlookups]
    exact (hreveals _ hr.closed k).2 (.inl hhas)

theorem Remembers.has_looked (hr : stood.Remembers h now) (i k : Nat) :
    (now.looked i).lookups.Has k ↔ now.lookups.Has k ∨ stood.links.Descends i k := by
  show (now.index i).2.Has k ↔ _
  rw [hr.index]
  exact indexFrom_reveals (h.shallow i) _ hr.closed k

theorem Remembers.foldl_looked (hr : stood.Remembers h now) (places : List Nat) :
    stood.Remembers h (places.foldl Registry.looked now) ∧
      ∀ k, (places.foldl Registry.looked now).lookups.Has k ↔
        now.lookups.Has k ∨ ∃ i ∈ places, stood.links.Descends i k := by
  induction places generalizing now with
  | nil => exact ⟨hr, fun k => by simp⟩
  | cons i places ih =>
    obtain ⟨hrest, hhas⟩ := ih (hr.looked i)
    refine ⟨hrest, fun k => ?_⟩
    rw [List.foldl_cons, hhas, hr.has_looked, or_assoc]
    simp

/-- Classes change, and what stood there before is remembered of those that have an index. -/
theorem Remembers.changed (hr : stood.Remembers h now) {stood' now' : Registry} (h' : stood'.Sound)
    (hplaces : SamePlaces stood stood') (hplaces' : SamePlaces now now')
    (hlookups : now'.lookups = now.lookups)
    (hseen : ∀ k, now.lookups.Has k → stood'.classAt? k = stood.classAt? k)
    (hunseen : ∀ k, ¬ now.lookups.Has k → stood'.classAt? k = now'.classAt? k) :
    stood'.Remembers h' now' := by
  refine ⟨?_, ?_, ?_, fun i index hi => ?_, fun k hk => (hunseen k (hlookups ▸ hk)).symm⟩
  · rw [hplaces'.links, hr.links, hplaces.links]
  · rw [hplaces'.length, hr.length, hplaces.length]
  · rw [hlookups, hplaces.links]
    exact hr.closed
  · rw [hlookups] at hi
    have hhas : now.lookups.Has i := by rw [Lookups.Has, hi]; rfl
    rw [hr.faithful i index hi]
    exact (trueIndex_agree h h' hplaces.links hplaces.length fun k hk =>
      hseen k (hr.closed.of_descends hhas hk)).symm

end

/-! ### Commands -/

/-- The classes that a request looks up. -/
def Request.targets (r : Registry) : Request → List Nat
  | .refs i _ | .members i _ => [i]
  | .overrides _ => []
  | .export => List.range r.classes.length

theorem Request.targets_of_samePlaces {r s : Registry} (h : SamePlaces r s) (q : Request) :
    q.targets s = q.targets r := by
  cases q with
  | «export» => rw [targets, targets, h.length]
  | _ => rfl

theorem ask_eq (r : Registry) (q : Request) : (r.ask q).2 = (q.targets r).foldl looked r := by
  cases q <;> rfl

namespace Command

/-- The command looks a class up, by itself or through a class that inherits from it. -/
def LooksUp (r : Registry) (k : Nat) : Command → Prop
  | .ask q => ∃ i ∈ q.targets r, r.links.Descends i k
  | _ => False

/-- The command refreshes nothing. -/
def KeepsIndices : Command → Prop
  | .refresh _ => False
  | .refreshAll => False
  | _ => True

end Command

/-- A class as it stands when commands look it up first, or after them if they do not. -/
def firstSeen (k : Nat) : Registry → List Command → Option ClassDoc
  | r, [] => r.classAt? k
  | r, c :: commands =>
    if r.lookups.Has k then r.classAt? k else firstSeen k (r.perform c).1 commands

/-- The registry with every class as it stands when it is first looked up. -/
def asFirstSeen (r : Registry) (commands : List Command) : Registry :=
  { r with classes := r.classes.mapIdx fun k c => (firstSeen k r commands).getD c }

theorem after_append (r : Registry) (commands more : List Command) :
    r.after (commands ++ more) = (r.after commands).after more := List.foldl_append

theorem samePlaces_foldl_looked (r : Registry) (places : List Nat) :
    SamePlaces r (places.foldl looked r) := by
  induction places generalizing r with
  | nil => exact SamePlaces.refl r
  | cons i places ih =>
    have hlooked : SamePlaces r (r.looked i) := ⟨rfl, rfl, rfl⟩
    exact hlooked.trans (ih (r.looked i))

/-- A command that refreshes nothing and looks nothing up leaves what is kept as it is. -/
theorem perform_cases (r : Registry) {c : Command} (hc : c.KeepsIndices) :
    (∃ q, c = .ask q) ∨
      SamePlaces r (r.perform c).1 ∧ (r.perform c).1.lookups = r.lookups ∧
        ∀ (s : Registry) k, ¬ c.LooksUp s k := by
  cases c with
  | ask q => exact .inl ⟨q, rfl⟩
  | change name f =>
    refine .inr ?_
    rw [perform, modifyClass]
    cases r.find? name with
    | none => exact ⟨SamePlaces.refl r, rfl, fun _ _ => id⟩
    | some i => exact ⟨samePlaces_modifyAt r i f, rfl, fun _ _ => id⟩
  | changeMember ref f => exact .inr ⟨samePlaces_modifyAt r _ _, rfl, fun _ _ => id⟩
  | refresh name => exact hc.elim
  | refreshAll => exact hc.elim
  | ignore name =>
    refine .inr ⟨samePlaces_ignore r name, ?_, fun _ _ => id⟩
    show (r.ignore name).lookups = _
    unfold ignore
    split <;> rfl

theorem samePlaces_perform (r : Registry) {c : Command} (hc : c.KeepsIndices) :
    SamePlaces r (r.perform c).1 := by
  rcases r.perform_cases hc with ⟨q, rfl⟩ | ⟨hplaces, -⟩
  · show SamePlaces r (r.ask q).2
    rw [ask_eq]
    exact samePlaces_foldl_looked r _
  · exact hplaces

theorem samePlaces_after (r : Registry) {commands : List Command}
    (hc : ∀ c ∈ commands, c.KeepsIndices) : SamePlaces r (r.after commands) := by
  induction commands generalizing r with
  | nil => exact SamePlaces.refl r
  | cons c commands ih =>
    exact (r.samePlaces_perform (hc c List.mem_cons_self)).trans
      (ih _ fun d hd => hc d (List.mem_cons_of_mem c hd))

/-- An index that is kept is kept on, until a refresh. -/
theorem has_perform {r : Registry} (h : r.Sound) {c : Command} (hc : c.KeepsIndices) {k : Nat}
    (hk : r.lookups.Has k) : (r.perform c).1.lookups.Has k := by
  have hlooked : ∀ (places : List Nat) (r : Registry), r.Sound → r.lookups.Has k →
      (places.foldl looked r).lookups.Has k := by
    intro places
    induction places with
    | nil => exact fun _ _ hk => hk
    | cons i places ih =>
      exact fun r h hk => ih (r.looked i) (h.samePlaces ⟨rfl, rfl, rfl⟩)
        ((indexFrom_tells h (h.shallow i)).keeps hk)
  rcases r.perform_cases hc with ⟨q, rfl⟩ | ⟨-, hlookups, -⟩
  · show (r.ask q).2.lookups.Has k
    rw [ask_eq]
    exact hlooked _ r h hk
  · rwa [hlookups]

section

variable {r : Registry} {commands : List Command}

theorem has_after (h : r.Sound) (hc : ∀ c ∈ commands, c.KeepsIndices) {k : Nat}
    (hk : r.lookups.Has k) : (r.after commands).lookups.Has k := by
  induction commands generalizing r with
  | nil => exact hk
  | cons c commands ih =>
    have hc' := hc c List.mem_cons_self
    exact ih (h.samePlaces (r.samePlaces_perform hc')) (fun d hd => hc d (List.mem_cons_of_mem c hd))
      (has_perform h hc' hk)

theorem firstSeen_of_has {k : Nat} (hk : r.lookups.Has k) :
    firstSeen k r commands = r.classAt? k := by
  cases commands with
  | nil => rfl
  | cons c commands => rw [firstSeen, if_pos hk]

/-- What is seen once is seen for good. -/
theorem firstSeen_append_of_has {k : Nat} (hk : (r.after commands).lookups.Has k)
    (more : List Command) : firstSeen k r (commands ++ more) = firstSeen k r commands := by
  induction commands generalizing r with
  | nil => exact firstSeen_of_has hk
  | cons c commands ih =>
    rw [List.cons_append, firstSeen, firstSeen, ih hk]

theorem firstSeen_append_of_not_has (h : r.Sound) (hc : ∀ c ∈ commands, c.KeepsIndices) {k : Nat}
    (hk : ¬ (r.after commands).lookups.Has k) (more : List Command) :
    firstSeen k r (commands ++ more) = firstSeen k (r.after commands) more := by
  induction commands generalizing r with
  | nil => rfl
  | cons c commands ih =>
    have hnot : ¬ r.lookups.Has k := fun hhas => hk (has_after h hc hhas)
    have hc' := hc c List.mem_cons_self
    rw [List.cons_append, firstSeen, if_neg hnot]
    exact ih (h.samePlaces (r.samePlaces_perform hc')) (fun d hd => hc d (List.mem_cons_of_mem c hd)) hk

theorem isSome_firstSeen (hc : ∀ c ∈ commands, c.KeepsIndices) {k : Nat} :
    (firstSeen k r commands).isSome ↔ k < r.classes.length := by
  induction commands generalizing r with
  | nil => rw [firstSeen, classAt?, isSome_getElem?]
  | cons c commands ih =>
    rw [firstSeen]
    split
    · rw [classAt?, isSome_getElem?]
    · rw [ih fun d hd => hc d (List.mem_cons_of_mem c hd),
        (r.samePlaces_perform (hc c List.mem_cons_self)).length]

theorem classAt?_asFirstSeen (hc : ∀ c ∈ commands, c.KeepsIndices) (k : Nat) :
    (r.asFirstSeen commands).classAt? k = firstSeen k r commands := by
  have hsome := isSome_firstSeen (r := r) hc (k := k)
  show (r.classes.mapIdx fun k c => (firstSeen k r commands).getD c)[k]? = _
  rw [List.getElem?_mapIdx]
  cases hseen : firstSeen k r commands with
  | none =>
    have hk : ¬ k < r.classes.length := by rw [← hsome, hseen]; exact Bool.false_ne_true
    rw [List.getElem?_eq_none (Nat.le_of_not_lt hk)]
    rfl
  | some c =>
    have hk : k < r.classes.length := by rw [← hsome, hseen]; rfl
    rw [List.getElem?_eq_getElem hk]
    rfl

theorem samePlaces_asFirstSeen (r : Registry) (commands : List Command) :
    SamePlaces r (r.asFirstSeen commands) := ⟨rfl, rfl, List.length_mapIdx⟩

end

theorem Sound.asFirstSeen {r : Registry} (h : r.Sound) (commands : List Command) :
    (r.asFirstSeen commands).Sound := h.samePlaces (samePlaces_asFirstSeen r commands)

/-- After commands a registry remembers every class as it was first looked up, and has an index of
exactly those classes that the commands looked up. -/
theorem Fresh.remembers_after {r : Registry} (h : r.Fresh) {commands : List Command}
    (hc : ∀ c ∈ commands, c.KeepsIndices) :
    (r.asFirstSeen commands).Remembers (h.sound.asFirstSeen commands) (r.after commands) ∧
      ∀ k, (r.after commands).lookups.Has k ↔ ∃ c ∈ commands, c.LooksUp r k := by
  induction commands using List.reverseRecOn with
  | nil =>
    have hnone : ∀ k, ¬ r.lookups.Has k := by simp [h.lookups, Lookups.Has]
    refine ⟨h.remembers.changed _ (samePlaces_asFirstSeen r []) (SamePlaces.refl r) rfl
      (fun k hk => absurd hk (hnone k)) fun k _ => classAt?_asFirstSeen hc k, fun k => ?_⟩
    refine ⟨fun hk => absurd hk (hnone k), ?_⟩
    rintro ⟨c, hmem, -⟩
    exact absurd hmem List.not_mem_nil
  | append_singleton commands c ih =>
    obtain ⟨hfirst, hlast⟩ := List.forall_mem_append.1 hc
    have hlast := List.forall_mem_singleton.1 hlast
    obtain ⟨hr, hhas⟩ := ih hfirst
    have hseen : ∀ k, (r.after commands).lookups.Has k →
        (r.asFirstSeen (commands ++ [c])).classAt? k = (r.asFirstSeen commands).classAt? k := by
      intro k hk
      rw [classAt?_asFirstSeen hc, classAt?_asFirstSeen hfirst, firstSeen_append_of_has hk]
    have hunseen : ∀ k, ¬ (r.after commands).lookups.Has k →
        (r.asFirstSeen (commands ++ [c])).classAt? k =
          ((r.after commands).perform c).1.classAt? k := by
      intro k hk
      rw [classAt?_asFirstSeen hc, firstSeen_append_of_not_has h.sound hfirst hk, firstSeen,
        if_neg hk, firstSeen]
    have hplaces : SamePlaces (r.asFirstSeen commands) (r.asFirstSeen (commands ++ [c])) :=
      ⟨rfl, rfl, (samePlaces_asFirstSeen r _).length.trans (samePlaces_asFirstSeen r _).length.symm⟩
    rw [after_append]
    show Remembers _ _ ((r.after commands).perform c).1 ∧
      ∀ k, ((r.after commands).perform c).1.lookups.Has k ↔ _
    simp only [List.mem_append, List.mem_singleton, or_and_right, exists_or, exists_eq_left, ← hhas]
    rcases (r.after commands).perform_cases hlast with ⟨q, rfl⟩ | ⟨hplaces', hlookups, hnot⟩
    · -- Looking up changes no class, so the classes are the same before and after it.
      have hasked : ((r.after commands).perform (.ask q)).1 =
          (q.targets r).foldl looked (r.after commands) := by
        have hplaces := samePlaces_after r hfirst
        rw [← Request.targets_of_samePlaces hplaces q]
        exact ask_eq _ q
      have hnow := hr.changed (h.sound.asFirstSeen _) hplaces (SamePlaces.refl _) rfl hseen
        fun k hk => by rw [hunseen k hk, hasked, classAt?, classes_foldl_looked, classAt?]
      rw [hasked]
      exact hnow.foldl_looked (q.targets r)
    · refine ⟨hr.changed _ hplaces hplaces' hlookups hseen hunseen, fun k => ?_⟩
      rw [hlookups, or_iff_left (hnot r k)]

theorem Command.LooksUp.of_descends {r : Registry} {c : Command} {i k : Nat} (h : c.LooksUp r i)
    (hk : r.links.Descends i k) : c.LooksUp r k := by
  cases c with
  | ask q =>
    obtain ⟨j, hj, hji⟩ := h
    exact ⟨j, hj, hji.trans hk⟩
  | _ => exact h.elim

section

variable {r : Registry} {commands : List Command}

theorem Fresh.fst_index_after (h : r.Fresh) (hc : ∀ c ∈ commands, c.KeepsIndices) (i : Nat) :
    ((r.after commands).index i).1 = ((r.asFirstSeen commands).index i).1 := by
  rw [(h.remembers_after hc).1.fst_index, (h.sound.asFirstSeen commands).fst_index_of_new h.lookups]

theorem Fresh.not_has_after (h : r.Fresh) (hc : ∀ c ∈ commands, c.KeepsIndices) {k : Nat}
    (hnone : ∀ c ∈ commands, ¬ c.LooksUp r k) : ¬ (r.after commands).lookups.Has k := by
  rw [(h.remembers_after hc).2]
  rintro ⟨c, hmem, hlooks⟩
  exact hnone c hmem hlooks

/-- A class is remembered as it stood before the first command that looks it up. -/
theorem Fresh.classAt?_asFirstSeen_of_first (h : r.Fresh) {before rest : List Command} {c : Command}
    (hc : ∀ d ∈ before ++ c :: rest, d.KeepsIndices) {k : Nat} (hlooks : c.LooksUp r k)
    (hbefore : ∀ d ∈ before, ¬ d.LooksUp r k) :
    (r.asFirstSeen (before ++ c :: rest)).classAt? k = (r.after before).classAt? k := by
  obtain ⟨hfirst, hrest⟩ := List.forall_mem_append.1 hc
  obtain ⟨hc', -⟩ := List.forall_mem_cons.1 hrest
  have hnot := h.not_has_after hfirst hbefore
  have hthen : ((r.after before).perform c).1.lookups.Has k := by
    have hall : ∀ d ∈ before ++ [c], d.KeepsIndices :=
      List.forall_mem_append.2 ⟨hfirst, List.forall_mem_singleton.2 hc'⟩
    have hmem := (h.remembers_after hall).2 k
    rw [after_append] at hmem
    exact hmem.2 ⟨c, List.mem_append_right _ (List.mem_singleton_self c), hlooks⟩
  rw [classAt?_asFirstSeen hc, firstSeen_append_of_not_has h.sound hfirst hnot, firstSeen,
    if_neg hnot, firstSeen_of_has hthen]
  rcases (r.after before).perform_cases hc' with ⟨q, rfl⟩ | ⟨-, -, hnever⟩
  · show ((r.after before).ask q).2.classAt? k = _
    rw [ask_eq, classAt?, classes_foldl_looked, classAt?]
  · exact absurd hlooks (hnever r k)

/-- A class that was looked up keeps its index whatever changes later. -/
theorem Fresh.fst_index_stays (h : r.Fresh) {more : List Command}
    (hc : ∀ c ∈ commands ++ more, c.KeepsIndices) {i : Nat} (hi : ∃ c ∈ commands, c.LooksUp r i) :
    ((r.after (commands ++ more)).index i).1 = ((r.after commands).index i).1 := by
  obtain ⟨hfirst, -⟩ := List.forall_mem_append.1 hc
  obtain ⟨hr, hhas⟩ := h.remembers_after hfirst
  obtain ⟨hr', -⟩ := h.remembers_after hc
  have hagree : ∀ k, r.links.Descends i k → (r.asFirstSeen (commands ++ more)).classAt? k =
      (r.asFirstSeen commands).classAt? k := by
    intro k hk
    obtain ⟨c, hmem, hlooks⟩ := hi
    have hkept := (hhas k).2 ⟨c, hmem, hlooks.of_descends hk⟩
    rw [classAt?_asFirstSeen hc, classAt?_asFirstSeen hfirst, firstSeen_append_of_has hkept]
  have hlength : (r.asFirstSeen (commands ++ more)).classes.length =
      (r.asFirstSeen commands).classes.length :=
    (samePlaces_asFirstSeen r _).length.trans (samePlaces_asFirstSeen r _).length.symm
  rw [hr'.fst_index, hr.fst_index]
  exact trueIndex_agree (h.sound.asFirstSeen commands) (h.sound.asFirstSeen (commands ++ more))
    rfl hlength hagree

end

/-- Up to a refresh, a registry answers as if every class stood as it did when it was first looked up,
by itself or through a class that inherits from it; one that was not looked up stands as it does now.
So once a class was looked up, no change of any class has an effect on what it answers. -/
theorem findRefs_eq_firstSeen {r : Registry} (h : r.Fresh) {commands : List Command}
    (hc : ∀ c ∈ commands, c.KeepsIndices) :
    (∀ i q, (r.after commands).findRefs i q = (r.asFirstSeen commands).findRefs i q) ∧
    (∀ k, (∀ before c rest, commands = before ++ c :: rest → c.LooksUp r k →
          (∀ d ∈ before, ¬ d.LooksUp r k) →
          (r.asFirstSeen commands).classAt? k = (r.after before).classAt? k) ∧
        ((∀ c ∈ commands, ¬ c.LooksUp r k) →
          (r.asFirstSeen commands).classAt? k = (r.after commands).classAt? k)) ∧
    ∀ more : List Command, (∀ c ∈ more, c.KeepsIndices) →
      ∀ i, (∃ c ∈ commands, c.LooksUp r i) →
        ∀ q, (r.after (commands ++ more)).findRefs i q = (r.after commands).findRefs i q := by
  refine ⟨fun i q => ?_, fun k => ⟨?_, fun hnone => ?_⟩, fun more hmore i hi q => ?_⟩
  · simp only [findRefs, h.fst_index_after hc]
  · rintro before c rest rfl hlooks hbefore
    exact h.classAt?_asFirstSeen_of_first hc hlooks hbefore
  · exact ((h.remembers_after hc).1.unseen k (h.not_has_after hc hnone)).symm
  · simp only [findRefs, h.fst_index_stays (List.forall_mem_append.2 ⟨hc, hmore⟩) hi]

/-- A member of the parent and one of the mixin get other names. -/
def familyRenames : List Command :=
  [.changeMember ⟨0, 3⟩ fun m => { m with name := "quux" },
    .changeMember ⟨1, 0⟩ fun m => { m with name := "wobble" }]

theorem keepsIndices_familyRenames : ∀ c ∈ familyRenames, c.KeepsIndices := by
  simp [familyRenames, Command.KeepsIndices]

/-- The parent was looked up before its member was renamed and answers under the old name.  The mixin
was not, so the subclass that is looked up later shows its member under the new one. -/
theorem findRefs_familyRenames :
    let commands := .ask (.members 0 {}) :: familyRenames
    (familyRegistry.after commands).findRefs 0 { name := some "bar" } = [⟨0, 3⟩] ∧
      (familyRegistry.after commands).findRefs 2 {} =
        (familyRegistry.asFirstSeen commands).findRefs 2 {} ∧
      (familyRegistry.after commands).findRefs 2 { name := some "wobble" } = [⟨1, 0⟩] := by
  have hfresh := Fresh.made build_family
  have hask : ∀ c ∈ [Command.ask (.members 0 {})], c.KeepsIndices := by
    simp [Command.KeepsIndices]
  have hlooks : ∃ c ∈ [Command.ask (.members 0 {})], c.LooksUp familyRegistry 0 :=
    ⟨_, List.mem_singleton_self _, 0, List.mem_singleton_self 0, Relation.ReflTransGen.refl⟩
  obtain ⟨-, -, hstays⟩ := findRefs_eq_firstSeen hfresh hask
  obtain ⟨hanswers, -⟩ := findRefs_eq_firstSeen hfresh
    (List.forall_mem_append.2 ⟨hask, keepsIndices_familyRenames⟩)
  refine ⟨?_, hanswers 2 {}, by decide⟩
  exact (hstays familyRenames keepsIndices_familyRenames 0 hlooks { name := some "bar" }).trans
    (by decide)

/-- Where nothing was looked up before, the subclass shows the member under its new name alone. -/
theorem unseen_class_shows_change :
    (build family []).1 = .ok familyRegistry ∧ (∀ c ∈ familyRenames, c.KeepsIndices) ∧
      familyRegistry.findRefs 2 { name := some "baz" } = [⟨1, 0⟩] ∧
      (familyRegistry.after familyRenames).findRefs 2 { name := some "baz" } = [] ∧
      (familyRegistry.after familyRenames).findRefs 2 { name := some "wobble" } = [⟨1, 0⟩] :=
  ⟨build_family, keepsIndices_familyRenames, by decide, by decide, by decide⟩

end Registry
end ApiDoc
