/-
How deep inheritance goes.

Looking up members and asking for ancestors follow inheritance down to classes without bases, and both
carry a bound on the depth.  Where inheritance is acyclic no more classes follow one another than
there are, so the bound is never met: the answers are the same under any larger one
(`answersFrom_depth`, `indexFrom_depth`).
-/
import ApiDoc.Proofs.Inheritance.Search
import ApiDoc.Registry.Lookup

namespace ApiDoc
namespace Links

/-- No more than `d` classes follow one another on the way from class `i` to its bases. -/
def Shallow (l : Links) : Nat → Nat → Prop
  | 0, _ => False
  | d + 1, i => ∀ j, l.Inherits i j → l.Shallow d j

def ancestor? (l : Links) : Nat → Nat → Option Nat
  | 0, i => some i
  | steps + 1, i => (l.parentOf? i).bind (l.ancestor? steps)

theorem inherits_of_parentOf? {l : Links} {i p : Nat} (h : l.parentOf? i = some p) :
    l.Inherits i p := by
  rw [Inherits, bases, h]
  exact List.mem_append_left _ (List.mem_singleton_self p)

theorem inherits_of_mem_mixinsOf {l : Links} {i j : Nat} (h : j ∈ l.mixinsOf i) :
    l.Inherits i j :=
  List.mem_append_right _ h

/-- A path cannot be continued for longer than there are classes, because it would meet itself. -/
theorem shallow_of_trail {l : Links} {n : Nat} (hl : l.Closed n) (he : ∀ i, l.Ends i) {d : Nat}
    {path : List Nat} (hlen : d + path.length = n + 1) (hn : path.Nodup)
    (hp : ∀ i ∈ path, i < n) {i : Nat} (ht : l.Trail (i :: path)) : l.Shallow d i := by
  induction d generalizing path i with
  | zero =>
    have := length_le_of_nodup hn hp
    omega
  | succ d ih =>
    intro j hj
    have hfresh : i ∉ path := by
      intro hi
      obtain ⟨k, -, hk⟩ := (isCycle_cycleOf ht hi).transGen
      exact (he k).not_transGen hk
    refine ih ?_ (List.nodup_cons.2 ⟨hfresh, hn⟩) ?_ (List.isChain_cons_cons.2 ⟨hj, ht⟩)
    · rw [List.length_cons]; omega
    · intro k hk
      rcases List.mem_cons.1 hk with rfl | hk
      · exact (hl k j hj).1
      · exact hp k hk

theorem shallow_of_ends {l : Links} {n : Nat} (hl : l.Closed n) (he : ∀ i, l.Ends i) (i : Nat) :
    l.Shallow (n + 1) i :=
  shallow_of_trail hl he rfl List.nodup_nil (fun _ hk => absurd hk List.not_mem_nil)
    (List.isChain_singleton i)

theorem Shallow.succ {l : Links} {d i : Nat} (h : l.Shallow d i) : l.Shallow (d + 1) i := by
  induction d generalizing i with
  | zero => exact h.elim
  | succ d ih => exact fun j hj => ih (h j hj)

theorem Shallow.add {l : Links} {d i : Nat} (h : l.Shallow d i) (more : Nat) :
    l.Shallow (d + more) i := by
  induction more with
  | zero => exact h
  | succ more ih => exact ih.succ

theorem Shallow.ancestor? {l : Links} {d i : Nat} (h : l.Shallow d i) : l.ancestor? d i = none := by
  induction d generalizing i with
  | zero => exact h.elim
  | succ d ih =>
    rw [Links.ancestor?]
    cases hp : l.parentOf? i with
    | none => rfl
    | some p => exact ih (h p (inherits_of_parentOf? hp))

end Links

namespace Registry

theorem answersFrom_depth {r : Registry} {name : String} {d d' i : Nat}
    (h : r.links.Shallow d i) (h' : r.links.Shallow d' i) :
    r.answersFrom name d i = r.answersFrom name d' i := by
  induction d generalizing d' i with
  | zero => exact h.elim
  | succ d ih =>
    cases d' with
    | zero => exact h'.elim
    | succ d' =>
      rw [answersFrom, answersFrom]
      cases hp : r.links.parentOf? i with
      | none => rfl
      | some p =>
        have hip := Links.inherits_of_parentOf? hp
        simp only [ih (h p hip) (h' p hip)]

/-- An index depends on nothing but the indices of the bases. -/
theorem makeIndex_congr {r : Registry} {f g : Nat → Lookups → ClassIndex × Lookups} {i : Nat}
    (h : ∀ j, r.links.Inherits i j → f j = g j) (l : Lookups) :
    r.makeIndex f i l = r.makeIndex g i l := by
  have hparent : r.inherited f i l = r.inherited g i l := by
    unfold inherited
    cases hp : r.links.parentOf? i with
    | none => rfl
    | some p => simp only [h p (Links.inherits_of_parentOf? hp)]
  have hmixins : ∀ s, (r.links.mixinsOf i).foldl (addMixin f) s =
      (r.links.mixinsOf i).foldl (addMixin g) s := by
    intro s
    refine List.foldl_ext _ _ s fun s j hj => ?_
    simp only [addMixin, h j (Links.inherits_of_mem_mixinsOf hj)]
  simp only [makeIndex, hparent, hmixins]

/-- Making an index does not depend on the bound. -/
theorem indexFrom_depth {r : Registry} {d d' i : Nat} (h : r.links.Shallow d i)
    (h' : r.links.Shallow d' i) : r.indexFrom d i = r.indexFrom d' i := by
  induction d generalizing d' i with
  | zero => exact h.elim
  | succ d ih =>
    cases d' with
    | zero => exact h'.elim
    | succ d' =>
      funext l
      rw [indexFrom, indexFrom]
      cases l.indices.lookup i with
      | some index => rfl
      | none => exact makeIndex_congr (fun j hj => ih (h j hj) (h' j hj)) l

end Registry
end ApiDoc
