/-
The search for a class that inherits from itself.

The search walks down a path of classes that hang together and keeps aside the classes that it has
finished.  Two facts carry it.  A finished class reaches no cycle, which is said here by
accessibility: going from class to base must end.  And a base that is met again on the path closes a
cycle.  So the search fails exactly if there is a cycle, and its failure shows one (`cycle?_isSome_iff`,
`isCycle_of_cycle?`).
-/
import ApiDoc.Registry.Basic
import Mathlib.Data.List.Chain
import Mathlib.Data.List.Perm.Subperm

namespace ApiDoc
namespace Links

def Inherits (l : Links) (i j : Nat) : Prop := j ∈ l.bases i

/-- Inheriting relates no places but those of `n` classes. -/
def Closed (l : Links) (n : Nat) : Prop := ∀ i j, l.Inherits i j → i < n ∧ j < n

/-- Going from a class to what it inherits from, again and again, ends. -/
def Ends (l : Links) (i : Nat) : Prop := Acc (fun j i => l.Inherits i j) i

/-- A walk from a class back to itself. -/
structure IsCycle (l : Links) (c : List Nat) : Prop where
  two_le : 2 ≤ c.length
  closes : c.head? = c.getLast?
  linked : c.IsChain l.Inherits

/-- A path that hangs together, its last class first. -/
def Trail (l : Links) (path : List Nat) : Prop := path.IsChain fun j i => l.Inherits i j

theorem ends_iff {l : Links} {i : Nat} : l.Ends i ↔ ∀ j, l.Inherits i j → l.Ends j :=
  ⟨fun h _ hj => h.inv hj, fun h => Acc.intro i h⟩

/-- Where the walk ends, no class is reached from itself. -/
theorem Ends.not_transGen {l : Links} {i : Nat} (h : l.Ends i) :
    ¬ Relation.TransGen l.Inherits i i := by
  induction h with
  | intro i _ ih =>
    intro hi
    obtain ⟨j, hij, hji⟩ := Relation.TransGen.head'_iff.1 hi
    exact ih j hij (Relation.TransGen.tail' hji hij)

theorem IsCycle.transGen {l : Links} {c : List Nat} (h : l.IsCycle c) :
    ∃ i, c.head? = some i ∧ Relation.TransGen l.Inherits i i := by
  obtain ⟨hlen, hclose, hlink⟩ := h
  match c, hlen with
  | i :: j :: rest, _ =>
    have hne : j :: rest ≠ [] := List.cons_ne_nil j rest
    have hij : l.Inherits i j := (List.isChain_cons_cons.1 hlink).1
    have hlast : (j :: rest).getLast hne = i := by
      rw [List.head?_cons, List.getLast?_cons_cons, List.getLast?_eq_some_getLast hne] at hclose
      exact (Option.some.inj hclose).symm
    have hji : Relation.ReflTransGen l.Inherits j ((j :: rest).getLast hne) :=
      List.relationReflTransGen_of_exists_isChain_cons rest (List.isChain_cons_cons.1 hlink).2 rfl
    rw [hlast] at hji
    exact ⟨i, rfl, Relation.TransGen.head' hij hji⟩

theorem IsCycle.lt {l : Links} {n : Nat} (hl : l.Closed n) {c : List Nat} (h : l.IsCycle c)
    {i : Nat} (hi : i ∈ c) : i < n := by
  obtain ⟨hlen, -, hlink⟩ := h
  match c, hlen with
  | a :: b :: rest, _ =>
    have hab : l.Inherits a b := (List.isChain_cons_cons.1 hlink).1
    have hall := hlink.induction (fun x => x < n) _ (fun _ _ hxy _ => (hl _ _ hxy).2)
      (fun _ => (hl _ _ hab).1)
    exact hall i hi

theorem isCycle_cycleOf {l : Links} {path : List Nat} {i : Nat} (ht : l.Trail (i :: path))
    (hi : i ∈ path) : l.IsCycle (cycleOf path i) := by
  obtain ⟨since, before, rfl, hfirst⟩ := List.eq_append_cons_of_mem hi
  have htake : (since ++ i :: before).takeWhile (· != i) = since := by
    have hne : ∀ j ∈ since, (j != i) = true := by
      intro j hj
      rw [bne_iff_ne]
      rintro rfl
      exact hfirst hj
    rw [List.takeWhile_append_of_pos hne]
    simp
  have hback : l.Trail (i :: since ++ [i]) := by
    refine List.IsChain.prefix ht ⟨before, ?_⟩
    simp
  have hrev : cycleOf (since ++ i :: before) i = (i :: since ++ [i]).reverse := by
    rw [cycleOf, htake]
    simp
  rw [hrev]
  refine ⟨by simp, ?_, ?_⟩
  · rw [List.head?_reverse, List.getLast?_reverse, List.getLast?_append, List.head?_append]
    rfl
  · rw [List.isChain_reverse]
    exact hback

/-- The classes that the search has finished reach no cycle. -/
def Settled (l : Links) (done : List Nat) : Prop := ∀ i ∈ done, l.Ends i

/-- What the search must say about classes `js` when `done` was finished before. -/
def Outcome (l : Links) (js done : List Nat) : Except (List Nat) (List Nat) → Prop
  | .ok found => js ⊆ found ∧ done ⊆ found ∧ l.Settled found
  | .error c => l.IsCycle c

theorem foldlM_outcome {l : Links} {search : List Nat → Nat → Except (List Nat) (List Nat)}
    {js : List Nat} (h : ∀ j ∈ js, ∀ done, l.Settled done → l.Outcome [j] done (search done j))
    {done : List Nat} (hd : l.Settled done) : l.Outcome js done (js.foldlM search done) := by
  induction js generalizing done with
  | nil => exact ⟨List.nil_subset done, List.Subset.refl done, hd⟩
  | cons j js ih =>
    have hone := h j List.mem_cons_self done hd
    rw [List.foldlM_cons]
    cases hs : search done j with
    | error c =>
      rw [hs] at hone
      exact hone
    | ok found =>
      rw [hs] at hone
      obtain ⟨hj, hdone, hfound⟩ := hone
      have hrest := ih (fun k hk => h k (List.mem_cons_of_mem j hk)) hfound
      change l.Outcome (j :: js) done (js.foldlM search found)
      cases hf : js.foldlM search found with
      | error c =>
        rw [hf] at hrest
        exact hrest
      | ok all =>
        rw [hf] at hrest
        obtain ⟨hjs, hall, hset⟩ := hrest
        refine ⟨?_, List.Subset.trans hdone hall, hset⟩
        exact List.cons_subset.2 ⟨hall (hj (List.mem_singleton_self j)), hjs⟩

/-- A path without repetitions is no longer than there are classes. -/
theorem length_le_of_nodup {n : Nat} {path : List Nat} (hn : path.Nodup)
    (hp : ∀ i ∈ path, i < n) : path.length ≤ n := by
  have hsub : path ⊆ List.range n := fun i hi => List.mem_range.2 (hp i hi)
  have hlen := (List.subperm_of_subset hn hsub).length_le
  rwa [List.length_range] at hlen

/-- A visit finishes its class or shows a cycle.  The bound on the depth is not met, because the
classes of the path are different ones. -/
theorem visit_outcome {l : Links} {n : Nat} (hl : l.Closed n) {depth : Nat} {path : List Nat}
    (hlen : depth + path.length = n + 1) (hn : path.Nodup) (hp : ∀ i ∈ path, i < n)
    {i : Nat} (hi : i < n) (ht : l.Trail (i :: path)) {done : List Nat} (hd : l.Settled done) :
    l.Outcome [i] done (l.visit depth path done i) := by
  induction depth generalizing path i done with
  | zero =>
    have := length_le_of_nodup hn hp
    omega
  | succ depth ih =>
    rw [visit]
    by_cases hdone : i ∈ done
    · simp only [List.contains_eq_mem, hdone, decide_true, if_true]
      exact ⟨List.cons_subset.2 ⟨hdone, List.nil_subset done⟩, List.Subset.refl done, hd⟩
    by_cases hpath : i ∈ path
    · simp only [List.contains_eq_mem, hdone, hpath, decide_true, decide_false, if_true,
        Bool.false_eq_true, if_false]
      exact isCycle_cycleOf ht hpath
    simp only [List.contains_eq_mem, hdone, hpath, decide_false, Bool.false_eq_true, if_false]
    have hbases : ∀ j ∈ l.bases i, ∀ done, l.Settled done →
        l.Outcome [j] done (l.visit depth (i :: path) done j) := by
      intro j hj done hd
      refine ih ?_ (List.nodup_cons.2 ⟨hpath, hn⟩) ?_ (hl i j hj).2 ?_ hd
      · rw [List.length_cons]; omega
      · intro k hk
        rcases List.mem_cons.1 hk with rfl | hk
        · exact hi
        · exact hp k hk
      · exact List.isChain_cons_cons.2 ⟨hj, ht⟩
    have hall := foldlM_outcome hbases hd
    cases hf : (l.bases i).foldlM (fun done j => l.visit depth (i :: path) done j) done with
    | error c =>
      rw [hf] at hall
      exact hall
    | ok found =>
      rw [hf] at hall
      obtain ⟨hsub, hold, hset⟩ := hall
      have hends : l.Ends i := ends_iff.2 fun j hj => hset j (hsub hj)
      refine ⟨List.cons_subset.2 ⟨List.mem_cons_self, List.nil_subset _⟩, ?_, ?_⟩
      · exact List.subset_cons_of_subset i hold
      · intro k hk
        rcases List.mem_cons.1 hk with rfl | hk
        · exact hends
        · exact hset k hk

theorem search_outcome {l : Links} {n : Nat} (hl : l.Closed n) :
    l.Outcome (List.range n) []
      ((List.range n).foldlM (fun done i => l.visit (n + 1) [] done i) []) := by
  refine foldlM_outcome ?_ (fun i hi => absurd hi List.not_mem_nil)
  intro i hi done hd
  exact visit_outcome hl (by rw [List.length_nil]) List.nodup_nil
    (fun k hk => absurd hk List.not_mem_nil) (List.mem_range.1 hi) (List.isChain_singleton i) hd

/-- If no cycle is found, going from class to base ends everywhere. -/
theorem ends_of_cycle?_eq_none {l : Links} {n : Nat} (hl : l.Closed n) (h : l.cycle? n = none)
    (i : Nat) : l.Ends i := by
  have hs := search_outcome hl
  rw [cycle?] at h
  cases hf : (List.range n).foldlM (fun done i => l.visit (n + 1) [] done i) [] with
  | error c =>
    rw [hf] at h
    exact absurd h (Option.some_ne_none c)
  | ok found =>
    rw [hf] at hs
    obtain ⟨hall, -, hset⟩ := hs
    by_cases hi : i < n
    · exact hset i (hall (List.mem_range.2 hi))
    · exact ends_iff.2 fun j hj => absurd (hl i j hj).1 hi

theorem isCycle_of_cycle? {l : Links} {n : Nat} (hl : l.Closed n) {c : List Nat}
    (h : l.cycle? n = some c) : l.IsCycle c := by
  have hs := search_outcome hl
  rw [cycle?] at h
  cases hf : (List.range n).foldlM (fun done i => l.visit (n + 1) [] done i) [] with
  | ok found =>
    rw [hf] at h
    exact absurd h.symm (Option.some_ne_none c)
  | error c' =>
    rw [hf] at h hs
    obtain rfl := Option.some.inj h
    exact hs

/-- The search finds a cycle exactly if some class inherits from itself. -/
theorem cycle?_isSome_iff {l : Links} {n : Nat} (hl : l.Closed n) :
    (l.cycle? n).isSome ↔ ∃ i, Relation.TransGen l.Inherits i i := by
  constructor
  · intro h
    obtain ⟨c, hc⟩ := Option.isSome_iff_exists.1 h
    obtain ⟨i, -, hi⟩ := (isCycle_of_cycle? hl hc).transGen
    exact ⟨i, hi⟩
  · rintro ⟨i, hi⟩
    by_contra hnone
    have hends := ends_of_cycle?_eq_none hl (by simpa using hnone) i
    exact hends.not_transGen hi

end Links
end ApiDoc
