/-
Reading an account: which members land in which class, and which ones wait.

`land` says which class the members charged to a name go to, as far as that is known.  When a name
gets its class, the members that wait for it move there, and no others do.
-/
import ApiDoc.Proofs.Buckets
import ApiDoc.Proofs.Grouping.Ledger
import Mathlib.Logic.Function.Basic

namespace ApiDoc
namespace Grouping

def chargedTo (l : List (String × Member)) (name : String) : List Member :=
  (l.filter fun p => p.1 == name).map Prod.snd

/-- The members charged to the names of a class. -/
def landedAt (land : String → Option Nat) (l : List (String × Member)) (i : Nat) : List Member :=
  (l.filter fun p => land p.1 == some i).map Prod.snd

/-- The members whose names have no class, by their names. -/
def waitingFor (land : String → Option Nat) (l : List (String × Member)) :
    List (String × List Member) :=
  ((distinct (l.map Prod.fst)).filter fun name => (land name).isNone).map fun name =>
    (name, chargedTo l name)

theorem landedAt_append (land : String → Option Nat) (l l' : List (String × Member)) (i : Nat) :
    landedAt land (l ++ l') i = landedAt land l i ++ landedAt land l' i := by
  rw [landedAt, List.filter_append, List.map_append]
  rfl

theorem chargedTo_append (l l' : List (String × Member)) (name : String) :
    chargedTo (l ++ l') name = chargedTo l name ++ chargedTo l' name := by
  rw [chargedTo, List.filter_append, List.map_append]
  rfl

theorem landedAt_map_pair (land : String → Option Nat) (name : String) (ms : List Member) (i : Nat) :
    landedAt land (ms.map fun m => (name, m)) i = if land name = some i then ms else [] := by
  induction ms with
  | nil => simp [landedAt]
  | cons m ms ih =>
    unfold landedAt at ih ⊢
    by_cases h : land name = some i
    · simpa [h] using ih
    · simp [h]

/-- Members that are charged to a name with a class land in that class, behind those before them. -/
theorem landedAt_append_of_some {land : String → Option Nat} {name : String} {i : Nat}
    (hi : land name = some i) (l : List (String × Member)) (ms : List Member) (k : Nat) :
    landedAt land (l ++ ms.map fun m => (name, m)) k =
      landedAt land l k ++ if k = i then ms else [] := by
  rw [landedAt_append, landedAt_map_pair, hi]
  by_cases hk : k = i
  · simp [hk]
  · simp [hk, Ne.symm hk]

theorem landedAt_eq_nil {land : String → Option Nat} {i : Nat} (h : ∀ name, land name ≠ some i)
    (l : List (String × Member)) : landedAt land l i = [] := by
  rw [landedAt, List.map_eq_nil_iff, List.filter_eq_nil_iff]
  intro p _ hp
  exact h p.1 (by simpa using hp)

/-- When a name gets its class, that class gets the members charged to the name. -/
theorem landedAt_update_self {land : String → Option Nat} {name : String} (h : land name = none)
    (l : List (String × Member)) (i : Nat) :
    (landedAt (Function.update land name (some i)) l i).Perm
      (landedAt land l i ++ chargedTo l name) := by
  have hfilter : (l.filter fun p => Function.update land name (some i) p.1 == some i) =
      l.filter fun p => (land p.1 == some i) || (p.1 == name) := by
    refine List.filter_congr fun p _ => ?_
    by_cases hp : p.1 = name
    · rw [hp, Function.update_self]
      simp
    · rw [Function.update_of_ne hp]
      simp [hp]
  rw [landedAt, hfilter, landedAt, chargedTo, ← List.map_append]
  refine (filter_or_perm fun p _ hp => ?_).map _
  have hne : p.1 ≠ name := by
    intro hname
    rw [hname, h] at hp
    exact absurd hp (by simp)
  simp [hne]

theorem landedAt_update_of_ne {land : String → Option Nat} {name : String} (h : land name = none)
    (l : List (String × Member)) {i k : Nat} (hk : k ≠ i) :
    landedAt (Function.update land name (some i)) l k = landedAt land l k := by
  unfold landedAt
  congr 1
  refine List.filter_congr fun p _ => ?_
  by_cases hp : p.1 = name
  · rw [hp, Function.update_self, h]
    simp [Ne.symm hk]
  · rw [Function.update_of_ne hp]

/-- Who waits for the name stops waiting. -/
theorem waitingFor_update (land : String → Option Nat) (name : String) (i : Nat)
    (l : List (String × Member)) :
    waitingFor (Function.update land name (some i)) l =
      (waitingFor land l).filter fun w => w.1 != name := by
  unfold waitingFor
  rw [List.filter_map, List.filter_filter]
  congr 1
  refine List.filter_congr fun n _ => ?_
  by_cases hn : n = name
  · rw [hn, Function.update_self]
    simp
  · rw [Function.update_of_ne hn]
    simp [hn]

theorem chargedTo_eq_nil {l : List (String × Member)} {name : String} (h : name ∉ l.map Prod.fst) :
    chargedTo l name = [] := by
  rw [chargedTo, List.map_eq_nil_iff, List.filter_eq_nil_iff]
  intro p hp hname
  exact h (List.mem_map.2 ⟨p, hp, eq_of_beq hname⟩)

theorem mem_waitingNames {land : String → Option Nat} {l : List (String × Member)} {name : String} :
    name ∈ (distinct (l.map Prod.fst)).filter (fun n => (land n).isNone) ↔
      name ∈ l.map Prod.fst ∧ land name = none := by
  rw [List.mem_filter, mem_distinct, Option.isNone_iff_eq_none]

theorem lookup_waitingFor (land : String → Option Nat) (l : List (String × Member)) (name : String) :
    (waitingFor land l).lookup name =
      if name ∈ l.map Prod.fst ∧ land name = none then some (chargedTo l name) else none := by
  rw [waitingFor, lookup_map _ (fun n => n) (chargedTo l)]
  by_cases h : name ∈ l.map Prod.fst ∧ land name = none
  · obtain ⟨n, hn⟩ := Option.isSome_iff_exists.1
      ((List.find?_isSome (p := fun n => n == name)).2
        ⟨name, mem_waitingNames.2 h, beq_self_eq_true name⟩)
    have hname : n = name := by simpa using List.find?_some (p := fun n => n == name) hn
    rw [if_pos h, hn, hname]
    rfl
  · rw [if_neg h, Option.map_eq_none_iff, List.find?_eq_none]
    intro n hn hname
    exact h (mem_waitingNames.1 (eq_of_beq hname ▸ hn))

theorem distinct_append (first second : List String) :
    distinct (first ++ second) = appendNew (distinct first) second :=
  appendNew_append [] first second

theorem filter_appendNew {p : String → Bool} {second : List String} (h : ∀ x ∈ second, p x = false)
    (first : List String) : (appendNew first second).filter p = first.filter p := by
  induction second generalizing first with
  | nil => rfl
  | cons x second ih =>
    rw [appendNew_cons, ih (fun y hy => h y (List.mem_cons_of_mem x hy))]
    by_cases hx : first.contains x = true
    · rw [if_pos hx]
    · rw [if_neg hx, List.filter_append, List.filter_singleton, h x List.mem_cons_self]
      simp

/-- A member that is charged to a name with a class does not wait. -/
theorem waitingFor_append_of_some {land : String → Option Nat} {name : String} {i : Nat}
    (h : land name = some i) (l : List (String × Member)) (ms : List Member) :
    waitingFor land (l ++ ms.map fun m => (name, m)) = waitingFor land l := by
  have hnames : ∀ x ∈ (ms.map fun m => (name, m)).map Prod.fst, x = name := by
    intro x hx
    rw [List.map_map] at hx
    obtain ⟨m, -, rfl⟩ := List.mem_map.1 hx
    rfl
  have hrejected : ∀ x ∈ (ms.map fun m => (name, m)).map Prod.fst, (land x).isNone = false := by
    intro x hx
    rw [hnames x hx, h]
    rfl
  unfold waitingFor
  rw [List.map_append, distinct_append, filter_appendNew hrejected]
  refine List.map_congr_left fun n hn => ?_
  have hother : n ∉ (ms.map fun m => (name, m)).map Prod.fst := by
    intro hmem
    rw [mem_waitingNames, hnames n hmem, h] at hn
    exact absurd hn.2 (by simp)
  rw [chargedTo_append, chargedTo_eq_nil hother, List.append_nil]

theorem enqueue_map {names : List String} (hn : names.Nodup) (f : String → List Member)
    (name : String) (m : Member) :
    enqueue name m (names.map fun n => (n, f n)) =
      if name ∈ names then names.map fun n => (n, if n = name then f n ++ [m] else f n)
      else names.map (fun n => (n, f n)) ++ [(name, [m])] := by
  induction names with
  | nil => rfl
  | cons n names ih =>
    obtain ⟨hfresh, hn⟩ := List.nodup_cons.1 hn
    rw [List.map_cons, enqueue]
    by_cases h : n = name
    · subst h
      have hrest : (names.map fun k => (k, if k = n then f k ++ [m] else f k)) =
          names.map fun k => (k, f k) := by
        refine List.map_congr_left fun k hk => ?_
        rw [if_neg fun hkn : k = n => hfresh (hkn ▸ hk)]
      rw [if_pos (beq_self_eq_true n), if_pos List.mem_cons_self, List.map_cons, if_pos rfl, hrest]
    · rw [if_neg (by simpa using h), ih hn]
      by_cases hmem : name ∈ names
      · rw [if_pos hmem, if_pos (List.mem_cons_of_mem n hmem), List.map_cons, if_neg h]
      · have hcons : name ∉ n :: names := by
          rw [List.mem_cons, not_or]
          exact ⟨Ne.symm h, hmem⟩
        rw [if_neg hmem, if_neg hcons]
        rfl

/-- A member that is charged to a name without a class waits after those that do so already. -/
theorem enqueue_waitingFor {land : String → Option Nat} {name : String} (h : land name = none)
    (l : List (String × Member)) (m : Member) :
    enqueue name m (waitingFor land l) = waitingFor land (l ++ [(name, m)]) := by
  have hsingle : ∀ n, chargedTo [(name, m)] n = if n = name then [m] else [] := by
    intro n
    by_cases hn : n = name
    · simp [chargedTo, hn]
    · simp [chargedTo, hn, Ne.symm hn]
  have hnodup := (nodup_distinct (l.map Prod.fst)).filter fun n => (land n).isNone
  unfold waitingFor
  rw [enqueue_map hnodup, List.map_append, distinct_append, List.map_singleton, appendNew_cons,
    appendNew_nil]
  by_cases hmem : name ∈ l.map Prod.fst
  · have hdistinct : (distinct (l.map Prod.fst)).contains name = true := by
      simpa using mem_distinct.2 hmem
    rw [if_pos (mem_waitingNames.2 ⟨hmem, h⟩), if_pos hdistinct]
    refine List.map_congr_left fun n _ => ?_
    rw [chargedTo_append, hsingle]
    by_cases hn : n = name
    · rw [if_pos hn, if_pos hn]
    · rw [if_neg hn, if_neg hn, List.append_nil]
  · have hnew : ¬ (distinct (l.map Prod.fst)).contains name = true := by
      simpa using fun hd => hmem (mem_distinct.1 hd)
    have hkept : [name].filter (fun n => (land n).isNone) = [name] := by
      rw [List.filter_singleton, h]
      rfl
    rw [if_neg fun hw => hmem (mem_waitingNames.1 hw).1, if_neg hnew, List.filter_append,
      List.map_append, hkept, List.map_singleton, chargedTo_append, hsingle, if_pos rfl,
      chargedTo_eq_nil hmem, List.nil_append]
    congr 1
    refine List.map_congr_left fun n hn => ?_
    have hne : n ≠ name := fun hname => hmem (hname ▸ (mem_waitingNames.1 hn).1)
    rw [chargedTo_append, hsingle, if_neg hne, List.append_nil]

end Grouping
end ApiDoc
