/-
Lists that are sorted into numbered buckets: the buckets together hold what was sorted.
-/
import Mathlib.Data.List.Basic

namespace ApiDoc

variable {α β : Type}

/-- Tests that exclude one another split a list. -/
theorem filter_or_perm {p q : α → Bool} {l : List α} (h : ∀ x ∈ l, p x = true → q x = false) :
    (l.filter fun x => p x || q x).Perm (l.filter p ++ l.filter q) := by
  have hsplit := List.filter_append_perm p (l.filter fun x => p x || q x)
  rw [List.filter_filter, List.filter_filter] at hsplit
  have hleft : (l.filter fun x => p x && (p x || q x)) = l.filter p :=
    List.filter_congr fun x _ => by cases p x <;> rfl
  have hright : (l.filter fun x => !p x && (p x || q x)) = l.filter q := by
    refine List.filter_congr fun x hx => ?_
    cases hp : p x with
    | false => rfl
    | true => rw [h x hx hp]; rfl
  rw [hleft, hright] at hsplit
  exact hsplit.symm

/-- The first buckets together hold what was sorted into one of them. -/
theorem range_flatMap_filter_perm (l : List α) (key : α → Option Nat) (f : α → List β) (n : Nat) :
    ((List.range n).flatMap fun i => (l.filter fun x => key x == some i).flatMap f).Perm
      ((l.filter fun x => (key x).any fun i => i < n).flatMap f) := by
  induction n with
  | zero =>
    have hempty : (l.filter fun x => (key x).any fun i => decide (i < 0)) = [] := by
      refine List.filter_eq_nil_iff.2 fun x _ => ?_
      cases key x with
      | none => simp
      | some i => simp
    rw [hempty]
    exact List.Perm.nil
  | succ n ih =>
    have hlast : (l.filter fun x => (key x).any fun i => decide (i < n + 1)) =
        l.filter fun x => ((key x).any fun i => decide (i < n)) || (key x == some n) := by
      refine List.filter_congr fun x _ => ?_
      cases key x with
      | none => rfl
      | some i =>
        rw [Option.any_some, Option.any_some, Bool.eq_iff_iff]
        simp only [decide_eq_true_eq, Bool.or_eq_true, beq_iff_eq, Option.some.injEq]
        omega
    have hdisjoint : ∀ x ∈ l, ((key x).any fun i => decide (i < n)) = true →
        (key x == some n) = false := by
      intro x _ hx
      cases hk : key x with
      | none => rfl
      | some i =>
        rw [hk, Option.any_some, decide_eq_true_eq] at hx
        simpa using Nat.ne_of_lt hx
    rw [List.range_succ, List.flatMap_append, List.flatMap_singleton, hlast]
    refine (ih.append_right _).trans ?_
    rw [← List.flatMap_append]
    exact ((filter_or_perm hdisjoint).flatMap_right f).symm

/-- What stands in a list whose elements hold what the buckets hold. -/
theorem flatMap_perm_range (xs : List α) (f : α → List β) (want : Nat → List β)
    (h : ∀ i x, xs[i]? = some x → (f x).Perm (want i)) :
    (xs.flatMap f).Perm ((List.range xs.length).flatMap want) := by
  induction xs generalizing want with
  | nil => exact List.Perm.nil
  | cons x xs ih =>
    rw [List.flatMap_cons, List.length_cons, List.range_succ_eq_map, List.flatMap_cons,
      List.flatMap_map]
    exact (h 0 x rfl).append (ih (fun i => want (i + 1)) fun i y hy => h (i + 1) y hy)

end ApiDoc
