/-
Lists of names in which repetitions count for nothing.
-/
namespace ApiDoc

def appendNew (first second : List String) : List String :=
  second.foldl (fun seen x => if seen.contains x then seen else seen ++ [x]) first

def distinct (names : List String) : List String := appendNew [] names

@[simp] theorem appendNew_nil (first : List String) : appendNew first [] = first := rfl

theorem appendNew_cons (first : List String) (x : String) (second : List String) :
    appendNew first (x :: second) =
      appendNew (if first.contains x then first else first ++ [x]) second := rfl

theorem mem_appendNew {first second : List String} {x : String} :
    x ∈ appendNew first second ↔ x ∈ first ∨ x ∈ second := by
  induction second generalizing first with
  | nil => simp
  | cons y second ih =>
    rw [appendNew_cons, ih]
    by_cases h : y ∈ first
    · simp only [List.contains_eq_mem, h, decide_true, if_true, List.mem_cons]
      constructor
      · rintro (hx | hx)
        · exact Or.inl hx
        · exact Or.inr (Or.inr hx)
      · rintro (hx | rfl | hx)
        · exact Or.inl hx
        · exact Or.inl h
        · exact Or.inr hx
    · simp only [List.contains_eq_mem, h, decide_false, Bool.false_eq_true, if_false,
        List.mem_append, List.mem_cons, List.not_mem_nil, or_false, or_assoc]

theorem appendNew_append (first second third : List String) :
    appendNew first (second ++ third) = appendNew (appendNew first second) third :=
  List.foldl_append

/-- Names that are all there already add nothing. -/
theorem appendNew_of_subset {first second : List String} (h : second ⊆ first) :
    appendNew first second = first := by
  induction second with
  | nil => rfl
  | cons x second ih =>
    obtain ⟨hx, hsecond⟩ := List.cons_subset.1 h
    rw [appendNew_cons, if_pos (List.contains_iff_mem.2 hx), ih hsecond]

/-- It does not matter in which order lists are joined, repeated names within them or not. -/
theorem appendNew_assoc (first second third : List String) :
    appendNew (appendNew first second) third = appendNew first (appendNew second third) := by
  induction third generalizing second with
  | nil => rfl
  | cons x third ih =>
    rw [appendNew_cons, appendNew_cons, ← ih]
    by_cases hx : x ∈ second
    · have hboth : x ∈ appendNew first second := mem_appendNew.2 (Or.inr hx)
      rw [if_pos (List.contains_iff_mem.2 hx), if_pos (List.contains_iff_mem.2 hboth)]
    · rw [if_neg (fun h => hx (List.contains_iff_mem.1 h)), appendNew_append, appendNew_cons,
        appendNew_nil]

theorem nodup_appendNew {first second : List String} (h : first.Nodup) :
    (appendNew first second).Nodup := by
  induction second generalizing first with
  | nil => exact h
  | cons x second ih =>
    rw [appendNew_cons]
    by_cases hx : x ∈ first
    · simp only [List.contains_eq_mem, hx, decide_true, if_true]
      exact ih h
    · simp only [List.contains_eq_mem, hx, decide_false, Bool.false_eq_true, if_false]
      refine ih (List.nodup_append.2 ⟨h, by simp, ?_⟩)
      intro a ha b hb hab
      rw [List.mem_singleton] at hb
      exact hx (hb ▸ hab ▸ ha)

/-- Names that are all new are appended as they are. -/
theorem appendNew_eq_append {first second : List String} (h : (first ++ second).Nodup) :
    appendNew first second = first ++ second := by
  induction second generalizing first with
  | nil => simp
  | cons x second ih =>
    have hx : x ∉ first := fun hf =>
      (List.nodup_append.1 h).2.2 x hf x List.mem_cons_self rfl
    rw [appendNew_cons]
    simp only [List.contains_eq_mem, hx, decide_false, Bool.false_eq_true, if_false]
    rw [ih (by simpa using h)]
    simp

/-- Joining lists keeps the first place of each name. -/
theorem appendNew_eq_append_eraseDups (first second : List String) :
    appendNew first second =
      first ++ (second.filter fun x => !first.contains x).eraseDups := by
  induction second generalizing first with
  | nil => simp
  | cons x second ih =>
    rw [appendNew_cons]
    by_cases hx : x ∈ first
    · rw [if_pos (List.contains_iff_mem.2 hx), ih, List.filter_cons_of_neg (by simpa using hx)]
    · have hrest : (second.filter fun y => !first.contains y).filter (fun y => !y == x) =
          second.filter fun y => !(first ++ [x]).contains y := by
        rw [List.filter_filter]
        refine List.filter_congr fun y _ => ?_
        rw [Bool.eq_iff_iff]
        simp [and_comm]
      rw [if_neg fun h => hx (List.contains_iff_mem.1 h), ih,
        List.filter_cons_of_pos (by simpa using hx), List.eraseDups_cons, hrest]
      simp

theorem mem_distinct {names : List String} {x : String} : x ∈ distinct names ↔ x ∈ names := by
  rw [distinct, mem_appendNew]
  simp

theorem nodup_distinct (names : List String) : (distinct names).Nodup :=
  nodup_appendNew List.nodup_nil

theorem distinct_eq_self {names : List String} (h : names.Nodup) : distinct names = names :=
  appendNew_eq_append h

theorem distinct_eq_eraseDups (names : List String) : distinct names = names.eraseDups := by
  rw [distinct, appendNew_eq_append_eraseDups, List.nil_append,
    List.filter_eq_self.2 fun _ _ => by simp]

end ApiDoc
