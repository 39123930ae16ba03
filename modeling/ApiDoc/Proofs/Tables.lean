/-
Tables: lists of pairs in which the first pair with a key counts.

Tables and the lists that they lead into grow at their ends.
-/
namespace ApiDoc

variable {α β : Type}

theorem lookup_cons_if [DecidableEq α] (p : α × β) (t : List (α × β)) (k : α) :
    (p :: t).lookup k = if k = p.1 then some p.2 else t.lookup k := by
  obtain ⟨key, v⟩ := p
  rw [List.lookup_cons]
  by_cases h : k = key
  · simp [h]
  · simp [h, beq_false_of_ne h]

/-- Where all keys lead to the same place, a key leads there or nowhere. -/
theorem lookup_map_pair [DecidableEq α] (keys : List α) (v : β) (k : α) :
    (keys.map fun n => (n, v)).lookup k = if k ∈ keys then some v else none := by
  induction keys with
  | nil => rfl
  | cons n keys ih =>
    rw [List.map_cons, lookup_cons_if, ih]
    by_cases h : k = n
    · simp [h]
    · simp [h]

/-- Further keys that all lead to one place take nothing away from earlier ones. -/
theorem lookup_append_map_pair [DecidableEq α] {t : List (α × β)} {keys : List α} {k : α} {v w : β}
    (h : (t ++ keys.map fun n => (n, v)).lookup k = some w) :
    t.lookup k = some w ∨ k ∈ keys ∧ w = v := by
  rw [List.lookup_append, lookup_map_pair, Option.or_eq_some_iff] at h
  rcases h with hold | ⟨-, hnew⟩
  · exact Or.inl hold
  · rw [Option.ite_none_right_eq_some] at hnew
    exact Or.inr ⟨hnew.1, (Option.some.inj hnew.2).symm⟩

theorem getElem?_concat_cases {xs : List α} {x y : α} {k : Nat} (h : (xs ++ [x])[k]? = some y) :
    xs[k]? = some y ∨ k = xs.length ∧ y = x := by
  by_cases hk : k < xs.length
  · rw [List.getElem?_append_left hk] at h
    exact Or.inl h
  · rw [List.getElem?_append_right (Nat.le_of_not_lt hk), List.getElem?_singleton,
      Option.ite_none_right_eq_some] at h
    obtain ⟨hzero, hx⟩ := h
    exact Or.inr ⟨by omega, (Option.some.inj hx).symm⟩

/-- What a change of an entry leaves as it is stays as it is in the list. -/
theorem map_modify_of_same {g : α → β} {f : α → α} (hf : ∀ x, g (f x) = g x) (xs : List α) (i : Nat) :
    (xs.modify i f).map g = xs.map g := by
  refine List.ext_getElem? fun k => ?_
  rw [List.getElem?_map, List.getElem?_map, List.getElem?_modify]
  cases xs[k]? with
  | none => rfl
  | some x =>
    by_cases hik : i = k
    · simp [hik, hf]
    · simp [hik]

theorem modify_eq_mapIdx (xs : List α) (i : Nat) (f : α → α) :
    xs.modify i f = xs.mapIdx fun k x => if i = k then f x else x := by
  refine List.ext_getElem? fun k => ?_
  rw [List.getElem?_modify, List.getElem?_mapIdx]
  rfl

theorem mapIdx_self (xs : List α) : (xs.mapIdx fun _ x => x) = xs := by
  refine List.ext_getElem? fun k => ?_
  rw [List.getElem?_mapIdx]
  exact Option.map_id'

theorem map_mapIdx {γ : Type} (xs : List α) (f : Nat → α → β) (g : β → γ) :
    (xs.mapIdx f).map g = xs.mapIdx fun k x => g (f k x) := by
  refine List.ext_getElem? fun k => ?_
  rw [List.getElem?_map, List.getElem?_mapIdx, List.getElem?_mapIdx, Option.map_map]
  rfl

theorem filterMap_zipIdx_at {xs : List α} {i : Nat} {x : α} (h : xs[i]? = some x)
    (f : α × Nat → Option β) :
    (xs.zipIdx.filterMap fun p => if p.2 = i then f p else none) = (f (x, i)).toList := by
  have hfrom : ∀ (xs : List α) (start k : Nat), xs[k]? = some x →
      ((xs.zipIdx start).filterMap fun p => if p.2 = start + k then f p else none) =
        (f (x, start + k)).toList := by
    intro xs
    induction xs with
    | nil => exact fun start k hk => absurd hk (by simp)
    | cons y xs ih =>
      intro start k hk
      rw [List.zipIdx_cons, List.filterMap_cons]
      cases k with
      | zero =>
        have hnone : ((xs.zipIdx (start + 1)).filterMap fun p =>
            if p.2 = start + 0 then f p else none) = [] := by
          refine List.filterMap_eq_nil_iff.2 fun p hp => if_neg ?_
          have := List.le_snd_of_mem_zipIdx hp
          omega
        obtain rfl : y = x := Option.some.inj hk
        rw [hnone]
        cases f (y, start + 0) <;> simp_all
      | succ k =>
        have hrest := ih (start + 1) k (by simpa using hk)
        have hplace : start + 1 + k = start + (k + 1) := by omega
        rw [hplace] at hrest
        rw [hrest, if_neg (by simp)]
  simpa using hfrom xs 0 i h

theorem modify_concat_length (xs : List α) (x : α) (f : α → α) :
    (xs ++ [x]).modify xs.length f = xs ++ [f x] := by
  induction xs with
  | nil => rfl
  | cons y xs ih =>
    rw [List.cons_append, List.length_cons, List.modify_succ_cons, ih]
    rfl

theorem lookup_map [DecidableEq α] {γ : Type} (xs : List γ) (f : γ → α) (g : γ → β) (k : α) :
    (xs.map fun x => (f x, g x)).lookup k = (xs.find? fun x => f x == k).map g := by
  induction xs with
  | nil => rfl
  | cons x xs ih =>
    rw [List.map_cons, lookup_cons_if, List.find?_cons, ih]
    by_cases h : k = f x
    · simp [h]
    · simp [h, beq_false_of_ne (Ne.symm h)]

theorem lookup_eq_none_of_not_mem [DecidableEq α] {t : List (α × β)} {k : α}
    (h : k ∉ t.map Prod.fst) : t.lookup k = none := by
  rw [List.lookup_eq_none_iff]
  intro p hp
  exact bne_iff_ne.2 fun hk => h (List.mem_map.2 ⟨p, hp, hk.symm⟩)

theorem keys_filterMap_sublist {γ : Type} (xs : List γ) (key : γ → α) (f : γ → Option β) :
    ((xs.filterMap fun x => (f x).map fun v => (key x, v)).map Prod.fst).Sublist (xs.map key) := by
  induction xs with
  | nil => exact List.Sublist.slnil
  | cons x xs ih =>
    rw [List.filterMap_cons]
    cases f x with
    | none => exact ih.cons (key x)
    | some v => exact ih.cons_cons (key x)

/-- Where elements with different keys are listed with what some of them have, the key of an element
leads to what it has. -/
theorem lookup_filterMap [DecidableEq α] {γ : Type} {xs : List γ} {key : γ → α} (f : γ → Option β)
    (h : (xs.map key).Nodup) {x : γ} (hx : x ∈ xs) :
    (xs.filterMap fun x => (f x).map fun v => (key x, v)).lookup (key x) = f x := by
  induction xs with
  | nil => exact absurd hx List.not_mem_nil
  | cons y xs ih =>
    obtain ⟨hfresh, h⟩ := List.nodup_cons.1 h
    rw [List.filterMap_cons]
    rcases List.mem_cons.1 hx with rfl | hx
    · cases hf : f x with
      | none =>
        refine lookup_eq_none_of_not_mem fun hkey => hfresh ?_
        obtain ⟨p, hp, hpx⟩ := List.mem_map.1 hkey
        obtain ⟨z, hz, hv⟩ := List.mem_filterMap.1 hp
        obtain ⟨v, -, rfl⟩ := Option.map_eq_some_iff.1 hv
        exact hpx ▸ List.mem_map_of_mem hz
      | some v =>
        show List.lookup (key x) ((key x, v) :: _) = some v
        rw [lookup_cons_if, if_pos rfl]
    · have hne : key x ≠ key y := fun hxy => hfresh (hxy ▸ List.mem_map_of_mem hx)
      cases f y with
      | none => exact ih h hx
      | some v =>
        show List.lookup (key x) ((key y, v) :: _) = f x
        rw [lookup_cons_if, if_neg hne]
        exact ih h hx

/-- Where keys are different ones, it does not matter from which end they are searched. -/
theorem lookup_reverse [DecidableEq α] {t : List (α × β)} (h : (t.map Prod.fst).Nodup) (k : α) :
    t.reverse.lookup k = t.lookup k := by
  induction t with
  | nil => rfl
  | cons p t ih =>
    obtain ⟨hfresh, h⟩ := List.nodup_cons.1 h
    rw [List.reverse_cons, List.lookup_append, ih h, lookup_cons_if, lookup_cons_if]
    by_cases hk : k = p.1
    · rw [if_pos hk, if_pos hk, hk, lookup_eq_none_of_not_mem hfresh]
      rfl
    · simp [hk]

end ApiDoc
