/-
Maps from ids to members that keep their order.

A map is known by the order of its ids and by what stands under each.  Putting members into it one
after another appends the new ids and leaves under each id what was put there last.
-/
import ApiDoc.Doc.Names
import ApiDoc.Proofs.Tables
import ApiDoc.Registry.Lookup

namespace ApiDoc
namespace MemberMap

def ids (m : MemberMap) : List String := m.map Prod.fst

/-- Puts members into a map, one after another. -/
def putAll (m : MemberMap) (ps : List (String × Indexed)) : MemberMap :=
  ps.foldl (fun m p => m.put p.1 p.2) m

def ofIds (ids : List String) (f : String → Option Indexed) : MemberMap :=
  ids.filterMap fun id => (f id).map fun e => (id, e)

theorem get?_put (m : MemberMap) (id : String) (e : Indexed) (id' : String) :
    (m.put id e).get? id' = if id' = id then some e else m.get? id' := by
  unfold get?
  induction m with
  | nil => rw [put, lookup_cons_if]
  | cons p m ih =>
    obtain ⟨key, old⟩ := p
    rw [put]
    by_cases hk : key = id
    · subst hk
      simp only [beq_self_eq_true, if_true, lookup_cons_if]
      by_cases h : id' = key
      · simp [h]
      · simp [h]
    · simp only [beq_false_of_ne hk, Bool.false_eq_true, if_false, lookup_cons_if, ih]
      by_cases h : id' = key
      · simp [h, hk]
      · simp [h]

theorem ids_put (m : MemberMap) (id : String) (e : Indexed) :
    (m.put id e).ids = appendNew m.ids [id] := by
  have happend : ∀ names : List String,
      appendNew names [id] = if id ∈ names then names else names ++ [id] := by
    intro names
    rw [appendNew_cons, appendNew_nil]
    simp
  rw [happend]
  induction m with
  | nil => rfl
  | cons p m ih =>
    obtain ⟨key, old⟩ := p
    rw [put]
    by_cases hk : key = id
    · subst hk
      simp [ids]
    · simp only [beq_false_of_ne hk, Bool.false_eq_true, if_false]
      unfold ids at ih ⊢
      rw [List.map_cons, List.map_cons, ih]
      by_cases h : id ∈ m.map Prod.fst
      · simp [h]
      · simp [h, Ne.symm hk]

theorem ids_putAll (m : MemberMap) (ps : List (String × Indexed)) :
    (m.putAll ps).ids = appendNew m.ids (ps.map Prod.fst) := by
  induction ps generalizing m with
  | nil => rfl
  | cons p ps ih =>
    show ((m.put p.1 p.2).putAll ps).ids = _
    rw [ih, ids_put, ← appendNew_append]
    rfl

/-- Under an id stands what was put there last. -/
theorem get?_putAll (m : MemberMap) (ps : List (String × Indexed)) (id : String) :
    (m.putAll ps).get? id = (ps.reverse.lookup id).or (m.get? id) := by
  induction ps generalizing m with
  | nil => rfl
  | cons p ps ih =>
    show ((m.put p.1 p.2).putAll ps).get? id = _
    rw [ih, get?_put, List.reverse_cons, List.lookup_append, Option.or_assoc]
    congr 1
    rw [lookup_cons_if]
    by_cases h : id = p.1
    · simp [h]
    · simp [h]

/-- Maps with the same ids in the same order and the same members under them are the same. -/
theorem eq_of_get? {a b : MemberMap} (hi : a.ids = b.ids) (hn : a.ids.Nodup)
    (hg : ∀ id, a.get? id = b.get? id) : a = b := by
  unfold ids get? at *
  induction a generalizing b with
  | nil => exact (List.map_eq_nil_iff.1 hi.symm).symm
  | cons p a ih =>
    cases b with
    | nil => exact absurd hi (List.cons_ne_nil _ _)
    | cons q b =>
      obtain ⟨hid, hrest⟩ := List.cons.inj hi
      obtain ⟨hfresh, hn⟩ := List.nodup_cons.1 hn
      have hhead : some p.2 = some q.2 := by
        have h := hg p.1
        rwa [lookup_cons_if, lookup_cons_if, if_pos rfl, if_pos hid] at h
      have hpq : p = q := Prod.ext hid (Option.some.inj hhead)
      have htail : a = b := by
        refine ih hrest hn fun k => ?_
        by_cases hk : k = p.1
        · rw [hk, lookup_eq_none_of_not_mem hfresh, lookup_eq_none_of_not_mem (hrest ▸ hfresh)]
        · have h := hg k
          rwa [lookup_cons_if, lookup_cons_if, if_neg hk, if_neg (hid ▸ hk)] at h
      rw [hpq, htail]

theorem get?_ofIds (names : List String) (f : String → Option Indexed) (id : String) :
    (ofIds names f).get? id = if id ∈ names then f id else none := by
  unfold ofIds get?
  induction names with
  | nil => rfl
  | cons name names ih =>
    rw [List.filterMap_cons]
    cases hf : f name with
    | none =>
      simp only [Option.map_none, ih]
      by_cases h : id = name
      · simp [h, hf]
      · simp [h]
    | some e =>
      simp only [Option.map_some, lookup_cons_if, ih]
      by_cases h : id = name
      · simp [h, hf]
      · simp [h]

theorem ids_ofIds (names : List String) (f : String → Option Indexed) :
    (ofIds names f).ids = names.filter fun id => (f id).isSome := by
  unfold ofIds ids
  induction names with
  | nil => rfl
  | cons name names ih =>
    rw [List.filterMap_cons, List.filter_cons]
    cases hf : f name with
    | none => simpa using ih
    | some e => simpa using ih

theorem inheritable_ofIds (names : List String) (f : String → Option Indexed) :
    (ofIds names f).inheritable = ofIds names fun id => (f id).filter fun e => !e.isLocalStatic := by
  rw [inheritable, ofIds, ofIds, List.filter_filterMap]
  congr 1
  funext id
  cases f id with
  | none => rfl
  | some e => simp [Option.filter]

end MemberMap
end ApiDoc
