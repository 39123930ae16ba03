/-
Where classes are in the list does not matter for what is inherited.

Sources are found by look-ups, by names and through bases, and all of these follow the classes when
they are at other places (`LooksAlike`).  So each member has the same change, and each class too, and
the warnings are the same (`changeOf_renumber`, `classChangeOf_renumber`).
-/
import ApiDoc.Proofs.InheritedDocs.Outcome
import ApiDoc.Proofs.Visibility.Renumbering

namespace ApiDoc
namespace Registry

/-- The classes are at other places, and look-ups give the same members there. -/
structure LooksAlike (σ : Nat → Nat) (r r' : Registry) : Prop extends Renumbered σ r r' where
  refs : ∀ i q, r'.findRefs (σ i) q = (r.findRefs i q).map (MemberRef.renumber σ)

theorem Renumbered.looksAlike {σ : Nat → Nat} {r r' : Registry} (h : Renumbered σ r r')
    (hr : r.Reliable) (hr' : r'.Reliable) : LooksAlike σ r r' :=
  ⟨h, findRefs_renumber h hr hr'⟩

theorem looksAlike_looked {r : Registry} (hr : r.Reliable) (earlier : List Nat) :
    LooksAlike id r (earlier.foldl looked r) :=
  (hr.looked earlier).2.looksAlike hr (hr.looked earlier).1

theorem looksAlike_lookedAll {r : Registry} (hr : r.Reliable) (earlier : List Nat) :
    LooksAlike id r (earlier.foldl looked r).lookedAll := by
  obtain ⟨hbefore, hsame⟩ := hr.looked earlier
  obtain ⟨hall, hsame'⟩ :=
    hbefore.looked (List.range (earlier.foldl Registry.looked r).classes.length)
  exact (hsame.trans hsame').looksAlike hr hall

section
variable {σ : Nat → Nat} {r r' : Registry}

theorem pick?_renumber (σ : Nat → Nat) (candidates : List (MemberRef × Member)) (kind : EntityKind)
    (lenient : Bool) :
    pick? (candidates.map fun c => (c.1.renumber σ, c.2)) kind lenient =
      (pick? candidates kind lenient).map (MemberRef.renumber σ) := by
  have hfind : ∀ p : Member → Bool,
      (candidates.map fun c => (c.1.renumber σ, c.2)).find? (fun c => p c.2) =
        (candidates.find? fun c => p c.2).map fun c => (c.1.renumber σ, c.2) := by
    intro p
    rw [List.find?_map]
    rfl
  rw [pick?, pick?, hfind fun m => m.kind == kind,
    hfind fun m => lenient && kind.isValue && m.kind.isValue]
  cases candidates.find? fun c => c.2.kind == kind with
  | none =>
    cases candidates.find? fun c => lenient && kind.isValue && c.2.kind.isValue with
    | none => rfl
    | some c => rfl
  | some c => rfl

theorem LooksAlike.candidate? (h : LooksAlike σ r r') (i : Nat) (name : String) (isStatic : Bool)
    (kind : EntityKind) (lenient : Bool) :
    r'.candidate? (σ i) name isStatic kind lenient =
      (r.candidate? i name isStatic kind lenient).map (MemberRef.renumber σ) := by
  have hmembers : ∀ refs : List MemberRef, r'.membersAt (refs.map (MemberRef.renumber σ)) =
      (r.membersAt refs).map fun c => (c.1.renumber σ, c.2) := by
    intro refs
    rw [membersAt, List.filterMap_map, membersAt, List.map_filterMap]
    refine List.filterMap_congr fun ref _ => ?_
    rw [Function.comp_apply, h.member?, Option.map_map]
    rfl
  rw [Registry.candidate?, h.refs, hmembers, pick?_renumber, Registry.candidate?]

theorem LooksAlike.namedSource? (h : LooksAlike σ r r') (i : Nat) (m : Member) (ref : InheritRef) :
    r'.namedSource? (σ i) m ref = (r.namedSource? i m ref).map (MemberRef.renumber σ) := by
  have hfound : ∀ t, (r'.candidate? (σ t) (ref.memberName.getD m.name) (ref.isStatic || m.isStatic)
        (ref.kind.getD m.kind) (m.inferred.member || ref.kind.isNone)).filter
          (fun source => source.classAt != σ i || (r'.member? source).map Member.name != some m.name) =
      ((r.candidate? t (ref.memberName.getD m.name) (ref.isStatic || m.isStatic)
        (ref.kind.getD m.kind) (m.inferred.member || ref.kind.isNone)).filter
          fun source => source.classAt != i || (r.member? source).map Member.name != some m.name).map
            (MemberRef.renumber σ) := by
    intro t
    rw [h.candidate?]
    refine filter_renumber (fun source => ?_) _
    have hclass : (σ source.classAt != σ i) = (source.classAt != i) := by
      rw [bne, bne, Bool.eq_iff_iff]
      simp [h.injective.eq_iff]
    rw [h.member?, ← hclass]
    rfl
  unfold Registry.namedSource?
  cases ref.className with
  | none => exact hfound i
  | some name =>
    dsimp only
    rw [h.names]
    cases r.find? name with
    | none => rfl
    | some t => exact hfound t

theorem LooksAlike.baseSource? (h : LooksAlike σ r r') (i : Nat) (m : Member) (ref : InheritRef) :
    r'.baseSource? (σ i) m ref = (r.baseSource? i m ref).map (MemberRef.renumber σ) := by
  have hbases : r'.links.bases (σ i) = (r.links.bases i).map σ := by
    rw [Links.bases, Links.bases, h.parents, h.mixins, List.map_append]
    cases r.links.parentOf? i with
    | none => rfl
    | some p => rfl
  rw [Registry.baseSource?, hbases, List.findSome?_map, Registry.baseSource?, List.map_findSome?]
  congr 1
  funext base
  exact h.candidate? base m.name (ref.isStatic || m.isStatic) m.kind m.inferred.member

theorem LooksAlike.source? (h : LooksAlike σ r r') (i : Nat) (m : Member) (ref : InheritRef) :
    r'.source? (σ i) m ref = (r.source? i m ref).map (MemberRef.renumber σ) := by
  unfold Registry.source?
  split
  · exact h.namedSource? i m ref
  · exact h.baseSource? i m ref

theorem LooksAlike.nextSource? (h : LooksAlike σ r r') (ref : MemberRef) :
    r'.nextSource? (ref.renumber σ) = (r.nextSource? ref).map (MemberRef.renumber σ) := by
  unfold Registry.nextSource?
  rw [h.member?]
  cases r.member? ref with
  | none => rfl
  | some m =>
    dsimp only [Option.bind_some]
    cases m.inheritdoc with
    | none => rfl
    | some inheritdoc =>
      dsimp only
      split
      · rfl
      · rw [h.names]
        cases r.find? m.owner with
        | none => rfl
        | some i =>
          dsimp only [Option.map_some, Option.bind_some]
          rw [h.source?]
          refine filter_renumber (fun source => ?_) _
          rw [bne, bne, Bool.eq_iff_iff]
          simp [(MemberRef.renumber_injective h.injective).eq_iff]

theorem LooksAlike.chainEnd (h : LooksAlike σ r r') (steps : Nat) (ref : MemberRef) :
    r'.chainEnd steps (ref.renumber σ) = (r.chainEnd steps ref).renumber σ := by
  induction steps generalizing ref with
  | zero => rfl
  | succ steps ih =>
    rw [Registry.chainEnd, h.nextSource?, Registry.chainEnd]
    cases r.nextSource? ref with
    | none => rfl
    | some next => exact ih next

theorem LooksAlike.inherited? (h : LooksAlike σ r r') (start : MemberRef) (ref : InheritRef) :
    r'.inherited? (start.renumber σ) ref = r.inherited? start ref := by
  rw [Registry.inherited?, h.chainEnd, h.member?, Registry.inherited?]

end

end Registry

namespace InheritedDocs
open Registry

theorem changeOf_renumber {σ : Nat → Nat} {r r' : Registry} (h : LooksAlike σ r r')
    (className : String) (ref : MemberRef) (m : Member) :
    changeOf r' className (ref.renumber σ) m = changeOf r className ref m := by
  unfold changeOf
  cases m.inheritdoc with
  | none => rfl
  | some inheritdoc =>
    dsimp only [MemberRef.renumber]
    rw [h.source?]
    cases r.source? ref.classAt m inheritdoc with
    | none => rfl
    | some start =>
      dsimp only [Option.map_some]
      rw [h.inherited?]

theorem change?_renumber {σ : Nat → Nat} {r r' : Registry} (h : LooksAlike σ r r')
    (ref : MemberRef) (m : Member) : change? r' (ref.renumber σ) m = change? r ref m := by
  rw [change?, changeOf_renumber h, change?]

theorem outcome_renumber {σ : Nat → Nat} {r r' : Registry} (h : LooksAlike σ r r')
    (ref : MemberRef) (m : Member) : outcome r' (ref.renumber σ) m = outcome r ref m := by
  rw [outcome, change?_renumber h, outcome]

theorem classChangeOf_renumber {σ : Nat → Nat} {r r' : Registry} (h : LooksAlike σ r r') (i : Nat)
    (c : ClassDoc) : classChangeOf r' (σ i) c = classChangeOf r i c := by
  have hget : ∀ name, r'.get? name = r.get? name := by
    intro name
    rw [get?, h.names, Option.bind_map, get?]
    exact congrArg (Option.bind _) (funext h.classes)
  have hparent : (r'.links.parentOf? (σ i)).bind r'.classAt? =
      (r.links.parentOf? i).bind r.classAt? := by
    rw [h.parents, Option.bind_map]
    exact congrArg (Option.bind _) (funext h.classes)
  unfold classChangeOf
  cases c.inheritdoc with
  | none => rfl
  | some ref =>
    dsimp only
    rw [hparent]
    simp only [hget]

end InheritedDocs
end ApiDoc
