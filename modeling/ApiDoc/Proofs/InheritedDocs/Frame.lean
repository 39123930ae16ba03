/-
What inherited documentation changes, and what it leaves alone.

A reference touches few fields of the member that makes it, and fewer still if the member has a comment
of its own: only members that come from code alone take over flags, and turn from a property into a
config.  Such a member becomes private where there is nothing to inherit, which is where no member is
found or where the chain of undocumented members ends at code (`inheritDocs_frame`).

Here members on the way are looked up from the class that their owner names, so several classes may
have the same name.
-/
import ApiDoc.Proofs.InheritedDocs.Chain
import ApiDoc.Proofs.Registry.Session

namespace ApiDoc
namespace Registry

theorem Fresh.reliable {r : Registry} (h : r.Fresh) : r.Reliable := by
  refine ⟨h.sound, fun i index hi => ?_⟩
  rw [h.lookups] at hi
  exact absurd hi (by simp)

/-- The reference of a member leads nowhere, or what it leads to ends at code without documentation. -/
def NothingToInherit (r : Registry) (ref : MemberRef) : Prop :=
  r.sourceOf? ref = none ∨
    ∃ start last l, r.sourceOf? ref = some start ∧ r.EndsAt 16 start last ∧
      r.member? last = some l ∧ l.inferred.member = true ∧ l.doc = ""

end Registry

namespace Member

/-- What a reference may change of the member that makes it.  Of the fields that `frame` lists, parts are
left alone too, and all the other fields are. -/
structure Retouched (m done : Member) : Prop where
  frame :
    { done with
      id := m.id, kind := m.kind, doc := m.doc, params := m.params, returns := m.returns
      type := m.type, isPrivate := m.isPrivate, isProtected := m.isProtected
      isReadonly := m.isReadonly, deprecated := m.deprecated } = m
  doc : m.doc ≠ "" → done.doc = m.doc
  params : (∃ p ∈ m.params, p.isEventOptions = false) → done.params = m.params
  returns : ∀ x, m.returns = some x → done.returns = some x
  kind : done.kind = m.kind ∨ m.inferred.member = true ∧ m.kind = .property ∧ done.kind = .config
  /-- No mark that is set is cleared. -/
  marks : (m.isPrivate = true → done.isPrivate = true) ∧
    (m.isProtected = true → done.isProtected = true) ∧
    (m.isReadonly = true → done.isReadonly = true) ∧
    ∀ d, m.deprecated = some d → done.deprecated = some d
  /-- Only members that come from code take over marks. -/
  comment : m.inferred.member = false → done.isPrivate = m.isPrivate ∧
    done.isProtected = m.isProtected ∧ done.isReadonly = m.isReadonly ∧
    done.deprecated = m.deprecated

theorem Retouched.refl (m : Member) : m.Retouched m :=
  ⟨rfl, fun _ => rfl, fun _ => rfl, fun _ h => h, Or.inl rfl,
    ⟨fun h => h, fun h => h, fun h => h, fun _ h => h⟩, fun _ => ⟨rfl, rfl, rfl, rfl⟩⟩

theorem Retouched.refreshId {m done : Member} (h : m.Retouched done) : m.Retouched done.refreshId :=
  ⟨h.frame, h.doc, h.params, h.returns, h.kind, h.marks, h.comment⟩

theorem retouched_makePrivate {m : Member} (h : m.inferred.member = true) :
    m.Retouched { m with isPrivate := true } :=
  ⟨rfl, fun _ => rfl, fun _ => rfl, fun _ h => h, Or.inl rfl,
    ⟨fun _ => rfl, fun h => h, fun h => h, fun _ h => h⟩,
    fun hcomment => absurd (h.symm.trans hcomment) (by decide)⟩

theorem retouched_inheritDoc (m : Member) (h : Inherited) : m.Retouched (m.inheritDoc h) := by
  refine ⟨rfl, fun hdoc => ?_, fun ⟨p, hp, hoptions⟩ => ?_, fun x hx => ?_, Or.inl rfl,
    ⟨fun h => h, fun h => h, fun h => h, fun _ h => h⟩, fun _ => ⟨rfl, rfl, rfl, rfl⟩⟩
  · show (if m.doc.isEmpty then h.source.doc else m.doc) = m.doc
    rw [if_neg (by simpa using hdoc)]
  · have hall : m.params.all Param.isEventOptions = false := by
      rw [List.all_eq_false]
      exact ⟨p, hp, by simp [hoptions]⟩
    show (if m.params.all Param.isEventOptions && !h.source.params.isEmpty then h.source.params
      else m.params) = m.params
    rw [hall]
    rfl
  · show (m.returns <|> h.source.returns) = some x
    rw [hx]
    rfl

theorem retouched_inheritFlags {m done : Member} (h : Inherited) (hcode : m.inferred.member = true)
    (hdone : m.Retouched done) : m.Retouched (done.inheritFlags h) := by
  obtain ⟨hprivate, hprotected, hreadonly, hdeprecated⟩ := hdone.marks
  refine ⟨hdone.frame, hdone.doc, hdone.params, hdone.returns, ?_, ⟨fun hm => ?_, fun hm => ?_,
    fun hm => ?_, fun d hd => ?_⟩, fun hcomment => absurd (hcode.symm.trans hcomment) (by decide)⟩
  · show (if done.kind == .property && h.source.kind == .config then EntityKind.config
        else done.kind) = m.kind ∨ m.inferred.member = true ∧ m.kind = .property ∧
      (if done.kind == .property && h.source.kind == .config then EntityKind.config
        else done.kind) = .config
    split
    · next hboth =>
      rw [Bool.and_eq_true, beq_iff_eq] at hboth
      rcases hdone.kind with hsame | ⟨-, hkind, -⟩
      · exact Or.inr ⟨hcode, hsame.symm.trans hboth.1, rfl⟩
      · exact Or.inr ⟨hcode, hkind, rfl⟩
    · exact hdone.kind
  · show (done.isPrivate || h.isPlaceholder) = true
    rw [hprivate hm, Bool.true_or]
  · show (done.isProtected || h.source.isProtected) = true
    rw [hprotected hm, Bool.true_or]
  · show (done.isReadonly || h.source.isReadonly) = true
    rw [hreadonly hm, Bool.true_or]
  · show (done.deprecated <|> h.source.deprecated) = some d
    rw [hdeprecated d hd]
    rfl

theorem retouched_inherit (m : Member) (h : Inherited) : m.Retouched (m.inherit h) := by
  unfold inherit
  split
  · next hcode => exact retouched_inheritFlags h hcode (m.retouched_inheritDoc h)
  · exact m.retouched_inheritDoc h

theorem isPrivate_inherit (m : Member) (h : Inherited) :
    (m.inherit h).isPrivate = (m.isPrivate || (m.inferred.member && h.isPlaceholder)) := by
  unfold inherit
  split
  · next hcode =>
    rw [hcode, Bool.true_and]
    rfl
  · next hcomment =>
    rw [Bool.eq_false_iff.2 hcomment, Bool.false_and, Bool.or_false]
    rfl

end Member

namespace InheritedDocs
open Registry

/-- The change of a member that refers to another one. -/
theorem change?_of_reference {r : Registry} {ref : MemberRef} {m : Member} {inheritdoc : InheritRef}
    (hm : r.member? ref = some m) (href : m.inheritdoc = some inheritdoc) :
    (∃ start last, r.sourceOf? ref = some start ∧ r.EndsAt longestChain start last ∧
      ∃ l, r.member? last = some l ∧ change? r ref m = some (.inherit
        { source := l, isPlaceholder := l.inferred.member && l.doc.isEmpty
          isExplicit := inheritdoc != {} })) ∨
    r.sourceOf? ref = none ∧
      change? r ref m = if m.inferred.member then some .makePrivate else none := by
  have hsource : r.sourceOf? ref = r.source? ref.classAt m inheritdoc := by
    rw [sourceOf?, hm, Option.bind_some, href, Option.bind_some]
  unfold change? changeOf
  rw [href, hsource]
  dsimp only
  cases hstart : r.source? ref.classAt m inheritdoc with
  | none =>
    refine .inr ⟨rfl, ?_⟩
    dsimp only
    split
    · rfl
    · rfl
  | some start =>
    obtain ⟨l, hl⟩ := Option.isSome_iff_exists.1
      (isSome_member?_chainEnd longestChain (isSome_member?_of_source? hstart))
    refine .inl ⟨start, _, rfl, chainEnd_eq_iff.1 rfl, l, hl, ?_⟩
    dsimp only
    rw [inherited?, hl]
    rfl

/-- A member that refers to another one is retouched, and if it comes from code and was not private, it
becomes so exactly where there is nothing to inherit. -/
theorem outcome_of_reference {r : Registry} {ref : MemberRef} {m : Member} {inheritdoc : InheritRef}
    (hm : r.member? ref = some m) (href : m.inheritdoc = some inheritdoc) :
    m.Retouched (outcome r ref m) ∧
      (m.inferred.member = true → m.isPrivate = false →
        ((outcome r ref m).isPrivate = true ↔ r.NothingToInherit ref)) := by
  rcases change?_of_reference hm href with
    ⟨start, last, hstart, hends, l, hl, hchange⟩ | ⟨hnone, hchange⟩
  · have houtcome : outcome r ref m = (m.inherit
        { source := l, isPlaceholder := l.inferred.member && l.doc.isEmpty
          isExplicit := inheritdoc != {} }).refreshId := by
      rw [outcome, hchange]
      rfl
    rw [houtcome]
    refine ⟨(m.retouched_inherit _).refreshId, fun hcode hpublic => ?_⟩
    show (m.inherit _).isPrivate = true ↔ _
    rw [Member.isPrivate_inherit, hpublic, hcode, Bool.false_or, Bool.true_and, Bool.and_eq_true,
      String.isEmpty_iff]
    constructor
    · exact fun hempty => Or.inr ⟨start, last, l, hstart, hends, hl, hempty⟩
    · rintro (hnone | ⟨start', last', l', hstart', hends', hl', hempty⟩)
      · exact absurd (hstart.symm.trans hnone) (by simp)
      · -- The chain has only one end.
        obtain rfl : start = start' := Option.some.inj (hstart.symm.trans hstart')
        obtain rfl : last = last' := (chainEnd_eq_iff.2 hends).symm.trans (chainEnd_eq_iff.2 hends')
        obtain rfl : l = l' := Option.some.inj (hl.symm.trans hl')
        exact hempty
  · cases hcode : m.inferred.member with
    | true =>
      have houtcome : outcome r ref m = ({ m with isPrivate := true } : Member).refreshId := by
        rw [outcome, hchange, hcode]
        rfl
      rw [houtcome]
      exact ⟨(Member.retouched_makePrivate hcode).refreshId,
        fun _ _ => ⟨fun _ => Or.inl hnone, fun _ => rfl⟩⟩
    | false =>
      have houtcome : outcome r ref m = m.refreshId := by
        rw [outcome, hchange, hcode]
        rfl
      rw [houtcome]
      exact ⟨(Member.Retouched.refl m).refreshId, fun hcode' => absurd hcode' (by decide)⟩

theorem docAfter_of_ne (find? : String → Option Nat) (changes : List ClassChange) (i : Nat) {doc : String}
    (h : doc ≠ "") : docAfter find? changes i doc = doc := by
  rw [docAfter]
  induction changes.filter fun change => find? change.className == some i with
  | nil => rfl
  | cons change rest ih => rw [List.foldl_cons, if_neg (by simpa using h), ih]

/-- A class is changed in nothing but its members and, if it has none, its documentation. -/
theorem class_frame {r : Registry} {i : Nat} {c : ClassDoc} (hc : r.classAt? i = some c) :
    ∃ c', r.inheritDocs.1.classAt? i = some c' ∧
      { c' with doc := c.doc, members := c.members } = c ∧ (c.doc ≠ "" → c'.doc = c.doc) := by
  refine ⟨{ c with
      doc := docAfter r.find? (changes r).1.classes i c.doc
      members := c.members.mapIdx fun k m => outcome r.lookedAll ⟨i, k⟩ m }, ?_, rfl,
    docAfter_of_ne r.find? _ i⟩
  rw [classAt?, classes_inheritDocs, List.getElem?_mapIdx, ← classAt?, hc, Option.map_some]

end InheritedDocs

namespace Registry
open InheritedDocs

/-- What the pass leaves of a registry that was made or refreshed last, whatever was looked up before.  No
class and no member comes or goes.  Classes keep all but their members, and their documentation if there
is some.  A member that refers to nothing gets its id brought up to date.  One that does is retouched; and
if it comes from code and is not private, it becomes private if and only if it has nothing to inherit, its
source being missing or the last member on the chain of sixteen steps at most being undocumented code. -/
theorem inheritDocs_frame {r : Registry} (h : r.Fresh) (earlier : List Nat) :
    let done := (earlier.foldl looked r).inheritDocs.1
    (∀ i c, r.classAt? i = some c → ∃ c', done.classAt? i = some c' ∧
      { c' with doc := c.doc, members := c.members } = c ∧ (c.doc ≠ "" → c'.doc = c.doc)) ∧
    (∀ ref, (done.member? ref).isSome = (r.member? ref).isSome) ∧
    ∀ ref m m', r.member? ref = some m → done.member? ref = some m' →
      (m.inheritdoc = none → m' = { m with id := m.currentId }) ∧
      (m.inheritdoc ≠ none → m.Retouched m' ∧ m'.id = m'.currentId ∧
        (m.inferred.member = true → m.isPrivate = false →
          (m'.isPrivate = true ↔ r.NothingToInherit ref))) := by
  intro done
  have hmember := member?_inheritDocs h.reliable earlier
  refine ⟨fun i c hc => ?_, fun ref => ?_, fun ref m m' hm hm' => ?_⟩
  · exact class_frame ((congrArg (·[i]?) (foldl_looked_frame earlier r).1).trans hc)
  · rw [hmember ref, Option.isSome_map]
  · rw [hmember ref, hm, Option.map_some] at hm'
    obtain rfl := Option.some.inj hm'
    constructor
    · intro hnone
      have hchange : InheritedDocs.change? r ref m = none := by
        unfold InheritedDocs.change? changeOf
        rw [hnone]
      rw [outcome, hchange]
      rfl
    · intro hsome
      obtain ⟨inheritdoc, href⟩ := Option.ne_none_iff_exists'.1 hsome
      obtain ⟨hretouched, hprivate⟩ := outcome_of_reference hm href
      exact ⟨hretouched, rfl, hprivate⟩

/-- A static method that subclasses inherit, and two methods of its name that come from code, of which
one is static too. -/
def statics : List ClassDoc :=
  [{ name := "Base"
     members :=
      [{ Member.ofName .method "of" with
          owner := "Base", isStatic := true, isInheritable := true, doc := "Makes one."
          id := "static-method-of" }] },
   { name := "Panel", parent := some "Base"
     members :=
      [{ Member.ofName .method "of" with
          owner := "Panel", inferred := { member := true }, inheritdoc := some {} },
        { Member.ofName .method "of" with
          owner := "Panel", isStatic := true, inferred := { member := true }
          inheritdoc := some {}, id := "static-method-of" }] }]

def staticsRegistry : Registry :=
  { classes := statics, names := namesOf statics, links := linksOf (namesOf statics) statics }

theorem fresh_statics : staticsRegistry.Fresh :=
  .made (build_eq_ok_iff.2 ⟨by decide, rfl⟩ : (build statics []).1 = .ok staticsRegistry)

theorem nothingToInherit_statics :
    staticsRegistry.NothingToInherit ⟨1, 0⟩ ∧ ¬ staticsRegistry.NothingToInherit ⟨1, 1⟩ := by
  refine ⟨Or.inl (by decide), ?_⟩
  have hsource : staticsRegistry.sourceOf? ⟨1, 1⟩ = some ⟨0, 0⟩ := by decide
  rintro (hnone | ⟨start, last, l, hstart, hends, hl, -, hempty⟩)
  · exact absurd (hsource.symm.trans hnone) (by simp)
  · obtain rfl := Option.some.inj (hsource.symm.trans hstart)
    obtain rfl := (chainEnd_eq_iff.2 hends).symm.trans (by decide : _ = (⟨0, 0⟩ : MemberRef))
    obtain rfl := Option.some.inj hl
    exact absurd hempty (by decide)

/-- Static methods inherit from static ones, so the other method has nothing to inherit. -/
theorem inheritDocs_frame_statics :
    let done := ([1].foldl looked staticsRegistry).inheritDocs.1
    staticsRegistry.Fresh ∧ (done.member? ⟨1, 0⟩).map Member.isPrivate = some true ∧
      (done.member? ⟨1, 1⟩).map Member.isPrivate = some false := by
  intro done
  obtain ⟨-, hkept, hmembers⟩ := inheritDocs_frame fresh_statics [1]
  obtain ⟨method, hmethod⟩ := Option.isSome_iff_exists.1 (hkept ⟨1, 0⟩)
  obtain ⟨static, hstatic⟩ := Option.isSome_iff_exists.1 (hkept ⟨1, 1⟩)
  obtain ⟨-, -, hprivate⟩ := (hmembers ⟨1, 0⟩ _ method rfl hmethod).2 (Option.some_ne_none _)
  obtain ⟨-, -, hpublic⟩ := (hmembers ⟨1, 1⟩ _ static rfl hstatic).2 (Option.some_ne_none _)
  refine ⟨fresh_statics, ?_, ?_⟩
  · show (Registry.member? _ _).map Member.isPrivate = some true
    rw [hmethod, Option.map_some, (hprivate rfl rfl).2 nothingToInherit_statics.1]
  · have hnot : static.isPrivate = false :=
      Bool.eq_false_iff.2 fun h => nothingToInherit_statics.2 ((hpublic rfl rfl).1 h)
    show (Registry.member? _ _).map Member.isPrivate = some false
    rw [hstatic, Option.map_some, hnot]

end Registry
end ApiDoc
