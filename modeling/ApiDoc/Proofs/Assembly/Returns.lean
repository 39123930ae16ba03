/-
What the methods of a finished registry return, and which of them are chainable.

Return values are completed class by class, behind the accessors, so this is where a method gets its own
class as return type.  All passes behind it keep who is chainable, and they keep return values but for
types that are missing; where documentation is inherited, a return value is taken over only if there is
none.  So what holds behind the pass holds in the end (`returns_of_methods`).
-/
import ApiDoc.Proofs.Assembly.EventOptions

namespace ApiDoc

/-- A description has the whole word in front. -/
def StartsWithWord (word doc : String) : Prop :=
  ∃ rest, doc.toList = word.toList ++ rest ∧ ∀ c ∈ rest.head?, Text.isNameChar c = false

theorem startsWithThis_iff (doc : String) : startsWithThis doc = true ↔ StartsWithWord "this" doc := by
  unfold startsWithThis
  cases hdrop : Comment.dropText? "this".toList doc.toList with
  | none =>
    refine ⟨fun h => absurd h Bool.false_ne_true, fun ⟨rest, hrest, _⟩ => ?_⟩
    have hcut : Comment.dropText? "this".toList doc.toList = some rest :=
      List.isPrefixOf?_eq_some_iff_append_eq.2 hrest.symm
    rw [hdrop] at hcut
    cases hcut
  | some rest =>
    have hcut : doc.toList = "this".toList ++ rest := Text.eq_append_of_isPrefixOf? hdrop
    have hword : (!Comment.startsName rest) = true ↔ ∀ c ∈ rest.head?, Text.isNameChar c = false := by
      cases rest with
      | nil => simp [Comment.startsName]
      | cons c cs => simp [Comment.startsName]
    rw [hword]
    refine ⟨fun h => ⟨rest, hcut, h⟩, fun ⟨rest', hrest', h⟩ => ?_⟩
    rwa [List.append_cancel_left (hcut.symm.trans hrest')]

namespace Member

/-- The member is documented to return its own object, which is of the class. -/
def ReturnsOwn (className : String) (m : Member) : Prop :=
  ∃ ret ∈ m.returns, ret.type = some className ∧ StartsWithWord "this" ret.doc

/-- What a method of a class has become, `own?` being the member that was documented in its place.  Only
accessors are in no place of a documented member. -/
structure Chains (className : String) (own? : Option Member) (m : Member) : Prop where
  own : ∀ o ∈ own?, o.kind = .method ∧ o.name = m.name
  ofConstructor : m.name = "constructor" → m.isChainable = false ∧ ∃ o ∈ own?, ∃ ret ∈ m.returns,
    ret.type = some ((o.returns.bind ReturnDoc.type).getD className)
  isChainable_iff : m.name ≠ "constructor" →
    (m.isChainable = true ↔ ∃ o ∈ own?, o.isChainable = true ∨ o.ReturnsOwn className)
  returns : m.isChainable = true → m.returns.isSome = true

/-- The return value of a member is still there, with its type if it had one, and the member is as
chainable as before. -/
structure KeepsReturn (m m' : Member) : Prop where
  kind : m'.kind = .method → m.kind = .method
  name : m'.name = m.name
  isChainable : m'.isChainable = m.isChainable
  returns : ∀ ret ∈ m.returns, ∃ ret' ∈ m'.returns, ∀ type ∈ ret.type, ret'.type = some type

theorem keepsReturn_of_same {m m' : Member} (hkind : m'.kind = m.kind) (hname : m'.name = m.name)
    (hchainable : m'.isChainable = m.isChainable) (hreturns : m'.returns = m.returns) :
    m.KeepsReturn m' :=
  ⟨hkind.symm.trans, hname, hchainable, fun ret hret => ⟨ret, hreturns ▸ hret, fun _ htype => htype⟩⟩

theorem KeepsReturn.trans {a b c : Member} (h : a.KeepsReturn b) (h' : b.KeepsReturn c) :
    a.KeepsReturn c := by
  refine ⟨fun hkind => h.kind (h'.kind hkind), h'.name.trans h.name,
    h'.isChainable.trans h.isChainable, fun ret hret => ?_⟩
  obtain ⟨ret', hret', htype⟩ := h.returns ret hret
  obtain ⟨ret'', hret'', htype'⟩ := h'.returns ret' hret'
  exact ⟨ret'', hret'', fun type ht => htype' type (htype type ht)⟩

theorem Chains.keep {className : String} {own? : Option Member} {m m' : Member}
    (h : Chains className own? m) (hkeeps : m.KeepsReturn m') : Chains className own? m' := by
  obtain ⟨-, hname, hchainable, hreturns⟩ := hkeeps
  refine ⟨fun o ho => ?_, fun hconstructor => ?_, fun hother => ?_, fun hchains => ?_⟩
  · rw [hname]
    exact h.own o ho
  · rw [hname] at hconstructor
    obtain ⟨hnot, o, ho, ret, hret, htype⟩ := h.ofConstructor hconstructor
    obtain ⟨ret', hret', hkept⟩ := hreturns ret hret
    exact ⟨hchainable.trans hnot, o, ho, ret', hret', hkept _ htype⟩
  · rw [hname] at hother
    rw [hchainable]
    exact h.isChainable_iff hother
  · rw [hchainable] at hchains
    obtain ⟨ret, hret⟩ := Option.isSome_iff_exists.1 (h.returns hchains)
    obtain ⟨ret', hret', -⟩ := hreturns ret hret
    exact Option.isSome_iff_exists.2 ⟨ret', hret'⟩

/-! ### The pass -/

theorem withReturn_of_constructor (className : String) {m : Member} (hkind : m.kind = .method)
    (hname : m.name = "constructor") : m.withReturn className = m.asConstructor className := by
  rw [withReturn, if_pos (beq_iff_eq.2 hkind), if_pos (beq_iff_eq.2 hname)]

theorem withReturn_of_method (className : String) {m : Member} (hkind : m.kind = .method)
    (hname : m.name ≠ "constructor") : m.withReturn className = m.withChaining className := by
  rw [withReturn, if_pos (beq_iff_eq.2 hkind), if_neg fun h => hname (beq_iff_eq.1 h)]

theorem type_asConstructor (className : String) (m : Member) :
    ∃ ret ∈ (m.asConstructor className).returns,
      ret.type = some ((m.returns.bind ReturnDoc.type).getD className) := by
  refine ⟨_, rfl, ?_⟩
  cases m.returns with
  | none => rfl
  | some ret =>
    show (ret.type <|> some className) = some (ret.type.getD className)
    cases ret.type with
    | none => rfl
    | some type => rfl

theorem isChainable_withChaining (className : String) (m : Member) :
    (m.withChaining className).isChainable = true ↔ m.isChainable = true ∨ m.ReturnsOwn className := by
  unfold withChaining ReturnsOwn
  cases hreturns : m.returns with
  | none =>
    dsimp only
    split
    · simp
    · simp
  | some ret => simp [startsWithThis_iff]

theorem returns_withChaining (className : String) {m : Member}
    (h : (m.withChaining className).isChainable = true) :
    (m.withChaining className).returns.isSome = true := by
  revert h
  unfold withChaining
  cases hreturns : m.returns with
  | none =>
    dsimp only
    split
    · exact fun _ => rfl
    · next hnot => exact fun h => absurd h hnot
  | some ret => exact fun _ => rfl

/-- The pass does with a documented method what it is for.  The owner does not matter for that. -/
theorem chains_withReturn (className owner : String) {o : Member} (hkind : o.kind = .method) :
    Chains className (some o) (({ o with owner } : Member).withReturn className) := by
  have hname : (({ o with owner } : Member).withReturn className).name = o.name := by
    obtain ⟨_, _, hframe⟩ := ({ o with owner } : Member).withReturn_frame className
    rw [hframe]
  have hmethod : ({ o with owner } : Member).kind = .method := hkind
  refine ⟨fun o' ho' => ?_, ?_, ?_, ?_⟩
  · obtain rfl := Option.some.inj ho'
    exact ⟨hkind, hname.symm⟩
  · rw [hname]
    intro hconstructor
    rw [withReturn_of_constructor className hmethod hconstructor]
    exact ⟨rfl, o, rfl, type_asConstructor className { o with owner }⟩
  · rw [hname]
    intro hother
    rw [withReturn_of_method className hmethod hother, isChainable_withChaining]
    exact ⟨fun h => ⟨o, rfl, h⟩, fun ⟨o', ho', h⟩ => by
      obtain rfl := Option.some.inj ho'
      exact h⟩
  · by_cases hconstructor : o.name = "constructor"
    · rw [withReturn_of_constructor className hmethod hconstructor]
      exact fun h => absurd h Bool.false_ne_true
    · rw [withReturn_of_method className hmethod hconstructor]
      exact returns_withChaining className

theorem chains_of_unmarked (className : String) {m : Member} (hname : m.name ≠ "constructor")
    (hchainable : m.isChainable = false) (hreturns : ¬ m.ReturnsOwn className) :
    Chains className none (m.withReturn className) := by
  have hdone : (m.withReturn className).name = m.name := by
    obtain ⟨_, _, hframe⟩ := m.withReturn_frame className
    rw [hframe]
  have hnot : (m.withReturn className).isChainable = false := by
    by_cases hkind : m.kind = .method
    · rw [withReturn_of_method className hkind hname, ← Bool.not_eq_true, isChainable_withChaining,
        hchainable, not_or]
      exact ⟨Bool.false_ne_true, hreturns⟩
    · rw [withReturn, if_neg fun h => hkind (beq_iff_eq.1 h)]
      exact hchainable
  refine ⟨fun o ho => absurd ho (Option.not_mem_none o), fun h => absurd (hdone.symm.trans h) hname,
    fun _ => ?_, fun h => ?_⟩
  · rw [hnot]
    simp
  · rw [hnot] at h
    exact absurd h Bool.false_ne_true

/-- Accessors are no constructors, and they are not chainable. -/
theorem chains_of_derivedFrom {className : String} {option m : Member}
    (h : Accessor.DerivedFrom className option m) (hkind : m.kind = .method) :
    Chains className none (m.withReturn className) := by
  have hne : ∀ front rest : String, ¬ front.toList <+: "constructor".toList →
      front ++ rest ≠ "constructor" := fun front rest hfront heq =>
    hfront ⟨rest.toList, by rw [← String.toList_append, heq]⟩
  have hundocumented : ¬ StartsWithWord "this" "" := by
    rw [← startsWithThis_iff]
    decide
  rcases h.form with rfl | rfl | ⟨-, rfl⟩
  · refine chains_of_unmarked className (hne "get" _ (by decide)) rfl ?_
    rintro ⟨ret, hret, -, hthis⟩
    obtain rfl := Option.some.inj hret
    exact hundocumented hthis
  · refine chains_of_unmarked className (hne "set" _ (by decide)) rfl ?_
    rintro ⟨ret, hret, -⟩
    exact absurd hret (Option.not_mem_none ret)
  · cases hkind

theorem keepsReturn_withEventOptions (m : Member) : m.KeepsReturn m.withEventOptions := by
  obtain ⟨_, hframe⟩ := m.withEventOptions_frame
  rw [hframe]
  exact keepsReturn_of_same rfl rfl rfl rfl

theorem keepsReturn_withFires (methods : List Member) (m : Member) :
    m.KeepsReturn (m.withFires methods) := by
  obtain ⟨_, _, hframe⟩ := m.withFires_frame methods
  rw [hframe]
  exact keepsReturn_of_same rfl rfl rfl rfl

theorem keepsReturn_withTypes (m : Member) : m.KeepsReturn m.withTypes := by
  refine ⟨fun hkind => hkind, rfl, rfl, fun ret hret => ⟨ret.withTypes, ?_, fun type htype => ?_⟩⟩
  · exact Option.map_eq_some_iff.2 ⟨ret, hret, rfl⟩
  · show (ret.type <|> some defaultType) = some type
    rw [Option.mem_def.1 htype]
    rfl

/-- A return value is taken over where there is none. -/
theorem keepsReturn_inheritDoc (m : Member) (h : Inherited) : m.KeepsReturn (m.inheritDoc h) := by
  refine ⟨fun hkind => hkind, rfl, rfl, fun ret hret => ⟨ret, ?_, fun _ htype => htype⟩⟩
  show (m.returns <|> h.source.returns) = some ret
  rw [Option.mem_def.1 hret]
  rfl

theorem keepsReturn_inherit (m : Member) (h : Inherited) : m.KeepsReturn (m.inherit h) := by
  unfold inherit
  split
  · refine (m.keepsReturn_inheritDoc h).trans ⟨fun hkind => ?_, rfl, rfl, fun ret hret =>
      ⟨ret, hret, fun _ htype => htype⟩⟩
    change (if _ then EntityKind.config else (m.inheritDoc h).kind) = .method at hkind
    split at hkind
    · cases hkind
    · exact hkind
  · exact m.keepsReturn_inheritDoc h

end Member

open Member

/-- What of a class is chained, place by place: documented members are where they were. -/
theorem chains_prepared (given : Bool) {c : ClassDoc} {k : Nat} {m : Member}
    (hm : (prepared given c).members[k]? = some m) (hkind : m.kind = .method) :
    Chains c.name c.members[k]? m := by
  have hready : ∃ ready, c.claimMembers.withAccessors.withReturns.members[k]? = some ready ∧
      ready.KeepsReturn m := by
    unfold prepared at hm
    cases given with
    | true =>
      rw [if_pos rfl] at hm
      obtain ⟨ready, hready, rfl⟩ := Option.map_eq_some_iff.1 (List.getElem?_map.symm.trans hm)
      exact ⟨ready, hready, keepsReturn_withEventOptions ready⟩
    | false => exact ⟨m, hm, keepsReturn_of_same rfl rfl rfl rfl⟩
  obtain ⟨ready, hready, hkeeps⟩ := hready
  refine Chains.keep ?_ hkeeps
  obtain ⟨old, hold, rfl⟩ := Option.map_eq_some_iff.1 (List.getElem?_map.symm.trans hready)
  have hmethod : old.kind = .method := by
    obtain ⟨_, _, hframe⟩ := old.withReturn_frame c.claimMembers.withAccessors.name
    rw [hframe] at hkeeps
    exact hkeeps.kind hkind
  obtain ⟨added, hadded, hfills⟩ := c.claimMembers.exists_withAccessors
  rw [hadded, List.getElem?_append] at hold
  split at hold
  · obtain ⟨o, ho, rfl⟩ := Option.map_eq_some_iff.1 (List.getElem?_map.symm.trans hold)
    rw [ho]
    exact chains_withReturn c.name c.name hmethod
  · next hbehind =>
    have hlength : c.claimMembers.members.length = c.members.length := List.length_map _
    rw [List.getElem?_eq_none (hlength ▸ Nat.le_of_not_lt hbehind)]
    obtain ⟨option, -, hderived⟩ :=
      Accessor.exists_derivedFrom (hfills.sublist.subset (List.mem_of_getElem? hold))
    exact chains_of_derivedFrom hderived hmethod

/-- Enumerations have no methods, and in other classes the passes behind keep return values. -/
theorem chains_completed {given : Bool} {classes : List ClassDoc} {c : ClassDoc} {k : Nat} {m : Member}
    (hm : (completed given classes c).members[k]? = some m) (hkind : m.kind = .method) :
    Chains c.name c.members[k]? m := by
  obtain ⟨fired, hfired, rfl⟩ := Option.map_eq_some_iff.1 (List.getElem?_map.symm.trans hm)
  obtain ⟨old, hold, rfl⟩ := Option.map_eq_some_iff.1 (List.getElem?_map.symm.trans hfired)
  have hkeeps : ∀ methods, old.KeepsReturn (old.withFires methods).withTypes := fun methods =>
    (old.keepsReturn_withFires methods).trans (keepsReturn_withTypes _)
  have hmethod := (hkeeps _).kind hkind
  cases hinfo : (prepared given c).enumInfo with
  | none =>
    rw [Enumeration.complete_of_plain _ hinfo] at hold
    exact (chains_prepared given hold hmethod).keep (hkeeps _)
  | some info =>
    obtain ⟨type, value, rfl, -⟩ := Enumeration.exists_value hinfo (List.mem_of_getElem? hold)
    cases hmethod

namespace InheritedDocs
open Registry

theorem keepsReturn_outcome {r : Registry} {ref : MemberRef} {m : Member} (hm : r.member? ref = some m) :
    m.KeepsReturn (outcome r ref m) := by
  cases hend : r.endOf? ref with
  | none =>
    obtain ⟨isPrivate, houtcome⟩ := outcome_of_no_end hm hend
    rw [houtcome]
    exact keepsReturn_of_same rfl rfl rfl rfl
  | some last =>
    obtain ⟨inheritdoc, -, houtcome⟩ := outcome_of_endOf? hm hend
    rw [houtcome]
    exact (m.keepsReturn_inherit _).trans (keepsReturn_of_same rfl rfl rfl rfl)

end InheritedDocs

namespace Grouping
open InheritedDocs Registry

/-- The member that was documented at a place of the registry that is made of files: the one that is
there before classes are completed. -/
def documented? (files : Files) (ref : MemberRef) : Option Member :=
  ((ofFiles files).resolve.1.1[ref.classAt]?).bind fun c => c.members[ref.memberAt]?

/-- The member says what a member of an entry says about what it returns. -/
def IsOfEntry (files : Files) (o : Member) : Prop :=
  ∃ f ∈ files, ∃ e ∈ f.2, ∃ m ∈ e.members,
    o.kind = m.kind ∧ o.name = m.name ∧ o.returns = m.returns ∧ o.isChainable = m.isChainable

theorem isOfEntry_of_documented {files : Files} {ref : MemberRef} {o : Member}
    (h : documented? files ref = some o) : IsOfEntry files o := by
  obtain ⟨c, hc, ho⟩ := Option.bind_eq_some_iff.1 h
  exact forall_members_resolve (P := IsOfEntry files) (fun _ _ _ h => h) (fun _ _ _ h => h)
    (fun f hf e he m hm => ⟨f, hf, e, he, m, hm, rfl, rfl, rfl, rfl⟩) c (List.mem_of_getElem? hc) o
    (List.mem_of_getElem? ho)

/-- Methods of a finished registry that are called `constructor` are not chainable and return something
with a type, the documented one or else their class; the others that are chainable return something.
Which these are is decided by what was documented in their places: they were chainable, or returned their
own object. -/
theorem returns_of_methods {files : Files} {options : AssemblyOptions} {r : Registry}
    (h : ((ofFiles files).finish options).1 = .ok r) {ref : MemberRef} {c : ClassDoc} {m : Member}
    (hc : r.classAt? ref.classAt = some c) (hm : r.member? ref = some m) (hkind : m.kind = .method) :
    Chains c.name (documented? files ref) m ∧ ∀ o ∈ documented? files ref, IsOfEntry files o := by
  refine ⟨?_, fun o ho => isOfEntry_of_documented ho⟩
  rw [finish_fst] at h
  obtain ⟨made, hmade, rfl⟩ := completeInheritance_eq_ok h
  have hdone := member?_inheritDocs (reliable_of_build hmade) [] ref
  rw [List.foldl_nil, hm] at hdone
  obtain ⟨before, hbefore, rfl⟩ := Option.map_eq_some_iff.1 hdone.symm
  have hkeeps := keepsReturn_outcome hbefore
  refine Chains.keep ?_ hkeeps
  obtain ⟨done, hat, hplace⟩ := Option.bind_eq_some_iff.1 hbefore
  have hname : c.name = done.name := by
    rw [classAt?, classes_inheritDocs, List.getElem?_mapIdx] at hc
    obtain ⟨done', hat', rfl⟩ := Option.map_eq_some_iff.1 hc
    rw [Option.some.inj (hat'.symm.trans hat)]
  rw [classAt?, classes_of_build hmade, completeMembers_eq, List.getElem?_map] at hat
  obtain ⟨old, hold, rfl⟩ := Option.map_eq_some_iff.1 hat
  rw [hname, (completes_completed _ _ old).name, documented?, hold, Option.bind_some]
  exact chains_completed hplace (hkeeps.kind hkind)

/-- A method that returns its own object. -/
def queuePush : Member :=
  { Member.ofName .method "push" with
    returns := some { type := some "Queue", doc := "this" } }

def queueFiles : Files :=
  [("queue.js", [{ entity := .ofClass { name := "Queue" } }, { entity := .ofMember queuePush }])]

def queueRegistry : Registry :=
  match ((ofFiles queueFiles).finish {}).1 with
  | .ok r => r
  | .error _ => {}

theorem finish_queueFiles : ((ofFiles queueFiles).finish {}).1 = .ok queueRegistry := by rfl

theorem returns_of_queue :
    ((ofFiles queueFiles).finish {}).1 = .ok queueRegistry ∧
      ∃ c m, queueRegistry.classAt? 0 = some c ∧ queueRegistry.member? ⟨0, 0⟩ = some m ∧
        m.kind = .method ∧ m.name ≠ "constructor" ∧ m.isChainable = true := by
  obtain ⟨made, hmade, hregistry⟩ := completeInheritance_eq_ok finish_queueFiles
  rw [completeMembers_of_idle (by decide)] at hmade
  obtain ⟨-, rfl⟩ := build_eq_ok_iff.1 hmade
  have hread : (queueRegistry.member? ⟨0, 0⟩).map (fun m => (m.kind, m.name)) =
      some (.method, "push") := by
    rw [hregistry]
    decide
  obtain ⟨m, hm, hsame⟩ := Option.map_eq_some_iff.1 hread
  obtain ⟨hkind, hname⟩ := Prod.mk.inj hsame
  have hnames : (queueRegistry.classAt? 0).map ClassDoc.name = some "Queue" := by
    rw [hregistry]
    decide
  obtain ⟨c, hc, hclass⟩ := Option.map_eq_some_iff.1 hnames
  have hother : m.name ≠ "constructor" := hname ▸ by decide
  obtain ⟨hchains, -⟩ := returns_of_methods finish_queueFiles hc hm hkind
  refine ⟨finish_queueFiles, c, m, hc, hm, hkind, hother, (hchains.isChainable_iff hother).2 ?_⟩
  have hpush : queuePush.ReturnsOwn "Queue" := ⟨_, rfl, rfl, [], rfl, by simp⟩
  have hdocumented : documented? queueFiles ⟨0, 0⟩ = some queuePush := by rfl
  exact ⟨queuePush, hdocumented, Or.inr (hclass ▸ hpush)⟩

end Grouping
end ApiDoc
