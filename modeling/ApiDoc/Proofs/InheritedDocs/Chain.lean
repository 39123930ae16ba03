/-
Chains of references.

A member without documentation leads on to the member that it refers to, and so does that one if it is
undocumented too.  What a member inherits is the documentation at the end of its chain, and all members
along a chain inherit the same (`docs_follow_chains`).  References that lead around in a circle have no
end, so the search gives up after a fixed number of members.
-/
import ApiDoc.Proofs.Assembly.Ownership
import ApiDoc.Proofs.InheritedDocs.Renumbering

namespace ApiDoc
namespace Registry

/-- An undocumented member leads on to the one that it refers to, if that is another member.  Its
reference is read in the class that its owner names. -/
def LeadsTo (r : Registry) (ref next : MemberRef) : Prop :=
  ∃ m inheritdoc i, r.member? ref = some m ∧ m.doc = "" ∧ m.inheritdoc = some inheritdoc ∧
    r.find? m.owner = some i ∧ r.source? i m inheritdoc = some next ∧ next ≠ ref

/-- From the first place the second one is reached in `n` steps. -/
inductive Follows (r : Registry) : Nat → MemberRef → MemberRef → Prop
  | here (ref : MemberRef) : Follows r 0 ref ref
  | on {n : Nat} {ref next last : MemberRef} (h : r.LeadsTo ref next) (rest : Follows r n next last) :
      Follows r (n + 1) ref last

/-- The last place that is reached from `start` in at most `steps` steps. -/
def EndsAt (r : Registry) (steps : Nat) (start last : MemberRef) : Prop :=
  ∃ n, r.Follows n start last ∧ n ≤ steps ∧ (n = steps ∨ ∀ next, ¬ r.LeadsTo last next)

theorem nextSource?_eq_some_iff {r : Registry} {ref next : MemberRef} :
    r.nextSource? ref = some next ↔ r.LeadsTo ref next := by
  rw [nextSource?, Option.bind_eq_some_iff]
  constructor
  · rintro ⟨m, hm, h⟩
    cases href : m.inheritdoc with
    | none => simp [href] at h
    | some inheritdoc =>
      rw [href] at h
      dsimp only at h
      rw [Option.ite_none_left_eq_some] at h
      obtain ⟨hdoc, h⟩ := h
      obtain ⟨hsource, hne⟩ := Option.filter_eq_some_iff.1 h
      obtain ⟨i, hi, hsource⟩ := Option.bind_eq_some_iff.1 hsource
      exact ⟨m, inheritdoc, i, hm, by simpa using hdoc, href, hi, hsource, by simpa using hne⟩
  · rintro ⟨m, inheritdoc, i, hm, hdoc, href, hi, hsource, hne⟩
    refine ⟨m, hm, ?_⟩
    rw [href]
    dsimp only
    rw [if_neg (by simp [hdoc]), hi, Option.bind_some, hsource, Option.filter_some,
      if_pos (by simpa using hne)]

theorem chainEnd_eq_iff {r : Registry} {steps : Nat} {start last : MemberRef} :
    r.chainEnd steps start = last ↔ r.EndsAt steps start last := by
  induction steps generalizing start with
  | zero =>
    constructor
    · rintro rfl
      exact ⟨0, .here start, Nat.le_refl 0, Or.inl rfl⟩
    · rintro ⟨n, hfollows, hn, -⟩
      obtain rfl := Nat.le_zero.1 hn
      cases hfollows
      rfl
  | succ steps ih =>
    rw [chainEnd]
    cases hnext : r.nextSource? start with
    | none =>
      have hstop : ∀ next, ¬ r.LeadsTo start next := fun next hleads => by
        rw [nextSource?_eq_some_iff.2 hleads] at hnext
        exact absurd hnext (by simp)
      constructor
      · rintro rfl
        exact ⟨0, .here start, Nat.zero_le _, Or.inr hstop⟩
      · rintro ⟨n, hfollows, -, -⟩
        cases hfollows with
        | here => rfl
        | on hleads _ => exact absurd hleads (hstop _)
    | some next =>
      have hleads := nextSource?_eq_some_iff.1 hnext
      refine ih.trans ⟨?_, ?_⟩
      · rintro ⟨n, hfollows, hn, hlast⟩
        exact ⟨n + 1, .on hleads hfollows, by omega, hlast.imp_left fun h => by omega⟩
      · rintro ⟨n, hfollows, hn, hlast⟩
        cases hfollows with
        | here =>
          rcases hlast with hzero | hstop
          · exact absurd hzero (by omega)
          · exact absurd hleads (hstop next)
        | @on k _ next' _ hleads' rest =>
          obtain rfl : next = next' :=
            Option.some.inj (hnext.symm.trans (nextSource?_eq_some_iff.2 hleads'))
          exact ⟨k, rest, by omega, hlast.imp_left fun h => by omega⟩

/-- The member that the one at a place refers to. -/
def sourceOf? (r : Registry) (ref : MemberRef) : Option MemberRef :=
  (r.member? ref).bind fun m =>
    m.inheritdoc.bind fun inheritdoc => r.source? ref.classAt m inheritdoc

/-- The end of the chain that the member at a place refers to. -/
def endOf? (r : Registry) (ref : MemberRef) : Option Member :=
  (r.sourceOf? ref).bind fun start => r.member? (r.chainEnd longestChain start)

def docAt? (r : Registry) (ref : MemberRef) : Option String := (r.member? ref).map Member.doc

/-- Where an undocumented member leads to, if that is another member. -/
def leadsOn? (r : Registry) (ref : MemberRef) : Option MemberRef :=
  if r.docAt? ref = some "" then (r.sourceOf? ref).filter (· != ref) else none

/-- Over `n` undocumented members the one at the first place leads to the one at the second. -/
inductive Leads (r : Registry) : Nat → MemberRef → MemberRef → Prop
  | here (ref : MemberRef) : Leads r 0 ref ref
  | on {n : Nat} {ref next last : MemberRef} (h : r.leadsOn? ref = some next)
      (rest : Leads r n next last) : Leads r (n + 1) ref last

/-- Owners lead to the classes that hold the members. -/
def OwnersLead (r : Registry) : Prop :=
  ∀ ref m, r.member? ref = some m → r.find? m.owner = some ref.classAt

theorem nextSource?_eq_leadsOn? {r : Registry} (h : r.OwnersLead) (ref : MemberRef) :
    r.nextSource? ref = r.leadsOn? ref := by
  unfold nextSource? leadsOn? docAt? sourceOf?
  cases hm : r.member? ref with
  | none => rfl
  | some m =>
    rw [Option.bind_some, Option.bind_some, h ref m hm, Option.map_some]
    cases m.inheritdoc with
    | none => simp
    | some inheritdoc =>
      by_cases hdoc : m.doc = ""
      · simp [hdoc]
      · simp [hdoc]

theorem leadsTo_iff {r : Registry} (h : r.OwnersLead) {ref next : MemberRef} :
    r.LeadsTo ref next ↔ r.leadsOn? ref = some next := by
  rw [← nextSource?_eq_some_iff, nextSource?_eq_leadsOn? h]

theorem follows_iff {r : Registry} (h : r.OwnersLead) {n : Nat} {ref last : MemberRef} :
    r.Follows n ref last ↔ r.Leads n ref last := by
  constructor
  · intro hfollows
    induction hfollows with
    | here ref => exact .here ref
    | on hnext _ ih => exact .on ((leadsTo_iff h).1 hnext) ih
  · intro hleads
    induction hleads with
    | here ref => exact .here ref
    | on hnext _ ih => exact .on ((leadsTo_iff h).2 hnext) ih

/-- Where owners lead to the classes of their members, the chain can be read off the places alone. -/
theorem endsAt_iff {r : Registry} (h : r.OwnersLead) {steps : Nat} {start last : MemberRef} :
    r.EndsAt steps start last ↔
      ∃ n, r.Leads n start last ∧ n ≤ steps ∧ (n = steps ∨ r.leadsOn? last = none) := by
  have hstop : (∀ next, ¬ r.LeadsTo last next) ↔ r.leadsOn? last = none := by
    rw [Option.eq_none_iff_forall_ne_some]
    exact forall_congr' fun next => not_congr (leadsTo_iff h)
  exact exists_congr fun n => by rw [follows_iff h, hstop]

/-- The search ends where the chain ends, or gives up on the way. -/
theorem chainEnd_eq {r : Registry} (h : r.OwnersLead) {n steps : Nat} {ref last : MemberRef}
    (hleads : r.Leads n ref last) (hn : n ≤ steps) (hlast : n = steps ∨ r.leadsOn? last = none) :
    r.chainEnd steps ref = last :=
  chainEnd_eq_iff.2 ((endsAt_iff h).2 ⟨n, hleads, hn, hlast⟩)

/-- Sources are members. -/
theorem isSome_member?_of_source? {r : Registry} {i : Nat} {m : Member} {ref : InheritRef}
    {found : MemberRef} (h : r.source? i m ref = some found) : (r.member? found).isSome := by
  have hcandidate : ∀ {t name isStatic kind lenient},
      r.candidate? t name isStatic kind lenient = some found → (r.member? found).isSome := by
    intro t name isStatic kind lenient hpicked
    obtain ⟨c, hc, rfl⟩ := Option.map_eq_some_iff.1 hpicked
    rw [Option.orElse_eq_orElse, Option.orElse_eq_or, Option.or_eq_some_iff] at hc
    have hmem : c ∈ r.membersAt (r.findRefs t { name := some name, isStatic := some isStatic }) := by
      rcases hc with hc | ⟨-, hc⟩
      · exact List.mem_of_find?_eq_some hc
      · exact List.mem_of_find?_eq_some hc
    obtain ⟨place, -, hplace⟩ := List.mem_filterMap.1 hmem
    obtain ⟨m, hm, rfl⟩ := Option.map_eq_some_iff.1 hplace
    exact Option.isSome_of_mem hm
  unfold source? at h
  split at h
  · obtain ⟨hfound, -⟩ := Option.filter_eq_some_iff.1 h
    obtain ⟨t, -, hfound⟩ := Option.bind_eq_some_iff.1 hfound
    exact hcandidate hfound
  · obtain ⟨base, -, hfound⟩ := List.exists_of_findSome?_eq_some h
    exact hcandidate hfound

theorem isSome_member?_of_sourceOf? {r : Registry} {ref found : MemberRef}
    (h : r.sourceOf? ref = some found) : (r.member? found).isSome := by
  obtain ⟨m, -, h⟩ := Option.bind_eq_some_iff.1 h
  obtain ⟨inheritdoc, -, h⟩ := Option.bind_eq_some_iff.1 h
  exact isSome_member?_of_source? h

theorem isSome_member?_chainEnd {r : Registry} (steps : Nat) {start : MemberRef}
    (h : (r.member? start).isSome) : (r.member? (r.chainEnd steps start)).isSome := by
  induction steps generalizing start with
  | zero => exact h
  | succ steps ih =>
    rw [chainEnd]
    cases hnext : r.nextSource? start with
    | none => exact h
    | some next =>
      obtain ⟨m, inheritdoc, i, -, -, -, -, hsource, -⟩ := nextSource?_eq_some_iff.1 hnext
      exact ih (isSome_member?_of_source? hsource)

end Registry

namespace InheritedDocs
open Registry

/-- A member whose reference ends nowhere is changed in nothing but its visibility. -/
theorem outcome_of_no_end {r : Registry} {ref : MemberRef} {m : Member} (hm : r.member? ref = some m)
    (h : r.endOf? ref = none) :
    ∃ isPrivate, outcome r ref m = ({ m with isPrivate } : Member).refreshId := by
  have hchange : change? r ref m = none ∨ change? r ref m = some .makePrivate := by
    rw [endOf?, sourceOf?, hm, Option.bind_some] at h
    unfold change? changeOf
    cases hinheritdoc : m.inheritdoc with
    | none => exact Or.inl rfl
    | some inheritdoc =>
      rw [hinheritdoc, Option.bind_some] at h
      dsimp only
      cases hsource : r.source? ref.classAt m inheritdoc with
      | none =>
        dsimp only
        split
        · exact Or.inr rfl
        · exact Or.inl rfl
      | some start =>
        rw [hsource, Option.bind_some] at h
        dsimp only
        rw [inherited?, h]
        exact Or.inl rfl
  rcases hchange with hnone | hprivate
  · exact ⟨m.isPrivate, by rw [outcome, hnone]; rfl⟩
  · exact ⟨true, by rw [outcome, hprivate]; rfl⟩

/-- And one whose reference ends somewhere inherits from there. -/
theorem outcome_of_endOf? {r : Registry} {ref : MemberRef} {m last : Member}
    (hm : r.member? ref = some m) (h : r.endOf? ref = some last) :
    ∃ inheritdoc, m.inheritdoc = some inheritdoc ∧
      outcome r ref m = (m.inherit
        { source := last, isPlaceholder := last.inferred.member && last.doc.isEmpty
          isExplicit := inheritdoc != {} }).refreshId := by
  obtain ⟨start, hstart, hlast⟩ := Option.bind_eq_some_iff.1 h
  rw [sourceOf?, hm, Option.bind_some] at hstart
  obtain ⟨inheritdoc, hinheritdoc, hsource⟩ := Option.bind_eq_some_iff.1 hstart
  refine ⟨inheritdoc, hinheritdoc, ?_⟩
  unfold outcome change? changeOf
  rw [hinheritdoc]
  dsimp only
  rw [hsource]
  dsimp only
  rw [inherited?, hlast]
  rfl

theorem doc_inherit (m : Member) (h : Inherited) :
    (m.inherit h).doc = if m.doc.isEmpty then h.source.doc else m.doc := by
  unfold Member.inherit
  split
  · rfl
  · rfl

/-- An undocumented member with a source gets the documentation at the end of the chain. -/
theorem doc_outcome_of_source {r : Registry} {ref start : MemberRef} {m last : Member}
    (hm : r.member? ref = some m) (hdoc : m.doc = "") (hstart : r.sourceOf? ref = some start)
    (hlast : r.member? (r.chainEnd longestChain start) = some last) :
    (outcome r ref m).doc = last.doc := by
  have hend : r.endOf? ref = some last := by rw [endOf?, hstart, Option.bind_some, hlast]
  obtain ⟨inheritdoc, -, houtcome⟩ := outcome_of_endOf? hm hend
  rw [houtcome]
  show (m.inherit _).doc = _
  rw [doc_inherit, if_pos (by simpa using hdoc)]

/-- Without a source, or with documentation of its own, a member keeps the documentation that it has. -/
theorem doc_outcome_of_no_source {r : Registry} {ref : MemberRef} {m : Member}
    (hm : r.member? ref = some m) (h : m.doc ≠ "" ∨ r.sourceOf? ref = none) :
    (outcome r ref m).doc = m.doc := by
  cases hend : r.endOf? ref with
  | none =>
    obtain ⟨isPrivate, houtcome⟩ := outcome_of_no_end hm hend
    rw [houtcome]
    rfl
  | some last =>
    have hdoc : m.doc ≠ "" := h.resolve_right fun hnone => by simp [endOf?, hnone] at hend
    obtain ⟨inheritdoc, -, houtcome⟩ := outcome_of_endOf? hm hend
    rw [houtcome]
    show (m.inherit _).doc = _
    rw [doc_inherit, if_neg (by simpa using hdoc)]

/-- A member that leads nowhere keeps the documentation that it has. -/
theorem doc_outcome_of_end {r : Registry} (h : r.OwnersLead) {ref : MemberRef} {m : Member}
    (hm : r.member? ref = some m) (hend : r.leadsOn? ref = none) :
    (outcome r ref m).doc = m.doc := by
  by_cases hdoc : m.doc = ""
  · cases hstart : r.sourceOf? ref with
    | none => exact doc_outcome_of_no_source hm (Or.inr hstart)
    | some start =>
      -- The member is its own source.
      have hself : start = ref := by
        rw [leadsOn?, docAt?, hm, Option.map_some, if_pos (by rw [hdoc]), hstart] at hend
        simpa using hend
      have hsearch : r.chainEnd longestChain start = ref := by
        rw [hself]
        exact chainEnd_eq h (.here ref) (Nat.zero_le _) (Or.inr hend)
      exact doc_outcome_of_source hm hdoc hstart (hsearch.symm ▸ hm)
  · exact doc_outcome_of_no_source hm (Or.inl hdoc)

end InheritedDocs

namespace Registry
open InheritedDocs

/-- What was looked up before does not matter for what becomes of members. -/
theorem member?_inheritDocs {r : Registry} (hr : r.Reliable) (earlier : List Nat) (ref : MemberRef) :
    (earlier.foldl looked r).inheritDocs.1.member? ref =
      (r.member? ref).map (outcome r ref) := by
  have hclasses := (foldl_looked_frame earlier r).1
  have hlike := looksAlike_lookedAll hr earlier
  rw [member?, classAt?, classes_inheritDocs, hclasses, List.getElem?_mapIdx, member?, classAt?]
  cases r.classes[ref.classAt]? with
  | none => rfl
  | some c =>
    dsimp only [Option.map_some, Option.bind_some]
    rw [List.getElem?_mapIdx]
    cases c.members[ref.memberAt]? with
    | none => rw [Option.map_none, Option.map_none]
    | some m => exact congrArg some (outcome_renumber hlike ref m)

theorem ownersLead_of_build {classes : List ClassDoc} {ignored : List String} {r : Registry}
    (h : (build classes ignored).1 = .ok r) (hnames : (classes.map ClassDoc.name).Nodup)
    (howns : ∀ c ∈ classes, c.Owns) : r.OwnersLead := by
  obtain ⟨hclasses, hfind⟩ := find?_name_of_build h hnames
  intro ref m hm
  obtain ⟨c, hc, hm⟩ := Option.bind_eq_some_iff.1 hm
  have hmem : c ∈ classes := hclasses ▸ List.mem_of_getElem? hc
  rw [howns c hmem m (List.mem_of_getElem? hm)]
  exact hfind ref.classAt c hc

/-- An undocumented member gets the documentation at the end of its chain. -/
theorem docAt?_of_leads {r : Registry} (hr : r.Reliable) (hlead : r.OwnersLead) (earlier : List Nat)
    {n : Nat} {ref start last : MemberRef} (hdoc : r.docAt? ref = some "")
    (hstart : r.sourceOf? ref = some start) (hleads : r.Leads n start last) (hn : n ≤ longestChain)
    (hlast : n = longestChain ∨ r.leadsOn? last = none) :
    ∃ doc, r.docAt? last = some doc ∧
      (earlier.foldl looked r).inheritDocs.1.docAt? ref = some doc := by
  obtain ⟨m, hm, hempty⟩ := Option.map_eq_some_iff.1 hdoc
  obtain ⟨l, hend⟩ := Option.isSome_iff_exists.1
    (isSome_member?_chainEnd longestChain (isSome_member?_of_sourceOf? hstart))
  have hl : r.member? last = some l := by
    rw [← chainEnd_eq hlead hleads hn hlast]
    exact hend
  refine ⟨l.doc, by rw [docAt?, hl, Option.map_some], ?_⟩
  rw [docAt?, member?_inheritDocs hr, hm, Option.map_some, Option.map_some,
    doc_outcome_of_source hm hempty hstart hend]

/-- The nearest source of a member ends up with the documentation at the end of the chain too. -/
theorem docAt?_start {r : Registry} (hr : r.Reliable) (hlead : r.OwnersLead) (earlier : List Nat)
    {n : Nat} {start last : MemberRef} (hstart : (r.member? start).isSome)
    (hleads : r.Leads n start last) (hn : n ≤ longestChain) (hlast : r.leadsOn? last = none) :
    (earlier.foldl looked r).inheritDocs.1.docAt? start = r.docAt? last := by
  cases hleads with
  | here =>
    obtain ⟨s, hs⟩ := Option.isSome_iff_exists.1 hstart
    rw [docAt?, member?_inheritDocs hr, hs, docAt?, hs, Option.map_some, Option.map_some,
      Option.map_some, doc_outcome_of_end hlead hs hlast]
  | @on k _ next _ hnext rest =>
    unfold leadsOn? at hnext
    rw [Option.ite_none_right_eq_some] at hnext
    obtain ⟨hempty, hsource⟩ := hnext
    obtain ⟨doc, hdoc, hdone⟩ := docAt?_of_leads hr hlead earlier hempty
      (Option.filter_eq_some_iff.1 hsource).1 rest (by omega) (Or.inr hlast)
    rw [hdone, hdoc]

/-- In a registry whose classes have different names and own their members, and whatever was looked up
before: an undocumented member that has a source gets the documentation which the end of the chain had,
if the chain over undocumented members ends after sixteen of them or fewer, and so does the source
itself.  In any case it gets the documentation of a member on the chain, so references that lead around
in circles do no harm; and the pass ends, because inheritance does and no bound on its depth is met. -/
theorem docs_follow_chains {classes : List ClassDoc} {ignored : List String} {r : Registry}
    (h : (build classes ignored).1 = .ok r) (hnames : (classes.map ClassDoc.name).Nodup)
    (howns : ∀ c ∈ classes, c.Owns) (earlier : List Nat) :
    let before := earlier.foldl looked r
    let done := before.inheritDocs.1
    (∀ ref start, r.docAt? ref = some "" → r.sourceOf? ref = some start →
      (∀ n last, r.Leads n start last → r.leadsOn? last = none → n ≤ 16 →
        ∃ doc, r.docAt? last = some doc ∧ done.docAt? ref = some doc ∧
          done.docAt? start = some doc) ∧
      ∃ n last, r.Leads n start last ∧ n ≤ 16 ∧ (n = 16 ∨ r.leadsOn? last = none) ∧
        ∃ doc, r.docAt? last = some doc ∧ done.docAt? ref = some doc) ∧
    (∀ i, r.links.Ends i) ∧
    ∀ more i l, before.indexFrom (before.classes.length + 1 + more) i l =
      before.indexFrom (before.classes.length + 1) i l := by
  intro before done
  have hr := reliable_of_build h
  have hlead := ownersLead_of_build h hnames howns
  have hsound := sound_of_build h
  refine ⟨fun ref start hdoc hstart => ⟨fun n last hleads hlast hn => ?_, ?_⟩, hsound.ends,
    fun more i l => ?_⟩
  · obtain ⟨doc, hend, hdone⟩ :=
      docAt?_of_leads hr hlead earlier hdoc hstart hleads hn (Or.inr hlast)
    refine ⟨doc, hend, hdone, ?_⟩
    rw [← hend]
    exact docAt?_start hr hlead earlier (isSome_member?_of_sourceOf? hstart) hleads hn hlast
  · obtain ⟨n, hleads, hn, hlast⟩ :=
      (endsAt_iff hlead).1 (chainEnd_eq_iff.1 (Eq.refl (r.chainEnd 16 start)))
    exact ⟨n, _, hleads, hn, hlast,
      docAt?_of_leads hr hlead earlier hdoc hstart hleads hn hlast⟩
  · obtain ⟨hs, -⟩ := (hr.looked earlier).1
    have hshallow := hs.shallow i
    exact congrFun (indexFrom_depth (hshallow.add more) hshallow) l

/-- A method that is documented in the first of three generations, and two members of a further class
that refer to each other. -/
def generations : List ClassDoc :=
  [{ name := "Base"
     members := [{ Member.ofName .method "show" with owner := "Base", doc := "Shows it." }] },
   { name := "Panel", parent := some "Base"
     members :=
      [{ Member.ofName .method "show" with owner := "Panel", inheritdoc := some {} }] },
   { name := "Window", parent := some "Panel"
     members :=
      [{ Member.ofName .method "show" with owner := "Window", inheritdoc := some {} }] },
   { name := "Ring"
     members :=
      [{ Member.ofName .method "ping" with
          owner := "Ring", inheritdoc := some { memberName := some "pong" } },
        { Member.ofName .method "pong" with
          owner := "Ring", inheritdoc := some { memberName := some "ping" } }] }]

def generationsRegistry : Registry :=
  { classes := generations, names := namesOf generations
    links := linksOf (namesOf generations) generations }

theorem build_generations : (build generations []).1 = .ok generationsRegistry :=
  build_eq_ok_iff.2 ⟨by decide, rfl⟩

theorem leads_generations :
    generationsRegistry.Leads 1 ⟨1, 0⟩ ⟨0, 0⟩ ∧ generationsRegistry.leadsOn? ⟨0, 0⟩ = none ∧
      generationsRegistry.leadsOn? ⟨3, 0⟩ = some ⟨3, 1⟩ ∧
      generationsRegistry.leadsOn? ⟨3, 1⟩ = some ⟨3, 0⟩ :=
  ⟨.on (by decide) (.here _), by decide, by decide, by decide⟩

theorem docs_generations :
    let done := ([2, 0].foldl looked generationsRegistry).inheritDocs.1
    (build generations []).1 = .ok generationsRegistry ∧
      (generations.map ClassDoc.name).Nodup ∧ (∀ c ∈ generations, c.Owns) ∧
      done.docAt? ⟨2, 0⟩ = some "Shows it." ∧ done.docAt? ⟨1, 0⟩ = some "Shows it." ∧
      done.docAt? ⟨3, 0⟩ = some "" := by
  intro done
  have hnames : (generations.map ClassDoc.name).Nodup := by decide
  have howns : ∀ c ∈ generations, ∀ m ∈ c.members, m.owner = c.name := by decide
  obtain ⟨hchains, -, -⟩ := docs_follow_chains build_generations hnames howns [2, 0]
  obtain ⟨doc, hend, hlast, hstart⟩ :=
    (hchains ⟨2, 0⟩ ⟨1, 0⟩ (by decide) (by decide)).1 1 ⟨0, 0⟩ leads_generations.1
      leads_generations.2.1 (by decide)
  have hdoc : doc = "Shows it." := Option.some.inj (hend.symm.trans (by decide))
  exact ⟨build_generations, hnames, howns, hdoc ▸ hlast, hdoc ▸ hstart, by decide⟩

end Registry
end ApiDoc
