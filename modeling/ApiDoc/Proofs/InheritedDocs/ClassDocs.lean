/-
Documentation that classes take over.

What a class gets is the documentation that the class it refers to had before the pass
(`classDocAt?_inheritDocs`).  Members follow chains of references to their ends, classes do not: a class
whose source is itself without documentation, and gets some in the pass, does not get it
(`class_docs_one_reference_far`).
-/
import ApiDoc.Proofs.InheritedDocs.Order

namespace ApiDoc
namespace Registry

def classDocAt? (r : Registry) (i : Nat) : Option String := (r.classAt? i).map ClassDoc.doc

/-- The class that the one at a place refers to: the one that the reference names, or the parent. -/
def classSource? (r : Registry) (i : Nat) : Option Nat :=
  (r.classAt? i).bind fun c => c.inheritdoc.bind fun ref =>
    match ref.className with
    | some name => r.find? name
    | none => r.links.parentOf? i

/-- Where an undocumented class leads to. -/
def classLeadsOn? (r : Registry) (i : Nat) : Option Nat :=
  if r.classDocAt? i = some "" then r.classSource? i else none

/-- Over `n` undocumented classes the first class leads to the second one. -/
inductive ClassLeads (r : Registry) : Nat → Nat → Nat → Prop
  | here (i : Nat) : ClassLeads r 0 i i
  | on {n i next last : Nat} (h : r.classLeadsOn? i = some next) (rest : ClassLeads r n next last) :
      ClassLeads r (n + 1) i last

theorem classDocAt?_of_classLeadsOn? {r : Registry} {i k : Nat} (h : r.classLeadsOn? i = some k) :
    r.classDocAt? i = some "" ∧ r.classSource? i = some k := by
  unfold classLeadsOn? at h
  rwa [Option.ite_none_right_eq_some] at h

/-- References lead to classes of the registry. -/
theorem isSome_classAt?_of_classSource? {classes : List ClassDoc} {ignored : List String} {r : Registry}
    (h : (build classes ignored).1 = .ok r) {i k : Nat} (hk : r.classSource? i = some k) :
    (r.classAt? k).isSome := by
  have hclasses := classes_of_build h
  have hlt : k < r.classes.length := by
    obtain ⟨c, -, hk⟩ := Option.bind_eq_some_iff.1 hk
    obtain ⟨ref, -, hk⟩ := Option.bind_eq_some_iff.1 hk
    cases hname : ref.className with
    | none =>
      rw [hname] at hk
      exact ((sound_of_build h).closed i k (Links.inherits_of_parentOf? hk)).2
    | some name =>
      rw [hname] at hk
      obtain ⟨-, rfl⟩ := build_eq_ok_iff.1 h
      exact lt_of_standsFor? ((lookup_namesOf _ _).symm.trans hk)
  rw [classAt?, List.getElem?_eq_getElem hlt]
  rfl

end Registry

namespace InheritedDocs
open Registry

theorem fst_classChangeOf {r : Registry} {i : Nat} {c : ClassDoc} (hc : r.classAt? i = some c) :
    (classChangeOf r i c).1 = ((r.classSource? i).bind r.classAt?).map fun source =>
      { className := c.name, doc := source.doc } := by
  unfold classChangeOf classSource?
  rw [hc, Option.bind_some]
  cases c.inheritdoc with
  | none => rfl
  | some ref =>
    obtain ⟨className, memberName, kind, isStatic⟩ := ref
    cases className with
    | none =>
      dsimp only [Option.bind_some]
      cases (r.links.parentOf? i).bind r.classAt? with
      | none => rfl
      | some source => rfl
    | some name =>
      dsimp only [Option.bind_some, get?]
      cases (r.find? name).bind r.classAt? with
      | none => rfl
      | some source => rfl

theorem docWith_of_ne {doc : String} (h : doc ≠ "") (change? : Option ClassChange) :
    docWith doc change? = doc := by
  cases change? with
  | none => rfl
  | some change => exact if_neg (by simpa using h)

end InheritedDocs

namespace Registry
open InheritedDocs

/-- Each class ends up with the documentation that the class it leads to had before the pass, or else
with its own. -/
theorem classDocAt?_inheritDocs {classes : List ClassDoc} {ignored : List String} {r : Registry}
    (h : (build classes ignored).1 = .ok r) (hnames : (classes.map ClassDoc.name).Nodup)
    (earlier : List Nat) (i : Nat) :
    (earlier.foldl looked r).inheritDocs.1.classDocAt? i =
      r.classDocAt? ((r.classLeadsOn? i).getD i) := by
  obtain ⟨-, hfind⟩ := find?_name_of_build h hnames
  obtain ⟨hdone, -⟩ := inheritDocs_looked (reliable_of_build h) hfind earlier
  rw [classDocAt?, classAt?, hdone, List.getElem?_map]
  cases hc : r.classAt? i with
  | none =>
    have hnone : r.classLeadsOn? i = none := by
      rw [classLeadsOn?, classDocAt?, hc]
      rfl
    rw [show r.classes[i]? = none from hc, hnone, Option.getD_none, classDocAt?, hc]
    rfl
  | some c =>
    have hdoc : r.classDocAt? i = some c.doc := by rw [classDocAt?, hc, Option.map_some]
    rw [show r.classes[i]? = some c from hc, Option.map_some, Option.map_some, hfind i c hc,
      Option.getD_some, classOutcome, fst_classChangeOf hc, classLeadsOn?, hdoc]
    by_cases hempty : c.doc = ""
    · rw [if_pos (by rw [hempty])]
      cases hk : r.classSource? i with
      | none => rw [Option.getD_none, hdoc]; rfl
      | some k =>
        obtain ⟨source, hsource⟩ :=
          Option.isSome_iff_exists.1 (isSome_classAt?_of_classSource? h hk)
        rw [Option.bind_some, hsource, Option.getD_some, classDocAt?, hsource, Option.map_some,
          Option.map_some, hempty]
        rfl
    · rw [if_neg (by simpa using hempty), Option.getD_none, hdoc, docWith_of_ne hempty]

/-- In a registry whose classes have different names, and whatever was looked up before: an undocumented
class that refers to a class of the registry gets the documentation that this one had before the pass.
So it has in the end what its source has, if and only if the source does not take over documentation
itself; and at the beginning of a chain over undocumented classes arrives what is at its end, if and only
if that is the source or there is nothing to take over. -/
theorem class_docs_one_reference_far {classes : List ClassDoc} {ignored : List String} {r : Registry}
    (h : (build classes ignored).1 = .ok r) (hnames : (classes.map ClassDoc.name).Nodup)
    (earlier : List Nat) :
    let done := (earlier.foldl looked r).inheritDocs.1
    ∀ i k, r.classDocAt? i = some "" → r.classSource? i = some k →
      (∃ doc, r.classDocAt? k = some doc ∧ done.classDocAt? i = some doc) ∧
      (done.classDocAt? i = done.classDocAt? k ↔
        ∀ next, r.classLeadsOn? k = some next → r.classDocAt? next = some "") ∧
      ∀ n last, r.ClassLeads n k last → r.classLeadsOn? last = none →
        (done.classDocAt? i = r.classDocAt? last ↔ n = 0 ∨ r.classDocAt? last = some "") := by
  intro done i k hempty hk
  have hdone := classDocAt?_inheritDocs h hnames earlier
  have hleads : r.classLeadsOn? i = some k := by rw [classLeadsOn?, if_pos hempty, hk]
  have hi : done.classDocAt? i = r.classDocAt? k := by rw [hdone, hleads, Option.getD_some]
  refine ⟨?_, ?_, fun n last hchain hend => ?_⟩
  · obtain ⟨source, hsource⟩ := Option.isSome_iff_exists.1 (isSome_classAt?_of_classSource? h hk)
    have hdoc : r.classDocAt? k = some source.doc := by
      rw [classDocAt?, hsource, Option.map_some]
    exact ⟨source.doc, hdoc, hi.trans hdoc⟩
  · rw [hi, hdone]
    cases hnext : r.classLeadsOn? k with
    | none => simp
    | some next =>
      rw [(classDocAt?_of_classLeadsOn? hnext).1, Option.getD_some]
      exact ⟨fun hsame next' hnext' => Option.some.inj hnext' ▸ hsame.symm,
        fun hnone => (hnone next rfl).symm⟩
  · rw [hi]
    cases hchain with
    | here => simp
    | on hnext _ =>
      rw [(classDocAt?_of_classLeadsOn? hnext).1]
      simp [eq_comm]

/-- A class with documentation, and two that take theirs over, the last one from the one before. -/
def views : List ClassDoc :=
  [{ name := "Base", doc := "Shows it." },
   { name := "Panel", parent := some "Base", inheritdoc := some {} },
   { name := "Window", parent := some "Panel", inheritdoc := some {} }]

def viewsRegistry : Registry :=
  { classes := views, names := namesOf views, links := linksOf (namesOf views) views }

theorem build_views : (build views []).1 = .ok viewsRegistry :=
  build_eq_ok_iff.2 ⟨by decide, rfl⟩

theorem class_docs_views :
    let done := ([2].foldl looked viewsRegistry).inheritDocs.1
    (build views []).1 = .ok viewsRegistry ∧ (views.map ClassDoc.name).Nodup ∧
      viewsRegistry.classDocAt? 1 = some "" ∧ viewsRegistry.classSource? 1 = some 0 ∧
      done.classDocAt? 1 = done.classDocAt? 0 ∧ done.classDocAt? 1 = some "Shows it." ∧
      viewsRegistry.ClassLeads 1 1 0 ∧ viewsRegistry.classLeadsOn? 0 = none ∧
      done.classDocAt? 2 ≠ viewsRegistry.classDocAt? 0 := by
  intro done
  have hnames : (views.map ClassDoc.name).Nodup := by decide
  have hfar := class_docs_one_reference_far build_views hnames [2]
  obtain ⟨⟨doc, hdoc, hpanel⟩, hsame, -⟩ := hfar 1 0 (by decide) (by decide)
  obtain ⟨-, -, hchains⟩ := hfar 2 1 (by decide) (by decide)
  have hchain : viewsRegistry.ClassLeads 1 1 0 := .on (by decide) (.here 0)
  have hend : viewsRegistry.classLeadsOn? 0 = none := by decide
  obtain rfl : doc = "Shows it." := Option.some.inj (hdoc.symm.trans (by decide))
  refine ⟨build_views, hnames, by decide, by decide, hsame.2 (by decide), hpanel, hchain, hend, ?_⟩
  rw [Ne, hchains 1 0 hchain hend]
  decide

/-- The last class refers to a class that has documentation in the end, and has none. -/
theorem chained_class_left_empty :
    (build views []).1 = .ok viewsRegistry ∧ (views.map ClassDoc.name).Nodup ∧
      viewsRegistry.classDocAt? 2 = some "" ∧ viewsRegistry.classSource? 2 = some 1 ∧
      viewsRegistry.inheritDocs.1.classDocAt? 1 = some "Shows it." ∧
      viewsRegistry.inheritDocs.1.classDocAt? 2 = some "" :=
  ⟨build_views, by decide, by decide, by decide, by decide, by decide⟩

end Registry
end ApiDoc
