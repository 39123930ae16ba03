/-
Descriptions of one class, combined in any way.

What a class is put together from may be combined from the front, from the back or in any other way, as
long as the order is kept: the outcome is the same (`Combination.outcome_eq`).  A description that comes
once more adds nothing but its files and its members (`merge_self`).  The classes that files are grouped
into are, their members aside, such outcomes (`grouped_outcome`).
-/
import ApiDoc.Proofs.Grouping.Entries

namespace ApiDoc
namespace ClassDoc

/-! ### Two and three descriptions -/

theorem firstText_assoc (a b c : String) :
    (if (if a.isEmpty then b else a).isEmpty then c else if a.isEmpty then b else a) =
      if a.isEmpty then (if b.isEmpty then c else b) else a := by
  by_cases h : a.isEmpty
  · rw [if_pos h, if_pos h]
  · rw [if_neg h, if_neg h, if_neg h]

/-- Each field has a way of its own to be combined, and each of these ways is associative. -/
theorem merge_assoc (a b c : ClassDoc) : (a.merge b).merge c = a.merge (b.merge c) := by
  simp only [merge, firstText_assoc, appendNew_assoc, Option.orElse_eq_orElse, Option.orElse_eq_or,
    Option.or_assoc, Bool.or_assoc, List.append_assoc]

theorem merge_self (c : ClassDoc) :
    c.merge c = { c with files := c.files ++ c.files, members := c.members ++ c.members } := by
  simp only [merge, ite_self, appendNew_of_subset (List.Subset.refl _), Option.orElse_eq_orElse,
    Option.orElse_eq_or, Option.or_self, Bool.or_self]

/-! ### Any number of descriptions -/

/-- A way to combine descriptions, two neighbours at a time. -/
inductive Combination where
  | single (c : ClassDoc)
  | join (earlier later : Combination)

namespace Combination

def outcome : Combination → ClassDoc
  | single c => c
  | join earlier later => earlier.outcome.merge later.outcome

/-- The descriptions that are combined, in their order. -/
def parts : Combination → List ClassDoc
  | single c => [c]
  | join earlier later => earlier.parts ++ later.parts

theorem foldl_merge (c : ClassDoc) (t : Combination) :
    t.parts.foldl merge c = c.merge t.outcome := by
  induction t generalizing c with
  | single d => rfl
  | join earlier later ihEarlier ihLater =>
    rw [parts, List.foldl_append, ihEarlier, ihLater, merge_assoc, outcome]

/-- Every way comes out like combining one description after the other. -/
theorem exists_outcome_eq (t : Combination) :
    ∃ first rest, t.parts = first :: rest ∧ t.outcome = rest.foldl merge first := by
  induction t with
  | single c => exact ⟨c, [], rfl, rfl⟩
  | join earlier later ihEarlier _ =>
    obtain ⟨first, rest, hparts, houtcome⟩ := ihEarlier
    refine ⟨first, rest ++ later.parts, ?_, ?_⟩
    · rw [parts, hparts, List.cons_append]
    · rw [outcome, houtcome, List.foldl_append, foldl_merge]

theorem outcome_eq {s t : Combination} (h : s.parts = t.parts) : s.outcome = t.outcome := by
  obtain ⟨first, rest, hparts, houtcome⟩ := s.exists_outcome_eq
  obtain ⟨first', rest', hparts', houtcome'⟩ := t.exists_outcome_eq
  rw [hparts, hparts', List.cons.injEq] at h
  obtain ⟨rfl, rfl⟩ := h
  rw [houtcome, houtcome']

end Combination

/-! ### Grouped classes -/

theorem withoutMembers_merge (c later : ClassDoc) :
    (c.merge later).withoutMembers = c.withoutMembers.merge later.withoutMembers := rfl

/-- Members aside, the class is the outcome of combining the descriptions. -/
def IsOutcome (c : ClassDoc) (descriptions : List ClassDoc) : Prop :=
  ∃ t : Combination, t.parts = descriptions ∧ c.withoutMembers = t.outcome.withoutMembers

theorem composes_isOutcome : Composes IsOutcome := by
  refine ⟨fun c => ⟨.single c, rfl, rfl⟩, ?_, ?_⟩
  · rintro c later parts ⟨t, rfl, hc⟩ -
    refine ⟨t.join (.single later), rfl, ?_⟩
    rw [withoutMembers_merge, hc, Combination.outcome, withoutMembers_merge, Combination.outcome]
  · rintro c c' parts ⟨t, hparts, hc⟩ hsame
    exact ⟨t, hparts, hsame.trans hc⟩

end ClassDoc

namespace Grouping

open ClassDoc

/-- A grouped class is what the class entries combine to whose names stand for it. -/
theorem grouped_outcome (files : Files) {i : Nat} {c : ClassDoc}
    (hc : (ofFiles files).classes[i]? = some c) :
    IsOutcome c ((roster files).entriesAt (classEntries files) i) :=
  (written_ofFiles composes_isOutcome files).made i c hc

end Grouping

namespace ClassDoc

/-- What descriptions of a class come to depends on their order alone: three come to the same in both
ways, a second copy adds only its files and its members, and so any two ways to combine the same row of
descriptions have the same outcome, which is also what files with these class entries are grouped into. -/
theorem combined_in_order :
    (∀ a b c : ClassDoc, (a.merge b).merge c = a.merge (b.merge c)) ∧
      (∀ c : ClassDoc, c.merge c =
        { c with files := c.files ++ c.files, members := c.members ++ c.members }) ∧
      (∀ s t : Combination, s.parts = t.parts → s.outcome = t.outcome) ∧
      ∀ (files : Grouping.Files) (i : Nat) (c : ClassDoc), (Grouping.ofFiles files).classes[i]? = some c →
        IsOutcome c ((Grouping.roster files).entriesAt (Grouping.classEntries files) i) :=
  ⟨merge_assoc, merge_self, fun _ _ h => Combination.outcome_eq h,
    fun files _ _ hc => Grouping.grouped_outcome files hc⟩

/-- A description with a mixin twice, and two more of the same class. -/
def pointStart : ClassDoc :=
  { name := "Point", mixins := ["Pair", "Pair"], files := [⟨"a.js", 1⟩] }

def pointBody : ClassDoc :=
  { name := "Point", doc := "A point.", mixins := ["Frozen", "Pair"], isPrivate := true,
    files := [⟨"b.js", 7⟩] }

def pointEnd : ClassDoc :=
  { name := "Point", doc := "Said too late.", parent := some "Shape", mixins := ["Frozen", "Mixed"],
    files := [⟨"c.js", 3⟩] }

def pointClass : ClassDoc :=
  { name := "Point", doc := "A point.", parent := some "Shape",
    mixins := ["Pair", "Pair", "Frozen", "Mixed"], isPrivate := true,
    files := [⟨"a.js", 1⟩, ⟨"b.js", 7⟩, ⟨"c.js", 3⟩] }

def pointFromFront : Combination :=
  .join (.join (.single pointStart) (.single pointBody)) (.single pointEnd)

def pointFromBack : Combination :=
  .join (.single pointStart) (.join (.single pointBody) (.single pointEnd))

def pointFiles : Grouping.Files :=
  [("a.js", [{ entity := .ofClass pointStart }]), ("b.js", [{ entity := .ofClass pointBody }]),
   ("c.js", [{ entity := .ofClass pointEnd }])]

theorem combined_in_order_point :
    pointFromFront.parts = pointFromBack.parts ∧ pointFromFront.outcome = pointClass ∧
      pointFromBack.outcome = pointClass ∧
      (Grouping.ofFiles pointFiles).classes[0]? = some pointClass ∧
      IsOutcome pointClass [pointStart, pointBody, pointEnd] := by
  obtain ⟨-, -, hways, hgrouped⟩ := combined_in_order
  have hfront : pointFromFront.outcome = pointClass := rfl
  have hparts : pointFromFront.parts = pointFromBack.parts := rfl
  exact ⟨hparts, hfront, (hways _ _ hparts).symm.trans hfront, rfl,
    hgrouped pointFiles 0 pointClass rfl⟩

end ClassDoc
end ApiDoc
