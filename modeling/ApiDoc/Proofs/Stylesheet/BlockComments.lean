/-
The comments of style sheets.

A style sheet is cut into comments from left to right: a comment opens with the first `/*` and ends with the
first `*/` behind that, and it is a documentation comment if it starts with `/**` and is more than `/**/`.
Documentation comments are looked for in a simpler way, with `/**` itself as what opens a comment.  Both ways
find the same comments unless a `/**` stands in a comment of another sort, and is closed somewhere
(`docs_eq_comments_iff`).
-/
import Mathlib.Data.List.Basic
import ApiDoc.Stylesheet.Reader

namespace ApiDoc

/-! ### Where a part of a text stands -/

namespace Text

/-- A part stands at a place of a text. -/
def StartsAt (part cs : List Char) (i : Nat) : Prop := part <+: cs.drop i

/-- The first place from `n` on at which a part stands. -/
def firstFrom? (part cs : List Char) (n : Nat) : Option Nat :=
  (List.range' n (cs.length - n)).find? fun i => part.isPrefixOf (cs.drop i)

section
variable {part cs : List Char} {n i : Nat}

theorem StartsAt.le_length (h : StartsAt part cs i) (hpart : part ≠ []) :
    i + part.length ≤ cs.length := by
  have hlength : part.length ≤ (cs.drop i).length := List.IsPrefix.length_le h
  have hpos := List.length_pos_iff.2 hpart
  rw [List.length_drop] at hlength
  omega

theorem mem_range'_of_startsAt (hpart : part ≠ []) (hn : n ≤ i) (h : StartsAt part cs i) :
    i ∈ List.range' n (cs.length - n) := by
  have hle := h.le_length hpart
  have hpos := List.length_pos_iff.2 hpart
  exact List.mem_range'_1.2 ⟨hn, by omega⟩

theorem firstFrom?_eq_none_iff (hpart : part ≠ []) :
    firstFrom? part cs n = none ↔ ∀ i, n ≤ i → ¬ StartsAt part cs i := by
  rw [firstFrom?, List.find?_eq_none]
  constructor
  · intro h i hn hi
    exact h i (mem_range'_of_startsAt hpart hn hi) (List.isPrefixOf_iff_prefix.2 hi)
  · intro h i hi hp
    exact h i (List.mem_range'_1.1 hi).1 (List.isPrefixOf_iff_prefix.1 hp)

theorem firstFrom?_eq_some_iff (hpart : part ≠ []) :
    firstFrom? part cs n = some i ↔
      n ≤ i ∧ StartsAt part cs i ∧ ∀ j, n ≤ j → j < i → ¬ StartsAt part cs j := by
  rw [firstFrom?, List.find?_range'_eq_some]
  constructor
  · rintro ⟨hp, hmem, hleast⟩
    refine ⟨(List.mem_range'_1.1 hmem).1, List.isPrefixOf_iff_prefix.1 hp, fun j hn hj h => ?_⟩
    have hnot := hleast j hn hj
    rw [List.isPrefixOf_iff_prefix.2 h] at hnot
    cases hnot
  · rintro ⟨hn, hi, hleast⟩
    refine ⟨List.isPrefixOf_iff_prefix.2 hi, mem_range'_of_startsAt hpart hn hi, fun j hnj hj => ?_⟩
    rw [Bool.not_eq_true', ← Bool.not_eq_true, List.isPrefixOf_iff_prefix]
    exact hleast j hnj hj

/-- Where the first part does not stand before `i`, nothing changes if one looks from there on. -/
theorem firstFrom?_congr (hpart : part ≠ []) (hn : n ≤ i)
    (h : ∀ j, n ≤ j → j < i → ¬ StartsAt part cs j) : firstFrom? part cs n = firstFrom? part cs i := by
  cases hi : firstFrom? part cs i with
  | none =>
    rw [firstFrom?_eq_none_iff hpart] at hi ⊢
    intro j hnj
    by_cases hj : j < i
    · exact h j hnj hj
    · exact hi j (Nat.le_of_not_lt hj)
  | some k =>
    rw [firstFrom?_eq_some_iff hpart] at hi ⊢
    obtain ⟨hik, hk, hleast⟩ := hi
    refine ⟨Nat.le_trans hn hik, hk, fun j hnj hjk => ?_⟩
    by_cases hj : j < i
    · exact h j hnj hj
    · exact hleast j (Nat.le_of_not_lt hj) hjk

theorem exists_firstFrom?_le (hpart : part ≠ []) (hn : n ≤ i) (h : StartsAt part cs i) :
    ∃ j, j ≤ i ∧ firstFrom? part cs n = some j := by
  cases hfirst : firstFrom? part cs n with
  | none => exact absurd h ((firstFrom?_eq_none_iff hpart).1 hfirst i hn)
  | some j =>
    obtain ⟨-, -, hleast⟩ := (firstFrom?_eq_some_iff hpart).1 hfirst
    exact ⟨j, Nat.le_of_not_lt fun hlt => hleast i hn hlt h, rfl⟩

theorem startsAt_drop : StartsAt part (cs.drop n) i ↔ StartsAt part cs (n + i) := by
  rw [StartsAt, StartsAt, List.drop_drop]

theorem not_startsAt_zero (h : part.isPrefixOf? cs = none) : ¬ StartsAt part cs 0 := by
  rintro ⟨rest, hrest⟩
  rw [List.drop_zero, ← List.isPrefixOf?_eq_some_iff_append_eq, h] at hrest
  cases hrest

/-- A cut is made where the part stands first. -/
theorem cutText?_eq_some {before rest : List Char} (h : cutText? part cs = some (before, rest)) :
    cs = before ++ (part ++ rest) ∧ ∀ j, j < before.length → ¬ StartsAt part cs j := by
  induction cs generalizing before with
  | nil =>
    obtain ⟨after, hafter, heq⟩ := Option.map_eq_some_iff.1 h
    cases heq
    exact ⟨(eq_append_of_isPrefixOf? hafter).trans (List.nil_append _).symm,
      fun j hj => absurd hj (Nat.not_lt_zero j)⟩
  | cons c cs ih =>
    rw [cutText?] at h
    split at h
    · next after hafter =>
      cases h
      exact ⟨(eq_append_of_isPrefixOf? hafter).trans (List.nil_append _).symm,
        fun j hj => absurd hj (Nat.not_lt_zero j)⟩
    · next hnone =>
      obtain ⟨⟨front, after⟩, hcut, heq⟩ := Option.map_eq_some_iff.1 h
      cases heq
      obtain ⟨hcs, hleast⟩ := ih hcut
      refine ⟨congrArg (c :: ·) hcs, fun j hj => ?_⟩
      cases j with
      | zero => exact not_startsAt_zero hnone
      | succ j => exact hleast j (Nat.lt_of_succ_lt_succ hj)

theorem cutText?_eq_none (hpart : part ≠ []) (h : cutText? part cs = none) (i : Nat) :
    ¬ StartsAt part cs i := by
  induction cs generalizing i with
  | nil =>
    rw [StartsAt, List.drop_nil, List.prefix_nil]
    exact hpart
  | cons c cs ih =>
    rw [cutText?] at h
    split at h
    · cases h
    · next hnone =>
      cases i with
      | zero => exact not_startsAt_zero hnone
      | succ i => exact ih (Option.map_eq_none_iff.1 h) i

theorem cutText?_drop (hpart : part ≠ []) (cs : List Char) (n : Nat) :
    cutText? part (cs.drop n) =
      (firstFrom? part cs n).map fun i => ((cs.drop n).take (i - n), cs.drop (i + part.length)) := by
  cases hcut : cutText? part (cs.drop n) with
  | none =>
    have hnone : firstFrom? part cs n = none := by
      refine (firstFrom?_eq_none_iff hpart).2 fun i hi h => ?_
      rw [← Nat.add_sub_cancel' hi, ← startsAt_drop] at h
      exact cutText?_eq_none hpart hcut _ h
    rw [hnone, Option.map_none]
  | some p =>
    obtain ⟨before, rest⟩ := p
    obtain ⟨hcs, hleast⟩ := cutText?_eq_some hcut
    have hfirst : firstFrom? part cs n = some (n + before.length) := by
      refine (firstFrom?_eq_some_iff hpart).2 ⟨Nat.le_add_right n _, ?_, fun j hnj hj h => ?_⟩
      · rw [← startsAt_drop, StartsAt, hcs, List.drop_left]
        exact List.prefix_append part rest
      · rw [← Nat.add_sub_cancel' hnj, ← startsAt_drop] at h
        exact hleast _ (by omega) h
    have hbefore : (cs.drop n).take (n + before.length - n) = before := by
      rw [Nat.add_sub_cancel_left, hcs, List.take_left]
    have hrest : cs.drop (n + before.length + part.length) = rest := by
      rw [Nat.add_assoc, ← List.drop_drop, hcs, ← List.append_assoc, ← List.length_append, List.drop_left]
    rw [hfirst, Option.map_some, hbefore, hrest]

end

end Text

namespace Stylesheet
open Text

/-! ### Comments from left to right -/

/-- A comment as the places at which it opens and closes. -/
structure Block where
  start : Nat
  close : Nat
  deriving DecidableEq, Repr

/-- What opens a comment, what opens one for documentation, and what closes both. -/
def opener : List Char := "/*".toList

def docOpener : List Char := "/**".toList

def closer : List Char := "*/".toList

theorem length_docOpener : docOpener.length = opener.length + 1 := rfl

theorem sub_lt_of_firstFrom? {opens cs : List Char} {n i j : Nat} (h : firstFrom? opens cs n = some i)
    (k : firstFrom? closer cs (i + opens.length) = some j) : cs.length - (j + 2) < cs.length - n := by
  have hi := List.mem_range'_1.1 (List.mem_of_find?_eq_some h)
  have hj := List.mem_range'_1.1 (List.mem_of_find?_eq_some k)
  omega

/-- The comments from `n` on, from left to right.  One that is not closed ends the search. -/
def comments (opens cs : List Char) (n : Nat) : List Block :=
  match h : firstFrom? opens cs n with
  | none => []
  | some i =>
    match k : firstFrom? closer cs (i + opens.length) with
    | none => []
    | some j =>
      have := sub_lt_of_firstFrom? h k
      ⟨i, j⟩ :: comments opens cs (j + 2)
termination_by cs.length - n

/-- What a comment says, with the code behind it. -/
def recordAt (cs : List Char) (b : Block) : SourceDoc :=
  { comment := String.ofList ((cs.drop (b.start + 3)).take (b.close - (b.start + 3)))
    code := construct? (cs.drop (b.close + 2))
    line := 1 + countNewlines (cs.take b.start) }

theorem countNewlines_append (xs ys : List Char) :
    countNewlines (xs ++ ys) = countNewlines xs + countNewlines ys :=
  List.count_append

theorem countNewlines_take {cs : List Char} {n i : Nat} (h : n ≤ i) :
    countNewlines (cs.take i) = countNewlines (cs.take n) + countNewlines ((cs.drop n).take (i - n)) := by
  rw [← countNewlines_append, ← List.take_add, Nat.add_sub_cancel' h]

/-- A part of one line does not count. -/
theorem countNewlines_take_of_startsAt {part cs : List Char} {i : Nat} (h : StartsAt part cs i)
    (hpart : countNewlines part = 0) :
    countNewlines (cs.take (i + part.length)) = countNewlines (cs.take i) := by
  rw [List.take_add, countNewlines_append, ← List.prefix_iff_eq_take.1 h, hpart, Nat.add_zero]

theorem docsFrom_eq (line : Nat) (cs : List Char) :
    docsFrom line cs =
      match cutText? docOpener cs with
      | none => []
      | some (before, rest) =>
        match cutText? closer rest with
        | none => []
        | some (comment, after) =>
          { comment := String.ofList comment, code := construct? after
            line := line + countNewlines before } ::
          docsFrom (line + countNewlines before + countNewlines comment) after := by
  rw [docsFrom]
  split
  · next h => rw [show cutText? docOpener cs = none from h]
  · next before rest h =>
    rw [show cutText? docOpener cs = some (before, rest) from h]
    dsimp only
    split
    · next k => rw [show cutText? closer rest = none from k]
    · next comment after k => rw [show cutText? closer rest = some (comment, after) from k]

/-- The documentation comments that are found are those of a search for what opens them. -/
theorem docsFrom_drop (cs : List Char) (n : Nat) :
    docsFrom (1 + countNewlines (cs.take n)) (cs.drop n) =
      (comments docOpener cs n).map (recordAt cs) := by
  fun_induction comments docOpener cs n with
  | case1 n h =>
    rw [docsFrom_eq, cutText?_drop (by decide), h]
    rfl
  | case2 n i h k =>
    rw [docsFrom_eq, cutText?_drop (by decide), h]
    dsimp only [Option.map_some]
    rw [cutText?_drop (by decide), k]
    rfl
  | case3 n i h j k hlt ih =>
    obtain ⟨hni, hi, -⟩ := (firstFrom?_eq_some_iff (by decide)).1 h
    obtain ⟨hij, hj, -⟩ := (firstFrom?_eq_some_iff (by decide)).1 k
    have hline : 1 + countNewlines (cs.take n) + countNewlines ((cs.drop n).take (i - n)) =
        1 + countNewlines (cs.take i) := by rw [countNewlines_take hni, Nat.add_assoc]
    have hnext : 1 + countNewlines (cs.take i) +
          countNewlines ((cs.drop (i + docOpener.length)).take (j - (i + docOpener.length))) =
        1 + countNewlines (cs.take (j + 2)) := by
      rw [show j + 2 = j + closer.length from rfl, countNewlines_take_of_startsAt hj rfl,
        countNewlines_take hij, countNewlines_take_of_startsAt hi rfl, Nat.add_assoc]
    rw [docsFrom_eq, cutText?_drop (by decide), h]
    dsimp only [Option.map_some]
    rw [cutText?_drop (by decide), k]
    dsimp only [Option.map_some]
    rw [hline, hnext]
    exact congrArg _ ih

/-! ### What opens a documentation comment elsewhere -/

/-- A comment with what opens and closes it. -/
def Block.text (cs : List Char) (b : Block) : List Char :=
  (cs.drop b.start).take (b.close + 2 - b.start)

/-- Whether a comment is one for documentation: it starts like one, and is more than an empty comment of
the other sort. -/
def Block.isDoc (cs : List Char) (b : Block) : Bool :=
  docOpener.isPrefixOf (b.text cs) && b.text cs != "/**/".toList

/-- A comment is not one for documentation, what opens one stands in it, and somewhere behind that stands
what closes it. -/
def Misleads (cs : List Char) (b : Block) : Prop :=
  b.isDoc cs = false ∧ ∃ p q, b.start ≤ p ∧ p < b.close + 2 ∧ StartsAt docOpener cs p ∧
    p + docOpener.length ≤ q ∧ StartsAt closer cs q

section
variable {opens cs : List Char} {n i j : Nat}

theorem comments_eq (opens cs : List Char) (n : Nat) :
    comments opens cs n =
      match firstFrom? opens cs n with
      | none => []
      | some i =>
        match firstFrom? closer cs (i + opens.length) with
        | none => []
        | some j => ⟨i, j⟩ :: comments opens cs (j + 2) := by
  fun_cases comments opens cs n with
  | case1 h => rw [h]
  | case2 i h k =>
    rw [h]
    dsimp only
    rw [k]
  | case3 i h j k =>
    rw [h]
    dsimp only
    rw [k]

theorem comments_of_unclosed (h : firstFrom? opens cs n = some i)
    (k : firstFrom? closer cs (i + opens.length) = none) : comments opens cs n = [] := by
  rw [comments_eq, h]
  dsimp only
  rw [k]

theorem comments_of_closed (h : firstFrom? opens cs n = some i)
    (k : firstFrom? closer cs (i + opens.length) = some j) :
    comments opens cs n = ⟨i, j⟩ :: comments opens cs (j + 2) := by
  rw [comments_eq, h]
  dsimp only
  rw [k]

theorem le_start_of_mem_comments (hopens : opens ≠ []) {b : Block} (hb : b ∈ comments opens cs n) :
    n ≤ b.start := by
  fun_induction comments opens cs n with
  | case1 n h => cases hb
  | case2 n i h k => cases hb
  | case3 n i h j k hlt ih =>
    obtain ⟨hni, -, -⟩ := (firstFrom?_eq_some_iff hopens).1 h
    obtain ⟨hij, -, -⟩ := (firstFrom?_eq_some_iff (by decide)).1 k
    rcases List.mem_cons.1 hb with rfl | hb
    · exact hni
    · have hstart := ih hb
      omega

/-- Nothing is found if what opens a comment is nowhere closed. -/
theorem comments_eq_nil (hopens : opens ≠ [])
    (h : ∀ p q, n ≤ p → StartsAt opens cs p → p + opens.length ≤ q → ¬ StartsAt closer cs q) :
    comments opens cs n = [] := by
  fun_cases comments opens cs n with
  | case1 hfirst => rfl
  | case2 i hfirst k => rfl
  | case3 i hfirst j k =>
    obtain ⟨hni, hi, -⟩ := (firstFrom?_eq_some_iff hopens).1 hfirst
    obtain ⟨hij, hj, -⟩ := (firstFrom?_eq_some_iff (by decide)).1 k
    exact absurd hj (h i j hni hi hij)

theorem startsAt_opener (h : StartsAt docOpener cs i) : StartsAt opener cs i :=
  List.IsPrefix.trans (List.prefix_append opener ['*']) h

theorem isDoc_iff (hi : StartsAt opener cs i) (hj : StartsAt closer cs j) (hij : i + 2 ≤ j) :
    Block.isDoc cs ⟨i, j⟩ = true ↔ StartsAt docOpener cs i ∧ i + 3 ≤ j := by
  have hstart : docOpener <+: Block.text cs ⟨i, j⟩ ↔ StartsAt docOpener cs i := by
    rw [Block.text, List.prefix_take_iff, StartsAt]
    exact and_iff_left (show 3 ≤ j + 2 - i by omega)
  have hempty : Block.text cs ⟨i, j⟩ = "/**/".toList ↔ j = i + 2 := by
    constructor
    · intro h
      have hlength := congrArg List.length h
      rw [Block.text, List.length_take, List.length_drop] at hlength
      have hle : j + 2 ≤ cs.length := hj.le_length (by decide)
      have h4 : min (j + 2 - i) (cs.length - i) = 4 := hlength
      omega
    · rintro rfl
      have hfront : (cs.drop i).take 2 = opener := (List.prefix_iff_eq_take.1 hi).symm
      have hback : (cs.drop (i + 2)).take 2 = closer := (List.prefix_iff_eq_take.1 hj).symm
      rw [Block.text, show i + 2 + 2 - i = 2 + 2 by omega, List.take_add, List.drop_drop, hfront, hback]
      rfl
  rw [Block.isDoc, Bool.and_eq_true, List.isPrefixOf_iff_prefix, hstart, bne_iff_ne, ne_eq, hempty]
  exact and_congr_right fun _ => by omega

/-- What opens a documentation comment stands no earlier than the first comment. -/
theorem le_of_startsAt_docOpener (h : firstFrom? opener cs n = some i) {p : Nat} (hnp : n ≤ p)
    (hp : StartsAt docOpener cs p) : i ≤ p := by
  obtain ⟨-, -, hleast⟩ := (firstFrom?_eq_some_iff (by decide)).1 h
  exact Nat.le_of_not_lt fun hlt => hleast p hnp hlt (startsAt_opener hp)

/-- A documentation comment is found in both ways. -/
theorem comments_of_isDoc (h : firstFrom? opener cs n = some i)
    (k : firstFrom? closer cs (i + opener.length) = some j) (hdoc : Block.isDoc cs ⟨i, j⟩ = true) :
    comments docOpener cs n = ⟨i, j⟩ :: comments docOpener cs (j + 2) := by
  obtain ⟨hni, hi, -⟩ := (firstFrom?_eq_some_iff (by decide)).1 h
  obtain ⟨hij, hj, hfirst⟩ := (firstFrom?_eq_some_iff (by decide)).1 k
  obtain ⟨hopens, hlong⟩ := (isDoc_iff hi hj hij).1 hdoc
  refine comments_of_closed ?_ ?_
  · exact (firstFrom?_eq_some_iff (by decide)).2
      ⟨hni, hopens, fun p hnp hp hopens => absurd (le_of_startsAt_docOpener h hnp hopens) (by omega)⟩
  · exact (firstFrom?_eq_some_iff (by decide)).2
      ⟨hlong, hj, fun q hq hqj => hfirst q (Nat.le_of_succ_le hq) hqj⟩

/-- In another comment stands what opens a documentation comment.  Either it is closed, and what is found
starts too early, or nothing at all is closed behind it. -/
theorem comments_of_inner (h : firstFrom? opener cs n = some i)
    (hdoc : Block.isDoc cs ⟨i, j⟩ = false) {p : Nat} (hp : firstFrom? docOpener cs n = some p)
    (hpj : p < j + 2) :
    comments docOpener cs n = (comments opener cs (j + 2)).filter (Block.isDoc cs) ↔
      ¬ Misleads cs ⟨i, j⟩ ∧ ∀ b ∈ comments opener cs (j + 2), ¬ Misleads cs b := by
  obtain ⟨hni, -, -⟩ := (firstFrom?_eq_some_iff (by decide)).1 h
  obtain ⟨hnp, hopens, hleast⟩ := (firstFrom?_eq_some_iff (by decide)).1 hp
  have hip := le_of_startsAt_docOpener h hnp hopens
  cases hq : firstFrom? closer cs (p + docOpener.length) with
  | none =>
    have hopen := (firstFrom?_eq_none_iff (by decide)).1 hq
    have hlater : comments opener cs (j + 2) = [] :=
      comments_eq_nil (by decide) fun p' q hp' _ hq => hopen q (by rw [length_docOpener]; omega)
    have hnot : ¬ Misleads cs ⟨i, j⟩ := by
      rintro ⟨-, p', q, hip', -, hopens', hpq, hcloser⟩
      have hpp : p ≤ p' := Nat.le_of_not_lt fun hlt => hleast p' (Nat.le_trans hni hip') hlt hopens'
      exact hopen q (by omega) hcloser
    rw [comments_of_unclosed hp hq, hlater]
    exact iff_of_true rfl ⟨hnot, fun b hb => absurd hb List.not_mem_nil⟩
  | some q =>
    obtain ⟨hpq, hcloser, -⟩ := (firstFrom?_eq_some_iff (by decide)).1 hq
    refine iff_of_false (fun heq => ?_) fun hnot => hnot.1 ⟨hdoc, p, q, hip, hpj, hopens, hpq, hcloser⟩
    have hmem : ⟨p, q⟩ ∈ (comments opener cs (j + 2)).filter (Block.isDoc cs) := by
      rw [← heq, comments_of_closed hp hq]
      exact List.mem_cons_self
    exact absurd (le_start_of_mem_comments (by decide) (List.mem_filter.1 hmem).1) (Nat.not_le_of_lt hpj)

/-- In another comment and before it nothing stands that opens a documentation comment. -/
theorem comments_of_outer (h : firstFrom? opener cs n = some i) (hnj : n ≤ j + 2)
    (houter : ∀ p, n ≤ p → p < j + 2 → ¬ StartsAt docOpener cs p) :
    comments docOpener cs n = comments docOpener cs (j + 2) ∧ ¬ Misleads cs ⟨i, j⟩ := by
  obtain ⟨hni, -, -⟩ := (firstFrom?_eq_some_iff (by decide)).1 h
  constructor
  · rw [comments_eq, comments_eq docOpener cs (j + 2), firstFrom?_congr (by decide) hnj houter]
  · rintro ⟨-, p, q, hip, hp, hopens, -, -⟩
    exact houter p (Nat.le_trans hni hip) hp hopens

end

/-- Both ways find the same comments unless one of them misleads. -/
theorem comments_docOpener_iff (cs : List Char) (n : Nat) :
    comments docOpener cs n = (comments opener cs n).filter (Block.isDoc cs) ↔
      ∀ b ∈ comments opener cs n, ¬ Misleads cs b := by
  fun_induction comments opener cs n with
  | case1 n h =>
    -- Without `/*` there is no `/**`.
    have hnone : firstFrom? docOpener cs n = none := by
      rw [firstFrom?_eq_none_iff (by decide)] at h ⊢
      exact fun p hp hopens => h p hp (startsAt_opener hopens)
    rw [comments_eq, hnone]
    exact iff_of_true rfl fun b hb => absurd hb List.not_mem_nil
  | case2 n i h k =>
    have hnil : comments docOpener cs n = [] := by
      refine comments_eq_nil (by decide) fun p q hnp hp hpq => ?_
      have hip := le_of_startsAt_docOpener h hnp hp
      rw [length_docOpener] at hpq
      exact (firstFrom?_eq_none_iff (by decide)).1 k q (by omega)
    rw [hnil]
    exact iff_of_true rfl fun b hb => absurd hb List.not_mem_nil
  | case3 n i h j k hlt ih =>
    cases hdoc : Block.isDoc cs ⟨i, j⟩ with
    | true =>
      rw [comments_of_isDoc h k hdoc, List.filter_cons_of_pos hdoc, List.cons_inj_right, ih,
        List.forall_mem_cons]
      exact (and_iff_right fun hm => by rw [Misleads, hdoc] at hm; cases hm.1).symm
    | false =>
      rw [List.filter_cons_of_neg (by rw [hdoc]; exact Bool.false_ne_true), List.forall_mem_cons]
      have hnj : n ≤ j + 2 := by
        obtain ⟨hni, -, -⟩ := (firstFrom?_eq_some_iff (by decide)).1 h
        obtain ⟨hij, -, -⟩ := (firstFrom?_eq_some_iff (by decide)).1 k
        omega
      by_cases hinner : ∃ p, n ≤ p ∧ p < j + 2 ∧ StartsAt docOpener cs p
      · obtain ⟨p, hnp, hpj, hopens⟩ := hinner
        obtain ⟨first, hle, hfirst⟩ := exists_firstFrom?_le (by decide) hnp hopens
        exact comments_of_inner h hdoc hfirst (Nat.lt_of_le_of_lt hle hpj)
      · obtain ⟨hskip, hnot⟩ := comments_of_outer h hnj
          fun p hnp hpj hopens => hinner ⟨p, hnp, hpj, hopens⟩
        rw [hskip, ih, and_iff_right hnot]

/-- The documentation comments that are found start with the first `/**`, and they are those among all
comments iff no comment of another sort misleads. -/
theorem docs_eq_comments_iff (text : String) :
    docs text = (comments docOpener text.toList 0).map (recordAt text.toList) ∧
      (comments docOpener text.toList 0 =
          (comments opener text.toList 0).filter (Block.isDoc text.toList) ↔
        ∀ b ∈ comments opener text.toList 0, ¬ Misleads text.toList b) :=
  ⟨docsFrom_drop text.toList 0, comments_docOpener_iff text.toList 0⟩

/-- A comment that speaks of another sort of comment. -/
def innerOpener : String := "/* Not /** a doc. */\n$a: 1;\n/** A doc. */\n$b: 2;\n"

/-- An empty comment. -/
def emptyComment : String := "/**/\n$a: 1;\n/** A doc. */\n$b: 2;\n"

/-- Texts without quotes and line comments in which a comment misleads, once into one that is no comment
for documentation and once past one that is. -/
theorem docs_misled :
    (∀ text ∈ [innerOpener, emptyComment], '"' ∉ text.toList ∧ '\'' ∉ text.toList ∧
      containsText "//".toList text.toList = false) ∧
    (docs innerOpener).map SourceDoc.comment = [" a doc. ", " A doc. "] ∧
    (((comments opener innerOpener.toList 0).filter (Block.isDoc innerOpener.toList)).map
      (recordAt innerOpener.toList)).map SourceDoc.comment = [" A doc. "] ∧
    (docs emptyComment).map SourceDoc.comment = ["/\n$a: 1;\n/** A doc. "] ∧
    (((comments opener emptyComment.toList 0).filter (Block.isDoc emptyComment.toList)).map
      (recordAt emptyComment.toList)).map SourceDoc.comment = [" A doc. "] := by
  decide +kernel

end Stylesheet
end ApiDoc
