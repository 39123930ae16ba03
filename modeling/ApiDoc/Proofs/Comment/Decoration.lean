/-
Two styles of decoration, one text.

The lines of a comment are written with a star each, or with spaces in front.  Taking the decoration off
gives the lines back in both styles, so it does not matter in which one a comment is written
(`decorations_agree`).  Which style it is has to be guessed from the lines: what tells them apart is that
the first line that is not blank does not start with a star of its own.
-/
import ApiDoc.Comment.Parsed
import Mathlib.Data.List.Basic
import Mathlib.Data.List.TakeWhile

namespace ApiDoc
namespace Comment

open Text

/-! ### The lines of a comment -/

theorem dropLastReturn_of_getLast? {l : List Char} (h : l.getLast? ≠ some '\r') :
    dropLastReturn l = l := by
  rw [dropLastReturn, if_neg (by simpa using h)]

theorem joinWith_newline_cons (l : List Char) (ls : List (List Char)) :
    joinWith ['\n'] (l :: ls) = l ++ ls.flatMap fun l => '\n' :: l := by
  induction ls generalizing l with
  | nil => rfl
  | cons l' ls ih =>
    rw [joinWith, List.intercalate_cons_cons, ← joinWith, ih, List.flatMap_cons, List.append_assoc,
      List.singleton_append, List.cons_append]

/-- A text is cut back into the lines it was joined from, if none has a line break in it and the last
one is not empty. -/
theorem lines_joinWith {ls : List (List Char)} (hlast : ∀ l ∈ ls.getLast?, l ≠ [])
    (hline : ∀ l ∈ ls, '\n' ∉ l) (hreturn : ∀ l ∈ ls, l.getLast? ≠ some '\r') :
    lines (joinWith ['\n'] ls) = ls := by
  by_cases hnil : ls = []
  · subst hnil
    rfl
  · have hsplit : (joinWith ['\n'] ls).splitOn '\n' = ls := List.splitOn_intercalate '\n' hline hnil
    have hclosed : ls.dropLast.map dropLastReturn = ls.dropLast := by
      rw [List.map_congr_left fun l hl =>
        dropLastReturn_of_getLast? (hreturn l (List.dropLast_subset ls hl)), List.map_id']
    have hend := List.getLast?_eq_some_getLast hnil
    have hendNe := hlast _ hend
    unfold lines
    simp only [hsplit, hclosed, hend]
    exact List.dropLast_append_getLast hnil

/-! ### Comments with decoration -/

/-- A comment in which every line stands alone, written with what decorates it. -/
def framed (write : List Char → List Char) (closing : List Char) (ls : List (List Char)) : List Char :=
  '\n' :: (ls.flatMap fun l => write l ++ ['\n']) ++ closing

/-- The comment with a star and a space before each line. -/
def starred (ls : List (List Char)) : List Char := framed (" * ".toList ++ ·) [' '] ls

/-- The comment with `k` spaces before each line, and `j` before its end. -/
def indented (k j : Nat) (ls : List (List Char)) : List Char :=
  framed (List.replicate k ' ' ++ ·) (List.replicate j ' ') ls

/-- The comment without decoration. -/
def bare (ls : List (List Char)) : List Char := framed id [] ls

theorem framed_eq_joinWith (write : List Char → List Char) (closing : List Char)
    (ls : List (List Char)) :
    framed write closing ls = joinWith ['\n'] ([] :: (ls.map write ++ [closing])) := by
  rw [joinWith_newline_cons, List.nil_append, framed]
  induction ls with
  | nil => exact (List.append_nil _).symm
  | cons l ls ih =>
    simp only [List.map_cons, List.flatMap_cons, List.cons_append, List.append_assoc,
      List.nil_append] at ih ⊢
    rw [← ih]

theorem lines_framed {write : List Char → List Char} {closing : List Char} {ls : List (List Char)}
    (hline : ∀ l ∈ ls, '\n' ∉ write l) (hreturn : ∀ l ∈ ls, (write l).getLast? ≠ some '\r')
    (hclosing : ∀ c ∈ closing, c = ' ') (hne : closing ≠ []) :
    lines (framed write closing ls) = [] :: (ls.map write ++ [closing]) := by
  have hlast : closing.getLast? ≠ some '\r' := fun h =>
    absurd (hclosing _ (List.mem_of_getLast? h)) (by decide)
  rw [framed_eq_joinWith]
  refine lines_joinWith (fun l hl => ?_)
    (List.forall_mem_cons.2 ⟨List.not_mem_nil, List.forall_mem_append.2 ⟨List.forall_mem_map.2 hline,
      List.forall_mem_singleton.2 fun h => absurd (hclosing _ h) (by decide)⟩⟩)
    (List.forall_mem_cons.2 ⟨by decide, List.forall_mem_append.2 ⟨List.forall_mem_map.2 hreturn,
      List.forall_mem_singleton.2 hlast⟩⟩)
  rw [← List.cons_append, List.getLast?_concat] at hl
  exact Option.some.inj hl ▸ hne

/-- What is put before a line does not end it, unless it is all there is. -/
theorem getLast?_append_ne {front l : List Char} (hfront : front.getLast? ≠ some '\r')
    (hl : l.getLast? ≠ some '\r') : (front ++ l).getLast? ≠ some '\r' := by
  rw [List.getLast?_append]
  cases h : l.getLast? with
  | none => exact hfront
  | some c =>
    rw [h] at hl
    exact hl

/-! ### Stars -/

theorem undecorate?_starred {ls : List (List Char)} (hline : ∀ l ∈ ls, '\n' ∉ l)
    (hreturn : ∀ l ∈ ls, l.getLast? ≠ some '\r') : undecorate? (starred ls) = some (bare ls) := by
  have hlines : lines (starred ls) = [] :: (ls.map (" * ".toList ++ ·) ++ [[' ']]) := by
    refine lines_framed (fun l hl => ?_) (fun l hl => ?_)
      (List.forall_mem_singleton.2 rfl) (by decide)
    · simpa using hline l hl
    · exact getLast?_append_ne (by decide) (hreturn l hl)
  have hstars : isStarred (lines (starred ls)) = true := by
    rw [hlines, isStarred]
    show ((ls.map _ ++ [[' ']]).all _) = true
    rw [List.all_append, List.all_map, Bool.and_eq_true]
    exact ⟨List.all_eq_true.2 fun l _ => rfl, rfl⟩
  have hstrip : (lines (starred ls)).map stripStar = [] :: (ls.map id ++ [[]]) := by
    rw [hlines, List.map_cons, List.map_append, List.map_map]
    rfl
  unfold undecorate?
  simp only [hstars, if_true, hstrip]
  rw [bare, framed_eq_joinWith]

/-! ### Spaces -/

theorem takeWhile_spaces_append (k : Nat) (l : List Char) :
    (List.replicate k ' ' ++ l).takeWhile isBlank = List.replicate k ' ' ++ l.takeWhile isBlank :=
  List.takeWhile_append_of_pos fun c hc => by rw [List.eq_of_mem_replicate hc]; decide

theorem trimStart_spaces_append (k : Nat) (l : List Char) :
    trimStart (List.replicate k ' ' ++ l) = trimStart l :=
  List.dropWhile_append_of_pos fun c hc => by rw [List.eq_of_mem_replicate hc]; decide

theorem isBlankText_spaces_append (k : Nat) (l : List Char) :
    isBlankText (List.replicate k ' ' ++ l) = isBlankText l := by
  have hspaces : (List.replicate k ' ').all isBlank = true :=
    List.all_eq_true.2 fun c hc => by rw [List.eq_of_mem_replicate hc]; decide
  rw [isBlankText, List.all_append, hspaces, Bool.true_and, isBlankText]

theorem byteLength_spaces (k : Nat) : byteLength (List.replicate k ' ') = k := by
  rw [byteLength_of_narrow fun c hc => by rw [List.eq_of_mem_replicate hc]; rfl,
    List.length_replicate]

theorem blankBytes_spaces_append (k : Nat) (l : List Char) :
    blankBytes (List.replicate k ' ' ++ l) = k + blankBytes l := by
  rw [blankBytes, takeWhile_spaces_append, byteLength_append, byteLength_spaces, blankBytes]

theorem stripIndent?_spaces_append (k : Nat) (l : List Char) :
    stripIndent? k (List.replicate k ' ' ++ l) = some l := by
  have hcut := cutAtByte?_append (List.replicate k ' ') l
  rw [byteLength_spaces] at hcut
  rw [stripIndent?, blankBytes_spaces_append, Nat.min_eq_right (Nat.le_add_right k _), hcut,
    Option.map_some]

/-- Fewer spaces than the indentation are all taken off. -/
theorem stripIndent?_spaces {j k : Nat} (h : j ≤ k) :
    stripIndent? k (List.replicate j ' ') = some [] := by
  have hblank : blankBytes (List.replicate j ' ') = j := by
    rw [← List.append_nil (List.replicate j ' '), blankBytes_spaces_append]
    rfl
  have hcut := cutAtByte?_append (List.replicate j ' ') []
  rw [byteLength_spaces, List.append_nil] at hcut
  rw [stripIndent?, hblank, Nat.min_eq_left h, hcut, Option.map_some]

theorem mapM_stripIndent? {j k : Nat} (h : j ≤ k) (ls : List (List Char)) :
    (ls.map (List.replicate k ' ' ++ ·) ++ [List.replicate j ' ']).mapM (stripIndent? k) =
      some (ls ++ [[]]) := by
  induction ls with
  | nil =>
    rw [List.map_nil, List.nil_append, List.mapM_cons, stripIndent?_spaces h]
    rfl
  | cons l ls ih =>
    rw [List.map_cons, List.cons_append, List.mapM_cons, stripIndent?_spaces_append, ih]
    rfl

theorem undecorate?_indented {ls : List (List Char)} {first : List Char} {k j : Nat}
    (hline : ∀ l ∈ ls, '\n' ∉ l) (hreturn : ∀ l ∈ ls, l.getLast? ≠ some '\r')
    (hfirst : ls.find? (fun l => !isBlankText l) = some first)
    (hhead : ∀ c ∈ first.head?, isBlank c = false ∧ c ≠ '*') (hj : 1 ≤ j) (hk : j ≤ k) :
    undecorate? (indented k j ls) = some (bare ls) := by
  have hspaces : ∀ n, ∀ c ∈ List.replicate n ' ', c = ' ' := fun n c => List.eq_of_mem_replicate
  have hlines : lines (indented k j ls) =
      [] :: (ls.map (List.replicate k ' ' ++ ·) ++ [List.replicate j ' ']) := by
    refine lines_framed (fun l hl => ?_) (fun l hl => ?_) (hspaces j) (by simp; omega)
    · rw [List.mem_append, not_or]
      exact ⟨fun h => absurd (hspaces k _ h) (by decide), hline l hl⟩
    · refine getLast?_append_ne (fun h => ?_) (hreturn l hl)
      exact absurd (hspaces k _ (List.mem_of_getLast? h)) (by decide)
  have hnotBlank : isBlankText first = false := by simpa using List.find?_some hfirst
  obtain ⟨c, rest, rfl⟩ : ∃ c rest, first = c :: rest :=
    List.exists_cons_of_ne_nil (by rintro rfl; exact absurd hnotBlank (by decide))
  obtain ⟨hc, hstar⟩ := hhead c rfl
  have hstarless : startsWithStar (List.replicate k ' ' ++ c :: rest) = false := by
    rw [startsWithStar, trimStart_spaces_append, trimStart, List.dropWhile_cons_of_neg (by simp [hc])]
    split
    · next heq => exact absurd (List.cons.inj heq).1 hstar
    · rfl
  have hplain : isStarred (lines (indented k j ls)) = false := by
    rw [hlines, isStarred, List.drop_one, List.tail_cons, List.all_eq_false]
    refine ⟨_, List.mem_append_left _ (List.mem_map_of_mem (List.mem_of_find?_eq_some hfirst)), ?_⟩
    rw [isBlankText_spaces_append, hnotBlank, hstarless]
    decide
  have hindent : commonIndent (lines (indented k j ls)) = k := by
    rw [hlines, commonIndent, List.find?_cons_of_neg (by decide), List.find?_append, List.find?_map]
    have hsame : ((fun l => !isBlankText l) ∘ fun l => List.replicate k ' ' ++ l) =
        fun l => !isBlankText l := funext fun l => by rw [Function.comp_apply, isBlankText_spaces_append]
    rw [hsame, hfirst]
    show blankBytes (List.replicate k ' ' ++ c :: rest) = k
    rw [blankBytes_spaces_append, blankBytes, List.takeWhile_cons_of_neg (by simp [hc])]
    rfl
  have hstrip : (lines (indented k j ls)).mapM (stripIndent? k) = some ([] :: (ls.map id ++ [[]])) := by
    rw [hlines, List.mapM_cons, mapM_stripIndent? hk, List.map_id]
    rfl
  unfold undecorate?
  simp only [hplain, Bool.false_eq_true, if_false, hindent, hstrip, Option.map_some]
  rw [bare, framed_eq_joinWith]

/-- Lines without line breaks, of which the first one that is not blank starts with neither white space
nor a star, are the text of the comment in which each has a star, and of the one in which they are
indented by spaces, however many, the end of the comment by no more.  So both comments have the same
tags. -/
theorem decorations_agree {ls : List (List Char)} {first : List Char} {k j : Nat}
    (hline : ∀ l ∈ ls, '\n' ∉ l) (hreturn : ∀ l ∈ ls, l.getLast? ≠ some '\r')
    (hfirst : ls.find? (fun l => !isBlankText l) = some first)
    (hhead : ∀ c ∈ first.head?, isBlank c = false ∧ c ≠ '*') (hj : 1 ≤ j) (hk : j ≤ k)
    (source : SourceKind) :
    undecorate? (starred ls) = some (bare ls) ∧ undecorate? (indented k j ls) = some (bare ls) ∧
      parse source (String.ofList (starred ls)) = .ok (ofPlain source (bare ls)) ∧
      parse source (String.ofList (indented k j ls)) = .ok (ofPlain source (bare ls)) := by
  have hstars := undecorate?_starred hline hreturn
  have hspaces := undecorate?_indented hline hreturn hfirst hhead hj hk
  refine ⟨hstars, hspaces, ?_, ?_⟩
  · rw [parse, String.toList_ofList, hstars]
  · rw [parse, String.toList_ofList, hspaces]

/-- Lines with an empty one, a code sample and a list item among them. -/
def sampleLines : List (List Char) :=
  ["".toList, "@event blah".toList, "".toList, "    code sample".toList, "* item".toList]

theorem decorations_agree_sample :
    (∀ l ∈ sampleLines, '\n' ∉ l) ∧ (∀ l ∈ sampleLines, l.getLast? ≠ some '\r') ∧
      sampleLines.find? (fun l => !isBlankText l) = some "@event blah".toList ∧
      undecorate? (starred sampleLines) = some (bare sampleLines) ∧
      undecorate? (indented 8 4 sampleLines) = some (bare sampleLines) := by
  have hline : ∀ l ∈ sampleLines, '\n' ∉ l := by decide
  have hreturn : ∀ l ∈ sampleLines, l.getLast? ≠ some '\r' := by decide
  have hfirst : sampleLines.find? (fun l => !isBlankText l) = some "@event blah".toList := by
    decide +kernel
  have hhead : ∀ c ∈ "@event blah".toList.head?, isBlank c = false ∧ c ≠ '*' := by
    rintro c hc
    cases hc
    decide
  obtain ⟨hstars, hspaces, -⟩ := decorations_agree hline hreturn hfirst hhead
    (by decide : 1 ≤ 4) (by decide : 4 ≤ 8) .script
  exact ⟨hline, hreturn, hfirst, hstars, hspaces⟩

end Comment
end ApiDoc
