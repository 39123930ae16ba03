/-
Where a block in braces ends.

A block ends with the brace that balances its opening one: the first one behind which as many braces are
closed as are opened.  If its line has no such brace, the block is the rest of the line.  So it is read
(`braces_read_on_line`), and so it is read by places with a count of the open braces, which is never taken
below zero.
-/
import ApiDoc.Proofs.Comment.Balanced
import ApiDoc.Proofs.Comment.Bytes.Reader
import ApiDoc.Proofs.Comment.Params

namespace ApiDoc
namespace Comment

open Text

/-! ### The brace that balances -/

/-- As many braces are closed as are opened. -/
def Level (cs : List Char) : Prop := cs.count '}' = cs.count '{'

/-- Behind an opening brace stands `cs`, and the brace between `inner` and `after` is the first one behind
which the braces are level. -/
structure BalancedBy (cs inner after : List Char) : Prop where
  split : cs = inner ++ '}' :: after
  level : Level ('{' :: (inner ++ ['}']))
  first : ∀ front, front <+: inner → ¬ Level ('{' :: front)

/-- A text that closes `depth` blocks which are open before it, and is balanced between their ends. -/
inductive BracedTo : Nat → List Char → Prop
  | last {cs : List Char} : Braced cs → BracedTo 0 cs
  | more {depth : Nat} {inner cs : List Char} : Braced inner → BracedTo depth cs →
      BracedTo (depth + 1) (inner ++ '}' :: cs)

namespace BracedTo

variable {depth : Nat} {cs : List Char}

theorem char {c : Char} (hopen : c ≠ '{') (hclose : c ≠ '}') (h : BracedTo depth cs) :
    BracedTo depth (c :: cs) := by
  cases h with
  | last hcs => exact .last (.char hopen hclose hcs)
  | more hinner hcs => exact .more (.char hopen hclose hinner) hcs

theorem closing (h : BracedTo depth cs) : BracedTo (depth + 1) ('}' :: cs) := .more .nil h

theorem opening (h : BracedTo (depth + 1) cs) : BracedTo depth ('{' :: cs) := by
  cases h with
  | @more _ inner cs hinner hcs =>
    cases hcs with
    | last hcs => exact .last (.group hinner hcs)
    | @more depth second cs hsecond hcs =>
      have hgroup := BracedTo.more (.group hinner hsecond) hcs
      rwa [List.cons_append, List.append_assoc, List.cons_append] at hgroup

theorem braced (h : BracedTo 0 cs) : Braced cs := by
  cases h with
  | last hcs => exact hcs

end BracedTo

theorem counts_opening (cs : List Char) :
    ('{' :: cs).count '{' = cs.count '{' + 1 ∧ ('{' :: cs).count '}' = cs.count '}' :=
  ⟨List.count_cons_self, List.count_cons_of_ne (by decide)⟩

theorem counts_closing (cs : List Char) :
    ('}' :: cs).count '{' = cs.count '{' ∧ ('}' :: cs).count '}' = cs.count '}' + 1 :=
  ⟨List.count_cons_of_ne (by decide), List.count_cons_self⟩

theorem Braced.level {cs : List Char} (h : Braced cs) : Level cs := by
  unfold Level
  induction h with
  | nil => rfl
  | char hopen hclose _ ih =>
    rw [List.count_cons_of_ne hclose, List.count_cons_of_ne hopen, ih]
  | @group inner cs _ _ ihInner ihCs =>
    obtain ⟨hopen, hopen'⟩ := counts_opening (inner ++ '}' :: cs)
    obtain ⟨hclose, hclose'⟩ := counts_closing cs
    rw [hopen, hopen', List.count_append, List.count_append, hclose, hclose', ihInner, ihCs]
    omega

theorem level_opening (cs : List Char) : Level ('{' :: cs) ↔ cs.count '}' = cs.count '{' + 1 := by
  obtain ⟨hcount, hcount'⟩ := counts_opening cs
  rw [Level, hcount, hcount']

theorem level_block (inner : List Char) : Level ('{' :: (inner ++ ['}'])) ↔ Level inner := by
  obtain ⟨hclose, hclose'⟩ := counts_closing []
  rw [level_opening, List.count_append, List.count_append, hclose, hclose', Level, List.count_nil,
    List.count_nil]
  omega

/-! ### Where the reader stops -/

/-- A block that is balanced on its line ends with the brace that balances it: at none before it is the
last block closed that was open. -/
theorem takeBraces_first {depth : Nat} {inner : List Char} (hline : '\n' ∉ inner)
    (hlevel : inner.count '}' = inner.count '{' + depth)
    (hfirst : ∀ front, front <+: inner → front.count '}' ≠ front.count '{' + depth + 1)
    (after : List Char) : takeBraces depth (inner ++ '}' :: after) = (inner, after) := by
  induction inner generalizing depth with
  | nil =>
    have hdepth : depth = 0 := by simpa using hlevel.symm
    subst hdepth
    rfl
  | cons c inner ih =>
    rw [List.mem_cons, not_or] at hline
    obtain ⟨hc, hline⟩ := hline
    have hfronts : ∀ front, front <+: inner →
        (c :: front).count '}' ≠ (c :: front).count '{' + depth + 1 :=
      fun front hfront => hfirst _ (List.cons_prefix_cons.2 ⟨rfl, hfront⟩)
    by_cases hopen : c = '{'
    · subst hopen
      obtain ⟨hcount, hcount'⟩ := counts_opening inner
      rw [List.cons_append, takeBraces.eq_5, ih hline (by omega)]
      intro front hfront
      have hne := hfronts front hfront
      obtain ⟨hcount, hcount'⟩ := counts_opening front
      omega
    · by_cases hclose : c = '}'
      · subst hclose
        obtain ⟨hcount, hcount'⟩ := counts_closing inner
        cases depth with
        | zero => exact absurd rfl (hfronts [] List.nil_prefix)
        | succ depth =>
          rw [List.cons_append, takeBraces.eq_4, ih hline (by omega)]
          intro front hfront
          have hne := hfronts front hfront
          obtain ⟨hcount, hcount'⟩ := counts_closing front
          omega
      · rw [List.count_cons_of_ne hclose, List.count_cons_of_ne hopen] at hlevel
        rw [List.cons_append, takeBraces.eq_6 _ _ _ (Ne.symm hc) hclose hopen, ih hline hlevel]
        intro front hfront
        have hne := hfronts front hfront
        rwa [List.count_cons_of_ne hclose, List.count_cons_of_ne hopen] at hne

/-- The reader stops behind the brace that closes the block, or at the end of the line. -/
theorem takeBraces_stops (depth : Nat) (cs : List Char) :
    (BracedTo depth (takeBraces depth cs).1 ∧
        cs = (takeBraces depth cs).1 ++ '}' :: (takeBraces depth cs).2) ∨
      (AtLineEnd (takeBraces depth cs).2 ∧
        cs = (takeBraces depth cs).1 ++ (takeBraces depth cs).2) := by
  fun_induction takeBraces depth cs with
  | case1 => exact .inr ⟨fun c hc => absurd hc (by simp), rfl⟩
  | case2 depth cs => exact .inr ⟨fun c hc => (Option.some.inj hc).symm, rfl⟩
  | case3 cs => exact .inl ⟨.last .nil, rfl⟩
  | case4 cs depth r ih =>
    rcases ih with ⟨hbraced, hcs⟩ | ⟨hend, hcs⟩
    · exact .inl ⟨hbraced.closing, congrArg ('}' :: ·) hcs⟩
    · exact .inr ⟨hend, congrArg ('}' :: ·) hcs⟩
  | case5 depth cs r ih =>
    rcases ih with ⟨hbraced, hcs⟩ | ⟨hend, hcs⟩
    · exact .inl ⟨hbraced.opening, congrArg ('{' :: ·) hcs⟩
    · exact .inr ⟨hend, congrArg ('{' :: ·) hcs⟩
  | case6 depth c cs hline hclose hopen r ih =>
    rcases ih with ⟨hbraced, hcs⟩ | ⟨hend, hcs⟩
    · exact .inl ⟨hbraced.char hopen hclose, congrArg (c :: ·) hcs⟩
    · exact .inr ⟨hend, congrArg (c :: ·) hcs⟩

theorem newline_not_mem_takeBraces (depth : Nat) (cs : List Char) :
    '\n' ∉ (takeBraces depth cs).1 := by
  fun_induction takeBraces depth cs with
  | case1 => exact List.not_mem_nil
  | case2 => exact List.not_mem_nil
  | case3 cs => exact List.not_mem_nil
  | case4 cs depth r ih => exact List.not_mem_cons_of_ne_of_not_mem (by decide) ih
  | case5 depth cs r ih => exact List.not_mem_cons_of_ne_of_not_mem (by decide) ih
  | case6 depth c cs hline hclose hopen r ih =>
    exact List.not_mem_cons_of_ne_of_not_mem (Ne.symm hline) ih

/-- Nowhere in the block more braces are closed than are open. -/
theorem count_le_of_prefix_takeBraces (depth : Nat) (cs : List Char) :
    ∀ front, front <+: (takeBraces depth cs).1 → front.count '}' ≤ front.count '{' + depth := by
  fun_induction takeBraces depth cs with
  | case1 | case2 | case3 =>
    intro front hfront
    rw [List.prefix_nil.1 hfront]
    exact Nat.zero_le _
  | case4 cs depth r ih =>
    intro front hfront
    rcases List.prefix_cons_iff.1 hfront with rfl | ⟨part, rfl, hpart⟩
    · exact Nat.zero_le _
    · have hle := ih part hpart
      obtain ⟨hcount, hcount'⟩ := counts_closing part
      omega
  | case5 depth cs r ih =>
    intro front hfront
    rcases List.prefix_cons_iff.1 hfront with rfl | ⟨part, rfl, hpart⟩
    · exact Nat.zero_le _
    · have hle := ih part hpart
      obtain ⟨hcount, hcount'⟩ := counts_opening part
      omega
  | case6 depth c cs hline hclose hopen r ih =>
    intro front hfront
    rcases List.prefix_cons_iff.1 hfront with rfl | ⟨part, rfl, hpart⟩
    · exact Nat.zero_le _
    · rw [List.count_cons_of_ne hclose, List.count_cons_of_ne hopen]
      exact ih part hpart

/-- A balanced text with a brace behind it is what that brace closes. -/
theorem balancedBy_of_braced {cs inner after : List Char} (hsplit : cs = inner ++ '}' :: after)
    (hbraced : Braced inner)
    (hfronts : ∀ front, front <+: inner → front.count '}' ≤ front.count '{') :
    BalancedBy cs inner after where
  split := hsplit
  level := (level_block inner).2 hbraced.level
  first front hfront hlevel := by
    have hle := hfronts front hfront
    rw [level_opening] at hlevel
    omega

/-- The block of a balanced opening brace is read up to the brace that balances it. -/
theorem takeBraces_of_balancedBy {cs inner after : List Char} (h : BalancedBy cs inner after)
    (hline : '\n' ∉ inner) : takeBraces 0 cs = (inner, after) := by
  have hlevel : inner.count '}' = inner.count '{' + 0 := (level_block inner).1 h.level
  rw [h.split, takeBraces_first hline hlevel]
  intro front hfront heq
  exact h.first front hfront ((level_opening front).2 heq)

/-! ### Reading with a count -/

namespace Bytes
namespace PlaceReader

/-- Takes a count down by one.  There is no answer at zero. -/
def lower (depth : Nat) : PlaceReader Nat := if depth = 0 then failure else return depth - 1

/-- Goes on behind the brace at which the count of the open ones comes back to zero, or to the end of the
line.  The answer is the place where the block ends. -/
def passCounted (depth : Nat) : PlaceReader Nat :=
  repeated (fun again depth => do
    match ← readChar with
    | none => get
    | some c =>
      if c = '{' then again (depth + 1)
      else if c = '}' then
        let depth ← lower depth
        if depth = 0 then return (← get) - 1 else again depth
      else if c = '\n' ∧ 0 < depth then
        backward 1
        get
      else again depth) depth

/-- The block at an opening brace.  The count starts in front of that brace. -/
def countedText? : PlaceReader (Option (List Char)) := do
  if (← next?) = some '{' then
    let start ← get
    let stop ← passCounted 0
    return some (← between (start + 1) stop)
  else return none

variable {text : List Char}

/-- What the reader goes over with a count of `depth`, up to the end of the block, and what it leaves. -/
def counted : Nat → List Char → List Char × List Char
  | 0, cs => ('{' :: (takeBraces 0 cs.tail).1, (takeBraces 0 cs.tail).2)
  | inner + 1, cs => takeBraces inner cs

theorem counted_opening (depth : Nat) (cs : List Char) :
    counted depth ('{' :: cs) = ('{' :: (counted (depth + 1) cs).1, (counted (depth + 1) cs).2) := by
  cases depth with
  | zero => rfl
  | succ inner => rfl

theorem reads_lower (inner : Nat) (cs : List Char) :
    Reads text (lower (inner + 1)) cs (inner, cs) := .pure inner cs

/-- The count is taken down only where it is not zero: it starts at an opening brace, and it comes back to
zero at the end of the block alone. -/
theorem reads_passCounted {depth : Nat} {cs : List Char} (h : depth = 0 → cs.head? = some '{') :
    Reads text (passCounted depth) cs
      (placeOf text cs + byteLength (counted depth cs).1, (counted depth cs).2) := by
  refine .repeated_keeping id (fun depth cs => depth = 0 → cs.head? = some '{')
    (fun depth cs stop place => stop = placeOf text cs + byteLength (counted depth cs).1 ∧
      InBytes text place (counted depth cs).2) length_le_of_inBytes (fun again depth cs ih hpre => ?_) h
  -- Behind the opening brace the count is one more than the braces that are open in the block.
  have hagain : ∀ inner rest, rest.length < cs.length → Reads text (again (inner + 1)) rest
      (placeOf text rest + byteLength (takeBraces inner rest).1, (takeBraces inner rest).2) :=
    fun inner rest hlt => ih (inner + 1) rest (fun h => absurd h (Nat.succ_ne_zero inner)) hlt
  show Reads text _ cs (placeOf text cs + byteLength (counted depth cs).1, (counted depth cs).2)
  refine reads_of_suffix fun hsuffix => ?_
  cases depth with
  | zero =>
    obtain ⟨rest, rfl⟩ := List.head?_eq_some_iff.1 (hpre rfl)
    rw [counted_opening, placeOf_cons_add hsuffix]
    exact (reads_readChar_cons '{' rest).bind (.of_pos rfl (hagain 0 rest (Nat.lt_succ_self _)))
  | succ inner =>
    rw [counted]
    fun_cases takeBraces inner cs with
    | case1 => exact reads_readChar_nil.bind (reads_get [])
    | case2 inner cs =>
      refine (reads_readChar_cons '\n' cs).bind ?_
      exact .of_neg (by decide) (.of_neg (by decide) (.of_pos ⟨rfl, Nat.succ_pos inner⟩
        ((reads_backward_cons rfl hsuffix).bind (reads_get _))))
    | case3 cs =>
      refine (reads_readChar_cons '}' cs).bind ?_
      refine .of_neg (by decide) (.of_pos rfl ((reads_lower 0 cs).bind (.of_pos rfl
        ((reads_get cs).bind ?_))))
      rw [placeOf_cons_sub_one rfl hsuffix]
      exact .pure _ cs
    | case4 cs inner r =>
      rw [placeOf_cons_add hsuffix]
      refine (reads_readChar_cons '}' cs).bind ?_
      exact .of_neg (by decide) (.of_pos rfl ((reads_lower (inner + 1) cs).bind
        (.of_neg (Nat.succ_ne_zero inner) (hagain inner cs (Nat.lt_succ_self _)))))
    | case5 inner cs r =>
      rw [placeOf_cons_add hsuffix]
      refine (reads_readChar_cons '{' cs).bind ?_
      exact .of_pos rfl (hagain (inner + 1) cs (Nat.lt_succ_self _))
    | case6 inner c cs hline hclose hopen r =>
      rw [placeOf_cons_add hsuffix]
      refine (reads_readChar_cons c cs).bind ?_
      exact .of_neg hopen (.of_neg hclose (.of_neg (fun h => hline h.1)
        (hagain inner cs (Nat.lt_succ_self _))))

theorem reads_countedText? (cs : List Char) :
    Reads text countedText? ('{' :: cs) (some (takeBraces 0 cs).1, (takeBraces 0 cs).2) := by
  refine reads_of_suffix fun h => (reads_next? _).bind (.of_pos rfl ((reads_get _).bind
    ((reads_passCounted (fun _ => rfl)).bind ?_)))
  obtain ⟨tail, htail⟩ := exists_takeBraces_append 0 cs
  have hcontent := reads_content (htail ▸ suffix_of_cons h) (takeBraces 0 cs).2
  rw [← htail] at hcontent
  have hstart : placeOf text ('{' :: cs) + 1 = placeOf text cs := placeOf_cons h
  rw [counted_opening, placeOf_cons_add h]
  show Reads text (between (placeOf text ('{' :: cs) + 1) _ >>= _) _ _
  rw [hstart]
  exact hcontent.bind (.pure _ _)

/-- From an opening brace the reader comes behind the text that it goes over. -/
theorem countedText?_at (before cs : List Char) :
    countedText? (before ++ '{' :: cs) (byteLength before) =
      some (some (takeBraces 0 cs).1,
        byteLength (before ++ frontOf ('{' :: cs) (takeBraces 0 cs).2)) := by
  obtain ⟨_, place, hrun, rfl, -, hplace⟩ := (reads_countedText? cs).run
    ⟨List.suffix_append before ('{' :: cs), rfl⟩
  obtain ⟨taken, htaken⟩ := (takeBraces_suffix 0 cs).trans (List.suffix_cons '{' cs)
  have hfront : frontOf ('{' :: cs) (takeBraces 0 cs).2 = taken := by
    rw [← htaken, frontOf_append]
  rw [placeOf_append_right] at hrun
  rw [hrun, hplace, hfront, ← placeOf_append_right (before ++ taken) (takeBraces 0 cs).2,
    List.append_assoc, htaken]

end PlaceReader
end Bytes

/-! ### The block on its line -/

/-- What is read of `cs` behind an opening brace: the block holds `content`, and `rest` is left. -/
structure BlockRead (cs content rest : List Char) : Prop where
  suffix : rest <:+ cs
  line : '\n' ∉ content
  /-- At no place that the reader comes to have more braces been closed than opened. -/
  counts : ∀ front, front <+: frontOf ('{' :: cs) rest → front.count '}' ≤ front.count '{'
  closed : ∀ inner after, BalancedBy cs inner after → '\n' ∉ inner →
    content = inner ∧ rest = after ∧ Braced content
  unclosed : (∀ inner after, BalancedBy cs inner after → '\n' ∈ inner) →
    cs = content ++ rest ∧ AtLineEnd rest

theorem count_le_of_prefix_opening {inner : List Char}
    (h : ∀ front, front <+: inner → front.count '}' ≤ front.count '{') :
    ∀ front, front <+: '{' :: inner → front.count '}' ≤ front.count '{' := by
  intro front hfront
  rcases List.prefix_cons_iff.1 hfront with rfl | ⟨part, rfl, hpart⟩
  · exact Nat.le_refl _
  · have hle := h part hpart
    obtain ⟨hcount, hcount'⟩ := counts_opening part
    omega

section
variable {cs content rest : List Char}

theorem blockRead_of_balancedBy (h : BalancedBy cs content rest) (hbraced : Braced content)
    (hline : '\n' ∉ content)
    (hfronts : ∀ front, front <+: content → front.count '}' ≤ front.count '{') :
    BlockRead cs content rest := by
  have hblock : '{' :: cs = '{' :: (content ++ ['}']) ++ rest := by rw [h.split]; simp
  refine ⟨?_, hline, ?_, ?_, fun hopen => absurd (hopen content rest h) hline⟩
  · rw [h.split]
    exact (List.suffix_cons '}' rest).trans (List.suffix_append content _)
  · rw [hblock, frontOf_append, ← List.cons_append]
    intro front hfront
    rcases List.prefix_concat_iff.1 hfront with rfl | hfront
    · exact Nat.le_of_eq h.level
    · exact count_le_of_prefix_opening hfronts front hfront
  · intro inner after hbalanced hinner
    have heq := (takeBraces_of_balancedBy h hline).symm.trans (takeBraces_of_balancedBy hbalanced hinner)
    obtain ⟨rfl, rfl⟩ := Prod.mk.inj heq
    exact ⟨rfl, rfl, hbraced⟩

theorem blockRead_of_atLineEnd (hread : takeBraces 0 cs = (content, rest)) (hend : AtLineEnd rest)
    (hcs : cs = content ++ rest) (hline : '\n' ∉ content)
    (hfronts : ∀ front, front <+: content → front.count '}' ≤ front.count '{') :
    BlockRead cs content rest := by
  have hblock : '{' :: cs = '{' :: content ++ rest := by rw [hcs, List.cons_append]
  refine ⟨hcs ▸ List.suffix_append content rest, hline, ?_, ?_, fun _ => ⟨hcs, hend⟩⟩
  · rw [hblock, frontOf_append]
    exact count_le_of_prefix_opening hfronts
  · -- A brace on the line that balanced the opening one would have been met.
    intro inner after hbalanced hinner
    obtain ⟨rfl, rfl⟩ := Prod.mk.inj (hread.symm.trans (takeBraces_of_balancedBy hbalanced hinner))
    have hlength := congrArg List.length (hcs.symm.trans hbalanced.split)
    rw [List.length_append, List.length_append, List.length_cons] at hlength
    omega

end

theorem blockRead_takeBraces (cs : List Char) :
    BlockRead cs (takeBraces 0 cs).1 (takeBraces 0 cs).2 := by
  have hline := newline_not_mem_takeBraces 0 cs
  have hfronts := count_le_of_prefix_takeBraces 0 cs
  rcases takeBraces_stops 0 cs with ⟨hbraced, hcs⟩ | ⟨hend, hcs⟩
  · exact blockRead_of_balancedBy (balancedBy_of_braced hcs hbraced.braced hfronts) hbraced.braced
      hline hfronts
  · exact blockRead_of_atLineEnd rfl hend hcs hline hfronts

/-- Where a block is opened, what is read is the text up to the brace that balances the opening one if that
stands on the line, and the rest of the line if not.  Read by places with a count of the open braces it is
the same, and the place is then right behind the brace, or at the end of the line. -/
theorem braces_read_on_line (before cs : List Char) :
    ∃ content rest, braces? ('{' :: cs) = some (content, rest) ∧ BlockRead cs content rest ∧
      Bytes.PlaceReader.countedText? (before ++ '{' :: cs) (byteLength before) =
        some (some content, byteLength (before ++ frontOf ('{' :: cs) rest)) := by
  have hread : braces? ('{' :: cs) = some ((takeBraces 0 cs).1, (takeBraces 0 cs).2) := rfl
  have hblock := blockRead_takeBraces cs
  have hcounted := Bytes.PlaceReader.countedText?_at before cs
  exact ⟨_, _, hread, hblock, hcounted⟩

example : braces? ['{', 'a', '{', 'b', '}', '}', ' ', 'x'] =
    some (['a', '{', 'b', '}'], [' ', 'x']) := by decide

example : braces? ['{', 'a', '{', 'b', '}', '\n', '}', ' ', 'x'] =
    some (['a', '{', 'b', '}'], ['\n', '}', ' ', 'x']) := by decide

end Comment
end ApiDoc
