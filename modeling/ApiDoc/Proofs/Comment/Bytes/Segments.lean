/-
The cut of a comment at its tags, read by places.

The reader goes through the text once and keeps the places where the free text and the tag began.  It
finds the same segments that the text is cut into (`reads_segments`): nothing is cut inside a character,
and every text is read to its end.
-/
import ApiDoc.Proofs.Comment.Bytes.Tags
import ApiDoc.Proofs.Comment.Cut

namespace ApiDoc
namespace Comment
namespace Bytes

open Text

namespace PlaceReader

/-- The place where the line begins that `before` ends on. -/
def lineStart (before : List Char) : Nat :=
  match cutLast? '\n' before with
  | some p => byteLength p.1 + 1
  | none => 0

def textFrom (start : Nat) : PlaceReader (List Char) := fun text place =>
  (cutAtByte? start text).map fun p => (p.2, place)

/-- The number of spaces that start the line. -/
def lineIndent : PlaceReader Nat := do
  let line ← textFrom (lineStart (← around).1)
  return (line.takeWhile (· == ' ')).length

def atTag : PlaceReader Bool := do
  if (← next?) = some '@' then
    return (← previous?).all isBlank && (← lineIndent) < 4 && (← second?).any isNameChar
  else return false

/-- Goes on by a character, by a word that is no tag, or by a tag.  `textStart` is the place where the
free text began. -/
def segmentsRound (source : SourceKind) (again : Nat → PlaceReader Segments) (textStart : Nat) :
    PlaceReader Segments := do
  if (← next?).isNone then return { lead := ← between textStart (← get) }
  else if ← atTag then
    let tagStart ← get
    let _ ← readChar
    let name := String.ofList (← textWhile isHyphenNameChar)
    match TagKind.ofSpelling? source name with
    | some kind => do
      let lead ← between textStart tagStart
      let tag ← tag kind
      let tagEnd ← get
      let head ← between tagStart tagEnd
      let s ← again tagEnd
      return { s with lead, tagged := { tag, head, text := s.lead } :: s.tagged }
    | none => do
      let s ← again textStart
      return { s with unknown := name :: s.unknown }
  else
    let _ ← readChar
    again textStart

/-- Cuts the text at its tags from the place on. -/
def segments (source : SourceKind) (textStart : Nat) : PlaceReader Segments :=
  repeated (segmentsRound source) textStart

/-! ### Where a tag can start -/

theorem not_mem_of_cutLast? {d : Char} {cs : List Char} (h : cutLast? d cs = none) : d ∉ cs := by
  rw [cutLast?, Option.map_eq_none_iff] at h
  exact fun hmem => not_mem_of_cutFirst? h (List.mem_reverse.2 hmem)

theorem exists_lineStart (before : List Char) :
    ∃ front line, before = front ++ line ∧ '\n' ∉ line ∧
      (front = [] ∨ front.getLast? = some '\n') ∧ lineStart before = byteLength front := by
  rw [lineStart]
  cases hcut : cutLast? '\n' before with
  | none => exact ⟨[], before, rfl, not_mem_of_cutLast? hcut, .inl rfl, rfl⟩
  | some p =>
    obtain ⟨rfl, hline⟩ := cutLast?_eq_some_iff.1 hcut
    refine ⟨p.1 ++ ['\n'], p.2, by simp, hline, .inr List.getLast?_concat, ?_⟩
    rw [byteLength_append]
    rfl

variable {text : List Char}

theorem frontOf_append_self {cs : List Char} (h : cs <:+ text) : frontOf text cs ++ cs = text := by
  obtain ⟨front, rfl⟩ := h
  rw [frontOf_append]

/-- Spaces behind the place are no part of the indentation, as there is another character at it. -/
theorem reads_lineIndent {c : Char} (hc : c ≠ ' ') (cs : List Char) :
    Reads text lineIndent (c :: cs) (indentBefore (frontOf text (c :: cs)).reverse, c :: cs) := by
  refine reads_of_suffix fun h => (reads_around (c :: cs)).bind ?_
  obtain ⟨front, line, hbefore, hline, hfront, hstart⟩ := exists_lineStart (frontOf text (c :: cs))
  have htext : front ++ (line ++ c :: cs) = text := by
    rw [← List.append_assoc, ← hbefore, frontOf_append_self h]
  have hfrom : Reads text (textFrom (byteLength front)) (c :: cs) (line ++ c :: cs, c :: cs) := by
    refine reads_of_run h ?_
    rw [textFrom, ← htext, cutAtByte?_append]
    rfl
  have hspaces := takeWhile_append_cons (p := (· == ' ')) (beq_eq_false_iff_ne.2 hc) line cs
  show Reads text (textFrom (lineStart (frontOf text (c :: cs))) >>= _) (c :: cs) _
  rw [hstart, hbefore, indentBefore_append hfront hline, ← hspaces]
  exact hfrom.bind (.pure _ _)

theorem canStartTag_eq (before after : List Char) :
    canStartTag before.reverse after =
      (before.getLast?.all isBlank && indentBefore before.reverse < 4 &&
        after.head?.any isNameChar) := by
  rw [← startsName_eq, ← List.head?_reverse]
  cases before.reverse with
  | nil => rfl
  | cons c before => rfl

theorem reads_atTag (c : Char) (cs : List Char) :
    Reads text atTag (c :: cs)
      (c == '@' && canStartTag (frontOf text (c :: cs)).reverse cs, c :: cs) := by
  refine (reads_next? _).bind ?_
  by_cases hc : c = '@'
  · subst hc
    refine .of_pos rfl ((reads_previous? _).bind ((reads_lineIndent (by decide) cs).bind
      ((reads_second? _).bind ?_)))
    rw [canStartTag_eq]
    exact .pure _ _
  · rw [beq_eq_false_iff_ne.2 hc, Bool.false_and]
    exact .of_neg (by simpa using hc) (.pure false _)

/-! ### The segments -/

/-- No tag starts inside a word. -/
theorem segments_word (source : SourceKind) {word : List Char}
    (h : ∀ c ∈ word, isHyphenNameChar c = true) (before rest : List Char) :
    Comment.segments source before (word ++ rest) =
      { Comment.segments source (word.reverse ++ before) rest with
        lead := word ++ (Comment.segments source (word.reverse ++ before) rest).lead } := by
  induction word generalizing before with
  | nil => rfl
  | cons c word ih =>
    obtain ⟨hc, hword⟩ := List.forall_mem_cons.1 h
    have hne : c ≠ '@' := by
      rintro rfl
      exact absurd hc (by decide)
    have hplain : (c == '@' && canStartTag before (word ++ rest)) = false := by
      rw [beq_eq_false_iff_ne.2 hne, Bool.false_and]
    rw [List.cons_append, segments_char fun kind heq => absurd heq hne, hplain, ih hword,
      List.reverse_cons, List.append_assoc, List.singleton_append]
    rfl

theorem frontOf_trans {start middle cs : List Char} (hcs : cs <:+ middle) (hmiddle : middle <:+ start) :
    frontOf start cs = frontOf start middle ++ frontOf middle cs := by
  obtain ⟨b, rfl⟩ := hcs
  obtain ⟨a, rfl⟩ := hmiddle
  rw [frontOf_append, frontOf_append, ← List.append_assoc, frontOf_append]

theorem frontOf_append_right {start a cs : List Char} (h : a ++ cs <:+ start) :
    frontOf start cs = frontOf start (a ++ cs) ++ a := by
  rw [frontOf_trans (List.suffix_append a cs) h, frontOf_append]

theorem frontOf_cons {start cs : List Char} {c : Char} (h : c :: cs <:+ start) :
    frontOf start cs = frontOf start (c :: cs) ++ [c] :=
  frontOf_append_right (a := [c]) h

/-- The segments of what is left at a place, with what precedes them since the place where the free text
began. -/
def segmentsFrom (source : SourceKind) (text start cs : List Char) : Segments :=
  let s := Comment.segments source (frontOf text cs).reverse cs
  { s with lead := frontOf start cs ++ s.lead }

section Steps

variable {source : SourceKind} {start cs : List Char} {c : Char}

/-- A character at which no tag starts goes to the text before the rest. -/
theorem segmentsFrom_of_not (hstart : start <:+ text) (hcs : c :: cs <:+ start)
    (h : ∀ kind, c = '@' → ¬ StartsTag source (frontOf text (c :: cs)).reverse.reverse cs kind) :
    segmentsFrom source text start (c :: cs) =
      { segmentsFrom source text start cs with
        unknown := (if c == '@' && canStartTag (frontOf text (c :: cs)).reverse cs then [wordAt cs]
          else []) ++ (segmentsFrom source text start cs).unknown } := by
  rw [segmentsFrom, segmentsFrom, segments_char h, frontOf_cons (hcs.trans hstart),
    frontOf_cons hcs, List.reverse_append, List.append_assoc]
  rfl

theorem segmentsFrom_char (hstart : start <:+ text) (hcs : c :: cs <:+ start)
    (h : (c == '@' && canStartTag (frontOf text (c :: cs)).reverse cs) = false) :
    segmentsFrom source text start (c :: cs) = segmentsFrom source text start cs := by
  rw [segmentsFrom_of_not hstart hcs, h]
  · rfl
  · rintro kind rfl hstarts
    rw [(startsTag_reverse_iff.1 hstarts).1] at h
    cases h

theorem segmentsFrom_word {word rest : List Char} (hstart : start <:+ text)
    (hcs : word ++ rest <:+ start) (hword : ∀ c ∈ word, isHyphenNameChar c = true) :
    segmentsFrom source text start (word ++ rest) = segmentsFrom source text start rest := by
  rw [segmentsFrom, segmentsFrom, segments_word source hword,
    frontOf_append_right (hcs.trans hstart), frontOf_append_right hcs, List.reverse_append,
    List.append_assoc]

theorem segmentsFrom_unknown (hstart : start <:+ text) (hcs : '@' :: cs <:+ start)
    (hcan : canStartTag (frontOf text ('@' :: cs)).reverse cs = true)
    (hunknown : TagKind.ofSpelling? source (wordAt cs) = none) :
    segmentsFrom source text start ('@' :: cs) =
      { segmentsFrom source text start (cs.dropWhile isHyphenNameChar) with
        unknown := wordAt cs ::
          (segmentsFrom source text start (cs.dropWhile isHyphenNameChar)).unknown } := by
  have hsplit := @List.takeWhile_append_dropWhile _ isHyphenNameChar cs
  have hword : segmentsFrom source text start cs =
      segmentsFrom source text start (cs.dropWhile isHyphenNameChar) := by
    conv => lhs; rw [← hsplit]
    exact segmentsFrom_word hstart (hsplit.symm ▸ suffix_of_cons hcs)
      fun c hc => List.mem_takeWhile_imp hc
  rw [segmentsFrom_of_not hstart hcs, hcan, hword]
  · rfl
  · intro kind _ hstarts
    exact absurd ((startsTag_reverse_iff.1 hstarts).2.symm.trans hunknown) (by simp)

theorem frontOf_self (cs : List Char) : frontOf cs cs = [] := frontOf_append [] cs

theorem segmentsFrom_tag {kind : TagKind} (hstart : start <:+ text) (hcs : '@' :: cs <:+ start)
    (hcan : canStartTag (frontOf text ('@' :: cs)).reverse cs = true)
    (hkind : TagKind.ofSpelling? source (wordAt cs) = some kind) {tag : Tag} {rest : List Char}
    (hread : readTag kind (cs.dropWhile isHyphenNameChar) = (tag, rest)) (hrest : rest <:+ '@' :: cs) :
    segmentsFrom source text start ('@' :: cs) =
      { segmentsFrom source text rest rest with
        lead := frontOf start ('@' :: cs)
        tagged :=
          ⟨tag, frontOf ('@' :: cs) rest, (segmentsFrom source text rest rest).lead⟩ ::
            (segmentsFrom source text rest rest).tagged } := by
  have hstarts : StartsTag source (frontOf text ('@' :: cs)).reverse.reverse cs kind :=
    startsTag_reverse_iff.2 ⟨hcan, hkind⟩
  have hhead := frontOf_append_self hrest
  have hbefore : (frontOf ('@' :: cs) rest).reverse ++ (frontOf text ('@' :: cs)).reverse =
      (frontOf text rest).reverse := by
    rw [← List.reverse_append, ← frontOf_trans hrest (hcs.trans hstart)]
  rw [segmentsFrom, segments_atTag hstarts hread hhead.symm, hbefore, segmentsFrom, frontOf_self,
    List.append_nil, List.nil_append]

end Steps

/-- A round finds the segments of what is left, if the rounds after it do. -/
theorem reads_segmentsRound (source : SourceKind) {again : Nat → PlaceReader Segments}
    {start cs : List Char}
    (hagain : ∀ {start rest : List Char}, rest.length < cs.length → start <:+ text → rest <:+ start →
      Reads text (again (placeOf text start)) rest (segmentsFrom source text start rest, []))
    (hstart : start <:+ text) (hcs : cs <:+ start) :
    Reads text (segmentsRound source again (placeOf text start)) cs
      (segmentsFrom source text start cs, []) := by
  refine (reads_next? cs).bind ?_
  cases cs with
  | nil =>
    refine .of_pos rfl ((reads_get []).bind ((reads_between hcs hstart []).bind ?_))
    rw [segmentsFrom, Comment.segments, List.append_nil]
    exact .pure _ []
  | cons c cs =>
    refine .of_neg (by simp) ((reads_atTag c cs).bind ?_)
    have hrest : cs <:+ start := suffix_of_cons hcs
    cases hat : c == '@' && canStartTag (frontOf text (c :: cs)).reverse cs with
    | false =>
      rw [segmentsFrom_char hstart hcs hat]
      exact .of_neg Bool.false_ne_true ((reads_readChar_cons c cs).bind
        (hagain (Nat.lt_succ_self _) hstart hrest))
    | true =>
      rw [Bool.and_eq_true, beq_iff_eq] at hat
      obtain ⟨rfl, hcan⟩ := hat
      have hwordRest : cs.dropWhile isHyphenNameChar <:+ cs := List.dropWhile_suffix _
      refine .of_pos rfl ((reads_get _).bind ((reads_readChar_cons '@' cs).bind
        ((reads_textWhile isHyphenNameChar cs).bind ?_)))
      show Reads text (match TagKind.ofSpelling? source (wordAt cs) with
        | some kind => _
        | none => _) _ _
      cases hkind : TagKind.ofSpelling? source (wordAt cs) with
      | none =>
        rw [segmentsFrom_unknown hstart hcs hcan hkind]
        exact (hagain (Nat.lt_succ_of_le hwordRest.length_le) hstart (hwordRest.trans hrest)).bind
          (.pure _ [])
      | some kind =>
        rcases hread : readTag kind (cs.dropWhile isHyphenNameChar) with ⟨tag, rest⟩
        have hsuffix : rest <:+ cs := by
          have htag := readTag_suffix kind (cs.dropWhile isHyphenNameChar)
          rw [hread] at htag
          exact htag.trans hwordRest
        have hsuffix' : rest <:+ '@' :: cs := hsuffix.trans (List.suffix_cons '@' cs)
        have hlater := hagain (Nat.lt_succ_of_le hsuffix.length_le) ((hsuffix.trans hrest).trans hstart)
          (List.suffix_refl rest)
        have htag := @reads_tag text kind (cs.dropWhile isHyphenNameChar)
        rw [hread] at htag
        rw [segmentsFrom_tag hstart hcs hcan hkind hread hsuffix']
        exact (reads_between hcs hstart _).bind (htag.bind ((reads_get rest).bind
          ((reads_between hsuffix' (hcs.trans hstart) rest).bind (hlater.bind (.pure _ [])))))

theorem reads_segments (source : SourceKind) {start cs : List Char} (hstart : start <:+ text)
    (hcs : cs <:+ start) :
    Reads text (segments source (placeOf text start)) cs (segmentsFrom source text start cs, []) :=
  .repeated_keeping (placeOf text) (fun start cs => start <:+ text ∧ cs <:+ start)
    (fun start cs s place => s = segmentsFrom source text start cs ∧ InBytes text place [])
    length_le_of_inBytes
    (fun _ _ _ ih hpre =>
      reads_segmentsRound source (fun hlt hstart hrest => ih _ _ ⟨hstart, hrest⟩ hlt) hpre.1 hpre.2)
    ⟨hstart, hcs⟩

end PlaceReader
end Bytes
end Comment
end ApiDoc
