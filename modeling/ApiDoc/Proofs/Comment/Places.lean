/-
Places of tags in a text.

The reading of a text comes to one tag after the other.  At each of them it goes on with the rest of the
text alone, and asks the text before only whether a tag can start.  So what follows a tag is cut as if
another word stood in the tag's place (`TagPlace.segments_replaced`), and the lines that follow as if
nothing stood before them (`TagPlace.later_of_nextLine`).
-/
import ApiDoc.Proofs.Comment.Params

namespace ApiDoc
namespace Comment

open Text

/-! ### Texts before a place

They hold the last character first. -/

/-- Behind either text a tag can start at the same places. -/
def LooksAlike (before before' : List Char) : Prop :=
  ∀ between after, canStartTag (between ++ before) after = canStartTag (between ++ before') after

theorem LooksAlike.append {before before' : List Char} (h : LooksAlike before before')
    (text : List Char) : LooksAlike (text ++ before) (text ++ before') := by
  intro between after
  rw [← List.append_assoc, ← List.append_assoc, h]

theorem LooksAlike.startsTag {before before' : List Char} (h : LooksAlike before before')
    {source : SourceKind} {after : List Char} {kind : TagKind} :
    StartsTag source before.reverse after kind ↔ StartsTag source before'.reverse after kind := by
  rw [startsTag_reverse_iff, startsTag_reverse_iff, ← List.nil_append before, h, List.nil_append]

/-- What a tag reads at the front of a text, and what it leaves. -/
theorem exists_readTag (kind : TagKind) (cs : List Char) :
    ∃ tag head rest, readTag kind (cs.dropWhile isHyphenNameChar) = (tag, rest) ∧
      '@' :: cs = head ++ rest ∧ rest.length ≤ cs.length := by
  have hsuffix := (readTag_suffix kind (cs.dropWhile isHyphenNameChar)).trans
    (List.dropWhile_suffix isHyphenNameChar)
  obtain ⟨head, hhead⟩ := hsuffix.trans (List.suffix_cons '@' cs)
  exact ⟨_, head, _, rfl, hhead.symm, hsuffix.length_le⟩

/-- The cut of a text asks of the text before only where a tag can start. -/
theorem LooksAlike.segments {source : SourceKind} (cs : List Char) {before before' : List Char}
    (h : LooksAlike before before') :
    Comment.segments source before cs = Comment.segments source before' cs := by
  induction hlength : cs.length using Nat.strong_induction_on generalizing cs before before' with
  | _ n ih =>
    subst hlength
    cases cs with
    | nil => rw [Comment.segments, Comment.segments]
    | cons c cs =>
      by_cases hstart : ∃ kind, c = '@' ∧ StartsTag source before.reverse cs kind
      · obtain ⟨kind, rfl, hstart⟩ := hstart
        obtain ⟨tag, head, rest, hread, hhead, hle⟩ := exists_readTag kind cs
        rw [segments_atTag hstart hread hhead, segments_atTag (h.startsTag.1 hstart) hread hhead,
          ih _ (Nat.lt_succ_of_le hle) rest (h.append head.reverse) rfl]
      · rw [not_exists] at hstart
        have hcan : canStartTag before cs = canStartTag before' cs := h [] cs
        have hnext : Comment.segments source (c :: before) cs =
            Comment.segments source (c :: before') cs :=
          ih _ (Nat.lt_succ_self _) cs (h.append [c]) rfl
        rw [segments_char fun kind hc hs => hstart kind ⟨hc, hs⟩,
          segments_char fun kind hc hs => hstart kind ⟨hc, h.startsTag.2 hs⟩, hcan, hnext]

theorem indentBefore_append_newline (between before : List Char) :
    indentBefore (between ++ '\n' :: before) = indentBefore between := by
  rw [indentBefore, takeWhile_append_cons rfl, indentBefore]

theorem canStartTag_congr {before before' : List Char} (hhead : before.head? = before'.head?)
    (hindent : indentBefore before = indentBefore before') (after : List Char) :
    canStartTag before after = canStartTag before' after := by
  cases before with
  | nil =>
    obtain rfl := List.head?_eq_none_iff.1 hhead.symm
    rfl
  | cons c cs =>
    obtain ⟨cs', rfl⟩ := List.head?_eq_some_iff.1 hhead.symm
    show (isBlank c && decide (indentBefore (c :: cs) < 4) && startsName after) =
      (isBlank c && decide (indentBefore (c :: cs') < 4) && startsName after)
    rw [hindent]

/-- Behind a line break it is all the same what stands before. -/
theorem looksAlike_newline (before : List Char) : LooksAlike ('\n' :: before) [] := by
  intro between after
  cases between with
  | nil => rfl
  | cons c between =>
    refine canStartTag_congr ?_ ?_ after
    · rfl
    · rw [indentBefore_append_newline, List.append_nil]

theorem segments_newline (source : SourceKind) (before next : List Char) :
    segments source before ('\n' :: next) =
      { segments source [] next with lead := '\n' :: (segments source [] next).lead } := by
  have htagless : '@' ∉ ['\n'] := by decide
  rw [← List.singleton_append, segments_of_tagless htagless]
  show ({ segments source ('\n' :: before) next with
    lead := ['\n'] ++ (segments source ('\n' :: before) next).lead } : Segments) = _
  rw [(looksAlike_newline before).segments]
  rfl

theorem segments_atLineEnd {source : SourceKind} {rest : List Char} (h : AtLineEnd rest)
    (before before' : List Char) : segments source before rest = segments source before' rest := by
  cases rest with
  | nil => rw [segments, segments]
  | cons c next =>
    obtain rfl := h c rfl
    rw [segments_newline, segments_newline]

/-- A text within a line that neither starts nor ends with a blank. -/
structure IsPhrase (text : List Char) : Prop where
  nonempty : text ≠ []
  line : '\n' ∉ text
  first : ∀ c ∈ text.head?, isBlank c = false
  last : ∀ c ∈ text.getLast?, isBlank c = false

/-- A phrase leaves the indentation of its line as it is. -/
theorem indentBefore_append_phrase {phrase between : List Char} (h : IsPhrase phrase)
    (hbetween : '\n' ∉ between) (before : List Char) :
    indentBefore (between ++ (phrase.reverse ++ before)) = indentBefore before := by
  obtain ⟨c, cs, rfl⟩ := List.exists_cons_of_ne_nil h.nonempty
  have hc : (c == ' ') = false := by
    rw [beq_eq_false_iff_ne]
    rintro rfl
    cases h.first ' ' rfl
  have hline : ∀ d ∈ between ++ (c :: cs).reverse, (d != '\n') = true := by
    intro d hd
    rw [bne_iff_ne]
    rintro rfl
    rw [List.mem_append, List.mem_reverse] at hd
    exact hd.elim hbetween h.line
  rw [indentBefore, indentBefore, ← List.append_assoc, List.takeWhile_append_of_pos hline,
    List.reverse_append, List.reverse_append, List.reverse_reverse, List.cons_append,
    takeWhile_append_cons (p := (· == ' ')) hc]

theorem indentBefore_phrase_congr {phrase phrase' : List Char} (h : IsPhrase phrase)
    (h' : IsPhrase phrase') (between before : List Char) :
    indentBefore (between ++ (phrase.reverse ++ before)) =
      indentBefore (between ++ (phrase'.reverse ++ before)) := by
  by_cases hline : '\n' ∈ between
  · obtain ⟨front, line, rfl⟩ := List.mem_iff_append.1 hline
    rw [List.append_assoc, List.cons_append, indentBefore_append_newline, List.append_assoc,
      List.cons_append, indentBefore_append_newline]
  · rw [indentBefore_append_phrase h hline, indentBefore_append_phrase h' hline]

/-- No tag starts right behind a phrase. -/
theorem canStartTag_phrase {phrase : List Char} (h : IsPhrase phrase) (before after : List Char) :
    canStartTag (phrase.reverse ++ before) after = false := by
  obtain ⟨c, cs, hreverse⟩ := List.exists_cons_of_ne_nil (List.reverse_ne_nil_iff.2 h.nonempty)
  have hc : isBlank c = false := h.last c (by rw [← List.head?_reverse, hreverse]; rfl)
  rw [hreverse]
  show (isBlank c && decide (indentBefore (c :: (cs ++ before)) < 4) && startsName after) = false
  rw [hc, Bool.false_and, Bool.false_and]

theorem looksAlike_phrase {phrase phrase' : List Char} (h : IsPhrase phrase) (h' : IsPhrase phrase')
    (before : List Char) : LooksAlike (phrase.reverse ++ before) (phrase'.reverse ++ before) := by
  intro between after
  cases between with
  | nil => exact (canStartTag_phrase h before after).trans (canStartTag_phrase h' before after).symm
  | cons c between =>
    refine canStartTag_congr ?_ (indentBefore_phrase_congr h h' (c :: between) before) after
    rfl

/-! ### The reading at a tag -/

/-- Behind the leading text the reading goes on with the first tag. -/
theorem segments_after_lead (source : SourceKind) (before cs : List Char) :
    ∃ rest, cs = (segments source before cs).lead ++ rest ∧
      (segments source ((segments source before cs).lead.reverse ++ before) rest).lead = [] ∧
      (segments source ((segments source before cs).lead.reverse ++ before) rest).tagged =
        (segments source before cs).tagged := by
  induction cs generalizing before with
  | nil =>
    rw [segments]
    exact ⟨[], rfl, by rw [segments], by rw [segments]⟩
  | cons c cs ih =>
    by_cases hstart : ∃ kind, c = '@' ∧ StartsTag source before.reverse cs kind
    · obtain ⟨kind, rfl, hstart⟩ := hstart
      obtain ⟨tag, head, rest, hread, hhead, -⟩ := exists_readTag kind cs
      have hlead : (segments source before ('@' :: cs)).lead = [] := by
        rw [segments_atTag hstart hread hhead]
      rw [hlead]
      exact ⟨'@' :: cs, rfl, hlead, rfl⟩
    · rw [not_exists] at hstart
      obtain ⟨rest, hcs, hlead, htagged⟩ := ih (c :: before)
      rw [segments_char fun kind hc hs => hstart kind ⟨hc, hs⟩]
      dsimp only
      rw [List.reverse_cons, List.append_assoc, List.singleton_append]
      exact ⟨rest, congrArg (c :: ·) hcs, hlead, htagged⟩

/-- Behind what a tag read the reading goes on with its text. -/
theorem segments_after_head {source : SourceKind} {before cs : List Char} {s : Segment}
    {later : List Segment} (hlead : (segments source before cs).lead = [])
    (htagged : (segments source before cs).tagged = s :: later) :
    ∃ rest, cs = s.head ++ rest ∧ (segments source (s.head.reverse ++ before) rest).lead = s.text ∧
      (segments source (s.head.reverse ++ before) rest).tagged = later := by
  cases cs with
  | nil =>
    rw [segments] at htagged
    cases htagged
  | cons c cs =>
    by_cases hstart : ∃ kind, c = '@' ∧ StartsTag source before.reverse cs kind
    · obtain ⟨kind, rfl, hstart⟩ := hstart
      obtain ⟨tag, head, rest, hread, hhead, -⟩ := exists_readTag kind cs
      rw [segments_atTag hstart hread hhead] at htagged
      obtain ⟨rfl, rfl⟩ := List.cons.inj htagged
      exact ⟨rest, hhead, rfl, rfl⟩
    · rw [not_exists] at hstart
      rw [segments_char fun kind hc hs => hstart kind ⟨hc, hs⟩] at hlead
      cases hlead

/-- The reading comes to each of its segments, with the text before it cut into the earlier ones. -/
theorem segments_at {source : SourceKind} {before cs : List Char} {earlier later : List Segment}
    {s : Segment} (htagged : (segments source before cs).tagged = earlier ++ s :: later) :
    ∃ rest, cs = (segments source before cs).lead ++ (wholeText earlier ++ rest) ∧
      (segments source (((segments source before cs).lead ++ wholeText earlier).reverse ++ before)
        rest).lead = [] ∧
      (segments source (((segments source before cs).lead ++ wholeText earlier).reverse ++ before)
        rest).tagged = s :: later := by
  induction earlier generalizing before cs with
  | nil =>
    obtain ⟨rest, hcs, hlead, hrest⟩ := segments_after_lead source before cs
    rw [show wholeText [] = [] from rfl, List.append_nil]
    exact ⟨rest, hcs, hlead, hrest.trans htagged⟩
  | cons e earlier ih =>
    obtain ⟨front, hcs, hlead, hfront⟩ := segments_after_lead source before cs
    obtain ⟨after, hhead, htext, hafter⟩ := segments_after_head hlead (hfront.trans htagged)
    obtain ⟨rest, hrest, hlead', htagged'⟩ := ih hafter
    have hwhole : wholeText (e :: earlier) = e.head ++ (e.text ++ wholeText earlier) := by
      rw [wholeText, List.flatMap_cons, Segment.whole, List.append_assoc]
      rfl
    have hbefore : ((segments source before cs).lead ++ wholeText (e :: earlier)).reverse ++ before =
        (e.text ++ wholeText earlier).reverse ++
          (e.head.reverse ++ ((segments source before cs).lead.reverse ++ before)) := by
      rw [hwhole]
      simp only [List.reverse_append, List.append_assoc]
    rw [htext] at hrest hlead' htagged'
    rw [hbefore]
    refine ⟨rest, ?_, hlead', htagged'⟩
    rw [hwhole, List.append_assoc, List.append_assoc, ← hrest, ← hhead, ← hcs]

/-- A tag that the reading of a text comes to. -/
structure TagPlace (source : SourceKind) (text : List Char) where
  earlier : List Segment
  segment : Segment
  later : List Segment
  tagged : (segments source [] text).tagged = earlier ++ segment :: later

namespace TagPlace

variable {source : SourceKind} {text : List Char} (p : TagPlace source text)

def before : List Char := (segments source [] text).lead ++ wholeText p.earlier

/-- What the tag leaves. -/
def rest : List Char := p.segment.text ++ wholeText p.later

/-- What follows the word of the tag. -/
def arguments : List Char := (p.segment.head ++ p.rest).tail.dropWhile isHyphenNameChar

theorem segments_eq : text = p.before ++ (p.segment.head ++ p.rest) ∧
    (segments source p.before.reverse (p.segment.head ++ p.rest)).lead = [] ∧
    (segments source p.before.reverse (p.segment.head ++ p.rest)).tagged = p.segment :: p.later := by
  obtain ⟨rest, htext, hlead, htagged⟩ := segments_at p.tagged
  rw [List.append_nil] at hlead htagged
  have hrest : rest = p.segment.head ++ p.rest := by
    have hwhole := (cuts_segments source p.before.reverse rest).whole
    rw [before, hlead, htagged] at hwhole
    rw [hwhole, TagPlace.rest, List.nil_append, wholeText, List.flatMap_cons, Segment.whole,
      List.append_assoc]
    rfl
  rw [← hrest]
  exact ⟨by rw [before, List.append_assoc, ← htext], hlead, htagged⟩

/-- What the tag leaves is read on behind it. -/
theorem segments_rest :
    (segments source (p.segment.head.reverse ++ p.before.reverse) p.rest).lead = p.segment.text ∧
      (segments source (p.segment.head.reverse ++ p.before.reverse) p.rest).tagged = p.later := by
  obtain ⟨-, hlead, htagged⟩ := p.segments_eq
  obtain ⟨rest, hrest, hlead, htagged⟩ := segments_after_head hlead htagged
  rw [List.append_cancel_left hrest]
  exact ⟨hlead, htagged⟩

theorem exists_head : ∃ word arguments, p.segment.head = '@' :: (word ++ arguments) ∧
    p.arguments = arguments ++ p.rest ∧ '\n' ∉ word ∧
    readTag p.segment.tag.kind (arguments ++ p.rest) = (p.segment.tag, p.rest) := by
  obtain ⟨-, hlead, htagged⟩ := p.segments_eq
  have hcut := (cuts_segments source p.before.reverse (p.segment.head ++ p.rest)).cut
  rw [hlead, htagged] at hcut
  obtain ⟨-, ⟨word, arguments, hhead, hword, -, hread⟩, -⟩ := hcut
  have htake : word = (word ++ (arguments ++ p.rest)).takeWhile isHyphenNameChar :=
    String.ofList_injective hword
  have hdrop : p.arguments = arguments ++ p.rest := by
    have hsplit := @List.takeWhile_append_dropWhile _ isHyphenNameChar (word ++ (arguments ++ p.rest))
    rw [← htake] at hsplit
    rw [TagPlace.arguments, hhead, List.cons_append, List.tail_cons, List.append_assoc]
    exact List.append_cancel_left hsplit
  refine ⟨word, arguments, hhead, hdrop, fun hmem => ?_, hread⟩
  rw [htake] at hmem
  cases List.mem_takeWhile_imp hmem

/-- The tag is what its reader makes of the text behind the word. -/
theorem readTag_arguments : readTag p.segment.tag.kind p.arguments = (p.segment.tag, p.rest) := by
  obtain ⟨word, arguments, -, harguments, -, hread⟩ := p.exists_head
  rwa [harguments]

/-- The head of a tag is the sign, the word and what the reader takes. -/
theorem head_eq {taken : List Char} (h : p.arguments = taken ++ p.rest) :
    ∃ word, p.segment.head = '@' :: (word ++ taken) ∧ '\n' ∉ word := by
  obtain ⟨word, arguments, hhead, harguments, hline, -⟩ := p.exists_head
  rw [List.append_cancel_right (h.symm.trans harguments)]
  exact ⟨word, hhead, hline⟩

/-- Another phrase in the place of a tag that ends within its line changes nothing behind it. -/
theorem segments_replaced {phrase : List Char} (hphrase : IsPhrase phrase) (htagless : '@' ∉ phrase)
    (hline : '\n' ∉ p.segment.head)
    (hend : AtLineEnd p.rest ∨ ∀ c ∈ p.segment.head.getLast?, isBlank c = false) :
    (segments source p.before.reverse (phrase ++ p.rest)).lead = phrase ++ p.segment.text ∧
      (segments source p.before.reverse (phrase ++ p.rest)).tagged = p.later := by
  have hsame : segments source (phrase.reverse ++ p.before.reverse) p.rest =
      segments source (p.segment.head.reverse ++ p.before.reverse) p.rest := by
    rcases hend with hend | hlast
    · exact segments_atLineEnd hend _ _
    · obtain ⟨word, arguments, hhead, -⟩ := p.exists_head
      have hsign : ∀ c ∈ p.segment.head.head?, isBlank c = false := by
        rw [hhead]
        rintro c hc
        cases hc
        rfl
      have hne : p.segment.head ≠ [] := hhead ▸ List.cons_ne_nil _ _
      exact (looksAlike_phrase hphrase ⟨hne, hline, hsign, hlast⟩ _).segments p.rest
  obtain ⟨hlead, htagged⟩ := p.segments_rest
  rw [segments_of_tagless htagless, hsame]
  exact ⟨congrArg (phrase ++ ·) hlead, htagged⟩

/-- The lines behind the one on which the tag ends are read as a text of their own. -/
theorem later_of_nextLine {line next : List Char} (hrest : p.rest = line ++ '\n' :: next)
    (htagless : '@' ∉ line) : p.later = (segments source [] next).tagged := by
  obtain ⟨-, htagged⟩ := p.segments_rest
  rw [hrest, segments_of_tagless htagless, segments_newline] at htagged
  exact htagged.symm

end TagPlace

end Comment
end ApiDoc
