/-
The cut of a comment at its tags.

A text is the leading text and then, tag after tag, what the tag read and the text up to the next one.
`CutAt` says what such a cut is without saying how it is found: a known tag stands at the front of each
part that a tag read, and none starts in the text between.  `ofPlain_cut` gives the cut behind the tags
of every text, and with it where each stretch of the text goes.
-/
import ApiDoc.Comment.Parsed
import Mathlib.Data.List.Basic
import Mathlib.Data.List.TakeWhile

namespace ApiDoc
namespace Comment

open Text

/-! ### Where a tag can start

Positions are given by the text before and the text after, both in reading order. -/

/-- Whether the line on which `before` ends starts with four spaces. -/
def Indented (before : List Char) : Prop :=
  ∃ front line, before = front ++ (List.replicate 4 ' ' ++ line) ∧
    (front = [] ∨ front.getLast? = some '\n') ∧ '\n' ∉ line

/-- An `@` between `before` and `after` starts a word, outside indented code, and a name follows. -/
structure AtWord (before after : List Char) : Prop where
  blank : ∀ c ∈ before.getLast?, isBlank c = true
  indent : ¬ Indented before
  name : startsName after = true

def wordAt (after : List Char) : String := String.ofList (after.takeWhile isHyphenNameChar)

/-- An `@` between `before` and `after` starts a tag of this kind. -/
structure StartsTag (source : SourceKind) (before after : List Char) (kind : TagKind) : Prop where
  atWord : AtWord before after
  known : TagKind.ofSpelling? source (wordAt after) = some kind

/-- No tag starts in `text`, which stands between `before` and `after`. -/
def FreeOfTags (source : SourceKind) (before text after : List Char) : Prop :=
  ∀ a b, text = a ++ '@' :: b → ∀ kind, ¬ StartsTag source (before ++ a) (b ++ after) kind

theorem four_le_length_takeWhile_iff {line : List Char} :
    4 ≤ (line.takeWhile (· == ' ')).length ↔ ∃ rest, line = List.replicate 4 ' ' ++ rest := by
  constructor
  · intro h
    refine ⟨line.drop 4, ?_⟩
    have hspaces : line.takeWhile (· == ' ') = List.replicate _ ' ' :=
      List.eq_replicate_iff.2 ⟨rfl, fun c hc => by simpa using List.mem_takeWhile_imp hc⟩
    have hprefix : List.replicate 4 ' ' <+: line := by
      refine List.IsPrefix.trans ?_ (List.takeWhile_prefix (· == ' '))
      rw [hspaces]
      exact ⟨List.replicate _ ' ', by rw [List.replicate_append_replicate, Nat.add_sub_cancel' h]⟩
    obtain ⟨rest, rfl⟩ := hprefix
    simp
  · rintro ⟨rest, rfl⟩
    rw [List.takeWhile_append_of_pos (by simp)]
    simp

/-- The indentation is that of the last line. -/
theorem indentBefore_append {front line : List Char} (hfront : front = [] ∨ front.getLast? = some '\n')
    (hline : '\n' ∉ line) :
    indentBefore (front ++ line).reverse = (line.takeWhile (· == ' ')).length := by
  have hstop : (front ++ line).reverse.takeWhile (· != '\n') = line.reverse := by
    rw [List.reverse_append]
    refine takeWhile_append_stop (fun c hc => ?_) (fun c hc => ?_)
    · exact bne_iff_ne.2 (ne_of_mem_of_not_mem (List.mem_reverse.1 hc) hline)
    · rw [List.head?_reverse] at hc
      rcases hfront with rfl | h
      · cases hc
      · rw [h] at hc
        cases hc
        rfl
  rw [indentBefore, hstop, List.reverse_reverse]

theorem indentBefore_lt_four_iff (before : List Char) :
    indentBefore before.reverse < 4 ↔ ¬ Indented before := by
  rw [← Nat.not_le, not_iff_not]
  constructor
  · intro h
    rw [indentBefore, four_le_length_takeWhile_iff] at h
    obtain ⟨line, hline⟩ := h
    have hcut := @List.takeWhile_append_dropWhile _ (fun c => c != '\n') before.reverse
    refine ⟨(before.reverse.dropWhile (· != '\n')).reverse, line, ?_, ?_, fun hmem => ?_⟩
    · rw [← hline, ← List.reverse_append, hcut, List.reverse_reverse]
    · cases hrest : before.reverse.dropWhile (· != '\n') with
      | nil => exact .inl rfl
      | cons c rest =>
        have hc := List.head?_dropWhile_not (fun c => c != '\n') before.reverse
        rw [hrest] at hc
        refine .inr ?_
        simpa using hc
    · have hin : '\n' ∈ before.reverse.takeWhile (· != '\n') := by
        rw [← List.mem_reverse, hline]
        exact List.mem_append_right _ hmem
      simpa using List.mem_takeWhile_imp hin
  · rintro ⟨front, line, rfl, hfront, hline⟩
    have hspaces : '\n' ∉ List.replicate 4 ' ' ++ line := by
      simpa using hline
    rw [indentBefore_append hfront hspaces]
    exact four_le_length_takeWhile_iff.2 ⟨line, rfl⟩

theorem canStartTag_iff (before after : List Char) :
    canStartTag before.reverse after = true ↔ AtWord before after := by
  have hparts : ∀ cs : List Char, canStartTag cs after = true ↔
      (∀ c ∈ cs.head?, isBlank c = true) ∧ indentBefore cs < 4 ∧ startsName after = true := by
    intro cs
    cases cs <;> simp [canStartTag, and_assoc]
  rw [hparts, List.head?_reverse, indentBefore_lt_four_iff]
  exact ⟨fun h => ⟨h.1, h.2.1, h.2.2⟩, fun h => ⟨h.blank, h.indent, h.name⟩⟩

instance (before after : List Char) : Decidable (AtWord before after) :=
  decidable_of_iff _ (canStartTag_iff before after)

/-! ### One step of the reading -/

theorem startsTag_reverse_iff {source : SourceKind} {before after : List Char} {kind : TagKind} :
    StartsTag source before.reverse after kind ↔
      canStartTag before after = true ∧ TagKind.ofSpelling? source (wordAt after) = some kind := by
  rw [← before.reverse_reverse, canStartTag_iff, List.reverse_reverse]
  exact ⟨fun h => ⟨h.atWord, h.known⟩, fun h => ⟨h.1, h.2⟩⟩

theorem segments_atTag {source : SourceKind} {before cs : List Char} {kind : TagKind}
    (hstart : StartsTag source before.reverse cs kind) {tag : Tag} {head rest : List Char}
    (hread : readTag kind (cs.dropWhile isHyphenNameChar) = (tag, rest))
    (hhead : '@' :: cs = head ++ rest) :
    segments source before ('@' :: cs) =
      { segments source (head.reverse ++ before) rest with
        lead := []
        tagged := { tag, head, text := (segments source (head.reverse ++ before) rest).lead } ::
          (segments source (head.reverse ++ before) rest).tagged } := by
  have hfront : frontOf ('@' :: cs) rest = head := by rw [hhead, frontOf_append]
  obtain ⟨hcan, hkind⟩ := startsTag_reverse_iff.1 hstart
  have hcond : ('@' == '@' && canStartTag before cs) = true := hcan
  rw [segments]
  simp only [hcond, if_true]
  split
  · next kind' hkind' =>
    obtain rfl := Option.some.inj (hkind'.symm.trans hkind)
    rw [hread]
    simp only [hfront]
  · next hnone => cases hnone.symm.trans hkind

/-- A character at which no tag starts goes to the leading text. -/
theorem segments_char {source : SourceKind} {before cs : List Char} {c : Char}
    (h : ∀ kind, c = '@' → ¬ StartsTag source before.reverse cs kind) :
    segments source before (c :: cs) =
      { segments source (c :: before) cs with
        lead := c :: (segments source (c :: before) cs).lead
        unknown := (if c == '@' && canStartTag before cs then [wordAt cs] else []) ++
          (segments source (c :: before) cs).unknown } := by
  rw [segments]
  split
  · next hstart =>
    rw [Bool.and_eq_true, beq_iff_eq] at hstart
    dsimp only
    split
    · next kind hkind =>
      exact absurd (startsTag_reverse_iff.2 ⟨hstart.2, hkind⟩) (h kind hstart.1)
    · rfl
  · rfl

/-! ### Cuts -/

def Segment.whole (s : Segment) : List Char := s.head ++ s.text

/-- The text that a list of segments covers. -/
def wholeText (tagged : List Segment) : List Char := tagged.flatMap Segment.whole

/-- The segment's head is what its tag takes between `before` and `after`: the sign, the whole word and
the arguments of the tag. -/
def ReadAt (source : SourceKind) (before after : List Char) (s : Segment) : Prop :=
  ∃ word arguments, s.head = '@' :: (word ++ arguments) ∧
    String.ofList word = wordAt (word ++ (arguments ++ after)) ∧
    StartsTag source before (word ++ (arguments ++ after)) s.tag.kind ∧
    readTag s.tag.kind (arguments ++ after) = (s.tag, after)

/-- After `before` comes text that is free of tags, and then segment by segment a tag and text that is
free of tags. -/
def CutAt (source : SourceKind) (before text : List Char) : List Segment → Prop
  | [] => FreeOfTags source before text []
  | s :: tagged =>
    FreeOfTags source before text (wholeText (s :: tagged)) ∧
      ReadAt source (before ++ text) (s.text ++ wholeText tagged) s ∧
      CutAt source (before ++ text ++ s.head) s.text tagged

/-- The words of `text` that could be a tag and are none. -/
def unknownWords (source : SourceKind) (before after : List Char) :
    List Char → List String
  | [] => []
  | c :: text =>
    (if c = '@' ∧ AtWord before (text ++ after) ∧
        TagKind.ofSpelling? source (wordAt (text ++ after)) = none then
      [wordAt (text ++ after)] else [])
    ++ unknownWords source (before ++ [c]) after text

/-- The words of the free text of a cut that could be a tag and are none. -/
def unknownOfCut (source : SourceKind) (before text : List Char) :
    List Segment → List String
  | [] => unknownWords source before [] text
  | s :: tagged =>
    unknownWords source before (wholeText (s :: tagged)) text
      ++ unknownOfCut source (before ++ text ++ s.head) s.text tagged

/-- A tag before its text is known, and the text that it collects. -/
structure Collected where
  tag : Tag
  text : List Char

def Collected.finish (c : Collected) : Tag := { c.tag with doc := String.ofList (trim c.text) }

/-- What a segment adds: its tag with the text if its kind takes text; else the tag alone, with a tag of
free text after it for text that is not blank. -/
def Segment.collected (s : Segment) : List Collected :=
  if s.tag.kind.takesText then [⟨s.tag, s.text⟩]
  else if isBlankText s.text then [⟨s.tag, []⟩]
  else [⟨s.tag, []⟩, ⟨{ kind := .doc }, s.text⟩]

def collectedOfCut (lead : List Char) (tagged : List Segment) : List Collected :=
  ⟨{ kind := .doc }, lead⟩ :: tagged.flatMap Segment.collected

/-! ### Readers fill a tag in, they do not change its kind and give it no text -/

/-- The tags have the same kind and the same text. -/
def SameText (t t' : Tag) : Prop := t'.kind = t.kind ∧ t'.doc = t.doc

theorem SameText.trans {t t' t'' : Tag} (h : SameText t t') (h' : SameText t' t'') :
    SameText t t'' := ⟨h'.1.trans h.1, h'.2.trans h.2⟩

theorem sameText_withValueType (t : Tag) (type : Option (List Char)) :
    SameText t (t.withValueType type) := by
  unfold Tag.withValueType
  split
  · exact ⟨rfl, rfl⟩
  · split <;> exact ⟨rfl, rfl⟩

theorem sameText_readOptionalName (t : Tag) (cs : List Char) :
    SameText t (readOptionalName t cs).1 := by
  simp only [readOptionalName]
  split <;> exact ⟨rfl, rfl⟩

theorem sameText_readNameTail (t : Tag) (name cs : List Char) :
    SameText t (readNameTail t name cs).1 := by
  unfold readNameTail
  split
  · exact ⟨rfl, rfl⟩
  · split
    · split <;> exact ⟨rfl, rfl⟩
    · split <;> exact ⟨rfl, rfl⟩

theorem sameText_readTypedName (t : Tag) (cs : List Char) :
    SameText t (readTypedName t cs).1 := by
  unfold readTypedName
  split
  · exact sameText_readOptionalName t _
  · split
    · next r _ =>
      exact SameText.trans ⟨rfl, rfl⟩
        (sameText_readNameTail { t with name := some (String.ofList r.1) } r.1 r.2)
    · exact ⟨rfl, rfl⟩

theorem sameText_readTyped (t : Tag) (cs : List Char) : SameText t (readTyped t cs).1 :=
  (sameText_withValueType t _).trans (sameText_readTypedName _ _)

theorem sameText_readReturned (t : Tag) (cs : List Char) : SameText t (readReturned t cs).1 := by
  simp only [readReturned]
  split <;> exact ⟨rfl, rfl⟩

theorem sameText_readType (t : Tag) (cs : List Char) : SameText t (readType t cs).1 := by
  simp only [readType]
  split <;> exact ⟨rfl, rfl⟩

theorem sameText_readVersion (t : Tag) (cs : List Char) : SameText t (readVersion t cs).1 := by
  unfold readVersion
  split
  · exact ⟨rfl, rfl⟩
  · split <;> exact ⟨rfl, rfl⟩

theorem sameText_readEnumPattern (t : Tag) (cs : List Char) :
    SameText t (readEnumPattern t cs).1 := by
  simp only [readEnumPattern]
  split <;> exact ⟨rfl, rfl⟩

theorem sameText_readEnumeration (t : Tag) (cs : List Char) :
    SameText t (readEnumeration t cs).1 := by
  simp only [readEnumeration]
  split
  · next inner _ =>
    exact SameText.trans ⟨rfl, rfl⟩
      (sameText_readEnumPattern { t with type := (readBracedType cs).1.map String.ofList } inner)
  · exact ⟨rfl, rfl⟩

theorem sameText_readTag (kind : TagKind) (cs : List Char) :
    SameText { kind } (readTag kind cs).1 := by
  simp only [readTag]
  split
  case h_6 => exact sameText_readTyped _ cs
  case h_7 => exact sameText_readReturned _ cs
  case h_9 => exact sameText_readType _ cs
  case h_11 => exact sameText_readVersion _ cs
  case h_15 => exact sameText_readEnumeration _ cs
  all_goals exact ⟨rfl, rfl⟩

/-! ### The segments are a cut -/

theorem FreeOfTags.nil (source : SourceKind) (before after : List Char) :
    FreeOfTags source before [] after := by
  intro a b h
  cases a <;> cases h

theorem FreeOfTags.cons {source : SourceKind} {before text after : List Char} {c : Char}
    (hc : c = '@' → ∀ kind, ¬ StartsTag source before (text ++ after) kind)
    (h : FreeOfTags source (before ++ [c]) text after) :
    FreeOfTags source before (c :: text) after := by
  intro a b hab kind
  cases a with
  | nil =>
    obtain ⟨rfl, rfl⟩ := List.cons.inj hab
    rw [List.append_nil]
    exact hc rfl kind
  | cons d a =>
    obtain ⟨rfl, rfl⟩ := List.cons.inj hab
    have hrest := h a b rfl kind
    rwa [List.append_assoc] at hrest

theorem FreeOfTags.head {source : SourceKind} {before text after : List Char} {c : Char}
    (h : FreeOfTags source before (c :: text) after) (kind : TagKind) (hc : c = '@') :
    ¬ StartsTag source before (text ++ after) kind := by
  have hstart := h [] text (congrArg (· :: text) hc) kind
  rwa [List.append_nil] at hstart

theorem FreeOfTags.tail {source : SourceKind} {before text after : List Char} {c : Char}
    (h : FreeOfTags source before (c :: text) after) :
    FreeOfTags source (before ++ [c]) text after := by
  intro a b hab kind
  have hstart := h (c :: a) b (congrArg (c :: ·) hab) kind
  rwa [List.append_assoc]

/-- Text that is free of tags goes to the leading text. -/
theorem FreeOfTags.segments {source : SourceKind} {before text after : List Char}
    (h : FreeOfTags source before.reverse text after) :
    (Comment.segments source before (text ++ after)).lead =
        text ++ (Comment.segments source (text.reverse ++ before) after).lead ∧
      (Comment.segments source before (text ++ after)).tagged =
        (Comment.segments source (text.reverse ++ before) after).tagged := by
  induction text generalizing before with
  | nil => exact ⟨rfl, rfl⟩
  | cons c text ih =>
    have htail := h.tail
    rw [← List.reverse_cons] at htail
    obtain ⟨hlead, htagged⟩ := ih htail
    rw [List.cons_append, segments_char h.head, List.reverse_cons, List.append_assoc,
      List.singleton_append]
    exact ⟨congrArg (c :: ·) hlead, htagged⟩

/-- What the segments say about the text that they were cut from. -/
structure Segments.Cuts (source : SourceKind) (before text : List Char) (s : Segments) : Prop where
  whole : text = s.lead ++ wholeText s.tagged
  cut : CutAt source before s.lead s.tagged
  unknown : s.unknown = unknownOfCut source before s.lead s.tagged

theorem unknownOfCut_cons (source : SourceKind) (before text : List Char) (c : Char)
    (tagged : List Segment) :
    unknownOfCut source before (c :: text) tagged =
      unknownWords source before (text ++ wholeText tagged) [c]
        ++ unknownOfCut source (before ++ [c]) text tagged := by
  cases tagged with
  | nil => simp [unknownOfCut, unknownWords, wholeText]
  | cons s tagged => simp [unknownOfCut, unknownWords]

theorem CutAt.cons {source : SourceKind} {before text : List Char} {c : Char}
    {tagged : List Segment} (h : CutAt source (before ++ [c]) text tagged)
    (hc : c = '@' → ∀ kind, ¬ StartsTag source before (text ++ wholeText tagged) kind) :
    CutAt source before (c :: text) tagged := by
  cases tagged with
  | nil => exact FreeOfTags.cons hc h
  | cons s tagged =>
    obtain ⟨hfree, hread, hcut⟩ := h
    rw [List.append_assoc before [c] text] at hread hcut
    exact ⟨FreeOfTags.cons hc hfree, hread, hcut⟩

theorem Segments.Cuts.cons {source : SourceKind} {before text : List Char} {s : Segments} {c : Char}
    (h : s.Cuts source (before ++ [c]) text)
    (hc : c = '@' → ∀ kind, ¬ StartsTag source before text kind) (words : List String)
    (hwords : words = unknownWords source before text [c]) :
    Segments.Cuts source before (c :: text)
      { s with lead := c :: s.lead, unknown := words ++ s.unknown } where
  whole := congrArg (c :: ·) h.whole
  cut := h.cut.cons (h.whole ▸ hc)
  unknown := by
    rw [unknownOfCut_cons, ← h.whole, hwords, h.unknown]

/-- A tag that is read at the front of a text. -/
theorem readAt_segment {source : SourceKind} {before cs : List Char} {kind : TagKind}
    (hstart : StartsTag source before cs kind) {r : Tag × List Char}
    (hr : readTag kind (cs.dropWhile isHyphenNameChar) = r) (text : List Char) :
    ∃ head, '@' :: cs = head ++ r.2 ∧
      ReadAt source before r.2 { tag := r.1, head, text } := by
  obtain ⟨arguments, hargs⟩ := hr ▸ readTag_suffix kind (cs.dropWhile isHyphenNameChar)
  have hcs : cs = cs.takeWhile isHyphenNameChar ++ (arguments ++ r.2) := by
    rw [hargs, List.takeWhile_append_dropWhile]
  have hkind : r.1.kind = kind := hr ▸ (sameText_readTag kind _).1
  refine ⟨'@' :: (cs.takeWhile isHyphenNameChar ++ arguments), ?_, cs.takeWhile isHyphenNameChar,
    arguments, rfl, ?_, ?_, ?_⟩
  · rw [List.cons_append, List.append_assoc, ← hcs]
  · rw [← hcs, wordAt]
  · rwa [← hcs, hkind]
  · rw [hargs, hkind, hr]

/-- Segments are a cut of the text, and report the words of its free parts that are not known. -/
theorem cuts_segments (source : SourceKind) (before cs : List Char) :
    (segments source before cs).Cuts source before.reverse cs := by
  fun_induction segments source before cs with
  | case1 before => exact ⟨rfl, FreeOfTags.nil source _ _, rfl⟩
  | case2 before c cs hstart name kind hkind r head s ih =>
    rw [Bool.and_eq_true, beq_iff_eq, ← before.reverse_reverse, canStartTag_iff] at hstart
    obtain ⟨rfl, hword⟩ := hstart
    obtain ⟨head', hwhole, hread⟩ := readAt_segment ⟨hword, hkind⟩ rfl s.lead
    have hhead : head = head' := by
      show frontOf ('@' :: cs) r.2 = head'
      rw [hwhole, frontOf_append]
    subst hhead
    rw [List.reverse_append, List.reverse_reverse] at ih
    refine ⟨?_, ⟨FreeOfTags.nil source _ _, ?_, ?_⟩, ?_⟩
    · rw [hwhole]
      show head ++ r.2 = [] ++ ((head ++ s.lead) ++ wholeText s.tagged)
      rw [ih.whole, List.append_assoc, List.nil_append]
    · rw [List.append_nil]
      exact ih.whole ▸ hread
    · rw [List.append_nil]
      exact ih.cut
    · simpa [unknownOfCut, unknownWords] using ih.unknown
  | case3 before c cs hstart name hkind s ih =>
    rw [List.reverse_cons] at ih
    rw [Bool.and_eq_true, beq_iff_eq, ← before.reverse_reverse, canStartTag_iff] at hstart
    refine Segments.Cuts.cons ih (fun _ kind hs => ?_) [name] ?_
    · exact absurd (hkind.symm.trans hs.known) (by simp)
    · simp [unknownWords, hstart, wordAt, hkind, name]
  | case4 before c cs hstart s ih =>
    rw [List.reverse_cons] at ih
    rw [Bool.and_eq_true, beq_iff_eq, ← before.reverse_reverse, canStartTag_iff] at hstart
    refine Segments.Cuts.cons ih (fun hc kind hs => hstart ⟨hc, hs.atWord⟩) [] ?_
    simpa [unknownWords] using fun hc hword => absurd ⟨hc, hword⟩ hstart

/-! ### The tags of a text -/

theorem map_finish_collected {s : Segment} (hdoc : s.tag.doc = "") :
    s.collected.map Collected.finish = s.tags := by
  have hfinish : Collected.finish ⟨s.tag, []⟩ = s.tag := by
    show ({ s.tag with doc := "" } : Tag) = s.tag
    rw [← hdoc]
  unfold Segment.collected Segment.tags
  split
  · rfl
  · split
    · rw [List.map_singleton, hfinish]
    · rw [List.map_cons, List.map_singleton, hfinish]
      rfl

theorem doc_of_cutAt {source : SourceKind} {tagged : List Segment} {before text : List Char}
    (h : CutAt source before text tagged) : ∀ s ∈ tagged, s.tag.doc = "" := by
  induction tagged generalizing before text with
  | nil => exact fun s hs => absurd hs List.not_mem_nil
  | cons s tagged ih =>
    obtain ⟨-, ⟨word, arguments, -, -, -, hread⟩, hcut⟩ := h
    intro s' hs'
    rcases List.mem_cons.1 hs' with rfl | hs'
    · have hdoc := (sameText_readTag s'.tag.kind (arguments ++ (s'.text ++ wholeText tagged))).2
      rwa [hread] at hdoc
    · exact ih hcut s' hs'

theorem map_finish_collectedOfCut {lead : List Char} {tagged : List Segment}
    (h : ∀ s ∈ tagged, s.tag.doc = "") :
    (collectedOfCut lead tagged).map Collected.finish =
      docTag lead :: tagged.flatMap Segment.tags := by
  rw [collectedOfCut, List.map_cons, List.map_flatMap]
  exact congrArg _ (List.flatMap_congr fun s hs => map_finish_collected (h s hs))

/-- Every text has a cut into the leading text, what each tag read and the text that follows it, with
no tag in the free text.  The tags are those of the cut in its order: the leading text in a first one,
then each tag that was read, with the text after it in the tag, in one of free text behind it, or
nowhere if it is blank and the tag takes none.  The unknown words are those of the free text. -/
theorem ofPlain_cut (source : SourceKind) (text : List Char) :
    ∃ lead tagged, text = lead ++ wholeText tagged ∧ CutAt source [] lead tagged ∧
      (ofPlain source text).tags = (collectedOfCut lead tagged).map Collected.finish ∧
      (ofPlain source text).unknown = unknownOfCut source [] lead tagged := by
  have h := cuts_segments source [] text
  refine ⟨(segments source [] text).lead, (segments source [] text).tagged, h.whole, h.cut, ?_,
    h.unknown⟩
  rw [map_finish_collectedOfCut (doc_of_cutAt h.cut)]
  rfl

end Comment
end ApiDoc
