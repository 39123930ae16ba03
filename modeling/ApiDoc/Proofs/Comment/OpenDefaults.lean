/-
Default values that nothing closes.

A malformed default value is read up to the first closing square bracket behind it, wherever that stands.
So its tag leaves the line if and only if no such bracket stands on the line and one stands behind it
(`stays_on_line_iff`).  A tag that stays on its line is read with no effect on what follows.
-/
import ApiDoc.Proofs.Comment.Complete
import ApiDoc.Proofs.Comment.Places

namespace ApiDoc
namespace Comment

open Text

/-- The text opens a default value: a square bracket, a name and an equals sign, behind what leads a
name. -/
def OpensDefault (name opening : List Char) : Prop :=
  ∃ leading gap gap', LeadsName leading ∧ IsGap gap ∧ WrittenName name ∧ IsGap gap' ∧
    opening = leading ++ '[' :: (gap ++ (name ++ (gap' ++ ['='])))

/-- A closing square bracket stands behind the line on which the text starts, and none on it. -/
def ClosedBelow (value : List Char) : Prop :=
  ']' ∈ value ∧ ']' ∉ value.takeWhile (· != '\n')

instance (value : List Char) : Decidable (ClosedBelow value) := inferInstanceAs (Decidable (_ ∧ _))

theorem not_mem_takeWhile_newline (cs : List Char) : '\n' ∉ cs.takeWhile (· != '\n') := fun hmem => by
  cases List.mem_takeWhile_imp hmem

/-- What a malformed default value takes of the text. -/
theorem bracketedDefault_open {value : List Char} (h : ¬ ClosedDefault value) :
    ∃ eaten, value = eaten ++ (bracketedDefault value).2 ∧ ('\n' ∈ eaten ↔ ClosedBelow value) ∧
      (AtLineEnd (bracketedDefault value).2 ∨ eaten.getLast? = some ']') := by
  have hnone : atUnmatched? [] none value = none := by
    rwa [← isSome_atUnmatched?_iff, Option.not_isSome_iff_eq_none] at h
  by_cases hbracket : ']' ∈ value
  · obtain ⟨front, rest, rfl, hfront⟩ := List.eq_append_cons_of_mem hbracket
    have hread : bracketedDefault (front ++ ']' :: rest) = (trim front, rest) := by
      rw [bracketedDefault, hnone, cutFirst?_append hfront]
    have hbelow : '\n' ∈ front ↔ ']' ∉ (front ++ ']' :: rest).takeWhile (· != '\n') := by
      constructor
      · intro hline hmem
        obtain ⟨a, b, rfl⟩ := List.mem_iff_append.1 hline
        rw [List.append_assoc, List.cons_append, takeWhile_append_cons rfl] at hmem
        exact hfront (List.mem_append_left _ (List.takeWhile_subset _ hmem))
      · intro hmem
        by_contra hline
        have hplain : ∀ c ∈ front, (c != '\n') = true := fun c hc => bne_iff_ne.2 fun h => hline (h ▸ hc)
        rw [List.takeWhile_append_of_pos hplain, List.takeWhile_cons_of_pos rfl] at hmem
        exact hmem (List.mem_append_right _ List.mem_cons_self)
    refine ⟨front ++ [']'], by rw [hread, List.append_assoc, List.singleton_append], ?_, .inr ?_⟩
    · rw [ClosedBelow, ← hbelow, List.mem_append, List.mem_singleton]
      simp
    · rw [List.getLast?_concat]
  · have hread : (bracketedDefault value).2 = value.dropWhile (· != '\n') := by
      rw [bracketedDefault, hnone, cutFirst?_of_not_mem hbracket]
    rw [hread]
    refine ⟨value.takeWhile (· != '\n'), List.takeWhile_append_dropWhile.symm, ?_, .inl fun c hc => ?_⟩
    · exact ⟨fun hmem => absurd hmem (not_mem_takeWhile_newline value), fun h => absurd h.1 hbracket⟩
    · have hstop := List.head?_dropWhile_not (fun c => c != '\n') value
      rw [hc] at hstop
      simpa using hstop

section

variable {name gap gap' : List Char}

/-- A name that is read whole leads to its default value. -/
theorem readOptionalName_whole (t : Tag) (hgap : IsGap gap) (hname : WrittenName name)
    (hwhole : IsReadWhole name) (hgap' : IsGap gap') (value : List Char) :
    (readOptionalName t (gap ++ (name ++ (gap' ++ '=' :: value)))).2 = (bracketedDefault value).2 := by
  have hsign : EndsName ('=' :: value) := by
    rintro c hc
    cases hc
    decide
  have hskip : skipBlanks (gap' ++ '=' :: value) = '=' :: value := by
    refine skipBlanks_gap hgap' fun c hc => ?_
    cases hc
    rfl
  rw [readOptionalName, hname.skipBlanks_gap hgap, valueName?_whole hname hwhole (hsign.append hgap'),
    Option.getD_some, hskip]
  rfl

/-- Where the reader of names stops within the name no default value is read. -/
theorem readOptionalName_cut (t : Tag) (hgap : IsGap gap) (hname : WrittenName name)
    (hcut : ¬ IsReadWhole name) (rest : List Char) :
    (readOptionalName t (gap ++ (name ++ rest))).2 = name.dropWhile (· != '.') ++ rest := by
  obtain ⟨cs, left, -, -, -, hleft⟩ := hname.exists_of_cut hcut
  rw [readOptionalName, hname.skipBlanks_gap hgap, valueName?_cut hname hcut, Option.getD_some, hleft]
  rfl

end

/-- A tag leaves what the reader of a name in square brackets leaves. -/
theorem TagPlace.rest_bracket {source : SourceKind} {text : List Char} (p : TagPlace source text)
    (hshape : p.segment.tag.kind.shape = .typed) {leading inner : List Char}
    (hleading : LeadsName leading) (harguments : p.arguments = leading ++ '[' :: inner) :
    ∃ t, p.rest = (readOptionalName t inner).2 := by
  obtain ⟨t, hread⟩ := readTag_bracket hshape hleading inner
  rw [← harguments, p.readTag_arguments] at hread
  exact ⟨t, congrArg Prod.snd hread⟩

namespace OpensDefault

variable {source : SourceKind} {text : List Char} {p : TagPlace source text}
  {name opening value : List Char}

theorem newline (h : OpensDefault name opening) : '\n' ∉ opening := by
  obtain ⟨leading, gap, gap', hleading, hgap, hname, hgap', rfl⟩ := h
  have hline : '\n' ∉ name := fun hmem => by
    rcases hname.char hmem with h | h
    · cases h
    · cases h
  simp [hleading.newline, hgap.newline, hline, hgap'.newline]

/-- A tag whose name is read whole leaves what its default value leaves. -/
theorem rest_whole (h : OpensDefault name opening) (hshape : p.segment.tag.kind.shape = .typed)
    (harguments : p.arguments = opening ++ value) (hwhole : IsReadWhole name) :
    p.rest = (bracketedDefault value).2 := by
  obtain ⟨leading, gap, gap', hleading, hgap, hname, hgap', rfl⟩ := h
  have hshape' : p.arguments = leading ++ '[' :: (gap ++ (name ++ (gap' ++ '=' :: value))) := by
    rw [harguments]
    simp
  obtain ⟨t, hrest⟩ := p.rest_bracket hshape hleading hshape'
  rw [hrest, readOptionalName_whole t hgap hname hwhole hgap']

/-- A tag whose name is not read whole ends within the name. -/
theorem rest_cut (h : OpensDefault name opening) (hshape : p.segment.tag.kind.shape = .typed)
    (harguments : p.arguments = opening ++ value) (hcut : ¬ IsReadWhole name) :
    ∃ taken left c, opening = taken ++ c :: left ∧ isBlank c = false ∧ p.rest = left ++ value := by
  obtain ⟨leading, gap, gap', hleading, hgap, hname, hgap', rfl⟩ := h
  have hshape' : p.arguments = leading ++ '[' :: (gap ++ (name ++ (gap' ++ '=' :: value))) := by
    rw [harguments]
    simp
  obtain ⟨t, hrest⟩ := p.rest_bracket hshape hleading hshape'
  rw [readOptionalName_cut t hgap hname hcut] at hrest
  obtain ⟨cs, left, rfl, hcs, -, hdrop⟩ := hname.exists_of_cut hcut
  obtain ⟨front, c, hfront⟩ : ∃ front c, '$' :: cs = front ++ [c] :=
    ⟨_, _, (List.dropLast_append_getLast (List.cons_ne_nil '$' cs)).symm⟩
  have hc : isBlank c = false := by
    have hmem : c ∈ '$' :: cs := hfront ▸ List.mem_append_right front List.mem_cons_self
    rcases List.mem_cons.1 hmem with rfl | hmem
    · rfl
    · exact not_isBlank_of_isHyphenNameChar (hcs c hmem)
  have hsplit : '$' :: (cs ++ '.' :: left) = front ++ c :: '.' :: left := by
    rw [← List.cons_append, hfront, List.append_assoc, List.singleton_append]
  refine ⟨leading ++ '[' :: (gap ++ front), '.' :: (left ++ (gap' ++ ['='])), c, ?_, hc, ?_⟩
  · rw [hsplit]
    simp
  · rw [hrest, hdrop]
    simp

theorem head_whole (h : OpensDefault name opening) (hshape : p.segment.tag.kind.shape = .typed)
    (harguments : p.arguments = opening ++ value) (hopen : ¬ ClosedDefault value)
    (hwhole : IsReadWhole name) :
    ('\n' ∈ p.segment.head ↔ ClosedBelow value) ∧
      (AtLineEnd p.rest ∨ ∀ c ∈ p.segment.head.getLast?, isBlank c = false) := by
  obtain ⟨eaten, hvalue, hline, hend⟩ := bracketedDefault_open hopen
  rw [← h.rest_whole hshape harguments hwhole] at hvalue hend
  have htaken : p.arguments = (opening ++ eaten) ++ p.rest := by
    rw [harguments, List.append_assoc, ← hvalue]
  obtain ⟨word, hhead, hword⟩ := p.head_eq htaken
  refine ⟨?_, hend.imp_right fun hlast c hc => ?_⟩
  · rw [← hline, hhead]
    simp [hword, h.newline]
  · have hne : eaten ≠ [] := by
      rintro rfl
      cases hlast
    rw [hhead, ← List.append_assoc, ← List.cons_append, List.getLast?_append_of_ne_nil _ hne, hlast] at hc
    cases hc
    rfl

theorem head_cut (h : OpensDefault name opening) (hshape : p.segment.tag.kind.shape = .typed)
    (harguments : p.arguments = opening ++ value) (hcut : ¬ IsReadWhole name) :
    '\n' ∉ p.segment.head ∧ ∀ c ∈ p.segment.head.getLast?, isBlank c = false := by
  obtain ⟨front, left, c, hopening, hc, hrest⟩ := h.rest_cut hshape harguments hcut
  rw [← List.singleton_append, ← List.append_assoc] at hopening
  have hline : '\n' ∉ front ++ [c] := fun hmem =>
    h.newline (hopening ▸ List.mem_append_left left hmem)
  have htaken : p.arguments = (front ++ [c]) ++ p.rest := by
    rw [harguments, hopening, hrest, List.append_assoc]
  obtain ⟨word, hhead, hword⟩ := p.head_eq htaken
  refine ⟨?_, fun d hd => ?_⟩
  · rw [hhead, List.mem_cons, List.mem_append, not_or, not_or]
    exact ⟨by decide, hword, hline⟩
  · rw [hhead, ← List.append_assoc, ← List.cons_append, List.getLast?_concat] at hd
    cases hd
    exact hc

end OpensDefault

/-- The tag of a malformed default value leaves its line if and only if its name is read whole and the
next closing square bracket stands on a later line.  If it stays, the text behind it is read
as if any other phrase stood in the place of the tag, and the next lines as a text of their own. -/
theorem stays_on_line_iff {source : SourceKind} {text : List Char} (p : TagPlace source text)
    {name opening value : List Char} (hshape : p.segment.tag.kind.shape = .typed)
    (hopens : OpensDefault name opening) (harguments : p.arguments = opening ++ value)
    (hopen : ¬ ClosedDefault value) :
    ('\n' ∈ p.segment.head ↔ IsReadWhole name ∧ ClosedBelow value) ∧
      ('\n' ∉ p.segment.head →
        (∀ phrase, IsPhrase phrase → '@' ∉ phrase →
          (segments source p.before.reverse (phrase ++ p.rest)).lead = phrase ++ p.segment.text ∧
          (segments source p.before.reverse (phrase ++ p.rest)).tagged = p.later) ∧
        ∀ line next, p.rest = line ++ '\n' :: next → '@' ∉ line →
          p.later = (segments source [] next).tagged) := by
  have hhead : ('\n' ∈ p.segment.head ↔ IsReadWhole name ∧ ClosedBelow value) ∧
      (AtLineEnd p.rest ∨ ∀ c ∈ p.segment.head.getLast?, isBlank c = false) := by
    by_cases hwhole : IsReadWhole name
    · obtain ⟨hline, hend⟩ := hopens.head_whole hshape harguments hopen hwhole
      exact ⟨hline.trans (and_iff_right hwhole).symm, hend⟩
    · obtain ⟨hline, hlast⟩ := hopens.head_cut hshape harguments hwhole
      exact ⟨⟨fun h => absurd h hline, fun h => absurd h.1 hwhole⟩, .inr hlast⟩
  refine ⟨hhead.1, fun hline => ⟨fun phrase hphrase htagless => ?_, fun line next hrest htagless => ?_⟩⟩
  · exact p.segments_replaced hphrase htagless hline hhead.2
  · exact p.later_of_nextLine hrest htagless

/-! ### An object whose brace is forgotten -/

def sizeOpening : List Char := " \x7bObject\x7d [size=".toList

theorem opensDefault_size : OpensDefault "size".toList sizeOpening := by
  have htype : Braced "Object".toList := by
    refine .char ?_ ?_ (.char ?_ ?_ (.char ?_ ?_ (.char ?_ ?_ (.char ?_ ?_ (.char ?_ ?_ .nil))))) <;> decide
  have hgap : IsGap [' '] := List.forall_mem_singleton.2 rfl
  have hnil : IsGap [] := fun c hc => by cases hc
  exact ⟨_, [], [], .typed hgap htype (by decide) hgap, hnil,
    .chain (List.cons_ne_nil _ _) (List.forall_mem_singleton.2 isIdentifier_size), hnil, rfl⟩

def namesLine : List Char := "@param \x7bString[]\x7d names".toList

def namesSegment : Segment where
  tag := { kind := .param, name := some "names", type := some "String[]" }
  head := namesLine
  text := []

/-- The square bracket stands on the line, where the brace is due. -/
def bracketOnLine : List Char := "\x7bwidth: 1] The size.\n".toList ++ namesLine

def sizeOnLine : TagPlace .script ("@param".toList ++ sizeOpening ++ bracketOnLine) where
  earlier := []
  segment :=
    { tag :=
        { kind := .param
          name := some "size"
          type := some "Object"
          default := some "\x7bwidth: 1"
          isOptional := true }
      head := "@param".toList ++ sizeOpening ++ "\x7bwidth: 1]".toList
      text := " The size.\n".toList }
  later := [namesSegment]
  tagged := by decide +kernel

theorem sizeOnLine_stays :
    sizeOnLine.segment.tag.kind.shape = .typed ∧ OpensDefault "size".toList sizeOpening ∧
      sizeOnLine.arguments = sizeOpening ++ bracketOnLine ∧ ¬ ClosedDefault bracketOnLine ∧
      '\n' ∉ sizeOnLine.segment.head ∧
      sizeOnLine.later = (segments .script [] namesLine).tagged := by
  have harguments : sizeOnLine.arguments = sizeOpening ++ bracketOnLine := by decide +kernel
  have hopen : ¬ ClosedDefault bracketOnLine := by decide +kernel
  have hnotBelow : ¬ ClosedBelow bracketOnLine := by decide +kernel
  obtain ⟨hhead, hbehind⟩ := stays_on_line_iff sizeOnLine rfl opensDefault_size harguments hopen
  have hline : '\n' ∉ sizeOnLine.segment.head := fun h => hnotBelow (hhead.1 h).2
  have hrest : sizeOnLine.rest = " The size.".toList ++ '\n' :: namesLine := by decide +kernel
  exact ⟨rfl, opensDefault_size, harguments, hopen, hline, (hbehind hline).2 _ _ hrest (by decide)⟩

/-- No square bracket stands on the line, and the type on the next line has one. -/
def bracketBelow : List Char := "\x7bwidth: 1\n".toList ++ namesLine

def sizeBelow : TagPlace .script ("@param".toList ++ sizeOpening ++ bracketBelow) where
  earlier := []
  segment :=
    { tag :=
        { kind := .param
          name := some "size"
          type := some "Object"
          default := some "\x7bwidth: 1\n@param \x7bString["
          isOptional := true }
      head := "@param".toList ++ sizeOpening ++ "\x7bwidth: 1\n@param \x7bString[]".toList
      text := "\x7d names".toList }
  later := []
  tagged := by decide +kernel

/-- The value runs into the next line, and the tag there is lost. -/
theorem sizeBelow_takes_next_line :
    sizeBelow.segment.tag.kind.shape = .typed ∧ OpensDefault "size".toList sizeOpening ∧
      sizeBelow.arguments = sizeOpening ++ bracketBelow ∧ ¬ ClosedDefault bracketBelow ∧
      '\n' ∈ sizeBelow.segment.head ∧ sizeBelow.later = [] ∧
      (segments .script [] namesLine).tagged = [namesSegment] := by
  refine ⟨rfl, opensDefault_size, ?_, ?_, ?_, rfl, ?_⟩
  · decide +kernel
  · decide +kernel
  · decide +kernel
  · decide +kernel

end Comment
end ApiDoc
