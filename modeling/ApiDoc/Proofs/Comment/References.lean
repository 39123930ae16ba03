/-
References to members by their ids.

An id starts with a mark for static members and with the member's kind, and a reference is read as if
both were optional.  Names can hold dashes too, and can start with these words themselves.  Still what is
read of an id is what it was made of (`parse_reference`), since no kind is written with a dash and the
marks of an id are all there.
-/
import ApiDoc.Doc.Member
import ApiDoc.Proofs.Comment.ValueNames

namespace ApiDoc
namespace Comment

open Text

/-- A reference to a member as it is written: blanks, the class, which may be left out, and the id. -/
structure WrittenReference where
  className? : Option String
  member : Member
  gap : List Char := [' ']
  hasId : member.kind ≠ .classDef
  named : member.name ≠ ""
  nameChars : ∀ c ∈ member.name.toList, isHyphenNameChar c = true
  classNamed : ∀ name ∈ className?, name ≠ ""
  classChars : ∀ name ∈ className?, ∀ c ∈ name.toList, isReferenceClassChar c = true
  gapBlank : IsGap gap
  gapNonempty : gap ≠ []

theorem freeOfTags_of_not_mem {source : SourceKind} {before text after : List Char} (h : '@' ∉ text) :
    FreeOfTags source before text after := fun a _ hab =>
  absurd (hab ▸ List.mem_append_right a List.mem_cons_self) h

/-- A mark is read where it stands, as no kind starts like it. -/
theorem readStaticMark_memberId (isStatic : Bool) (kind : EntityKind) (name : String)
    (rest : List Char) :
    readStaticMark ((memberId isStatic kind name).toList ++ rest) =
      (isStatic, kind.word.toList ++ '-' :: (name.toList ++ rest)) := by
  have hshape : (kind.word.toList ++ '-' :: name.toList) ++ rest =
      kind.word.toList ++ '-' :: (name.toList ++ rest) := by
    rw [List.append_assoc, List.cons_append]
  rw [toList_memberId, ← hshape]
  cases isStatic with
  | true => rfl
  | false =>
    have hnone : dropText? "static-".toList ((kind.word.toList ++ '-' :: name.toList) ++ rest) = none := by
      cases kind <;> rfl
    rw [if_neg Bool.false_ne_true, readStaticMark, hnone]

theorem readKindMark_word {kind : EntityKind} (h : kind ≠ .classDef) (rest : List Char) :
    readKindMark (kind.word.toList ++ '-' :: rest) = (some kind, rest) := by
  have hword : ∀ c ∈ kind.word.toList, isKindChar c = true := by
    cases kind <;> exact List.all_eq_true.1 rfl
  have hdash : ∀ c ∈ ('-' :: rest).head?, isKindChar c = false := by
    rintro c hc
    cases hc
    rfl
  rw [readKindMark, takeWhile_append_stop hword hdash, dropWhile_append_stop hword hdash,
    String.ofList_toList, EntityKind.ofMemberWord?_word h]
  rfl

theorem nonempty?_toList {s : String} (h : s ≠ "") : nonempty? s.toList = some s := by
  have hne : s.toList ≠ [] := fun hnil => h (String.toList_inj.1 hnil)
  rw [nonempty?, if_neg (by simpa using hne), String.ofList_toList]

/-- The text of a class name is read as the name, and no text as none. -/
theorem nonempty?_className {className? : Option String} (h : ∀ name ∈ className?, name ≠ "") :
    nonempty? (className?.getD "").toList = className? := by
  cases className? with
  | none => rfl
  | some name => exact nonempty?_toList (h name rfl)

theorem not_isBlank_of_isReferenceClassChar {c : Char} (h : isReferenceClassChar c = true) :
    (c == ' ' || c == '\t') = false := by
  cases hblank : c == ' ' || c == '\t' with
  | false => rfl
  | true =>
    rw [Bool.or_eq_true, beq_iff_eq, beq_iff_eq] at hblank
    rcases hblank with rfl | rfl
    · exact absurd h (by decide)
    · exact absurd h (by decide)

namespace WrittenReference

variable (p : WrittenReference)

/-- What follows the word of the tag. -/
def arguments : List Char :=
  p.gap ++ ((p.className?.getD "").toList ++ '#' :: p.member.currentId.toList)

def head : List Char := '@' :: ("inheritdoc".toList ++ p.arguments)

/-- What the reference means. -/
def target : InheritRef :=
  { className := p.className?, memberName := some p.member.name, kind := some p.member.kind
    isStatic := p.member.isStatic }

def tagRead : Tag := { kind := .inheritdoc, inheritdoc := some p.target }

theorem isReferenceClassChar_of_mem : ∀ c ∈ (p.className?.getD "").toList,
    isReferenceClassChar c = true := by
  cases h : p.className? with
  | none => exact fun c hc => absurd hc List.not_mem_nil
  | some name => exact p.classChars name h

theorem skipBlanks_arguments (rest : List Char) :
    skipBlanks (p.arguments ++ rest) =
      (p.className?.getD "").toList ++ '#' :: (p.member.currentId.toList ++ rest) := by
  have hshape : p.arguments ++ rest =
      p.gap ++ ((p.className?.getD "").toList ++ '#' :: (p.member.currentId.toList ++ rest)) := by
    simp [arguments]
  rw [hshape]
  refine skipBlanks_gap p.gapBlank fun c hc => ?_
  cases hfront : (p.className?.getD "").toList with
  | nil =>
    rw [hfront] at hc
    cases hc
    rfl
  | cons d front =>
    rw [hfront] at hc
    cases hc
    exact not_isBlank_of_isReferenceClassChar
      (p.isReferenceClassChar_of_mem _ (hfront ▸ List.mem_cons_self))

/-- What is read of a reference is what it was written for. -/
theorem readReference_arguments {rest : List Char} (h : ∀ c ∈ rest.head?, isHyphenNameChar c = false) :
    readReference (p.arguments ++ rest) = (p.target, rest) := by
  have hhash : ∀ c ∈ ('#' :: (p.member.currentId.toList ++ rest)).head?,
      isReferenceClassChar c = false := by
    rintro c hc
    cases hc
    rfl
  rw [readReference, p.skipBlanks_arguments, takeWhile_append_stop p.isReferenceClassChar_of_mem hhash,
    dropWhile_append_stop p.isReferenceClassChar_of_mem hhash, nonempty?_className p.classNamed]
  simp only [Member.currentId, readStaticMark_memberId, readKindMark_word p.hasId,
    takeWhile_append_stop p.nameChars h, dropWhile_append_stop p.nameChars h, nonempty?_toList p.named]
  rfl

theorem head?_arguments (rest : List Char) :
    ∀ c ∈ (p.arguments ++ rest).head?, isHyphenNameChar c = false := by
  obtain ⟨d, gap, hgap⟩ := List.exists_cons_of_ne_nil p.gapNonempty
  have hblank := p.gapBlank d (hgap ▸ List.mem_cons_self)
  rw [arguments, hgap]
  rintro c hc
  cases hc
  rw [Bool.or_eq_true, beq_iff_eq, beq_iff_eq] at hblank
  rcases hblank with rfl | rfl
  · decide
  · decide

/-- Where a tag can start a reference is read as its tag, and the text runs on behind it. -/
theorem segments_head {source : SourceKind} {lead rest : List Char}
    (hword : ∀ c ∈ lead.getLast?, isBlank c = true) (hindent : ¬ Indented lead)
    (hend : ∀ c ∈ rest.head?, isHyphenNameChar c = false) :
    segments source lead.reverse (p.head ++ rest) =
      { segments source (p.head.reverse ++ lead.reverse) rest with
        lead := []
        tagged :=
          ⟨p.tagRead, p.head, (segments source (p.head.reverse ++ lead.reverse) rest).lead⟩ ::
            (segments source (p.head.reverse ++ lead.reverse) rest).tagged } := by
  have hletters : ∀ c ∈ "inheritdoc".toList, isHyphenNameChar c = true := List.all_eq_true.1 rfl
  have hshape : '@' :: ("inheritdoc".toList ++ (p.arguments ++ rest)) = p.head ++ rest := by
    simp [head]
  have hstart : StartsTag source lead.reverse.reverse ("inheritdoc".toList ++ (p.arguments ++ rest))
      .inheritdoc := by
    rw [List.reverse_reverse]
    refine ⟨⟨hword, hindent, rfl⟩, ?_⟩
    rw [wordAt, takeWhile_append_stop hletters (p.head?_arguments rest)]
    cases source <;> rfl
  have hread : readTag .inheritdoc
      (("inheritdoc".toList ++ (p.arguments ++ rest)).dropWhile isHyphenNameChar) =
        (p.tagRead, rest) := by
    rw [dropWhile_append_stop hletters (p.head?_arguments rest)]
    show (({ kind := .inheritdoc, inheritdoc := some _ } : Tag), _) = _
    rw [p.readReference_arguments hend]
    rfl
  have hsegments := segments_atTag hstart hread hshape
  rwa [hshape] at hsegments

theorem tags_segment (text : List Char) :
    Segment.tags ⟨p.tagRead, p.head, text⟩ =
      p.tagRead :: (if isBlankText text then [] else [docTag text]) := by
  show (if isBlankText text then [p.tagRead] else [p.tagRead, docTag text]) = _
  split
  · rfl
  · rfl

end WrittenReference

/-- A comment has no tag but a reference to a member, which stands where a tag can start and is not
continued by what follows.  Its tags are the text before, a reference to the class that is written, if
there is one, and to the member's name, kind and mark, and the text behind, unless that is blank. -/
theorem parse_reference (p : WrittenReference) {source : SourceKind} {comment : String}
    {lead rest : List Char} (hcomment : undecorate? comment.toList = some (lead ++ (p.head ++ rest)))
    (hword : ∀ c ∈ lead.getLast?, isBlank c = true) (hindent : ¬ Indented lead)
    (hend : ∀ c ∈ rest.head?, isHyphenNameChar c = false)
    (hlead : FreeOfTags source [] lead (p.head ++ rest))
    (hrest : FreeOfTags source (lead ++ p.head) rest []) :
    ∃ parsed, parse source comment = .ok parsed ∧
      parsed.tags = docTag lead ::
        { kind := .inheritdoc
          inheritdoc := some
            { className := p.className?, memberName := some p.member.name
              kind := some p.member.kind, isStatic := p.member.isStatic } } ::
          (if isBlankText rest then [] else [docTag rest]) := by
  refine ⟨ofPlain source _, by rw [parse, hcomment], ?_⟩
  have hfree : FreeOfTags source [].reverse lead (p.head ++ rest) := hlead
  have hfree' : FreeOfTags source (p.head.reverse ++ lead.reverse).reverse rest [] := by
    rwa [← List.reverse_append, List.reverse_reverse]
  obtain ⟨hfront, htagged⟩ := hfree.segments
  obtain ⟨htext, hlater⟩ := hfree'.segments
  rw [List.append_nil] at hfront htagged htext hlater
  rw [p.segments_head hword hindent hend] at hfront htagged
  rw [segments, List.append_nil] at htext
  rw [segments] at hlater
  rw [htext, hlater] at htagged
  rw [ofPlain, Segments.tags, hfront, htagged, List.append_nil]
  show docTag lead :: (Segment.tags ⟨p.tagRead, p.head, rest⟩ ++ []) = _
  rw [List.append_nil, p.tags_segment]
  rfl

/-- A static variable of a style sheet, whose name starts like the id of a config. -/
def gapReference : WrittenReference where
  className? := some "Ext.Theme"
  member := { Member.ofName .styleVar "cfg-$gap" with isStatic := true }
  gap := [' ']
  hasId := by decide
  named := by decide
  nameChars := List.all_eq_true.1 rfl
  classNamed := by decide
  classChars := by
    rintro name hname
    cases hname
    exact List.all_eq_true.1 rfl
  gapBlank := List.forall_mem_singleton.2 rfl
  gapNonempty := by decide

theorem parse_gapReference :
    undecorate? "* Like it.\n * @inheritdoc Ext.Theme#static-css_var-cfg-$gap\n * Or more.".toList =
        some ("Like it.\n".toList ++ (gapReference.head ++ "\nOr more.".toList)) ∧
      ∃ parsed, parse .script
          "* Like it.\n * @inheritdoc Ext.Theme#static-css_var-cfg-$gap\n * Or more." = .ok parsed ∧
        parsed.tags = [docTag "Like it.\n".toList,
          { kind := .inheritdoc
            inheritdoc := some
              { className := some "Ext.Theme", memberName := some "cfg-$gap", kind := some .styleVar
                isStatic := true } },
          docTag "\nOr more.".toList] := by
  have hcomment : undecorate?
      "* Like it.\n * @inheritdoc Ext.Theme#static-css_var-cfg-$gap\n * Or more.".toList =
        some ("Like it.\n".toList ++ (gapReference.head ++ "\nOr more.".toList)) := by decide +kernel
  have hword : ∀ c ∈ "Like it.\n".toList.getLast?, isBlank c = true := by
    rintro c hc
    cases hc
    rfl
  have hend : ∀ c ∈ "\nOr more.".toList.head?, isHyphenNameChar c = false := by
    rintro c hc
    cases hc
    rfl
  exact ⟨hcomment, parse_reference gapReference hcomment hword
    ((indentBefore_lt_four_iff _).1 (by decide)) hend (freeOfTags_of_not_mem (by decide))
    (freeOfTags_of_not_mem (by decide))⟩

end Comment
end ApiDoc
