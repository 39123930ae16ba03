/-
Parameters as they are written in comments.

A parameter is written on one line: its type in braces, its name, in square brackets if it is optional,
perhaps with a default value, and a text.  No part steals a character from the next one, so the comment
made of such lines is read as the parameters it was written from (`parse_paramComment`).
-/
import ApiDoc.Proofs.Comment.Decoration
import ApiDoc.Proofs.Comment.ValueNames

namespace ApiDoc
namespace Comment

open Text TypeSyntax

/-! ### What is written -/

structure DefaultText where
  text : List Char
  balanced : Balanced text
  nonempty : text ≠ [] := by decide
  trimmed : trim text = text := by decide
  line : '\n' ∉ text := by decide

inductive ParamForm where
  | plain
  | optional
  | withDefault (value : DefaultText)

/-- A text that is read neither as a default value nor as a remark if it follows a plain name. -/
structure FollowsName (doc : List Char) : Prop where
  value : doc.head? ≠ some '='
  required : ¬ "(required)".toList <+: asciiLowercase doc
  optional : ∀ word ∈ ["(optional)", "(Optional)"], ¬ word.toList <+: doc

structure WrittenParam where
  type : List Char
  parts : List (List Char)
  form : ParamForm
  doc : List Char
  typeBraced : Braced type
  identifiers : ∀ p ∈ parts, IsIdentifier p
  docFollows : form = .plain → FollowsName doc
  typeTrimmed : trim type = type := by decide
  typeLine : '\n' ∉ type := by decide
  typeEnd : type.getLast? ≠ some '=' := by decide
  nonempty : parts ≠ [] := by decide
  nameStart : (joinWith ['.'] parts).head? ≠ some '$' := by decide
  docTrimmed : trim doc = doc := by decide
  docLine : '\n' ∉ doc := by decide
  docTagless : '@' ∉ doc := by decide

namespace ParamForm

def isOptional : ParamForm → Bool
  | .plain => false
  | _ => true

def default? : ParamForm → Option String
  | .withDefault value => some (String.ofList value.text)
  | _ => none

/-- A name as it is written in this form. -/
def write (name : List Char) : ParamForm → List Char
  | .plain => name
  | .optional => '[' :: (name ++ [']'])
  | .withDefault value => '[' :: (name ++ '=' :: (value.text ++ [']']))

end ParamForm

namespace WrittenParam

def name (p : WrittenParam) : List Char := joinWith ['.'] p.parts

/-- What is written after the word of the tag. -/
def arguments (p : WrittenParam) : List Char :=
  ' ' :: '{' :: (p.type ++ '}' :: ' ' :: p.form.write p.name)

def line (p : WrittenParam) : List Char :=
  '@' :: ("param".toList ++ (p.arguments ++ ' ' :: p.doc))

/-- The tag without its text. -/
def tagRead (p : WrittenParam) : Tag :=
  { kind := .param
    name := some (String.ofList p.name)
    type := some (String.ofList p.type)
    default := p.form.default?
    isOptional := p.form.isOptional }

def tag (p : WrittenParam) : Tag := { p.tagRead with doc := String.ofList p.doc }

end WrittenParam

/-- A comment with a line for each parameter. -/
def paramComment (params : List WrittenParam) : List Char :=
  joinWith ['\n'] (params.map WrittenParam.line)

/-! ### Reading a line -/

/-- The text ends, or its line does. -/
def AtLineEnd (rest : List Char) : Prop := ∀ c ∈ rest.head?, c = '\n'

theorem not_space_of_not_isBlank {c : Char} (h : isBlank c = false) : (c == ' ' || c == '\t') = false := by
  rw [← Bool.not_eq_true, Bool.or_eq_true, beq_iff_eq, beq_iff_eq]
  rintro (rfl | rfl)
  · cases h
  · cases h

theorem endsWord_cons {c : Char} {cs : List Char} (hc : isNameChar c = false) (hdot : c ≠ '.') :
    EndsWord (c :: cs) :=
  ⟨hc, fun _ h => absurd (List.cons.inj h).1 hdot⟩

theorem prefix_of_atLineEnd {word doc rest : List Char} (h : word <+: doc ++ rest)
    (hrest : AtLineEnd rest) (hline : '\n' ∉ word) : word <+: doc := by
  obtain ⟨after, hafter⟩ := h
  obtain ⟨between, hdoc, -⟩ | ⟨beyond, rfl, hbeyond⟩ := List.append_eq_append_iff.1 hafter
  · exact ⟨between, hdoc.symm⟩
  · cases beyond with
    | nil => simp
    | cons c beyond =>
      have hc : c = '\n' := hrest c (by rw [hbeyond]; rfl)
      exact absurd (List.mem_append_right doc (hc ▸ List.mem_cons_self)) hline

/-- A text behind a plain name is left for the documentation. -/
theorem readNameTail_of_followsName {t : Tag} {name doc rest : List Char} (hdoc : FollowsName doc)
    (htrimmed : trim doc = doc) (hrest : AtLineEnd rest) :
    readNameTail t name (' ' :: (doc ++ rest)) = (t, ' ' :: (doc ++ rest)) := by
  have hskip : skipBlanks (' ' :: (doc ++ rest)) = doc ++ rest := by
    rw [skipBlanks, List.dropWhile_cons_of_pos rfl]
    refine skipBlanks_of_head fun c hc => ?_
    cases hhead : doc.head? with
    | some d =>
      rw [List.head?_append, hhead] at hc
      cases hc
      exact not_space_of_not_isBlank (isBlank_of_head_trim htrimmed _ hhead)
    | none =>
      rw [List.head?_append, hhead] at hc
      rw [hrest c hc]
      decide
  -- A remark holds no line break, so it cannot reach beyond the text into the next line.
  have hword : ∀ word : List Char, word <+: doc ++ rest → '\n' ∉ word → word <+: doc :=
    fun word h hline => prefix_of_atLineEnd h hrest hline
  have hrequired : asciiLowercase ((doc ++ rest).take 10) ≠ "(required)".toList := by
    intro heq
    refine hdoc.required (heq ▸ (hword _ (List.take_prefix 10 _) fun hmem => ?_).map _)
    have hsmall : '\n' ∈ asciiLowercase ((doc ++ rest).take 10) := List.mem_map.2 ⟨'\n', hmem, rfl⟩
    rw [heq] at hsmall
    exact absurd hsmall (by decide)
  have hoptional : ∀ word ∈ ["(optional)", "(Optional)"], (doc ++ rest).take 10 ≠ word.toList := by
    have hline : ∀ word ∈ ["(optional)", "(Optional)"], '\n' ∉ word.toList := by decide
    intro word hmem heq
    exact hdoc.optional word hmem (hword _ (heq ▸ List.take_prefix 10 _) (hline word hmem))
  unfold readNameTail
  rw [hskip]
  split
  · next value heq =>
    cases doc with
    | nil => exact absurd (hrest '=' (by rw [show rest = _ from heq]; rfl)) (by decide)
    | cons c doc => exact absurd (congrArg some (List.cons.inj heq).1) hdoc.value
  · rw [if_neg (by simpa using hrequired), if_neg]
    simpa using ⟨hoptional "(optional)" (by simp), hoptional "(Optional)" (by simp)⟩

namespace WrittenParam

variable (p : WrittenParam)

theorem name_eq_cons : ∃ c cs, p.name = c :: cs ∧ isNameChar c = true :=
  joinWith_eq_cons p.nonempty p.identifiers

theorem valueName?_name {rest : List Char} (h : EndsWord rest) :
    valueName? (p.name ++ rest) = some (p.name, rest) :=
  valueName?_chain p.nonempty p.identifiers p.nameStart h

theorem head_name_append (rest : List Char) :
    ∀ c ∈ (p.name ++ rest).head?, isBlank c = false ∧ c ≠ '[' := by
  obtain ⟨d, cs, hname, hd⟩ := p.name_eq_cons
  rw [hname]
  rintro c hc
  cases hc
  refine ⟨?_, ?_⟩
  · rw [← Bool.not_eq_true]
    intro hblank
    rw [isNameChar_of_isBlank hblank] at hd
    cases hd
  · rintro rfl
    cases hd

theorem readBracedType_type (rest : List Char) :
    readBracedType (' ' :: '{' :: (p.type ++ '}' :: rest)) = (some p.type, rest) := by
  have hgap : IsGap [' '] := List.forall_mem_singleton.2 rfl
  have hread := readBracedType_braced hgap p.typeBraced p.typeLine rest
  rwa [p.typeTrimmed] at hread

theorem skipBlanks_write (rest : List Char) :
    skipBlanks (' ' :: (p.form.write p.name ++ rest)) = p.form.write p.name ++ rest := by
  rw [skipBlanks, List.dropWhile_cons_of_pos rfl]
  refine skipBlanks_of_head fun c hc => ?_
  cases hform : p.form with
  | plain =>
    rw [hform] at hc
    exact not_space_of_not_isBlank (p.head_name_append rest c hc).1
  | optional =>
    rw [hform] at hc
    cases hc
    decide
  | withDefault value =>
    rw [hform] at hc
    cases hc
    decide

theorem skipBlanks_name (rest : List Char) : skipBlanks (p.name ++ rest) = p.name ++ rest :=
  skipBlanks_of_head fun c hc => not_space_of_not_isBlank (p.head_name_append rest c hc).1

theorem readOptionalName_close (t : Tag) (rest : List Char) :
    readOptionalName t (p.name ++ ']' :: rest) =
      ({ t with name := some (String.ofList p.name), isOptional := true }, rest) := by
  rw [readOptionalName, p.skipBlanks_name, p.valueName?_name (endsWord_cons (by decide) (by decide))]
  rfl

theorem readOptionalName_value (t : Tag) (value : DefaultText) (rest : List Char) :
    readOptionalName t (p.name ++ '=' :: (value.text ++ ']' :: rest)) =
      ({ t with
          name := some (String.ofList p.name)
          default := some (String.ofList value.text)
          isOptional := true }, rest) := by
  have hvalue : bracketedDefault (value.text ++ ']' :: rest) = (value.text, rest) := by
    rw [bracketedDefault_close value.balanced, value.trimmed]
  have hdefault : nonempty? value.text = some (String.ofList value.text) := by
    rw [nonempty?, if_neg (by simpa using value.nonempty)]
  have hskip : skipBlanks ('=' :: (value.text ++ ']' :: rest)) =
      '=' :: (value.text ++ ']' :: rest) := rfl
  rw [readOptionalName, p.skipBlanks_name, p.valueName?_name (endsWord_cons (by decide) (by decide)),
    Option.getD_some, hskip]
  simp only [hvalue, hdefault]

/-- The name is read with what its form adds, and what follows is left. -/
theorem readTypedName_write {rest : List Char} (hrest : AtLineEnd rest) :
    readTypedName { kind := .param, type := some (String.ofList p.type) }
        (p.form.write p.name ++ ' ' :: (p.doc ++ rest)) =
      (p.tagRead, ' ' :: (p.doc ++ rest)) := by
  rw [tagRead]
  cases hform : p.form with
  | plain =>
    have hread : ∀ t name, readNameTail t name (' ' :: (p.doc ++ rest)) = (t, ' ' :: (p.doc ++ rest)) :=
      fun _ _ => readNameTail_of_followsName (p.docFollows hform) p.docTrimmed hrest
    have hends : EndsWord (' ' :: (p.doc ++ rest)) := endsWord_cons (by decide) (by decide)
    have hname := p.valueName?_name hends
    have hbracket := p.head_name_append (' ' :: (p.doc ++ rest))
    show readTypedName _ (p.name ++ ' ' :: (p.doc ++ rest)) = _
    unfold readTypedName
    split
    · next inner heq =>
      rw [heq] at hbracket
      exact absurd rfl (hbracket '[' rfl).2
    · rw [hname]
      exact hread _ _
  | optional =>
    have hshape : ParamForm.optional.write p.name ++ ' ' :: (p.doc ++ rest) =
        '[' :: (p.name ++ ']' :: ' ' :: (p.doc ++ rest)) := by simp [ParamForm.write]
    rw [hshape, readTypedName, p.readOptionalName_close]
    rfl
  | withDefault value =>
    have hshape : (ParamForm.withDefault value).write p.name ++ ' ' :: (p.doc ++ rest) =
        '[' :: (p.name ++ '=' :: (value.text ++ ']' :: ' ' :: (p.doc ++ rest))) := by
      simp [ParamForm.write]
    rw [hshape, readTypedName, p.readOptionalName_value]
    rfl

theorem readTag_line {rest : List Char} (hrest : AtLineEnd rest) :
    readTag .param (p.arguments ++ ' ' :: (p.doc ++ rest)) = (p.tagRead, ' ' :: (p.doc ++ rest)) := by
  have htyped : Tag.withValueType { kind := .param } (some p.type) =
      { kind := .param, type := some (String.ofList p.type) } := by
    rw [Tag.withValueType, if_neg (by simpa using p.typeEnd)]
  have hshape : p.arguments ++ ' ' :: (p.doc ++ rest) = ' ' :: '{' :: (p.type ++ '}' ::
      (' ' :: (p.form.write p.name ++ ' ' :: (p.doc ++ rest)))) := by simp [arguments]
  show readTyped { kind := .param } _ = _
  rw [hshape, readTyped, p.readBracedType_type, htyped, p.skipBlanks_write,
    p.readTypedName_write hrest]

end WrittenParam

/-! ### Reading a comment -/

theorem segments_of_tagless {source : SourceKind} {text : List Char} (h : '@' ∉ text)
    (before rest : List Char) :
    segments source before (text ++ rest) =
      { segments source (text.reverse ++ before) rest with
        lead := text ++ (segments source (text.reverse ++ before) rest).lead } := by
  induction text generalizing before with
  | nil => rfl
  | cons c text ih =>
    rw [List.mem_cons, not_or] at h
    have hc : (c == '@' && canStartTag before (text ++ rest)) = false := by
      rw [beq_eq_false_iff_ne.2 (Ne.symm h.1), Bool.false_and]
    rw [List.cons_append, segments]
    simp only [hc, Bool.false_eq_true, if_false, ih h.2, List.reverse_cons, List.append_assoc,
      List.cons_append, List.nil_append]

theorem segments_tag {source : SourceKind} {before cs : List Char} {kind : TagKind}
    (hstart : canStartTag before cs = true)
    (hkind : TagKind.ofSpelling? source (wordAt cs) = some kind) {tag : Tag} {rest : List Char}
    (hread : readTag kind (cs.dropWhile isHyphenNameChar) = (tag, rest)) :
    ∃ before' head, segments source before ('@' :: cs) =
      { segments source before' rest with
        lead := []
        tagged := { tag, head, text := (segments source before' rest).lead } ::
          (segments source before' rest).tagged } := by
  obtain ⟨head, hhead⟩ :=
    (hread ▸ readTag_suffix kind (cs.dropWhile isHyphenNameChar)).trans
      ((List.dropWhile_suffix isHyphenNameChar).trans (List.suffix_cons '@' cs))
  exact ⟨_, head, segments_atTag (startsTag_reverse_iff.2 ⟨hstart, hkind⟩) hread hhead.symm⟩

theorem canStartTag_of_lineStart {before after : List Char} (hbefore : AtLineEnd before)
    (hname : startsName after = true) : canStartTag before after = true := by
  cases before with
  | nil => exact hname
  | cons c before =>
    rw [hbefore c rfl]
    exact hname

/-- The line of a parameter is its tag, and the text runs on to the next tag. -/
theorem segments_line (p : WrittenParam) (source : SourceKind) {before rest : List Char}
    (hbefore : AtLineEnd before) (hrest : AtLineEnd rest) :
    ∃ before' head, segments source before (p.line ++ rest) =
      { segments source before' rest with
        lead := []
        tagged :=
          ⟨p.tagRead, head, ' ' :: p.doc ++ (segments source before' rest).lead⟩ ::
            (segments source before' rest).tagged } := by
  have hshape : p.line ++ rest =
      '@' :: ("param".toList ++ (p.arguments ++ ' ' :: (p.doc ++ rest))) := by
    simp [WrittenParam.line]
  have hword : wordAt ("param".toList ++ (p.arguments ++ ' ' :: (p.doc ++ rest))) = "param" := rfl
  have hafter : ("param".toList ++ (p.arguments ++ ' ' :: (p.doc ++ rest))).dropWhile
      isHyphenNameChar = p.arguments ++ ' ' :: (p.doc ++ rest) := rfl
  have hknown : TagKind.ofSpelling? source "param" = some .param := by cases source <;> rfl
  have htagless : '@' ∉ ' ' :: p.doc := by simpa using p.docTagless
  obtain ⟨before', head, hsegments⟩ := segments_tag
    (canStartTag_of_lineStart hbefore rfl) (hword ▸ hknown) (hafter ▸ p.readTag_line hrest)
  refine ⟨(' ' :: p.doc).reverse ++ before', head, ?_⟩
  rw [hshape, hsegments, ← List.cons_append, segments_of_tagless htagless]

theorem tags_of_line (p : WrittenParam) (head : List Char) {blanks : List Char}
    (h : ∀ c ∈ blanks, isBlank c = true) :
    Segment.tags ⟨p.tagRead, head, ' ' :: p.doc ++ blanks⟩ = [p.tag] := by
  have hspace : ∀ c ∈ [' '], isBlank c = true := List.forall_mem_singleton.2 rfl
  have hdoc : trim (' ' :: p.doc ++ blanks) = p.doc := by
    rw [trim_append_blanks h, ← List.singleton_append, trim_blanks_append hspace, p.docTrimmed]
  rw [Segment.tags, WrittenParam.tag, hdoc]
  rfl

theorem atLineEnd_lines (params : List WrittenParam) :
    AtLineEnd (params.flatMap fun p => '\n' :: p.line) := by
  cases params with
  | nil => exact fun c hc => by cases hc
  | cons p params => exact fun c hc => by cases hc; rfl

/-- Lines of parameters, each after a line break, are read as their tags, with nothing between. -/
theorem segments_lines (params : List WrittenParam) (source : SourceKind) (before : List Char) :
    let s := segments source before (params.flatMap fun p => '\n' :: p.line)
    (∀ c ∈ s.lead, isBlank c = true) ∧
      s.tagged.flatMap Segment.tags = params.map WrittenParam.tag ∧ s.unknown = [] := by
  induction params generalizing before with
  | nil =>
    rw [List.flatMap_nil, segments]
    exact ⟨fun c hc => (by cases hc), rfl, rfl⟩
  | cons p params ih =>
    have hbefore : AtLineEnd ('\n' :: before) := fun c hc => by cases hc; rfl
    obtain ⟨before', head, hline⟩ := segments_line p source hbefore (atLineEnd_lines params)
    obtain ⟨hblank, htags, hunknown⟩ := ih before'
    rw [List.flatMap_cons, List.cons_append, ← List.singleton_append,
      segments_of_tagless (by decide)]
    show _ ∧ _ ∧ _
    rw [show ['\n'].reverse ++ before = '\n' :: before from rfl, hline]
    refine ⟨fun c hc => ?_, ?_, hunknown⟩
    · obtain rfl := List.mem_singleton.1 hc
      decide
    · rw [List.flatMap_cons, tags_of_line p head hblank, htags]
      rfl

theorem ofPlain_paramComment (source : SourceKind) (params : List WrittenParam) :
    ofPlain source (paramComment params) =
      { tags := { kind := .doc } :: params.map WrittenParam.tag } := by
  cases params with
  | nil =>
    rw [ofPlain, show paramComment [] = [] from rfl, segments]
    rfl
  | cons p params =>
    have hbefore : AtLineEnd [] := fun c hc => by cases hc
    obtain ⟨before', head, hline⟩ := segments_line p source hbefore (atLineEnd_lines params)
    obtain ⟨hblank, htags, hunknown⟩ := segments_lines params source before'
    have hshape : paramComment (p :: params) = p.line ++ params.flatMap fun p => '\n' :: p.line := by
      rw [paramComment, List.map_cons, joinWith_newline_cons, List.flatMap_map]
    rw [ofPlain, hshape, hline, Segments.tags]
    simp only [List.flatMap_cons, tags_of_line p head hblank, htags, hunknown]
    rfl

/-! ### The lines of a comment -/

/-- A comment whose lines start with tags has no decoration. -/
theorem undecorate?_of_tagLines {ls : List (List Char)} (hat : ∀ l ∈ ls, l.head? = some '@')
    (hline : ∀ l ∈ ls, '\n' ∉ l) (hreturn : ∀ l ∈ ls, l.getLast? ≠ some '\r') :
    undecorate? (joinWith ['\n'] ls) = some (joinWith ['\n'] ls) := by
  have hne : ∀ l ∈ ls, l ≠ [] := by
    rintro l hl rfl
    cases hat [] hl
  have hstrip : ∀ l ∈ ls, stripStar l = l ∧ blankBytes l = 0 ∧ isBlankText l = false ∧
      startsWithStar l = false := by
    intro l hl
    obtain ⟨rest, rfl⟩ := List.head?_eq_some_iff.1 (hat l hl)
    exact ⟨rfl, rfl, rfl, rfl⟩
  have hmap : ls.map stripStar = ls := by
    rw [List.map_congr_left fun l hl => (hstrip l hl).1, List.map_id']
  have hindent : commonIndent ls = 0 := by
    cases ls with
    | nil => rfl
    | cons l ls =>
      obtain ⟨-, hbytes, hblank, -⟩ := hstrip l List.mem_cons_self
      rw [commonIndent, List.find?_cons_of_pos (by simp [hblank])]
      exact hbytes
  have hmapM : ls.mapM (stripIndent? 0) = some ls := by
    have hsome : stripIndent? 0 = some := by
      funext l
      rw [stripIndent?, Nat.min_zero, cutAtByte?]
      rfl
    rw [hsome]
    exact List.mapM_pure.trans (congrArg some (List.map_id' ls))
  rw [undecorate?, lines_joinWith (fun l hl => hne l (List.mem_of_getLast? hl)) hline hreturn]
  simp only [hmap, hindent, hmapM, Option.map_some, ite_self]

namespace WrittenParam

variable (p : WrittenParam)

theorem head?_line : p.line.head? = some '@' := rfl

theorem newline_not_mem_line : '\n' ∉ p.line := by
  have hname : '\n' ∉ p.name := by
    intro hmem
    rcases name_or_dot_of_mem p.identifiers hmem with h | h
    · cases h
    · cases h
  have hwrite : '\n' ∉ p.form.write p.name := by
    cases p.form with
    | plain => exact hname
    | optional => simp [ParamForm.write, hname]
    | withDefault value => simp [ParamForm.write, hname, value.line]
  simp [line, arguments, hwrite, p.typeLine, p.docLine]

theorem getLast?_line : p.line.getLast? ≠ some '\r' := by
  have hlast : ∀ c ∈ (' ' :: p.doc).getLast?, c ≠ '\r' := by
    rintro c hc rfl
    rw [List.getLast?_cons] at hc
    cases hdoc : p.doc.getLast? with
    | none =>
      rw [hdoc] at hc
      cases hc
    | some d =>
      rw [hdoc] at hc
      cases hc
      cases isBlank_of_getLast_trim p.docTrimmed _ hdoc
  have hshape : p.line = ('@' :: "param".toList ++ p.arguments) ++ ' ' :: p.doc := by simp [line]
  intro h
  rw [hshape, List.getLast?_append_of_ne_nil _ (List.cons_ne_nil _ _)] at h
  exact hlast _ h rfl

end WrittenParam

/-- A comment that is written as a list of parameters, each on a line of its own, is read as that list:
an empty leading text, then a tag for each parameter in order, and no unknown word. -/
theorem parse_paramComment (source : SourceKind) (params : List WrittenParam) :
    parse source (String.ofList (paramComment params)) =
      .ok { tags := { kind := .doc } :: params.map WrittenParam.tag } := by
  have hplain : undecorate? (paramComment params) = some (paramComment params) := by
    refine undecorate?_of_tagLines ?_ ?_ ?_
    · exact List.forall_mem_map.2 fun p _ => p.head?_line
    · exact List.forall_mem_map.2 fun p _ => p.newline_not_mem_line
    · exact List.forall_mem_map.2 fun p _ => p.getLast?_line
  rw [parse, String.toList_ofList, hplain]
  exact congrArg Except.ok (ofPlain_paramComment source params)

theorem isIdentifier_size : IsIdentifier "size".toList := ⟨by decide, List.all_eq_true.1 rfl⟩

/-- A parameter, and a part of it whose default value holds a bracket. -/
def sizeParams : List WrittenParam :=
  [{ type := ['I', 'd']
     parts := ["size".toList]
     form := .plain
     doc := "The size".toList
     identifiers := List.forall_mem_singleton.2 isIdentifier_size
     typeBraced := .char (by decide) (by decide) (.char (by decide) (by decide) .nil)
     docFollows := fun _ => ⟨by decide, by decide, by decide⟩ },
   { type := []
     parts := ["size".toList, "unit".toList]
     form := .withDefault
      { text := "']'".toList
        balanced := .string rfl (.char (by decide) (by decide) .nil) .nil }
     doc := []
     identifiers := List.forall_mem_cons.2
      ⟨isIdentifier_size, List.forall_mem_singleton.2 ⟨by decide, List.all_eq_true.1 rfl⟩⟩
     typeBraced := .nil
     docFollows := fun h => nomatch h }]

theorem parse_sizeParams :
    parse .script "@param \x7bId\x7d size The size\n@param \x7b\x7d [size.unit=']'] " =
      .ok { tags := [{ kind := .doc },
        { kind := .param, type := some "Id", name := some "size", doc := "The size" },
        { kind := .param, type := some "", name := some "size.unit", default := some "']'",
          isOptional := true }] } :=
  parse_paramComment .script sizeParams

end Comment
end ApiDoc
