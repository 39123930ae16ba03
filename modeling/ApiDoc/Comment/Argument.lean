/-
What is read after a tag.

Each shape of tag has its reader.  A reader takes the text right after the tag's name and answers with
the tag and the text that it left.  `readTag_suffix` says that no reader goes back or skips ahead of
what is there, so reading tag after tag comes to an end.
-/
import ApiDoc.Comment.DefaultValue
import ApiDoc.Comment.Tag
import ApiDoc.Text.Case

namespace ApiDoc
namespace Tag

/-- A tag with the type that was read for it.  An equals sign at the end of a type makes the value
optional. -/
def withValueType (t : Tag) : Option (List Char) → Tag
  | none => t
  | some type =>
    if type.getLast? == some '=' then
      { t with type := some (String.ofList type.dropLast), isOptional := true }
    else { t with type := some (String.ofList type) }

end Tag

namespace Comment

open Text

def nonempty? (cs : List Char) : Option String :=
  if cs.isEmpty then none else some (String.ofList cs)

def readBracedType (cs : List Char) : Option (List Char) × List Char :=
  match braces? (skipBlanks cs) with
  | some r => (some (trim r.1), r.2)
  | none => (none, skipBlanks cs)

def readChain (cs : List Char) : Option String × List Char :=
  match chain? cs with
  | some r => (some (String.ofList r.1), r.2)
  | none => (none, cs)

/-- A class name, perhaps in braces.  The braces are read even if no name is in them. -/
def readClassName (cs : List Char) : Option String × List Char :=
  match skipBlanks cs with
  | '{' :: inner =>
    let r := readChain inner
    (r.1, skipChar '}' r.2)
  | rest => readChain rest

theorem readBracedType_suffix (cs : List Char) : (readBracedType cs).2 <:+ cs := by
  unfold readBracedType
  split
  · next r h => exact (braces?_suffix h).trans (skipBlanks_suffix cs)
  · exact skipBlanks_suffix cs

theorem readChain_suffix (cs : List Char) : (readChain cs).2 <:+ cs := by
  unfold readChain
  split
  · next r h => exact chain?_suffix h
  · exact List.suffix_refl _

theorem readClassName_suffix (cs : List Char) : (readClassName cs).2 <:+ cs := by
  unfold readClassName
  split
  · next inner h =>
    have s : inner <:+ skipBlanks cs := h ▸ List.suffix_cons _ inner
    exact ((skipChar_suffix _ _).trans (readChain_suffix inner)).trans
      (s.trans (skipBlanks_suffix cs))
  · exact (readChain_suffix _).trans (skipBlanks_suffix cs)

/-- A name that is read takes at least one character. -/
theorem readChain_length_lt {cs : List Char} {name : String} (h : (readChain cs).1 = some name) :
    (readChain cs).2.length < cs.length := by
  unfold readChain at h ⊢
  split at h
  · next r hr =>
    simp only
    obtain ⟨a, b⟩ := r
    unfold chain? at hr
    split at hr
    · have happ := takeChain_append cs
      rw [Option.some.inj hr] at happ
      have hne : a ≠ [] := by
        refine @chain?_ne_nil cs a b ?_
        unfold chain?
        split
        · exact hr
        · contradiction
      have hpos := List.length_pos_iff.2 hne
      have hlen := congrArg List.length happ
      rw [List.length_append] at hlen
      show b.length < cs.length
      exact hlen ▸ Nat.lt_add_of_pos_left hpos
    · exact absurd hr (by simp)
  · exact absurd h (by simp)

theorem readClassName_length_lt {cs : List Char} {name : String}
    (h : (readClassName cs).1 = some name) : (readClassName cs).2.length < cs.length := by
  have hs := (skipBlanks_suffix cs).length_le
  unfold readClassName at h ⊢
  split at h
  · next inner hi =>
    simp only [hi] at hs ⊢
    have h1 := readChain_length_lt h
    have h2 := (skipChar_suffix '}' (readChain inner).2).length_le
    simp only [List.length_cons] at hs
    omega
  · next hne =>
    have h1 := readChain_length_lt h
    omega

def readClassList (cs : List Char) : List String × List Char :=
  match _hc : skipBlanks cs with
  | ',' :: rest => readClassList rest
  | rest =>
    match _h : (readClassName rest).1 with
    | some name =>
      let r := readClassList (readClassName rest).2
      (name :: r.1, r.2)
    | none => ([], (readClassName rest).2)
termination_by cs.length
decreasing_by
  · have h := (skipBlanks_suffix cs).length_le
    rw [_hc] at h
    exact h
  · have h := (skipBlanks_suffix cs).length_le
    have h' := readClassName_length_lt _h
    rw [_hc] at h
    omega

theorem readClassList_suffix (cs : List Char) : (readClassList cs).2 <:+ cs := by
  fun_induction readClassList cs with
  | case1 cs rest hc ih =>
    exact (ih.trans (List.suffix_cons _ rest)).trans (hc ▸ skipBlanks_suffix cs)
  | case2 cs _ name hn r ih =>
    exact (ih.trans (readClassName_suffix _)).trans (skipBlanks_suffix cs)
  | case3 cs _ hn => exact (readClassName_suffix _).trans (skipBlanks_suffix cs)

def isWordListChar (c : Char) : Bool := isHyphenNameChar c || c == '.'

def readWords (cs : List Char) : List String × List Char :=
  let cs' := skipBlanks cs
  if _h : (cs'.takeWhile isWordListChar).isEmpty then ([], cs')
  else
    let r := readWords (cs'.dropWhile isWordListChar)
    (String.ofList (cs'.takeWhile isWordListChar) :: r.1, r.2)
termination_by cs.length
decreasing_by
  have h1 := (skipBlanks_suffix cs).length_le
  have h2 : ((skipBlanks cs).takeWhile isWordListChar).length ≠ 0 := by
    intro h0
    exact _h (by simp [cs', List.length_eq_zero_iff.1 h0])
  have h3 := congrArg List.length
    (@List.takeWhile_append_dropWhile _ isWordListChar (skipBlanks cs))
  rw [List.length_append] at h3
  omega

theorem readWords_suffix (cs : List Char) : (readWords cs).2 <:+ cs := by
  fun_induction readWords cs with
  | case1 cs => exact skipBlanks_suffix cs
  | case2 cs cs' h r ih =>
    exact (ih.trans (List.dropWhile_suffix _)).trans (skipBlanks_suffix cs)

/-- The name of a documented value.  A variable of a style sheet starts with `$` and may hold
hyphens, other names are dotted chains. -/
def valueName? : List Char → Option (List Char × List Char)
  | '$' :: cs => some ('$' :: cs.takeWhile isHyphenNameChar, cs.dropWhile isHyphenNameChar)
  | cs => chain? cs

theorem valueName?_suffix {cs : List Char} {r : List Char × List Char}
    (h : valueName? cs = some r) : r.2 <:+ cs := by
  unfold valueName? at h
  split at h
  · next cs => exact Option.some.inj h ▸ (List.dropWhile_suffix _).trans (List.suffix_cons _ cs)
  · exact chain?_suffix h

/-- The name and default value inside a square bracket that is already read. -/
def readOptionalName (t : Tag) (cs : List Char) : Tag × List Char :=
  let inner := skipBlanks cs
  let name := (valueName? inner).getD ([], inner)
  let t := { t with name := some (String.ofList name.1), isOptional := true }
  match skipBlanks name.2 with
  | '=' :: value =>
    let d := bracketedDefault value
    ({ t with default := nonempty? d.1 }, d.2)
  | rest => (t, skipChar ']' rest)

/-- What may follow a name: a default value, or a remark that the value is required or optional.
A part of another value cannot be required. -/
def readNameTail (t : Tag) (name cs : List Char) : Tag × List Char :=
  match skipBlanks cs with
  | '=' :: value =>
    let d := bareDefault (skipBlanks value)
    ({ t with default := nonempty? d.1 }, d.2)
  | after =>
    if asciiLowercase (after.take 10) == "(required)".toList then
      if name.contains '.' then (t, cs) else ({ t with isRequired := true }, after.drop 10)
    else if after.take 10 == "(optional)".toList || after.take 10 == "(Optional)".toList then
      ({ t with isOptional := true }, after.drop 10)
    else (t, cs)

def readTypedName (t : Tag) (cs : List Char) : Tag × List Char :=
  match cs with
  | '[' :: inner => readOptionalName t inner
  | _ =>
    match valueName? cs with
    | some r => readNameTail { t with name := some (String.ofList r.1) } r.1 r.2
    | none => (t, cs)

def readTyped (t : Tag) (cs : List Char) : Tag × List Char :=
  let r := readBracedType cs
  readTypedName (Tag.withValueType t r.1) (skipBlanks r.2)

theorem readOptionalName_suffix (t : Tag) (cs : List Char) :
    (readOptionalName t cs).2 <:+ cs := by
  have hn : ((valueName? (skipBlanks cs)).getD ([], skipBlanks cs)).2 <:+ skipBlanks cs := by
    cases h : valueName? (skipBlanks cs) with
    | none => exact List.suffix_refl _
    | some r => exact valueName?_suffix h
  have hs := (skipBlanks_suffix _).trans (hn.trans (skipBlanks_suffix cs))
  simp only [readOptionalName]
  split
  · next value h =>
    rw [h] at hs
    exact (bracketedDefault_suffix value).trans ((List.suffix_cons _ value).trans hs)
  · exact (skipChar_suffix _ _).trans hs

theorem readNameTail_suffix (t : Tag) (name cs : List Char) :
    (readNameTail t name cs).2 <:+ cs := by
  have hs := skipBlanks_suffix cs
  unfold readNameTail
  split
  · next value h =>
    rw [h] at hs
    exact (bareDefault_suffix _).trans
      ((skipBlanks_suffix value).trans ((List.suffix_cons _ value).trans hs))
  · split
    · split
      · exact List.suffix_refl _
      · exact (List.drop_suffix _ _).trans hs
    · split
      · exact (List.drop_suffix _ _).trans hs
      · exact List.suffix_refl _

theorem readTypedName_suffix (t : Tag) (cs : List Char) : (readTypedName t cs).2 <:+ cs := by
  unfold readTypedName
  split
  · next inner => exact (readOptionalName_suffix t inner).trans (List.suffix_cons _ inner)
  · split
    · next r h => exact (readNameTail_suffix _ _ _).trans (valueName?_suffix h)
    · exact List.suffix_refl _

theorem readTyped_suffix (t : Tag) (cs : List Char) : (readTyped t cs).2 <:+ cs :=
  (readTypedName_suffix _ _).trans ((skipBlanks_suffix _).trans (readBracedType_suffix cs))

def readReturned (t : Tag) (cs : List Char) : Tag × List Char :=
  let r := readBracedType cs
  let rest := skipBlanks r.2
  let t := { t with type := r.1.map String.ofList }
  if "return.".toList.isPrefixOf rest then
    let n := readChain rest
    ({ t with name := n.1 }, n.2)
  else (t, rest)

def readType (t : Tag) (cs : List Char) : Tag × List Char :=
  let rest := skipBlanks cs
  match braces? rest with
  | some r => ({ t with type := some (String.ofList r.1) }, r.2)
  | none => ({ t with type := nonempty? (rest.takeWhile (!isBlank ·)) }, rest.dropWhile (!isBlank ·))

def readVersion (t : Tag) (cs : List Char) : Tag × List Char :=
  match skipBlanks cs with
  | [] => (t, [])
  | c :: rest =>
    if '0' ≤ c && c ≤ '9' then
      ({ t with version := some (String.ofList ((c :: rest).takeWhile (!isBlank ·))) },
        (c :: rest).dropWhile (!isBlank ·))
    else (t, c :: rest)

def readSince (t : Tag) (cs : List Char) : Tag × List Char :=
  let rest := skipBlanks cs
  ({ t with version := nonempty? (rest.takeWhile (!isBlank ·)) }, rest.dropWhile (!isBlank ·))

def readStaticMark (cs : List Char) : Bool × List Char :=
  match dropText? "static-".toList cs with
  | some rest => (true, rest)
  | none => (false, cs)

def isKindChar (c : Char) : Bool := ('a' ≤ c && c ≤ 'z') || c == '_'

def readKindMark (cs : List Char) : Option EntityKind × List Char :=
  match EntityKind.ofMemberWord? (String.ofList (cs.takeWhile isKindChar)),
      cs.dropWhile isKindChar with
  | some kind, '-' :: rest => (some kind, rest)
  | _, _ => (none, cs)

def isReferenceClassChar (c : Char) : Bool := isNameChar c || c == '.'

def readReference (cs : List Char) : InheritRef × List Char :=
  let rest := skipBlanks cs
  let className := nonempty? (rest.takeWhile isReferenceClassChar)
  match rest.dropWhile isReferenceClassChar with
  | '#' :: rest =>
    let s := readStaticMark rest
    let k := readKindMark s.2
    ({ className, memberName := nonempty? (k.2.takeWhile isHyphenNameChar), kind := k.1,
       isStatic := s.1 }, k.2.dropWhile isHyphenNameChar)
  | rest => ({ className }, rest)

/-- The pattern in a square bracket that is already read: a key, an equals sign and a pattern. -/
def readEnumPattern (t : Tag) (cs : List Char) : Tag × List Char :=
  let inside := fun (c : Char) => c != ']' && c != '\n'
  let rest := skipChar ']' (cs.dropWhile inside)
  match cutFirst? '=' (cs.takeWhile inside) with
  | some p =>
    ({ t with name := nonempty? (trim p.1), default := some (String.ofList (trim p.2)) }, rest)
  | none => (t, rest)

def readEnumeration (t : Tag) (cs : List Char) : Tag × List Char :=
  let r := readBracedType cs
  let t := { t with type := r.1.map String.ofList }
  match skipBlanks r.2 with
  | '[' :: inner => readEnumPattern t inner
  | rest =>
    let n := readChain rest
    ({ t with name := n.1 }, n.2)

def readTag (kind : TagKind) (cs : List Char) : Tag × List Char :=
  let t : Tag := { kind }
  match kind.shape with
  | .flag => (t, cs)
  | .flagLine => (t, cs.dropWhile (· != '\n'))
  | .className =>
    let r := readClassName cs
    ({ t with name := r.1 }, r.2)
  | .classList =>
    let r := readClassList cs
    ({ t with names := r.1 }, r.2)
  | .memberName =>
    let r := readChain (skipBlanks cs)
    ({ t with name := r.1 }, r.2)
  | .typed => readTyped t cs
  | .returned => readReturned t cs
  | .thrown =>
    let r := readBracedType cs
    ({ t with type := r.1.map String.ofList }, r.2)
  | .type => readType t cs
  | .words =>
    let r := readWords cs
    ({ t with names := r.1 }, r.2)
  | .version => readVersion t cs
  | .since => readSince t cs
  | .text => (t, cs)
  | .reference =>
    let r := readReference cs
    ({ t with inheritdoc := some r.1 }, r.2)
  | .enumeration => readEnumeration t cs
  | .styleMixin =>
    let rest := skipBlanks cs
    ({ t with name := nonempty? (rest.takeWhile isHyphenNameChar) },
      rest.dropWhile isHyphenNameChar)

theorem readReturned_suffix (t : Tag) (cs : List Char) : (readReturned t cs).2 <:+ cs := by
  have hs := (skipBlanks_suffix _).trans (readBracedType_suffix cs)
  simp only [readReturned]
  split
  · exact (readChain_suffix _).trans hs
  · exact hs

theorem readType_suffix (t : Tag) (cs : List Char) : (readType t cs).2 <:+ cs := by
  have hs := skipBlanks_suffix cs
  simp only [readType]
  split
  · next r h => exact (braces?_suffix h).trans hs
  · exact (List.dropWhile_suffix _).trans hs

theorem readVersion_suffix (t : Tag) (cs : List Char) : (readVersion t cs).2 <:+ cs := by
  have hs := skipBlanks_suffix cs
  unfold readVersion
  split
  · exact List.nil_suffix
  · next c rest h =>
    rw [h] at hs
    split
    · exact (List.dropWhile_suffix _).trans hs
    · exact hs

theorem readStaticMark_suffix (cs : List Char) : (readStaticMark cs).2 <:+ cs := by
  unfold readStaticMark
  split
  · next rest h => exact dropText?_suffix h
  · exact List.suffix_refl _

theorem readKindMark_suffix (cs : List Char) : (readKindMark cs).2 <:+ cs := by
  have hs : cs.dropWhile isKindChar <:+ cs := List.dropWhile_suffix _
  unfold readKindMark
  split
  · next rest _ h =>
    rw [h] at hs
    exact (List.suffix_cons _ rest).trans hs
  · exact List.suffix_refl _

theorem readReference_suffix (cs : List Char) : (readReference cs).2 <:+ cs := by
  have hs : (skipBlanks cs).dropWhile isReferenceClassChar <:+ cs :=
    (List.dropWhile_suffix _).trans (skipBlanks_suffix cs)
  simp only [readReference]
  split
  · next rest h =>
    rw [h] at hs
    exact ((List.dropWhile_suffix _).trans (readKindMark_suffix _)).trans
      ((readStaticMark_suffix rest).trans ((List.suffix_cons _ rest).trans hs))
  · exact hs

theorem readEnumPattern_suffix (t : Tag) (cs : List Char) : (readEnumPattern t cs).2 <:+ cs := by
  simp only [readEnumPattern]
  split
  · exact (skipChar_suffix _ _).trans (List.dropWhile_suffix _)
  · exact (skipChar_suffix _ _).trans (List.dropWhile_suffix _)

theorem readEnumeration_suffix (t : Tag) (cs : List Char) :
    (readEnumeration t cs).2 <:+ cs := by
  have hs := (skipBlanks_suffix _).trans (readBracedType_suffix cs)
  simp only [readEnumeration]
  split
  · next inner h =>
    rw [h] at hs
    exact (readEnumPattern_suffix _ inner).trans ((List.suffix_cons _ inner).trans hs)
  · exact (readChain_suffix _).trans hs

/-- A tag leaves a suffix of the text that it was given. -/
theorem readTag_suffix (kind : TagKind) (cs : List Char) : (readTag kind cs).2 <:+ cs := by
  have hs := skipBlanks_suffix cs
  simp only [readTag]
  split
  · exact List.suffix_refl _
  · exact List.dropWhile_suffix _
  · exact readClassName_suffix cs
  · exact readClassList_suffix cs
  · exact (readChain_suffix _).trans hs
  · exact readTyped_suffix _ cs
  · exact readReturned_suffix _ cs
  · exact readBracedType_suffix cs
  · exact readType_suffix _ cs
  · exact readWords_suffix cs
  · exact readVersion_suffix _ cs
  · exact (List.dropWhile_suffix _).trans hs
  · exact List.suffix_refl _
  · exact readReference_suffix cs
  · exact readEnumeration_suffix _ cs
  · exact (List.dropWhile_suffix _).trans hs

end Comment
end ApiDoc
