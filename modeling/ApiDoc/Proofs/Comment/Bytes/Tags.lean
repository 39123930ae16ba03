/-
Tags, read by places.

The readers of the tags made of the moves between places.  Each reads what the reader of the same name
reads of the text that is left, so none of them ever stops inside a character, whatever brackets, quotes
and escapes are left open in front of it.
-/
import ApiDoc.Comment.Argument
import ApiDoc.Proofs.Comment.Bytes.Defaults
import Mathlib.Data.List.Basic

namespace ApiDoc
namespace Comment
namespace Bytes

open Text

namespace PlaceReader

def bracedType : PlaceReader (Option (List Char)) := do
  passBlanks
  return (← bracedText?).map trim

def chain : PlaceReader (Option String) := do
  return (← dottedName?).map String.ofList

def className : PlaceReader (Option String) := do
  passBlanks
  if ← accept ['{'] then
    let name ← chain
    let _ ← accept ['}']
    return name
  else chain

def classList : PlaceReader (List String) :=
  repeated (fun again _ => do
    passBlanks
    if ← accept [','] then again ()
    else
      match ← className with
      | some name => return name :: (← again ())
      | none => return []) ()

def words : PlaceReader (List String) :=
  repeated (fun again _ => do
    passBlanks
    let word ← textWhile isWordListChar
    if word.isEmpty then return [] else return String.ofList word :: (← again ())) ()

def valueName : PlaceReader (Option (List Char)) := do
  if (← next?) = some '$' then
    return some (← spanned do
      let _ ← readChar
      let _ ← word? isHyphenNameChar
      return)
  else dottedName?

def nameOrEmpty : PlaceReader (List Char) := do
  return (← valueName).getD []

def optionalName (t : Tag) : PlaceReader Tag := do
  passBlanks
  let name ← nameOrEmpty
  passBlanks
  let t := { t with name := some (String.ofList name), isOptional := true }
  if ← accept ['='] then return { t with default := nonempty? (← value bracketedValue?) }
  else
    let _ ← accept [']']
    return t

/-- Whether the text starts with the part, in whatever case it is written. -/
def startsWithAnyCase (part : List Char) : PlaceReader Bool := do
  return (cutAtByte? (byteLength part) (← around).2).any fun p =>
    asciiLowercase p.1 == asciiLowercase part

def nameTail (t : Tag) (name : List Char) : PlaceReader Tag := do
  let behindName ← get
  passBlanks
  if ← accept ['='] then
    passBlanks
    return { t with default := nonempty? (← value bareValue?) }
  else if ← startsWithAnyCase "(required)".toList then
    if name.contains '.' then
      returnTo behindName
      return t
    else
      advance (byteLength "(required)".toList)
      return { t with isRequired := true }
  else if ← accept "(optional)".toList then return { t with isOptional := true }
  else if ← accept "(Optional)".toList then return { t with isOptional := true }
  else
    returnTo behindName
    return t

def typedName (t : Tag) : PlaceReader Tag := do
  if ← accept ['['] then optionalName t
  else
    match ← valueName with
    | some name => nameTail { t with name := some (String.ofList name) } name
    | none => return t

def typed (t : Tag) : PlaceReader Tag := do
  let type ← bracedType
  passBlanks
  typedName (Tag.withValueType t type)

def returned (t : Tag) : PlaceReader Tag := do
  let type ← bracedType
  passBlanks
  let t := { t with type := type.map String.ofList }
  if ← startsWith "return.".toList then return { t with name := ← chain } else return t

def type (t : Tag) : PlaceReader Tag := do
  passBlanks
  if (← next?) = some '{' then return { t with type := (← bracedText?).map String.ofList }
  else return { t with type := nonempty? (← textWhile (!isBlank ·)) }

def version (t : Tag) : PlaceReader Tag := do
  passBlanks
  if (← next?).any fun c => '0' ≤ c && c ≤ '9' then
    return { t with version := some (String.ofList (← textWhile (!isBlank ·))) }
  else return t

def since (t : Tag) : PlaceReader Tag := do
  passBlanks
  return { t with version := nonempty? (← textWhile (!isBlank ·)) }

def kindMark : PlaceReader (Option EntityKind) := do
  let start ← get
  match EntityKind.ofMemberWord? (String.ofList (← textWhile isKindChar)) with
  | some kind =>
    if ← accept ['-'] then return some kind
    else
      returnTo start
      return none
  | none =>
    returnTo start
    return none

def reference : PlaceReader InheritRef := do
  passBlanks
  let className := nonempty? (← textWhile isReferenceClassChar)
  if ← accept ['#'] then
    let isStatic ← accept "static-".toList
    let kind ← kindMark
    let memberName := nonempty? (← textWhile isHyphenNameChar)
    return { className, memberName, kind, isStatic }
  else return { className }

def enumPattern (t : Tag) : PlaceReader Tag := do
  let inside ← textWhile fun c => c != ']' && c != '\n'
  let _ ← accept [']']
  match cutFirst? '=' inside with
  | some p =>
    return { t with name := nonempty? (trim p.1), default := some (String.ofList (trim p.2)) }
  | none => return t

def enumeration (t : Tag) : PlaceReader Tag := do
  let type ← bracedType
  passBlanks
  let t := { t with type := type.map String.ofList }
  if ← accept ['['] then enumPattern t else return { t with name := ← chain }

def tag (kind : TagKind) : PlaceReader Tag := do
  let t : Tag := { kind }
  match kind.shape with
  | .flag => return t
  | .flagLine => do
    let _ ← textWhile (· != '\n')
    return t
  | .className => return { t with name := ← className }
  | .classList => return { t with names := ← classList }
  | .memberName => do
    passBlanks
    return { t with name := ← chain }
  | .typed => typed t
  | .returned => returned t
  | .thrown => return { t with type := (← bracedType).map String.ofList }
  | .type => type t
  | .words => return { t with names := ← words }
  | .version => version t
  | .since => since t
  | .text => return t
  | .reference => return { t with inheritdoc := some (← reference) }
  | .enumeration => enumeration t
  | .styleMixin => do
    passBlanks
    return { t with name := (← word? isHyphenNameChar).map String.ofList }

/-! ### What is read -/

variable {α : Type} {text : List Char}

/-- Which way is taken depends on the next character. -/
theorem reads_accept_branch {d : Char} {hit miss : PlaceReader α} {cs : List Char} {p : α × List Char}
    (hhit : ∀ rest, cs = d :: rest → Reads text hit rest p)
    (hmiss : (∀ rest, cs = d :: rest → False) → Reads text miss cs p) :
    Reads text (do if ← accept [d] then hit else miss) cs p := by
  by_cases h : ∃ rest, cs = d :: rest
  · obtain ⟨rest, rfl⟩ := h
    exact (reads_accept_append [d] rest).bind (.of_pos rfl (hhit rest rfl))
  · have hne : ∀ rest, cs = d :: rest → False := fun rest hrest => h ⟨rest, hrest⟩
    refine (reads_accept_of_absent ?_).bind (.of_neg Bool.false_ne_true (hmiss hne))
    rintro ⟨rest, hrest⟩
    exact hne rest hrest.symm

theorem reads_bracedType (cs : List Char) : Reads text bracedType cs (readBracedType cs) := by
  refine (reads_passBlanks cs).bind ((reads_bracedText? _).bind ?_)
  rw [readBracedType]
  cases braces? (skipBlanks cs) with
  | none => exact .pure _ _
  | some r => exact .pure _ _

theorem reads_chain (cs : List Char) : Reads text chain cs (readChain cs) := by
  refine (reads_dottedName? cs).bind ?_
  rw [readChain]
  cases chain? cs with
  | none => exact .pure _ _
  | some r => exact .pure _ _

theorem reads_className (cs : List Char) : Reads text className cs (readClassName cs) := by
  refine (reads_passBlanks cs).bind (reads_accept_branch (fun inner hinner => ?_) fun hne => ?_)
  · rw [readClassName, show skipBlanks cs = _ from hinner]
    exact (reads_chain inner).bind ((reads_accept_char '}' _).bind (.pure _ _))
  · rw [readClassName]
    split
    · next inner hinner => exact absurd hinner (hne inner)
    · exact reads_chain _

theorem reads_classList (cs : List Char) : Reads text classList cs (readClassList cs) := by
  refine reads_repeated (p := fun _ => readClassList) (fun again _ cs ih => ?_) () cs
  refine (reads_passBlanks cs).bind ?_
  have hblanks := (skipBlanks_suffix cs).length_le
  fun_cases readClassList cs with
  | case1 rest hrest =>
    rw [hrest] at hblanks ⊢
    exact (reads_accept_append [','] rest).bind (.of_pos rfl (ih () rest hblanks))
  | case2 name hne hname r =>
    refine reads_accept_branch (fun rest hrest => absurd hrest (hne rest)) fun _ =>
      (reads_className _).bind ?_
    rw [hname]
    exact (ih () _ (Nat.lt_of_lt_of_le (readClassName_length_lt hname) hblanks)).bind (.pure _ _)
  | case3 hne hname =>
    refine reads_accept_branch (fun rest hrest => absurd hrest (hne rest)) fun _ =>
      (reads_className _).bind ?_
    rw [hname]
    exact .pure _ _

theorem length_dropWhile_lt {p : Char → Bool} {cs : List Char}
    (h : ¬ (cs.takeWhile p).isEmpty = true) : (cs.dropWhile p).length < cs.length := by
  have hpos : 0 < (cs.takeWhile p).length :=
    List.length_pos_iff.2 fun hnil => h (List.isEmpty_iff.2 hnil)
  have hsplit := congrArg List.length (@List.takeWhile_append_dropWhile _ p cs)
  rw [List.length_append] at hsplit
  omega

theorem reads_words (cs : List Char) : Reads text words cs (readWords cs) := by
  refine reads_repeated (p := fun _ => readWords) (fun again _ cs ih => ?_) () cs
  refine (reads_passBlanks cs).bind ((reads_textWhile isWordListChar _).bind ?_)
  fun_cases readWords cs with
  | case1 rest hempty =>
    refine .of_pos hempty ?_
    show Reads text _ (rest.dropWhile isWordListChar) _
    rw [dropWhile_of_isEmpty_takeWhile hempty]
    exact .pure [] rest
  | case2 rest hempty r =>
    have hlength := Nat.lt_of_lt_of_le (length_dropWhile_lt hempty) (skipBlanks_suffix cs).length_le
    exact .of_neg hempty ((ih () _ hlength).bind (.pure _ _))

theorem reads_valueName (cs : List Char) :
    Reads text valueName cs (orStay (valueName? cs) cs) := by
  refine (reads_next? cs).bind ?_
  by_cases h : ∃ rest, cs = '$' :: rest
  · obtain ⟨rest, rfl⟩ := h
    have hover : Reads text (do
        let _ ← readChar
        let _ ← word? isHyphenNameChar
        return) ('$' :: rest) ((), rest.dropWhile isHyphenNameChar) :=
      (reads_readChar_cons '$' rest).bind ((reads_word? isHyphenNameChar rest).bind (.pure () _))
    have hfront : frontOf ('$' :: rest) (rest.dropWhile isHyphenNameChar) =
        '$' :: rest.takeWhile isHyphenNameChar := by
      have hsplit := frontOf_append ('$' :: rest.takeWhile isHyphenNameChar)
        (rest.dropWhile isHyphenNameChar)
      rwa [List.cons_append, List.takeWhile_append_dropWhile] at hsplit
    have hsuffix : rest.dropWhile isHyphenNameChar <:+ '$' :: rest :=
      (List.dropWhile_suffix _).trans (List.suffix_cons '$' rest)
    refine .of_pos rfl ((reads_spanned hover hsuffix).bind ?_)
    rw [hfront]
    exact .pure _ _
  · have hother : valueName? cs = chain? cs := by
      unfold valueName?
      split
      · exact absurd ⟨_, rfl⟩ h
      · rfl
    rw [hother]
    exact .of_neg (fun hhead => h (List.head?_eq_some_iff.1 hhead)) (reads_dottedName? cs)

/-! ### Words in whatever case -/

theorem utf8Size_of_asciiLowercase {c : Char} (h : ∀ d ∈ asciiLowercase [c], d.utf8Size = 1) :
    c.utf8Size = 1 := by
  by_cases hc : ('A' ≤ c && c ≤ 'Z') = true
  · rw [Bool.and_eq_true, decide_eq_true_eq, decide_eq_true_eq] at hc
    exact Char.utf8Size_eq_one_iff.2 (UInt32.le_trans hc.2 (by decide))
  · have hsame : asciiLowercase [c] = [c] := by
      rw [asciiLowercase, List.map_singleton, if_neg hc]
    rw [hsame] at h
    exact h c List.mem_cons_self

theorem byteLength_of_asciiLowercase {cs : List Char}
    (h : ∀ d ∈ asciiLowercase cs, d.utf8Size = 1) : byteLength cs = cs.length :=
  byteLength_of_narrow fun _ hc => utf8Size_of_asciiLowercase fun d hd =>
    h d (List.mem_singleton.1 hd ▸ List.mem_map_of_mem hc)

theorem length_asciiLowercase (cs : List Char) : (asciiLowercase cs).length = cs.length :=
  List.length_map _

/-- Bytes may be counted for characters where a word of one-byte characters is looked for. -/
theorem any_cutAtByte?_asciiLowercase {part : List Char} (hnarrow : ∀ d ∈ part, d.utf8Size = 1)
    (cs : List Char) :
    ((cutAtByte? part.length cs).any fun p => asciiLowercase p.1 == part) =
      (asciiLowercase (cs.take part.length) == part) := by
  rw [Bool.eq_iff_iff, Option.any_eq_true, beq_iff_eq]
  constructor
  · rintro ⟨p, hp, hpart⟩
    rw [beq_iff_eq] at hpart
    obtain ⟨rfl, -⟩ := cutAtByte?_eq_some_iff.1 hp
    have hlength : p.1.length = part.length := by rw [← hpart, length_asciiLowercase]
    rw [← hlength, List.take_left', hpart]
    rfl
  · intro hpart
    have hbytes : byteLength (cs.take part.length) = part.length := by
      rw [byteLength_of_asciiLowercase (hpart.symm ▸ hnarrow), ← length_asciiLowercase, hpart]
    refine ⟨(cs.take part.length, cs.drop part.length), ?_, beq_iff_eq.2 hpart⟩
    exact cutAtByte?_eq_some_iff.2 ⟨(List.take_append_drop ..).symm, hbytes⟩

theorem narrow_required : ∀ d ∈ "(required)".toList, d.utf8Size = 1 := by
  have hall : ("(required)".toList.all fun d => d.utf8Size == 1) = true := rfl
  exact fun d hd => eq_of_beq (List.all_eq_true.1 hall d hd)

theorem reads_startsWithRequired (cs : List Char) :
    Reads text (startsWithAnyCase "(required)".toList) cs
      (asciiLowercase (cs.take 10) == "(required)".toList, cs) := by
  refine (reads_around cs).bind ?_
  show Reads text (pure ((cutAtByte? "(required)".toList.length cs).any fun p =>
    asciiLowercase p.1 == "(required)".toList)) cs _
  rw [any_cutAtByte?_asciiLowercase narrow_required]
  exact .pure _ cs

theorem reads_advance_word {part cs : List Char} {n : Nat} (hnarrow : ∀ d ∈ part, d.utf8Size = 1)
    (h : asciiLowercase (cs.take n) = part) :
    Reads text (advance (byteLength part)) cs ((), cs.drop n) := by
  have hbytes : byteLength (cs.take n) = byteLength part := by
    rw [byteLength_of_asciiLowercase (h.symm ▸ hnarrow), ← length_asciiLowercase, h,
      byteLength_of_narrow hnarrow]
  have hadvance := @reads_advance text (cs.take n) (cs.drop n)
  rwa [List.take_append_drop, hbytes] at hadvance

theorem reads_accept_take {part cs : List Char} {n : Nat} (hlength : part.length = n)
    (h : cs.take n = part) : Reads text (accept part) cs (true, cs.drop n) := by
  subst hlength
  obtain ⟨rest, rfl⟩ := List.prefix_iff_eq_take.2 h.symm
  rw [List.drop_left]
  exact reads_accept_append part rest

theorem reads_accept_of_take_ne {part cs : List Char} {n : Nat} (hlength : part.length = n)
    (h : cs.take n ≠ part) : Reads text (accept part) cs (false, cs) := by
  subst hlength
  exact reads_accept_of_absent fun hprefix => h (List.prefix_iff_eq_take.1 hprefix).symm

/-- Two words of one length are looked for one after the other. -/
theorem reads_accept_either {a b cs : List Char} {n : Nat} (ha : a.length = n) (hb : b.length = n)
    {hit miss : PlaceReader α} {p q : α × List Char} (hhit : Reads text hit (cs.drop n) p)
    (hmiss : Reads text miss cs q) :
    Reads text (do if ← accept a then hit else if ← accept b then hit else miss) cs
      (if cs.take n == a || cs.take n == b then p else q) := by
  by_cases hfirst : cs.take n = a
  · rw [if_pos (by rw [beq_iff_eq.2 hfirst, Bool.true_or])]
    exact (reads_accept_take ha hfirst).bind (.of_pos rfl hhit)
  · refine (reads_accept_of_take_ne ha hfirst).bind (.of_neg Bool.false_ne_true ?_)
    rw [beq_eq_false_iff_ne.2 hfirst, Bool.false_or]
    by_cases hsecond : cs.take n = b
    · rw [if_pos (beq_iff_eq.2 hsecond)]
      exact (reads_accept_take hb hsecond).bind (.of_pos rfl hhit)
    · rw [if_neg (by rwa [beq_iff_eq])]
      exact (reads_accept_of_take_ne hb hsecond).bind (.of_neg Bool.false_ne_true hmiss)

theorem reads_nameOrEmpty (cs : List Char) :
    Reads text nameOrEmpty cs ((valueName? cs).getD ([], cs)) := by
  refine (reads_valueName cs).bind ?_
  cases valueName? cs with
  | none => exact .pure [] cs
  | some r => exact .pure r.1 r.2

theorem reads_optionalName (t : Tag) (cs : List Char) :
    Reads text (optionalName t) cs (readOptionalName t cs) := by
  refine (reads_passBlanks cs).bind ((reads_nameOrEmpty _).bind ((reads_passBlanks _).bind
    (reads_accept_branch (fun rest hrest => ?_) fun hne => ?_)))
  · rw [readOptionalName]
    simp only at hrest ⊢
    rw [hrest]
    exact (reads_bracketedValue rest).bind (.pure _ _)
  · rw [readOptionalName]
    simp only
    exact (reads_accept_char ']' _).bind (.pure _ _)

/-- What a name without an equals sign behind it is followed by. -/
theorem readNameTail_remark {cs : List Char} (h : ∀ rest, skipBlanks cs = '=' :: rest → False)
    (t : Tag) (name : List Char) :
    readNameTail t name cs =
      if asciiLowercase ((skipBlanks cs).take 10) == "(required)".toList then
        if name.contains '.' then (t, cs)
        else ({ t with isRequired := true }, (skipBlanks cs).drop 10)
      else if (skipBlanks cs).take 10 == "(optional)".toList ||
          (skipBlanks cs).take 10 == "(Optional)".toList then
        ({ t with isOptional := true }, (skipBlanks cs).drop 10)
      else (t, cs) := by
  unfold readNameTail
  split
  · next rest hrest => exact absurd hrest (h rest)
  · rfl

theorem reads_nameTail (t : Tag) (name cs : List Char) :
    Reads text (nameTail t name) cs (readNameTail t name cs) := by
  refine reads_of_suffix fun h => (reads_get cs).bind ((reads_passBlanks cs).bind
    (reads_accept_branch (fun rest hrest => ?_) fun hne => ?_))
  · rw [readNameTail, show skipBlanks cs = _ from hrest]
    exact (reads_passBlanks rest).bind ((reads_bareValue _).bind (.pure _ _))
  · have hback : Reads text (returnTo (placeOf text cs)) (skipBlanks cs) ((), cs) :=
      reads_returnTo (skipBlanks_suffix cs) h
    rw [readNameTail_remark hne]
    refine (reads_startsWithRequired _).bind (.ite (fun hrequired => ?_) fun _ => ?_)
    · exact .ite (fun _ => hback.bind (.pure t cs)) fun _ =>
        (reads_advance_word narrow_required (eq_of_beq hrequired)).bind (.pure _ _)
    · have hlower : "(optional)".toList.length = 10 := by decide
      have hupper : "(Optional)".toList.length = 10 := by decide
      exact reads_accept_either hlower hupper (.pure _ _) (hback.bind (.pure t cs))

theorem reads_typedName (t : Tag) (cs : List Char) :
    Reads text (typedName t) cs (readTypedName t cs) := by
  refine reads_accept_branch (fun rest hrest => ?_) fun hne => ?_
  · rw [hrest, readTypedName]
    exact reads_optionalName t rest
  · refine (reads_valueName cs).bind ?_
    rw [readTypedName]
    · cases valueName? cs with
      | none => exact .pure t cs
      | some r => exact reads_nameTail _ _ _
    · exact fun inner => hne inner

theorem reads_typed (t : Tag) (cs : List Char) : Reads text (typed t) cs (readTyped t cs) :=
  (reads_bracedType cs).bind ((reads_passBlanks _).bind (reads_typedName _ _))

theorem reads_returned (t : Tag) (cs : List Char) :
    Reads text (returned t) cs (readReturned t cs) :=
  (reads_bracedType cs).bind ((reads_passBlanks _).bind ((reads_startsWith _ _).bind
    (.ite (fun _ => (reads_chain _).bind (.pure _ _)) fun _ => .pure _ _)))

theorem reads_type (t : Tag) (cs : List Char) : Reads text (type t) cs (readType t cs) := by
  refine (reads_passBlanks cs).bind ((reads_next? _).bind ?_)
  rw [readType]
  cases skipBlanks cs with
  | nil => exact .of_neg (by simp) ((reads_textWhile _ []).bind (.pure _ _))
  | cons c rest =>
    by_cases hc : c = '{'
    · subst hc
      exact .of_pos rfl ((reads_bracedText? _).bind (.pure _ _))
    · rw [braces?_of_ne hc]
      exact .of_neg (by simpa using hc) ((reads_textWhile _ _).bind (.pure _ _))

theorem reads_version (t : Tag) (cs : List Char) : Reads text (version t) cs (readVersion t cs) := by
  refine (reads_passBlanks cs).bind ?_
  rw [readVersion]
  cases skipBlanks cs with
  | nil => exact (reads_next? []).bind (.of_neg (by simp) (.pure t []))
  | cons c rest =>
    exact (reads_next? _).bind (.ite (fun _ => (reads_textWhile _ _).bind (.pure _ _))
      fun _ => .pure t _)

theorem reads_since (t : Tag) (cs : List Char) : Reads text (since t) cs (readSince t cs) :=
  (reads_passBlanks cs).bind ((reads_textWhile _ _).bind (.pure _ _))

theorem reads_kindMark (cs : List Char) : Reads text kindMark cs (readKindMark cs) := by
  refine reads_of_suffix fun h => (reads_get cs).bind ((reads_textWhile isKindChar cs).bind ?_)
  have hback : Reads text (returnTo (placeOf text cs)) (cs.dropWhile isKindChar) ((), cs) :=
    reads_returnTo (List.dropWhile_suffix isKindChar) h
  rw [readKindMark]
  cases EntityKind.ofMemberWord? (String.ofList (cs.takeWhile isKindChar)) with
  | none => exact hback.bind (.pure none cs)
  | some kind =>
    refine reads_accept_branch (fun rest hrest => ?_) fun hne => ?_
    · rw [show cs.dropWhile isKindChar = _ from hrest]
      exact .pure _ rest
    · split
      · next hrest => exact absurd hrest (hne _)
      · exact hback.bind (.pure none cs)

theorem reads_staticMark (cs : List Char) :
    Reads text (accept "static-".toList) cs (readStaticMark cs) := by
  rw [readStaticMark]
  split
  · next rest hrest =>
    rw [eq_append_of_isPrefixOf? hrest]
    exact reads_accept_append _ rest
  · next hrest =>
    refine reads_accept_of_absent ?_
    rintro ⟨rest, rfl⟩
    rw [dropText?, List.isPrefixOf?_eq_some_iff_append_eq.2 rfl] at hrest
    cases hrest

theorem reads_reference (cs : List Char) : Reads text reference cs (readReference cs) := by
  refine (reads_passBlanks cs).bind ((reads_textWhile isReferenceClassChar _).bind
    (reads_accept_branch (fun rest hrest => ?_) fun hne => ?_))
  · simp only at hrest
    rw [readReference, hrest]
    exact (reads_staticMark rest).bind ((reads_kindMark _).bind ((reads_textWhile _ _).bind
      (.pure _ _)))
  · rw [readReference]
    split
    · next rest hrest => exact absurd hrest (hne rest)
    · exact .pure _ _

theorem reads_enumPattern (t : Tag) (cs : List Char) :
    Reads text (enumPattern t) cs (readEnumPattern t cs) := by
  refine (reads_textWhile _ cs).bind ((reads_accept_char ']' _).bind ?_)
  rw [readEnumPattern]
  cases cutFirst? '=' (cs.takeWhile fun c => c != ']' && c != '\n') with
  | none => exact .pure t _
  | some p => exact .pure _ _

theorem reads_enumeration (t : Tag) (cs : List Char) :
    Reads text (enumeration t) cs (readEnumeration t cs) := by
  refine (reads_bracedType cs).bind ((reads_passBlanks _).bind
    (reads_accept_branch (fun rest hrest => ?_) fun hne => ?_))
  · simp only at hrest
    rw [readEnumeration, hrest]
    exact reads_enumPattern _ rest
  · rw [readEnumeration]
    split
    · next rest hrest => exact absurd hrest (hne rest)
    · exact (reads_chain _).bind (.pure _ _)

/-- Every tag is read to its end. -/
theorem reads_tag (kind : TagKind) (cs : List Char) :
    Reads text (tag kind) cs (readTag kind cs) := by
  rw [tag, readTag]
  cases kind.shape with
  | flag => exact .pure _ cs
  | flagLine => exact (reads_textWhile _ cs).bind (.pure _ _)
  | className => exact (reads_className cs).bind (.pure _ _)
  | classList => exact (reads_classList cs).bind (.pure _ _)
  | memberName => exact (reads_passBlanks cs).bind ((reads_chain _).bind (.pure _ _))
  | typed => exact reads_typed _ cs
  | returned => exact reads_returned _ cs
  | thrown => exact (reads_bracedType cs).bind (.pure _ _)
  | type => exact reads_type _ cs
  | words => exact (reads_words cs).bind (.pure _ _)
  | version => exact reads_version _ cs
  | since => exact reads_since _ cs
  | text => exact .pure _ cs
  | reference => exact (reads_reference cs).bind (.pure _ _)
  | enumeration => exact reads_enumeration _ cs
  | styleMixin =>
    refine (reads_passBlanks cs).bind ((reads_word? _ _).bind ?_)
    simp only [nonempty?]
    split
    · exact .pure _ _
    · exact .pure _ _

end PlaceReader
end Bytes
end Comment
end ApiDoc
