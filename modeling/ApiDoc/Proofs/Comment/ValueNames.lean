/-
Names of documented values.

Parameters, configs and properties are written with a dotted name, and variables of style sheets with a
name that starts with `$` and may hold hyphens.  A name is read to its end unless it is dotted and starts
with `$`: of such a name only the first segment is read (`valueName?_whole`, `valueName?_cut`).
-/
import ApiDoc.Proofs.Comment.Balanced
import ApiDoc.Proofs.Comment.Cut

namespace ApiDoc
namespace Comment

open Text TypeSyntax

/-! ### Blanks within a line -/

def IsGap (gap : List Char) : Prop := ∀ c ∈ gap, (c == ' ' || c == '\t') = true

theorem IsGap.newline {gap : List Char} (h : IsGap gap) : '\n' ∉ gap := fun hmem => by
  cases h '\n' hmem

theorem skipBlanks_of_head {cs : List Char} (h : ∀ c ∈ cs.head?, (c == ' ' || c == '\t') = false) :
    skipBlanks cs = cs := by
  cases cs with
  | nil => rfl
  | cons c cs => rw [skipBlanks, List.dropWhile_cons_of_neg (by simpa using h c rfl)]

theorem skipBlanks_gap {gap cs : List Char} (hgap : IsGap gap)
    (h : ∀ c ∈ cs.head?, (c == ' ' || c == '\t') = false) : skipBlanks (gap ++ cs) = cs := by
  rw [skipBlanks, List.dropWhile_append_of_pos hgap]
  exact skipBlanks_of_head h

/-! ### Before the name -/

/-- What may stand between the word of a tag and a name: blanks, and a type in braces. -/
inductive LeadsName : List Char → Prop
  | gap {gap : List Char} : IsGap gap → LeadsName gap
  | typed {gap type gap' : List Char} : IsGap gap → Braced type → '\n' ∉ type → IsGap gap' →
      LeadsName (gap ++ '{' :: (type ++ '}' :: gap'))

theorem LeadsName.newline {leading : List Char} (h : LeadsName leading) : '\n' ∉ leading := by
  cases h with
  | gap hgap => exact hgap.newline
  | typed hgap _ htype hgap' => simp [hgap.newline, htype, hgap'.newline]

theorem readBracedType_braced {gap type : List Char} (hgap : IsGap gap) (htype : Braced type)
    (hline : '\n' ∉ type) (rest : List Char) :
    readBracedType (gap ++ '{' :: (type ++ '}' :: rest)) = (some (trim type), rest) := by
  have hopen : ∀ c ∈ ('{' :: (type ++ '}' :: rest)).head?, (c == ' ' || c == '\t') = false := by
    rintro c hc
    cases hc
    rfl
  have hbraces : braces? ('{' :: (type ++ '}' :: rest)) = some (type, rest) :=
    congrArg some (takeBraces_close htype hline rest)
  rw [readBracedType, skipBlanks_gap hgap hopen, hbraces]

/-- The type is read, and the name is left to the reader of names. -/
theorem LeadsName.readTyped {leading body : List Char} (h : LeadsName leading)
    (hbody : ∀ c ∈ body.head?, (c == ' ' || c == '\t') = false ∧ c ≠ '{') :
    ∃ type, ∀ t, readTyped t (leading ++ body) = readTypedName (t.withValueType type) body := by
  have hblank : ∀ c ∈ body.head?, (c == ' ' || c == '\t') = false := fun c hc => (hbody c hc).1
  cases h with
  | gap hgap =>
    have hbraces : braces? body = none := by
      cases body with
      | nil => rfl
      | cons c body =>
        unfold braces?
        split
        · next heq => exact absurd (List.cons.inj heq).1 (hbody c rfl).2
        · rfl
    have hread : readBracedType (leading ++ body) = (none, body) := by
      rw [readBracedType, skipBlanks_gap hgap hblank, hbraces]
    refine ⟨none, fun t => ?_⟩
    rw [Comment.readTyped, hread, skipBlanks_of_head hblank]
  | @typed gap type gap' hgap htype hline hgap' =>
    have hshape : gap ++ '{' :: (type ++ '}' :: gap') ++ body =
        gap ++ '{' :: (type ++ '}' :: (gap' ++ body)) := by simp
    refine ⟨some (trim type), fun t => ?_⟩
    rw [hshape, Comment.readTyped, readBracedType_braced hgap htype hline, skipBlanks_gap hgap' hblank]

theorem not_isBlank_of_isHyphenNameChar {c : Char} (h : isHyphenNameChar c = true) :
    isBlank c = false := by
  rw [← Bool.not_eq_true]
  intro hblank
  rw [isHyphenNameChar, isNameChar_of_isBlank hblank, Bool.false_or, beq_iff_eq] at h
  subst h
  cases hblank

/-! ### Reading a name -/

/-- A name as it is written: a dotted chain of identifiers, or a variable of a style sheet. -/
inductive WrittenName : List Char → Prop
  | chain {parts : List (List Char)} : parts ≠ [] → (∀ p ∈ parts, IsIdentifier p) →
      WrittenName (joinWith ['.'] parts)
  | styleVar {cs : List Char} : (∀ c ∈ cs, isHyphenNameChar c = true) → WrittenName ('$' :: cs)

/-- Whether the reader of names takes a name to its end. -/
def IsReadWhole (name : List Char) : Prop := name.head? = some '$' → '.' ∉ name

instance (name : List Char) : Decidable (IsReadWhole name) := inferInstanceAs (Decidable (_ → _))

/-- What can follow a name that has come to its end. -/
def EndsName (rest : List Char) : Prop :=
  ∀ c ∈ rest.head?, isHyphenNameChar c = false ∧ c ≠ '.'

theorem WrittenName.exists_cons {name : List Char} (h : WrittenName name) :
    ∃ c cs, name = c :: cs ∧ isNameChar c = true := by
  cases h with
  | chain hne hids => exact joinWith_eq_cons hne hids
  | styleVar _ => exact ⟨_, _, rfl, rfl⟩

theorem WrittenName.char {name : List Char} (h : WrittenName name) {c : Char} (hc : c ∈ name) :
    isHyphenNameChar c = true ∨ c = '.' := by
  cases h with
  | chain _ hids =>
    exact (name_or_dot_of_mem hids hc).imp (fun h => by rw [isHyphenNameChar, h, Bool.true_or]) id
  | styleVar hall =>
    rcases List.mem_cons.1 hc with rfl | hc
    · exact .inl rfl
    · exact .inl (hall c hc)

theorem endsWord_of_endsName {rest : List Char} (h : EndsName rest) : EndsWord rest := by
  cases rest with
  | nil => exact ⟨rfl, fun _ h => by cases h⟩
  | cons c rest =>
    obtain ⟨hc, hdot⟩ := h c rfl
    rw [isHyphenNameChar, Bool.or_eq_false_iff] at hc
    exact ⟨hc.1, fun _ h => absurd (List.cons.inj h).1 hdot⟩

theorem valueName?_dollar {cs rest : List Char} (hcs : ∀ c ∈ cs, isHyphenNameChar c = true)
    (hrest : ∀ c ∈ rest.head?, isHyphenNameChar c = false) :
    valueName? ('$' :: (cs ++ rest)) = some ('$' :: cs, rest) := by
  rw [valueName?, takeWhile_append_stop hcs hrest, dropWhile_append_stop hcs hrest]

theorem valueName?_chain {parts : List (List Char)} (hne : parts ≠ [])
    (hids : ∀ p ∈ parts, IsIdentifier p) (hstart : (joinWith ['.'] parts).head? ≠ some '$')
    {rest : List Char} (h : EndsWord rest) :
    valueName? (joinWith ['.'] parts ++ rest) = some (joinWith ['.'] parts, rest) := by
  have hread := chain?_parts hne hids h
  obtain ⟨c, cs, hname, -⟩ := joinWith_eq_cons hne hids
  rw [hname] at hstart
  rw [hname, List.cons_append] at hread ⊢
  unfold valueName?
  split
  · next heq => exact absurd (congrArg some (List.cons.inj heq).1) hstart
  · exact hread

theorem valueName?_whole {name rest : List Char} (h : WrittenName name) (hwhole : IsReadWhole name)
    (hrest : EndsName rest) : valueName? (name ++ rest) = some (name, rest) := by
  by_cases hhead : name.head? = some '$'
  · obtain ⟨cs, rfl⟩ := List.head?_eq_some_iff.1 hhead
    have hdot : '.' ∉ '$' :: cs := hwhole hhead
    have hcs : ∀ d ∈ cs, isHyphenNameChar d = true := by
      intro d hd
      rcases h.char (List.mem_cons_of_mem _ hd) with hchar | rfl
      · exact hchar
      · exact absurd (List.mem_cons_of_mem _ hd) hdot
    exact valueName?_dollar hcs fun d hd => (hrest d hd).1
  · cases h with
    | styleVar _ => exact absurd rfl hhead
    | chain hne hids => exact valueName?_chain hne hids hhead (endsWord_of_endsName hrest)

theorem WrittenName.exists_of_cut {name : List Char} (h : WrittenName name) (hcut : ¬ IsReadWhole name) :
    ∃ cs left, name = '$' :: (cs ++ '.' :: left) ∧ (∀ c ∈ cs, isHyphenNameChar c = true) ∧
      name.takeWhile (· != '.') = '$' :: cs ∧ name.dropWhile (· != '.') = '.' :: left := by
  rw [IsReadWhole, Classical.not_imp, not_not] at hcut
  obtain ⟨hhead, hdot⟩ := hcut
  obtain ⟨cs, rfl⟩ := List.head?_eq_some_iff.1 hhead
  obtain ⟨front, left, rfl, hfront⟩ :=
    List.eq_append_cons_of_mem ((List.mem_cons.1 hdot).resolve_left (by decide))
  have hplain : ∀ c ∈ '$' :: front, (c != '.') = true := by
    intro c hc
    rw [bne_iff_ne]
    rintro rfl
    exact hfront ((List.mem_cons.1 hc).resolve_left (by decide))
  have hstop : ∀ c ∈ ('.' :: left).head?, (c != '.') = false := by
    rintro c hc
    cases hc
    rfl
  have hdrop : ('$' :: front ++ '.' :: left).dropWhile (· != '.') = '.' :: left :=
    dropWhile_append_stop hplain hstop
  refine ⟨front, left, rfl, fun c hc => ?_, takeWhile_append_stop hplain hstop, hdrop⟩
  rcases h.char (List.mem_cons_of_mem '$' (List.mem_append_left _ hc)) with hchar | rfl
  · exact hchar
  · exact absurd hc hfront

theorem valueName?_cut {name : List Char} (h : WrittenName name) (hcut : ¬ IsReadWhole name)
    (rest : List Char) :
    valueName? (name ++ rest) =
      some (name.takeWhile (· != '.'), name.dropWhile (· != '.') ++ rest) := by
  obtain ⟨cs, left, rfl, hcs, htake, hdrop⟩ := h.exists_of_cut hcut
  rw [htake, hdrop, List.cons_append, List.append_assoc]
  refine valueName?_dollar hcs fun c hc => ?_
  cases hc
  rfl

/-- What is read of a name. -/
def readPart (name : List Char) : List Char :=
  if IsReadWhole name then name else name.takeWhile (· != '.')

theorem valueName?_readPart {name rest : List Char} (h : WrittenName name) (hrest : EndsName rest) :
    ∃ left, valueName? (name ++ rest) = some (readPart name, left) := by
  unfold readPart
  split
  · next hwhole => exact ⟨rest, valueName?_whole h hwhole hrest⟩
  · next hcut => exact ⟨_, valueName?_cut h hcut rest⟩

/-! ### Reading a tag with a name -/

theorem readTag_typed {kind : TagKind} (h : kind.shape = .typed) (cs : List Char) :
    readTag kind cs = readTyped { kind } cs := by
  simp only [readTag, h]

theorem readTag_bracket {kind : TagKind} (h : kind.shape = .typed) {leading : List Char}
    (hleading : LeadsName leading) (inner : List Char) :
    ∃ t, readTag kind (leading ++ '[' :: inner) = readOptionalName t inner := by
  have hopen : ∀ c ∈ ('[' :: inner).head?, (c == ' ' || c == '\t') = false ∧ c ≠ '{' := by
    rintro c hc
    cases hc
    decide
  obtain ⟨type, hread⟩ := hleading.readTyped hopen
  exact ⟨_, (readTag_typed h _).trans (hread _)⟩

theorem WrittenName.head_append {name : List Char} (h : WrittenName name) (rest : List Char) :
    ∀ c ∈ (name ++ rest).head?, (c == ' ' || c == '\t') = false ∧ c ≠ '{' := by
  obtain ⟨c, cs, rfl, hc⟩ := h.exists_cons
  rintro d hd
  cases hd
  rw [← Bool.not_eq_true, Bool.or_eq_true, beq_iff_eq, beq_iff_eq]
  refine ⟨?_, ?_⟩
  · rintro (rfl | rfl)
    · cases hc
    · cases hc
  · rintro rfl
    cases hc

theorem WrittenName.skipBlanks_gap {name gap : List Char} (h : WrittenName name) (hgap : IsGap gap)
    (rest : List Char) : skipBlanks (gap ++ (name ++ rest)) = name ++ rest :=
  Comment.skipBlanks_gap hgap fun c hc => (h.head_append rest c hc).1

theorem EndsName.append {gap : List Char} (hgap : IsGap gap) {rest : List Char} (h : EndsName rest) :
    EndsName (gap ++ rest) := by
  cases gap with
  | nil => exact h
  | cons d gap =>
    rintro c hc
    cases hc
    have hblank := hgap d List.mem_cons_self
    rw [Bool.or_eq_true, beq_iff_eq, beq_iff_eq] at hblank
    rcases hblank with rfl | rfl <;> decide

end Comment
end ApiDoc
