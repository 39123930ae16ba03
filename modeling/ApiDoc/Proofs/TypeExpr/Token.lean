/-
Tokens of type expressions, and the texts in which they are written.

A token is a sign, a name of a type, a name of a field or a literal, and carries that it is well formed.
`Lexed` says that tokens stand at the front of a text, each after any number of blanks.  The two facts
about signs that reading by looking ahead rests on are that no sign is a prefix of another token, and that
no sign continues a word.
-/
import ApiDoc.Proofs.Text.Trimmed
import ApiDoc.TypeExpr.Parse
import Mathlib.Data.List.Basic
import Mathlib.Data.List.DropRight
import Mathlib.Data.List.TakeWhile

namespace ApiDoc
namespace TypeSyntax

open Text Comment TypeExpr

/-! ### Tokens -/

def IsIdentifier (cs : List Char) : Prop := cs ≠ [] ∧ ∀ c ∈ cs, isNameChar c = true

instance (cs : List Char) : Decidable (IsIdentifier cs) := inferInstanceAs (Decidable (_ ∧ _))

def IsDigits (cs : List Char) : Prop := cs ≠ [] ∧ ∀ c ∈ cs, isDigit c = true

/-- A number, perhaps with a sign, perhaps with decimal places. -/
def IsNumber (cs : List Char) : Prop :=
  ∃ sign digits places, (sign = [] ∨ sign = ['-']) ∧ IsDigits digits ∧
    (places = [] ∨ ∃ ds, IsDigits ds ∧ places = '.' :: ds) ∧ cs = sign ++ (digits ++ places)

/-- What may stand between two quotes.  A backslash takes the next character with it. -/
inductive QuotedBody (quote : Char) : List Char → Prop where
  | nil : QuotedBody quote []
  | plain {c : Char} {cs : List Char} (hquote : c ≠ quote) (hslash : c ≠ '\\')
      (hcs : QuotedBody quote cs) : QuotedBody quote (c :: cs)
  | escaped {c : Char} {cs : List Char} (hcs : QuotedBody quote cs) :
      QuotedBody quote ('\\' :: c :: cs)

def IsQuoted (cs : List Char) : Prop :=
  ∃ quote body, (quote = '"' ∨ quote = '\'') ∧ QuotedBody quote body ∧
    cs = quote :: (body ++ [quote])

/-- A dotted chain of identifiers that does not start with a digit. -/
structure TypeName where
  parts : List (List Char)
  nonempty : parts ≠ []
  identifiers : ∀ p ∈ parts, IsIdentifier p
  start : ∀ c ∈ (joinWith ['.'] parts).head?, isDigit c = false

def TypeName.text (n : TypeName) : List Char := joinWith ['.'] n.parts

def TypeName.name (n : TypeName) : String := String.ofList n.text

/-- A name of one part. -/
def TypeName.ofWord (word : List Char) (hne : word ≠ []) (hall : word.all isNameChar = true)
    (hstart : word.head?.any isDigit = false) : TypeName where
  parts := [word]
  nonempty := List.cons_ne_nil word []
  identifiers := by
    intro p hp
    rw [List.mem_singleton.1 hp]
    exact ⟨hne, List.all_eq_true.1 hall⟩
  start := by
    intro c hc
    have hhead : word.head? = some c := by simpa [joinWith] using hc
    rwa [hhead] at hstart

structure FieldName where
  text : List Char
  isIdentifier : IsIdentifier text

structure Literal where
  text : List Char
  wellFormed : IsQuoted text ∨ IsNumber text

inductive Sign where
  | star
  | leftParen
  | rightParen
  | leftBrace
  | rightBrace
  | leftAngle
  | dottedAngle
  | rightAngle
  | question
  | bang
  | brackets
  | dots
  | comma
  | colon
  | slash
  | bar
  deriving DecidableEq

def Sign.text : Sign → String
  | .star => "*"
  | .leftParen => "("
  | .rightParen => ")"
  | .leftBrace => "\x7b"
  | .rightBrace => "\x7d"
  | .leftAngle => "<"
  | .dottedAngle => ".<"
  | .rightAngle => ">"
  | .question => "?"
  | .bang => "!"
  | .brackets => "[]"
  | .dots => "..."
  | .comma => ","
  | .colon => ":"
  | .slash => "/"
  | .bar => "|"

inductive Token where
  | sign (s : Sign)
  | typeName (n : TypeName)
  | fieldName (f : FieldName)
  | literal (l : Literal)

namespace Token

def text : Token → List Char
  | sign s => s.text.toList
  | typeName n => n.text
  | fieldName f => f.text
  | literal l => l.text

/-- The name, if the token is the name of a type. -/
def name? : Token → Option String
  | typeName n => some n.name
  | _ => none

end Token

/-- The tokens stand at the front of a text, each after blanks, and the rest follows. -/
inductive Lexed : List Token → List Char → List Char → Prop where
  | nil (rest : List Char) : Lexed [] rest rest
  | cons {blanks cs rest : List Char} (hblanks : ∀ c ∈ blanks, isBlank c = true) (t : Token)
      {ts : List Token} (h : Lexed ts cs rest) : Lexed (t :: ts) (blanks ++ (t.text ++ cs)) rest

/-- The text consists of the tokens, with blanks before each and after the last one. -/
def Printed (ts : List Token) (text : List Char) : Prop :=
  ∃ rest, Lexed ts text rest ∧ isBlankText rest = true

/-! ### Blanks are no part of words -/

theorem isNameChar_of_isBlank {c : Char} (h : isBlank c = true) : isNameChar c = false :=
  eq_false_of_isBlank (by decide +kernel) h

theorem isNameChar_of_isDigit {c : Char} (h : isDigit c = true) : isNameChar c = true := by
  have hascii : c.toNat < 0x80 := by
    simp only [isDigit, Bool.and_eq_true, decide_eq_true_eq] at h
    exact Nat.lt_of_le_of_lt h.2 (by decide)
  have hdigit : isAsciiAlphanumeric c = true := by
    simp only [isDigit] at h
    simp [isAsciiAlphanumeric, h]
  simp [isNameChar, isAlphanumeric, hascii, hdigit]

/-! ### How tokens start -/

/-- Characters with which tokens other than signs start. -/
def startsWord (c : Char) : Bool := isNameChar c || c == '-' || c == '"' || c == '\''

theorem Sign.text_eq_cons (s : Sign) :
    ∃ c cs, s.text.toList = c :: cs ∧ isBlank c = false ∧ startsWord c = false := by
  cases s <;> exact ⟨_, _, rfl, by decide, by decide⟩

/-- No sign is a prefix of another one. -/
theorem Sign.eq_of_prefix {s s' : Sign} (h : s.text.toList <+: s'.text.toList) : s = s' := by
  cases s <;> cases s' <;> first | rfl | exact absurd h (by decide)

theorem isBlank_of_startsWord {c : Char} (h : startsWord c = true) : isBlank c = false := by
  rw [Bool.eq_false_iff]
  intro hblank
  simp only [startsWord, isNameChar_of_isBlank hblank, Bool.false_or, Bool.or_eq_true,
    beq_iff_eq] at h
  rcases h with (rfl | rfl) | rfl <;> exact absurd hblank (by decide)

theorem IsIdentifier.exists_cons {cs : List Char} (h : IsIdentifier cs) :
    ∃ c rest, cs = c :: rest ∧ isNameChar c = true := by
  obtain ⟨hne, hall⟩ := h
  obtain ⟨c, rest, rfl⟩ := List.exists_cons_of_ne_nil hne
  exact ⟨c, rest, rfl, hall c List.mem_cons_self⟩

theorem joinWith_eq_cons {parts : List (List Char)} (hne : parts ≠ [])
    (hids : ∀ p ∈ parts, IsIdentifier p) :
    ∃ c cs, joinWith ['.'] parts = c :: cs ∧ isNameChar c = true := by
  obtain ⟨p, parts, rfl⟩ := List.exists_cons_of_ne_nil hne
  obtain ⟨c, cs, rfl, hc⟩ := (hids p List.mem_cons_self).exists_cons
  cases parts <;> exact ⟨c, _, rfl, hc⟩

theorem TypeName.exists_cons (n : TypeName) :
    ∃ c cs, n.text = c :: cs ∧ isNameChar c = true ∧ isDigit c = false := by
  obtain ⟨c, cs, htext, hc⟩ := joinWith_eq_cons n.nonempty n.identifiers
  exact ⟨c, cs, htext, hc, n.start c (by rw [htext]; rfl)⟩

theorem Literal.exists_cons (l : Literal) :
    ∃ c cs, l.text = c :: cs ∧ (isDigit c = true ∨ c = '-' ∨ c = '"' ∨ c = '\'') := by
  obtain ⟨text, ⟨quote, body, hquote, -, rfl⟩ | ⟨sign, digits, places, hsign, hdigits, -, rfl⟩⟩ := l
  · exact ⟨quote, _, rfl, .inr (.inr hquote)⟩
  · obtain ⟨hne, hall⟩ := hdigits
    obtain ⟨c, rest, rfl⟩ := List.exists_cons_of_ne_nil hne
    rcases hsign with rfl | rfl
    · exact ⟨c, _, rfl, .inl (hall c List.mem_cons_self)⟩
    · exact ⟨'-', _, rfl, .inr (.inl rfl)⟩

/-- A token is a sign or starts like a word. -/
theorem Token.sign_or_word (t : Token) :
    (∃ s, t = .sign s) ∨ ∃ c cs, t.text = c :: cs ∧ startsWord c = true := by
  cases t with
  | sign s => exact .inl ⟨s, rfl⟩
  | typeName n =>
    obtain ⟨c, cs, htext, hc, -⟩ := n.exists_cons
    exact .inr ⟨c, cs, htext, by simp [startsWord, hc]⟩
  | fieldName f =>
    obtain ⟨c, cs, htext, hc⟩ := f.isIdentifier.exists_cons
    exact .inr ⟨c, cs, htext, by simp [startsWord, hc]⟩
  | literal l =>
    obtain ⟨c, cs, htext, hc⟩ := l.exists_cons
    refine .inr ⟨c, cs, htext, ?_⟩
    rcases hc with hc | rfl | rfl | rfl
    · simp [startsWord, isNameChar_of_isDigit hc]
    · rfl
    · rfl
    · rfl

theorem Token.text_eq_cons (t : Token) : ∃ c cs, t.text = c :: cs ∧ isBlank c = false := by
  rcases t.sign_or_word with ⟨s, rfl⟩ | ⟨c, cs, htext, hc⟩
  · obtain ⟨c, cs, htext, hc, -⟩ := s.text_eq_cons
    exact ⟨c, cs, htext, hc⟩
  · exact ⟨c, cs, htext, isBlank_of_startsWord hc⟩

/-! ### Tokens at the front of a text -/

theorem trimStart_token (t : Token) (cs : List Char) : trimStart (t.text ++ cs) = t.text ++ cs := by
  obtain ⟨c, rest, htext, hc⟩ := t.text_eq_cons
  rw [htext, List.cons_append, trimStart, List.dropWhile_cons_of_neg (by simp [hc])]

theorem lexed_cons_iff {t : Token} {ts : List Token} {cs rest : List Char} :
    Lexed (t :: ts) cs rest ↔ ∃ mid, trimStart cs = t.text ++ mid ∧ Lexed ts mid rest := by
  constructor
  · rintro (_ | @⟨blanks, mid, _, hblanks, _, _, h⟩)
    exact ⟨mid, by rw [trimStart_append hblanks, trimStart_token], h⟩
  · rintro ⟨mid, htrim, h⟩
    rw [← List.takeWhile_append_dropWhile (p := isBlank) (l := cs),
      show cs.dropWhile isBlank = _ from htrim]
    exact .cons (fun c hc => List.mem_takeWhile_imp hc) t h

theorem lexed_append_iff {ts us : List Token} {cs rest : List Char} :
    Lexed (ts ++ us) cs rest ↔ ∃ mid, Lexed ts cs mid ∧ Lexed us mid rest := by
  induction ts generalizing cs with
  | nil =>
    constructor
    · exact fun h => ⟨cs, .nil cs, h⟩
    · rintro ⟨mid, ⟨⟩, h⟩
      exact h
  | cons t ts ih =>
    simp only [List.cons_append, lexed_cons_iff, ih]
    constructor
    · rintro ⟨next, htrim, mid, hts, hus⟩
      exact ⟨mid, ⟨next, htrim, hts⟩, hus⟩
    · rintro ⟨mid, ⟨next, htrim, hts⟩, hus⟩
      exact ⟨next, htrim, mid, hts, hus⟩

/-- Nothing is read ahead of what is left. -/
theorem Lexed.suffix {ts : List Token} {cs rest : List Char} (h : Lexed ts cs rest) :
    rest <:+ cs := by
  induction h with
  | nil rest => exact List.suffix_refl rest
  | cons hblanks t h ih => exact ih.trans ((List.suffix_append _ _).trans (List.suffix_append _ _))

theorem Lexed.length_le {ts : List Token} {cs rest : List Char} (h : Lexed ts cs rest) :
    rest.length ≤ cs.length := h.suffix.length_le

/-- A token takes at least one character. -/
theorem Lexed.length_lt {t : Token} {ts : List Token} {cs rest : List Char}
    (h : Lexed (t :: ts) cs rest) : rest.length < cs.length := by
  obtain ⟨mid, htrim, hts⟩ := lexed_cons_iff.1 h
  obtain ⟨c, text, htext, -⟩ := t.text_eq_cons
  have hlength := congrArg List.length htrim
  have htrimmed : (trimStart cs).length ≤ cs.length := (List.dropWhile_suffix _).length_le
  rw [htext, List.cons_append, List.length_cons, List.length_append] at hlength
  have := hts.length_le
  omega

theorem lexed_trimStart_iff {t : Token} {ts : List Token} {cs rest : List Char} :
    Lexed (t :: ts) (trimStart cs) rest ↔ Lexed (t :: ts) cs rest := by
  rw [lexed_cons_iff, lexed_cons_iff, trimStart, trimStart, List.dropWhile_idempotent]

/-! ### Reading signs -/

theorem eat?_eq_some_iff {s : Sign} {cs rest : List Char} :
    eat? s.text cs = some rest ↔ Lexed [.sign s] cs rest := by
  rw [eat?, dropText?, List.isPrefixOf?_eq_some_iff_append_eq, lexed_cons_iff]
  constructor
  · exact fun h => ⟨rest, h.symm, .nil rest⟩
  · rintro ⟨mid, htrim, ⟨⟩⟩
    exact htrim.symm

/-- A sign is not read where another token stands. -/
theorem Lexed.eat?_eq_none {t : Token} {ts : List Token} {cs rest : List Char}
    (h : Lexed (t :: ts) cs rest) {s : Sign} (hne : t ≠ .sign s) : eat? s.text cs = none := by
  obtain ⟨mid, htrim, -⟩ := lexed_cons_iff.1 h
  rw [eat?, htrim, dropText?, Option.eq_none_iff_forall_ne_some]
  intro next hnext
  rw [List.isPrefixOf?_eq_some_iff_append_eq] at hnext
  rcases t.sign_or_word with ⟨s', rfl⟩ | ⟨c, text, htext, hc⟩
  · have hsame : s = s' := by
      rcases List.prefix_or_prefix_of_prefix ⟨next, hnext⟩ ⟨mid, rfl⟩ with hp | hp
      · exact Sign.eq_of_prefix hp
      · exact (Sign.eq_of_prefix hp).symm
    exact hne (hsame ▸ rfl)
  · obtain ⟨d, rest', hsign, -, hd⟩ := s.text_eq_cons
    rw [hsign, htext] at hnext
    obtain ⟨rfl, -⟩ := List.cons.inj hnext
    rw [hc] at hd
    cases hd

theorem eat?_eq_none_of_isBlankText {s : Sign} {cs : List Char} (h : isBlankText cs = true) :
    eat? s.text cs = none := by
  have htrim : trimStart cs = [] := List.dropWhile_eq_nil_iff.2 (List.all_eq_true.1 h)
  obtain ⟨c, text, hsign, -⟩ := s.text_eq_cons
  rw [eat?, htrim, hsign]
  rfl

/-! ### What may follow -/

/-- Nothing follows but blanks, or one of the signs. -/
def Followed (signs : List Sign) (rest : List Char) : Prop :=
  isBlankText rest = true ∨ ∃ s ∈ signs, ∃ next, Lexed [.sign s] rest next

/-- No word goes on, and a dot is not part of a dotted name or a number. -/
structure EndsWord (rest : List Char) : Prop where
  word : startsName rest = false
  dot : ∀ next, rest = '.' :: next → startsName next = false

namespace Followed

theorem mono {signs signs' : List Sign} {rest : List Char} (h : Followed signs rest)
    (hsub : signs ⊆ signs') : Followed signs' rest := by
  rcases h with hblank | ⟨s, hs, hlexed⟩
  · exact .inl hblank
  · exact .inr ⟨s, hsub hs, hlexed⟩

theorem of_lexed {signs : List Sign} {s : Sign} {ts : List Token} {cs rest : List Char}
    (h : Lexed (.sign s :: ts) cs rest) (hs : s ∈ signs) : Followed signs cs := by
  obtain ⟨mid, htrim, -⟩ := lexed_cons_iff.1 h
  exact .inr ⟨s, hs, mid, lexed_cons_iff.2 ⟨mid, htrim, .nil mid⟩⟩

theorem eat?_eq_none {signs : List Sign} {rest : List Char} (h : Followed signs rest) {s : Sign}
    (hs : s ∉ signs) : eat? s.text rest = none := by
  rcases h with hblank | ⟨s', hs', next, hlexed⟩
  · exact eat?_eq_none_of_isBlankText hblank
  · refine hlexed.eat?_eq_none fun heq => hs ?_
    cases heq
    exact hs'

theorem endsWord {signs : List Sign} {rest : List Char} (h : Followed signs rest) :
    EndsWord rest := by
  have hblankStart : ∀ c cs, rest = c :: cs → isBlank c = true → EndsWord rest := by
    rintro c cs rfl hc
    refine ⟨isNameChar_of_isBlank hc, fun next hnext => ?_⟩
    obtain ⟨rfl, -⟩ := List.cons.inj hnext
    exact absurd hc (by decide)
  rcases h with hblank | ⟨s, -, next, hlexed⟩
  · cases rest with
    | nil => exact ⟨rfl, fun next hnext => by cases hnext⟩
    | cons c cs =>
      exact hblankStart c cs rfl (List.all_eq_true.1 hblank c List.mem_cons_self)
  · obtain - | @⟨blanks, mid, _, hblanks, _, _, h⟩ := hlexed
    cases blanks with
    | cons c blanks => exact hblankStart c _ rfl (hblanks c List.mem_cons_self)
    | nil =>
      refine ⟨?_, fun next' hnext => ?_⟩
      · cases s <;> rfl
      · cases s <;> cases hnext <;> rfl

end Followed

end TypeSyntax
end ApiDoc
