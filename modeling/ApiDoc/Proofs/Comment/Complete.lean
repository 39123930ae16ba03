/-
Default values that are complete.

The grammar says which texts hold nothing but whole strings, whole patterns, groups of brackets and
other characters.  A default value is closed if such a text and a square bracket lead it.  The reader
that keeps a stack of brackets finds the bracket of every closed value and of no other
(`atUnmatched?_eq_some_iff`), so where it finds none the value is malformed.
-/
import ApiDoc.Comment.DefaultValue

namespace ApiDoc
namespace Comment

open Text

/-! ### Strings and patterns -/

/-- What may stand between the quotes of a string. -/
inductive InQuotes (quote : Char) : List Char → Prop
  | nil : InQuotes quote []
  | char {c : Char} {cs : List Char} : c ≠ quote → c ≠ '\\' → InQuotes quote cs →
      InQuotes quote (c :: cs)
  | escaped {c : Char} {cs : List Char} : InQuotes quote cs → InQuotes quote ('\\' :: c :: cs)

/-- What may stand in a pattern up to the slash that ends it.  In a class of characters a slash stands
for itself. -/
inductive InPattern : Bool → List Char → Prop
  | nil : InPattern false []
  | escaped {inClass : Bool} {c : Char} {cs : List Char} : InPattern inClass cs →
      InPattern inClass ('\\' :: c :: cs)
  | openClass {inClass : Bool} {cs : List Char} : InPattern true cs → InPattern inClass ('[' :: cs)
  | closeClass {inClass : Bool} {cs : List Char} : InPattern false cs → InPattern inClass (']' :: cs)
  | slash {cs : List Char} : InPattern true cs → InPattern true ('/' :: cs)
  | char {inClass : Bool} {c : Char} {cs : List Char} : c ∉ ['\\', '[', ']', '\n', '/'] →
      InPattern inClass cs → InPattern inClass (c :: cs)

/-- A character is no backslash if it is neither a last one nor one with something behind it. -/
theorem ne_backslash {c : Char} {cs : List Char} (hlast : c = '\\' → cs = [] → False)
    (hescape : ∀ d ds, c = '\\' → cs = d :: ds → False) : c ≠ '\\' := by
  intro hc
  cases cs with
  | nil => exact hlast hc rfl
  | cons d ds => exact hescape d ds hc rfl

theorem afterString?_inQuotes {quote : Char} {inner : List Char} (hquote : isQuote quote = true)
    (h : InQuotes quote inner) (rest : List Char) :
    afterString? quote (inner ++ quote :: rest) = some rest := by
  induction h with
  | nil =>
    have hplain : quote ≠ '\\' := by
      rintro rfl
      cases hquote
    rw [List.nil_append, afterString?.eq_4 _ _ _ (fun hc => absurd hc hplain)
      (fun _ _ hc => absurd hc hplain), beq_self_eq_true, if_pos rfl]
  | @char c cs hne hplain _ ih =>
    rw [List.cons_append, afterString?.eq_4 _ _ _ (fun hc => absurd hc hplain)
      (fun _ _ hc => absurd hc hplain), beq_eq_false_iff_ne.2 hne, if_neg Bool.false_ne_true, ih]
  | escaped _ ih => rw [List.cons_append, List.cons_append, afterString?.eq_3, ih]

theorem exists_inQuotes {quote : Char} {cs rest : List Char} (h : afterString? quote cs = some rest) :
    ∃ inner, InQuotes quote inner ∧ cs = inner ++ quote :: rest := by
  fun_induction afterString? quote cs with
  | case1 => cases h
  | case2 => cases h
  | case3 c cs ih =>
    obtain ⟨inner, hinner, rfl⟩ := ih h
    exact ⟨_, hinner.escaped, rfl⟩
  | case4 c cs _ _ hc =>
    cases h
    exact ⟨[], .nil, congrArg (· :: rest) (eq_of_beq hc)⟩
  | case5 c cs hlast hescape hc ih =>
    obtain ⟨inner, hinner, rfl⟩ := ih h
    exact ⟨c :: inner, .char (fun heq => hc (beq_iff_eq.2 heq)) (ne_backslash hlast hescape) hinner, rfl⟩

theorem afterPattern?_inPattern {inClass : Bool} {inner : List Char} (h : InPattern inClass inner)
    (rest : List Char) : afterPattern? inClass (inner ++ '/' :: rest) = some rest := by
  induction h with
  | nil => rw [List.nil_append, afterPattern?, if_neg Bool.false_ne_true]
  | escaped _ ih => rw [List.cons_append, List.cons_append, afterPattern?, ih]
  | openClass _ ih => rw [List.cons_append, afterPattern?, ih]
  | closeClass _ ih => rw [List.cons_append, afterPattern?, ih]
  | slash _ ih => rw [List.cons_append, afterPattern?, if_pos rfl, ih]
  | char hc _ ih =>
    simp only [List.mem_cons, List.not_mem_nil, or_false, not_or] at hc
    obtain ⟨hescape, hopen, hclose, hline, hslash⟩ := hc
    rw [List.cons_append, afterPattern?.eq_8 _ _ _ (fun hc _ => hescape hc)
      (fun _ _ hc _ => hescape hc) hopen hclose hline hslash, ih]

theorem exists_inPattern {inClass : Bool} {cs rest : List Char}
    (h : afterPattern? inClass cs = some rest) :
    ∃ inner, InPattern inClass inner ∧ cs = inner ++ '/' :: rest := by
  fun_induction afterPattern? inClass cs with
  | case1 => cases h
  | case2 => cases h
  | case3 inClass c cs ih =>
    obtain ⟨inner, hinner, rfl⟩ := ih h
    exact ⟨_, hinner.escaped, rfl⟩
  | case4 inClass cs ih =>
    obtain ⟨inner, hinner, rfl⟩ := ih h
    exact ⟨_, .openClass hinner, rfl⟩
  | case5 inClass cs ih =>
    obtain ⟨inner, hinner, rfl⟩ := ih h
    exact ⟨_, .closeClass hinner, rfl⟩
  | case6 => cases h
  | case7 cs ih =>
    obtain ⟨inner, hinner, rfl⟩ := ih h
    exact ⟨_, .slash hinner, rfl⟩
  | case8 inClass cs hclass =>
    cases h
    rw [Bool.eq_false_iff.2 hclass]
    exact ⟨[], .nil, rfl⟩
  | case9 inClass c cs hlast hescape hopen hclose hline hslash ih =>
    obtain ⟨inner, hinner, rfl⟩ := ih h
    have hc : c ∉ ['\\', '[', ']', '\n', '/'] := by
      simp only [List.mem_cons, List.not_mem_nil, or_false, not_or]
      exact ⟨ne_backslash hlast hescape, hopen, hclose, hline, hslash⟩
    exact ⟨c :: inner, .char hc hinner, rfl⟩

/-! ### Complete texts -/

/-- The last character that is not blank, after one more character. -/
def lastSolid (prev : Option Char) (c : Char) : Option Char := if isBlank c then prev else some c

/-- A text of whole strings, whole patterns, groups of brackets and other characters.  It stands after a
text that ends with the solid character `prev`, by which patterns are told from divisions, and ends with
the last one. -/
inductive Complete : Option Char → List Char → Option Char → Prop
  | nil {prev : Option Char} : Complete prev [] prev
  | char {prev last : Option Char} {c : Char} {cs : List Char} : isQuote c = false →
      closerOf? c = none → isCloser c = false → (c = '/' → startsPattern prev = false) →
      Complete (lastSolid prev c) cs last → Complete prev (c :: cs) last
  | string {prev last : Option Char} {quote : Char} {inner cs : List Char} : isQuote quote = true →
      InQuotes quote inner → Complete (some quote) cs last →
      Complete prev (quote :: (inner ++ quote :: cs)) last
  | pattern {prev last : Option Char} {inner cs : List Char} : startsPattern prev = true →
      InPattern false inner → Complete (some '/') cs last →
      Complete prev ('/' :: (inner ++ '/' :: cs)) last
  | group {prev inside last : Option Char} {opener closer : Char} {inner cs : List Char} :
      closerOf? opener = some closer → Complete (some opener) inner inside →
      Complete (some closer) cs last → Complete prev (opener :: (inner ++ closer :: cs)) last

/-- A complete text and the square bracket that closes it lead the text. -/
def ClosedDefault (value : List Char) : Prop :=
  ∃ text last rest, Complete none text last ∧ value = text ++ ']' :: rest

theorem isCloser_of_closerOf? {opener closer : Char} (h : closerOf? opener = some closer) :
    isCloser closer = true := by
  unfold closerOf? at h
  split at h
  · cases h
    rfl
  · cases h
    rfl
  · cases h
    rfl
  · cases h

/-- Quotes, brackets that open and brackets that close are different characters. -/
theorem isQuote_of_isCloser {c : Char} (h : isCloser c = true) :
    isQuote c = false ∧ c ≠ '/' ∧ closerOf? c = none := by
  simp only [isCloser, Bool.or_eq_true, beq_iff_eq] at h
  rcases h with (rfl | rfl) | rfl <;> decide

theorem isQuote_of_closerOf? {opener closer : Char} (h : closerOf? opener = some closer) :
    isQuote opener = false ∧ opener ≠ '/' := by
  unfold closerOf? at h
  split at h
  · decide
  · decide
  · decide
  · cases h

section

variable {stack : List Char} {prev : Option Char} {c : Char} {cs : List Char}

theorem atUnmatched?_string {rest : List Char} (hc : isQuote c = true)
    (h : afterString? c cs = some rest) :
    atUnmatched? stack prev (c :: cs) = atUnmatched? stack (some c) rest := by
  rw [atUnmatched?.eq_def]
  simp only [hc, if_true]
  split
  · next rest' h' =>
    rw [Option.some.inj (h'.symm.trans h)]
  · next h' => cases h'.symm.trans h

theorem atUnmatched?_opener {closer : Char} (h : closerOf? c = some closer) :
    atUnmatched? stack prev (c :: cs) = atUnmatched? (closer :: stack) (some c) cs := by
  obtain ⟨hquote, hslash⟩ := isQuote_of_closerOf? h
  rw [atUnmatched?.eq_def]
  simp only [hquote, h, beq_eq_false_iff_ne.2 hslash, Bool.false_and, Bool.false_eq_true, if_false]

theorem atUnmatched?_closer (h : isCloser c = true) :
    atUnmatched? (c :: stack) prev (c :: cs) = atUnmatched? stack (some c) cs := by
  obtain ⟨hquote, hslash, hopen⟩ := isQuote_of_isCloser h
  rw [atUnmatched?.eq_def]
  simp only [hquote, hopen, h, beq_eq_false_iff_ne.2 hslash, Bool.false_and, Bool.false_eq_true,
    if_false, if_true, beq_self_eq_true]

theorem atUnmatched?_plain (hquote : isQuote c = false) (hopen : closerOf? c = none)
    (hclose : isCloser c = false) (hslash : c = '/' → startsPattern prev = false) :
    atUnmatched? stack prev (c :: cs) = atUnmatched? stack (lastSolid prev c) cs := by
  have hpattern : (c == '/' && startsPattern prev) = false := by
    by_cases hc : c = '/'
    · rw [hslash hc, Bool.and_false]
    · rw [beq_eq_false_iff_ne.2 hc, Bool.false_and]
  rw [atUnmatched?.eq_def]
  simp only [hquote, hopen, hclose, hpattern, Bool.false_eq_true, if_false]
  rfl

theorem atUnmatched?_pattern {rest : List Char} (hprev : startsPattern prev = true)
    (h : afterPattern? false cs = some rest) :
    atUnmatched? stack prev ('/' :: cs) = atUnmatched? stack (some '/') rest := by
  have hquote : isQuote '/' = false := rfl
  rw [atUnmatched?.eq_def]
  simp only [hquote, hprev, beq_self_eq_true, Bool.and_self, Bool.false_eq_true, if_false, if_true]
  split
  · next rest' h' => rw [Option.some.inj (h'.symm.trans h)]
  · next h' => cases h'.symm.trans h

end

/-- The reader steps over a complete text, whatever is open before it. -/
theorem atUnmatched?_complete {prev last : Option Char} {cs : List Char} (h : Complete prev cs last)
    (stack rest : List Char) :
    atUnmatched? stack prev (cs ++ rest) = atUnmatched? stack last rest := by
  induction h generalizing stack rest with
  | nil => rfl
  | char hquote hopen hclose hslash _ ih =>
    rw [List.cons_append, atUnmatched?_plain hquote hopen hclose hslash, ih]
  | string hquote hinner _ ih =>
    rw [List.cons_append, List.append_assoc, List.cons_append,
      atUnmatched?_string hquote (afterString?_inQuotes hquote hinner _), ih]
  | pattern hprev hinner _ ih =>
    rw [List.cons_append, List.append_assoc, List.cons_append,
      atUnmatched?_pattern hprev (afterPattern?_inPattern hinner _), ih]
  | group hpair _ _ ihInner ihCs =>
    rw [List.cons_append, List.append_assoc, List.cons_append, atUnmatched?_opener hpair, ihInner,
      atUnmatched?_closer (isCloser_of_closerOf? hpair), ihCs]

/-- The text closes the brackets that are due, with complete texts between them, and then comes to the
square bracket at the front of `rest`. -/
def Closes : List Char → Option Char → List Char → List Char → Prop
  | [], prev, cs, rest => ∃ text last, Complete prev text last ∧ cs = text ++ rest ∧
      rest.head? = some ']'
  | due :: stack, prev, cs, rest => ∃ text last after, Complete prev text last ∧
      cs = text ++ due :: after ∧ Closes stack (some due) after rest

/-- What completes every text may stand before a text that closes what is due. -/
theorem Closes.cons {prev next : Option Char} {front : List Char}
    (hfront : ∀ text last, Complete next text last → Complete prev (front ++ text) last)
    {stack cs rest : List Char} (h : Closes stack next cs rest) :
    Closes stack prev (front ++ cs) rest := by
  cases stack with
  | nil =>
    obtain ⟨text, last, htext, rfl, hrest⟩ := h
    exact ⟨front ++ text, last, hfront text last htext, (List.append_assoc _ _ _).symm, hrest⟩
  | cons due stack =>
    obtain ⟨text, last, after, htext, rfl, hafter⟩ := h
    exact ⟨front ++ text, last, after, hfront text last htext, (List.append_assoc _ _ _).symm, hafter⟩

theorem Closes.opener {prev : Option Char} {c closer : Char} {stack cs rest : List Char}
    (hpair : closerOf? c = some closer) (h : Closes (closer :: stack) (some c) cs rest) :
    Closes stack prev (c :: cs) rest := by
  obtain ⟨inner, inside, after, hinner, rfl, hafter⟩ := h
  have hfront : ∀ text last, Complete (some closer) text last →
      Complete prev (c :: (inner ++ [closer]) ++ text) last := by
    intro text last htext
    rw [List.cons_append, List.append_assoc, List.singleton_append]
    exact .group hpair hinner htext
  have hwhole := Closes.cons hfront hafter
  rwa [List.cons_append, List.append_assoc, List.singleton_append] at hwhole

/-- Whatever the reader comes to, it has stepped over what closes the brackets that were due. -/
theorem closes_of_atUnmatched? {stack : List Char} {prev : Option Char} {cs rest : List Char}
    (h : atUnmatched? stack prev cs = some rest) : Closes stack prev cs rest := by
  fun_induction atUnmatched? stack prev cs with
  | case1 => cases h
  | case2 stack prev c cs hquote after hafter ih =>
    obtain ⟨inner, hinner, rfl⟩ := exists_inQuotes hafter
    have hfront : ∀ text last, Complete (some c) text last →
        Complete prev (c :: (inner ++ [c]) ++ text) last := by
      intro text last htext
      rw [List.cons_append, List.append_assoc, List.singleton_append]
      exact .string hquote hinner htext
    have hwhole := (ih h).cons hfront
    rwa [List.cons_append, List.append_assoc, List.singleton_append] at hwhole
  | case3 => cases h
  | case4 stack prev c cs _ hpattern after hafter ih =>
    rw [Bool.and_eq_true, beq_iff_eq] at hpattern
    obtain ⟨rfl, hprev⟩ := hpattern
    obtain ⟨inner, hinner, rfl⟩ := exists_inPattern hafter
    have hfront : ∀ text last, Complete (some '/') text last →
        Complete prev ('/' :: (inner ++ ['/']) ++ text) last := by
      intro text last htext
      rw [List.cons_append, List.append_assoc, List.singleton_append]
      exact .pattern hprev hinner htext
    have hwhole := (ih h).cons hfront
    rwa [List.cons_append, List.append_assoc, List.singleton_append] at hwhole
  | case5 => cases h
  | case6 stack prev c cs _ _ closer hpair ih => exact (ih h).opener hpair
  | case7 prev c cs _ _ _ _ due stack hdue ih =>
    exact ⟨[], prev, cs, .nil, congrArg (· :: cs) (eq_of_beq hdue).symm, eq_of_beq hdue ▸ ih h⟩
  | case8 => cases h
  | case9 prev c cs _ _ _ _ hc =>
    cases h
    exact ⟨[], prev, .nil, rfl, congrArg some (eq_of_beq hc)⟩
  | case10 => cases h
  | case11 stack prev c cs hquote hpattern hopen hclose ih =>
    have hslash : c = '/' → startsPattern prev = false := by
      rintro rfl
      simpa using hpattern
    have hfront : ∀ text last, Complete (lastSolid prev c) text last →
        Complete prev ([c] ++ text) last := fun _ _ htext =>
      .char (Bool.eq_false_iff.2 hquote) hopen (Bool.eq_false_iff.2 hclose) hslash htext
    exact (ih h).cons hfront

/-- The reader answers with what a square bracket behind a complete text leads. -/
theorem atUnmatched?_eq_some_iff {value rest : List Char} :
    atUnmatched? [] none value = some rest ↔
      ∃ text last, Complete none text last ∧ value = text ++ rest ∧ rest.head? = some ']' := by
  refine ⟨closes_of_atUnmatched?, ?_⟩
  rintro ⟨text, last, htext, rfl, hrest⟩
  obtain ⟨after, rfl⟩ := List.head?_eq_some_iff.1 hrest
  rw [atUnmatched?_complete htext, atUnmatched?.eq_def]
  rfl

/-- A complete default value ends at the bracket behind it. -/
theorem bracketedDefault_complete {cs : List Char} {last : Option Char} (h : Complete none cs last)
    (rest : List Char) : bracketedDefault (cs ++ ']' :: rest) = (trim cs, rest) := by
  have hclose : atUnmatched? [] none (cs ++ ']' :: rest) = some (']' :: rest) :=
    atUnmatched?_eq_some_iff.2 ⟨cs, last, h, rfl, rfl⟩
  rw [bracketedDefault, hclose]
  simp only [frontOf_append, List.drop_succ_cons, List.drop_zero]

theorem isSome_atUnmatched?_iff (value : List Char) :
    (atUnmatched? [] none value).isSome = true ↔ ClosedDefault value := by
  rw [Option.isSome_iff_exists]
  constructor
  · rintro ⟨rest, h⟩
    obtain ⟨text, last, htext, rfl, hrest⟩ := atUnmatched?_eq_some_iff.1 h
    obtain ⟨after, rfl⟩ := List.head?_eq_some_iff.1 hrest
    exact ⟨text, last, after, htext, rfl⟩
  · rintro ⟨text, last, after, htext, rfl⟩
    exact ⟨']' :: after, atUnmatched?_eq_some_iff.2 ⟨text, last, htext, rfl, rfl⟩⟩

instance (value : List Char) : Decidable (ClosedDefault value) :=
  decidable_of_iff _ (isSome_atUnmatched?_iff value)

end Comment
end ApiDoc
