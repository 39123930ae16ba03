/-
Every printing of a type expression is read as that expression.

A step reads the tokens of a tree if what follows does not continue the tree, which is a condition on the
next sign alone.  The steps for nested expressions are those of a smaller depth, so the proof is by
induction on the depth, and a depth above the length of the text is enough.
-/
import ApiDoc.Proofs.TypeExpr.Lexeme
import ApiDoc.Proofs.TypeExpr.Syntax

namespace ApiDoc
namespace TypeSyntax

open Text Comment TypeExpr

/-! ### Signs that may follow -/

def afterAlternatives : List Sign := [.rightParen, .rightAngle, .rightBrace, .comma]

def afterItem : List Sign := .slash :: .bar :: afterAlternatives

def afterArray : List Sign := .dots :: afterItem

def afterAtom : List Sign := .brackets :: afterArray

def afterName : List Sign := .leftAngle :: .dottedAngle :: afterAtom

/-! ### Lists of items -/

/-- Items are read one after the other, each taking part of the text, with separators between them and
none after the last one. -/
inductive Separated {α : Type} (separators : List String) (item : Step α) :
    List Char → List α → List Char → Prop where
  | one {cs rest : List Char} {a : α} (hitem : item cs = some (a, rest))
      (hlength : rest.length ≤ cs.length) (hend : eatAny? separators rest = none) :
      Separated separators item cs [a] rest
  | more {cs mid next rest : List Char} {a : α} {as : List α} (hitem : item cs = some (a, mid))
      (hlength : mid.length ≤ cs.length) (hnext : eatAny? separators mid = some next)
      (hshorter : next.length < mid.length) (h : Separated separators item next as rest) :
      Separated separators item cs (a :: as) rest

theorem moreItems_eq_nil {α : Type} {separators : List String} {item : Step α} {cs : List Char}
    (h : eatAny? separators cs = none) (count : Nat) :
    moreItems separators item count cs = some ([], cs) := by
  cases count with
  | zero => rfl
  | succ count => rw [moreItems, h]

/-- The bound on the number of items does not matter if it is not below the length of the text. -/
theorem Separated.reads {α : Type} {separators : List String} {item : Step α} {cs rest : List Char}
    {as : List α} (h : Separated separators item cs as rest) :
    ∃ a as' mid, as = a :: as' ∧ item cs = some (a, mid) ∧ mid.length ≤ cs.length ∧
      ∀ count, mid.length ≤ count → moreItems separators item count mid = some (as', rest) := by
  induction h with
  | one hitem hlength hend =>
    exact ⟨_, [], _, rfl, hitem, hlength, fun count _ => moreItems_eq_nil hend count⟩
  | more hitem hlength hnext hshorter _ ih =>
    obtain ⟨a', as', mid', rfl, hitem', hlength', hmore⟩ := ih
    refine ⟨_, _, _, rfl, hitem, hlength, fun count hcount => ?_⟩
    obtain ⟨count, rfl⟩ : ∃ k, count = k + 1 := ⟨count - 1, by omega⟩
    rw [moreItems, hnext]
    simp only
    rw [hitem']
    simp only
    rw [hmore count (by omega)]

theorem items_of_separated {α : Type} {separators : List String} {item : Step α}
    {cs rest : List Char} {as : List α} (h : Separated separators item cs as rest) :
    items separators item cs = some (as, rest) := by
  obtain ⟨a, as, mid, rfl, hitem, -, hmore⟩ := h.reads
  rw [items, hitem]
  simp only
  rw [hmore mid.length le_rfl]

/-! ### Signs -/

theorem eat?_of_lexed {s : Sign} {ts : List Token} {cs rest : List Char}
    (h : Lexed (.sign s :: ts) cs rest) :
    ∃ mid, eat? s.text cs = some mid ∧ Lexed ts mid rest ∧ mid.length < cs.length := by
  obtain ⟨mid, hsign, hts⟩ := lexed_append_iff.1 (show Lexed ([.sign s] ++ ts) cs rest from h)
  exact ⟨mid, eat?_eq_some_iff.2 hsign, hts, hsign.length_lt⟩

theorem closedBy_of_lexed {α : Type} {item : Step α} {s : Sign} {cs mid rest : List Char} {a : α}
    (hitem : item cs = some (a, mid)) (hclose : Lexed [.sign s] mid rest) :
    closedBy s.text item cs = some (a, rest) := by
  rw [closedBy, hitem, Option.bind_some, eat?_eq_some_iff.2 hclose, Option.map_some]

theorem eatAny?_comma {cs : List Char} : eatAny? [","] cs = eat? Sign.comma.text cs := by
  rw [eatAny?, List.findSome?_cons]
  cases h : eat? "," cs with
  | none => exact h.symm
  | some rest => exact h.symm

/-! ### Steps over a base that reads atoms -/

/-- The base of this depth reads every atom in texts that are shorter than the depth. -/
def ReadsAtoms (depth : Nat) : Prop :=
  ∀ (a : Atom) {cs rest : List Char}, cs.length < depth → Lexed a.tokens cs rest →
    Followed afterAtom rest → base depth (trimStart cs) = some (a.expr, rest)

theorem brackets_of_lexed {n : Nat} {cs rest : List Char}
    (h : Lexed (List.replicate n (.sign .brackets)) cs rest) (hrest : Followed afterArray rest)
    {count : Nat} (hcount : cs.length ≤ count) : brackets count cs = (n, rest) := by
  induction n generalizing count cs with
  | zero =>
    obtain ⟨⟩ := h
    cases count with
    | zero => rfl
    | succ count =>
      have hnone : eat? "[]" rest = none := hrest.eat?_eq_none (s := .brackets) (by decide)
      rw [brackets, hnone]
  | succ n ih =>
    obtain ⟨mid, heat, hmid, hlength⟩ := eat?_of_lexed h
    obtain ⟨count, rfl⟩ : ∃ k, count = k + 1 := ⟨count - 1, by omega⟩
    rw [brackets, show eat? "[]" cs = some mid from heat]
    simp only
    rw [ih hmid (by omega)]

theorem arrayType_of_lexed {depth : Nat} (h : ReadsAtoms depth) (a : Atom) (n : Nat)
    {cs rest : List Char} (hlength : cs.length < depth)
    (hlexed : Lexed (a.tokens ++ List.replicate n (.sign .brackets)) cs rest)
    (hrest : Followed afterArray rest) :
    arrayType (base depth) cs = some (arrays n a.expr, rest) := by
  obtain ⟨mid, hatom, hbrackets⟩ := lexed_append_iff.1 hlexed
  have hmid : Followed afterAtom mid := by
    cases n with
    | zero =>
      obtain ⟨⟩ := hbrackets
      exact hrest.mono (by decide)
    | succ n => exact .of_lexed hbrackets (by decide)
  rw [arrayType, h a hlength hatom hmid]
  simp only
  rw [brackets_of_lexed hbrackets hrest le_rfl]

/-- An atom starts with no mark, so a mark that is read is one of the item. -/
theorem eat?_atom {a : Atom} {ts : List Token} {cs rest : List Char}
    (h : Lexed (a.tokens ++ ts) cs rest) {s : Sign}
    (hs : s ∉ [Sign.star, .leftParen, .leftBrace]) : eat? s.text cs = none := by
  simp only [List.mem_cons, List.not_mem_nil, or_false, not_or] at hs
  obtain ⟨hstar, hparen, hbrace⟩ := hs
  cases a with
  | any =>
    refine Lexed.eat?_eq_none (t := .sign .star) h fun heq => ?_
    cases heq
    exact hstar rfl
  | named name args => exact Lexed.eat?_eq_none (t := .typeName name) h fun heq => by cases heq
  | literal l => exact Lexed.eat?_eq_none (t := .literal l) h fun heq => by cases heq
  | group content =>
    refine Lexed.eat?_eq_none (t := .sign .leftParen) h fun heq => ?_
    cases heq
    exact hparen rfl
  | record fields =>
    refine Lexed.eat?_eq_none (t := .sign .leftBrace) h fun heq => ?_
    cases heq
    exact hbrace rfl

theorem markedType_of_lexed {depth : Nat} (h : ReadsAtoms depth) (m : Mark) (a : Atom) (n : Nat)
    {cs rest : List Char} (hlength : cs.length < depth)
    (hlexed : Lexed (m.tokens ++ (a.tokens ++ List.replicate n (.sign .brackets))) cs rest)
    (hrest : Followed afterArray rest) :
    markedType (base depth) cs = some (m.apply (arrays n a.expr), rest) := by
  cases m with
  | absent =>
    have hquestion : eat? "?" cs = none := eat?_atom (s := .question) hlexed (by decide)
    have hbang : eat? "!" cs = none := eat?_atom (s := .bang) hlexed (by decide)
    rw [markedType, hquestion]
    simp only
    rw [hbang]
    exact arrayType_of_lexed h a n hlength hlexed hrest
  | nullable =>
    obtain ⟨mid, heat, hmid, hshorter⟩ := eat?_of_lexed hlexed
    rw [markedType, show eat? "?" cs = some mid from heat]
    simp only
    rw [arrayType_of_lexed h a n (by omega) hmid hrest]
    rfl
  | nonNull =>
    have hquestion : eat? "?" cs = none :=
      Lexed.eat?_eq_none (t := .sign .bang) (s := .question) hlexed fun heq => by cases heq
    obtain ⟨mid, heat, hmid, hshorter⟩ := eat?_of_lexed hlexed
    rw [markedType, hquestion]
    simp only
    rw [show eat? "!" cs = some mid from heat]
    simp only
    rw [arrayType_of_lexed h a n (by omega) hmid hrest]
    rfl

/-- A mark is no dot. -/
theorem eat?_dots_marked {m : Mark} {a : Atom} {ts : List Token} {cs rest : List Char}
    (h : Lexed (m.tokens ++ (a.tokens ++ ts)) cs rest) : eat? "..." cs = none := by
  cases m with
  | absent => exact eat?_atom (s := .dots) h (by decide)
  | nullable =>
    exact Lexed.eat?_eq_none (t := .sign .question) (s := .dots) h fun heq => by cases heq
  | nonNull => exact Lexed.eat?_eq_none (t := .sign .bang) (s := .dots) h fun heq => by cases heq

theorem repeatedType_of_lexed {depth : Nat} (h : ReadsAtoms depth) (i : Item) {cs rest : List Char}
    (hlength : cs.length < depth) (hlexed : Lexed i.tokens cs rest)
    (hrest : Followed afterItem rest) :
    repeatedType (base depth) cs = some (i.expr, rest) := by
  obtain ⟨dots, m, a, n⟩ := i
  rw [Item.tokens] at hlexed
  rw [Item.expr]
  cases dots with
  | absent =>
    rw [show Dots.leading .absent = [] from rfl, show Dots.trailing .absent = [] from rfl,
      List.append_nil, List.nil_append] at hlexed
    have hmarked := markedType_of_lexed h m a n hlength hlexed (hrest.mono (by decide))
    have hend : eat? "..." rest = none := hrest.eat?_eq_none (s := .dots) (by decide)
    rw [repeatedType, eat?_dots_marked hlexed]
    simp only
    rw [hmarked]
    simp only
    rw [hend]
    rfl
  | before =>
    rw [show Dots.trailing .before = [] from rfl, List.append_nil] at hlexed
    obtain ⟨mid, heat, hmid, hshorter⟩ := eat?_of_lexed hlexed
    rw [repeatedType, show eat? "..." cs = some mid from heat]
    simp only
    rw [markedType_of_lexed h m a n (by omega) hmid (hrest.mono (by decide))]
    rfl
  | after =>
    rw [show Dots.leading .after = [] from rfl, List.nil_append] at hlexed
    have hdots := eat?_dots_marked hlexed
    rw [← List.append_assoc, ← List.append_assoc, lexed_append_iff] at hlexed
    obtain ⟨mid, hmarked, htrailing⟩ := hlexed
    rw [List.append_assoc] at hmarked
    have hmid : Followed afterArray mid := .of_lexed htrailing (by decide)
    rw [repeatedType, hdots]
    simp only
    rw [markedType_of_lexed h m a n hlength hmarked hmid]
    simp only
    rw [show eat? "..." mid = some rest from eat?_eq_some_iff.2 htrailing]
    rfl

theorem eatAny?_separator {separator : Separator} {ts : List Token} {cs rest : List Char}
    (h : Lexed (.sign separator.sign :: ts) cs rest) :
    ∃ mid, eatAny? ["/", "|"] cs = some mid ∧ Lexed ts mid rest ∧ mid.length < cs.length := by
  obtain ⟨mid, heat, hmid, hshorter⟩ := eat?_of_lexed h
  refine ⟨mid, ?_, hmid, hshorter⟩
  cases separator with
  | slash => rw [eatAny?, List.findSome?_cons, show eat? "/" cs = some mid from heat]
  | bar =>
    have hslash : eat? "/" cs = none :=
      Lexed.eat?_eq_none (t := .sign .bar) (s := .slash) h fun heq => by cases heq
    rw [eatAny?, List.findSome?_cons, hslash, List.findSome?_cons,
      show eat? "|" cs = some mid from heat]

theorem eatAny?_separators_eq_none {rest : List Char} (h : Followed afterAlternatives rest) :
    eatAny? ["/", "|"] rest = none := by
  have hslash : eat? "/" rest = none := h.eat?_eq_none (s := .slash) (by decide)
  have hbar : eat? "|" rest = none := h.eat?_eq_none (s := .bar) (by decide)
  simp [eatAny?, hslash, hbar]

theorem separated_alternatives {depth : Nat} (h : ReadsAtoms depth) :
    ∀ (u : Alternatives) {cs rest : List Char}, cs.length < depth → Lexed u.tokens cs rest →
      Followed afterAlternatives rest →
      Separated ["/", "|"] (repeatedType (base depth)) cs (u.first :: u.others) rest
  | .one i, cs, rest, hlength, hlexed, hrest => by
    have hitem := repeatedType_of_lexed h i hlength hlexed (hrest.mono (by decide))
    exact .one hitem hlexed.length_le (eatAny?_separators_eq_none hrest)
  | .more i separator u, cs, rest, hlength, hlexed, hrest => by
    obtain ⟨mid, hi, hmore⟩ := lexed_append_iff.1 hlexed
    obtain ⟨next, heat, hu, hshorter⟩ := eatAny?_separator hmore
    have hmid : Followed afterItem mid := by
      cases separator with
      | slash => exact .of_lexed hmore (by decide)
      | bar => exact .of_lexed hmore (by decide)
    have hi_length := hi.length_le
    exact .more (repeatedType_of_lexed h i hlength hi hmid) hi_length heat hshorter
      (separated_alternatives h u (by omega) hu hrest)

theorem alternatives_of_lexed {depth : Nat} (h : ReadsAtoms depth) (u : Alternatives)
    {cs rest : List Char} (hlength : cs.length < depth) (hlexed : Lexed u.tokens cs rest)
    (hrest : Followed afterAlternatives rest) :
    alternatives (base depth) cs = some (u.expr, rest) := by
  rw [alternatives, items_of_separated (separated_alternatives h u hlength hlexed hrest)]
  rfl

/-! ### Arguments and fields -/

theorem separated_types {depth : Nat} (h : ReadsAtoms depth) :
    ∀ (ts : Types) {cs rest : List Char}, cs.length < depth → Lexed ts.tokens cs rest →
      Followed [.rightAngle] rest →
      Separated [","] (alternatives (base depth)) cs ts.exprs rest
  | .one u, cs, rest, hlength, hlexed, hrest => by
    have hend : eatAny? [","] rest = none := by
      rw [eatAny?_comma]
      exact hrest.eat?_eq_none (by decide)
    exact .one (alternatives_of_lexed h u hlength hlexed (hrest.mono (by decide))) hlexed.length_le
      hend
  | .more u ts, cs, rest, hlength, hlexed, hrest => by
    obtain ⟨mid, hu, hmore⟩ := lexed_append_iff.1 hlexed
    obtain ⟨next, heat, hts, hshorter⟩ := eat?_of_lexed hmore
    rw [← eatAny?_comma] at heat
    have hmid : Followed afterAlternatives mid := .of_lexed hmore (by decide)
    have hu_length := hu.length_le
    exact .more (alternatives_of_lexed h u hlength hu hmid) hu_length heat hshorter
      (separated_types h ts (by omega) hts hrest)

theorem typeArguments_of_lexed {depth : Nat} (h : ReadsAtoms depth) (args : Arguments)
    {cs rest : List Char} (hlength : cs.length < depth) (hlexed : Lexed args.tokens cs rest)
    (hrest : Followed afterAtom rest) :
    typeArguments (alternatives (base depth)) cs = some (args.exprs, rest) := by
  cases args with
  | absent =>
    obtain ⟨⟩ := hlexed
    have hdotted : eat? ".<" cs = none := hrest.eat?_eq_none (s := .dottedAngle) (by decide)
    have hplain : eat? "<" cs = none := hrest.eat?_eq_none (s := .leftAngle) (by decide)
    rw [typeArguments, show eatAny? [".<", "<"] cs = none by simp [eatAny?, hdotted, hplain]]
    rfl
  | listed opening types =>
    obtain ⟨mid, heat, hmid, hshorter⟩ := eat?_of_lexed hlexed
    have hopen : eatAny? [".<", "<"] cs = some mid := by
      cases opening with
      | dotted => rw [eatAny?, List.findSome?_cons, show eat? ".<" cs = some mid from heat]
      | plain =>
        have hdotted : eat? ".<" cs = none :=
          Lexed.eat?_eq_none (t := .sign .leftAngle) (s := .dottedAngle) hlexed fun heq => by
            cases heq
        rw [eatAny?, List.findSome?_cons, hdotted, List.findSome?_cons,
          show eat? "<" cs = some mid from heat]
    obtain ⟨close, htypes, hclose⟩ := lexed_append_iff.1 hmid
    have hseparated := separated_types h types (by omega) htypes (.of_lexed hclose (by decide))
    rw [typeArguments, hopen]
    exact closedBy_of_lexed (s := .rightAngle) (items_of_separated hseparated) hclose

theorem field_of_lexed {depth : Nat} (h : ReadsAtoms depth) (f : Field) {cs rest : List Char}
    (hlength : cs.length < depth) (hlexed : Lexed f.tokens cs rest)
    (hrest : Followed [.comma, .rightBrace] rest) :
    field (alternatives (base depth)) cs = some (f.entry, rest) := by
  have hkey : ∀ (key : FieldName) {ts : List Token} (_ : Lexed (.fieldName key :: ts) cs rest),
      ∃ mid, trimStart cs = key.text ++ mid ∧ Lexed ts mid rest ∧ mid.length < cs.length ∧
        key.text.isEmpty = false := by
    intro key ts hkey
    obtain ⟨mid, htrim, hts⟩ := lexed_cons_iff.1 hkey
    have hfirst : Lexed [.fieldName key] cs mid := lexed_cons_iff.2 ⟨mid, htrim, .nil mid⟩
    obtain ⟨c, cs', htext, -⟩ := key.isIdentifier.exists_cons
    exact ⟨mid, htrim, hts, hfirst.length_lt, by rw [htext]; rfl⟩
  cases f with
  | plain key =>
    obtain ⟨mid, htrim, ⟨⟩, -, hne⟩ := hkey key hlexed
    have hcolon : eat? ":" rest = none := hrest.eat?_eq_none (s := .colon) (by decide)
    simp only [field, htrim, takeChars_fieldName key hrest.endsWord.word, hne]
    rw [hcolon]
    rfl
  | typed key type =>
    obtain ⟨mid, htrim, hmid, hshort, hne⟩ := hkey key hlexed
    obtain ⟨next, heat, htype, hshorter⟩ := eat?_of_lexed hmid
    have hcolon : Followed [.colon] mid := .of_lexed hmid List.mem_cons_self
    have hend : EndsWord mid := hcolon.endsWord
    simp only [field, htrim, takeChars_fieldName key hend.word, hne]
    rw [show eat? ":" mid = some next from heat]
    simp only [Bool.false_eq_true, if_false]
    rw [alternatives_of_lexed h type (by omega) htype (hrest.mono (by decide))]
    rfl

theorem separated_fields {depth : Nat} (h : ReadsAtoms depth) :
    ∀ (fs : Fields) {cs rest : List Char}, cs.length < depth → Lexed fs.tokens cs rest →
      Followed [.rightBrace] rest →
      Separated [","] (field (alternatives (base depth))) cs fs.entries rest
  | .one f, cs, rest, hlength, hlexed, hrest => by
    have hend : eatAny? [","] rest = none := by
      rw [eatAny?_comma]
      exact hrest.eat?_eq_none (by decide)
    exact .one (field_of_lexed h f hlength hlexed (hrest.mono (by decide))) hlexed.length_le hend
  | .more f fs, cs, rest, hlength, hlexed, hrest => by
    obtain ⟨mid, hf, hmore⟩ := lexed_append_iff.1 hlexed
    obtain ⟨next, heat, hfs, hshorter⟩ := eat?_of_lexed hmore
    rw [← eatAny?_comma] at heat
    have hmid : Followed [.comma, .rightBrace] mid := .of_lexed hmore (by decide)
    have hf_length := hf.length_le
    exact .more (field_of_lexed h f hlength hf hmid) hf_length heat hshorter
      (separated_fields h fs (by omega) hfs hrest)

/-! ### Atoms -/

theorem baseWith_word {step : Step TypeExpr} {c : Char} {cs : List Char}
    (hword : isNameChar c = true) (hdigit : isDigit c = false) :
    baseWith step (c :: cs) =
      match afterFunctionWord? (c :: cs) with
      | some rest => functionBody step (alternatives step) rest
      | none => namedType (alternatives step) (c :: cs) := by
  have hne : ∀ {d : Char}, isNameChar d = false → c ≠ d := by
    rintro d hd rfl
    rw [hword] at hd
    cases hd
  simp only [baseWith]
  rw [if_neg (by simpa using hne (by decide)), if_neg (by simpa using hne (by decide)),
    if_neg (by simpa using hne (by decide)),
    if_neg (by simpa using ⟨hne (by decide), hne (by decide)⟩)]
  exact if_neg (by simpa using ⟨hdigit, hne (by decide)⟩)

theorem baseWith_number {step : Step TypeExpr} {c : Char} {cs : List Char}
    (hc : isDigit c = true ∨ c = '-') : baseWith step (c :: cs) = numberLiteral (c :: cs) := by
  have hne : ∀ {d : Char}, isDigit d = false ∧ d ≠ '-' → c ≠ d := by
    rintro d ⟨hd, hminus⟩ rfl
    rcases hc with hc | hc
    · rw [hc] at hd
      cases hd
    · exact hminus hc
  simp only [baseWith]
  rw [if_neg (by simpa using hne (by decide)), if_neg (by simpa using hne (by decide)),
    if_neg (by simpa using hne (by decide)),
    if_neg (by simpa using ⟨hne (by decide), hne (by decide)⟩), if_pos (by simpa using hc)]

theorem baseWith_quoted {step : Step TypeExpr} {c : Char} {cs : List Char}
    (hc : c = '"' ∨ c = '\'') : baseWith step (c :: cs) = quotedLiteral (c :: cs) := by
  rcases hc with rfl | rfl <;> rfl

theorem literalStep_eq {after : List Char → Option (List Char)} {text rest : List Char}
    (h : after (text ++ rest) = some rest) :
    literalStep after (text ++ rest) = some (literal (String.ofList text), rest) := by
  rw [literalStep, h, Option.map_some, List.length_append, Nat.add_sub_cancel, List.take_left']
  rfl

theorem quotedLiteral_eq {quote : Char} (hquote : quote = '"' ∨ quote = '\'') {body : List Char}
    (hbody : QuotedBody quote body) (rest : List Char) :
    quotedLiteral (quote :: (body ++ [quote]) ++ rest) =
      some (literal (String.ofList (quote :: (body ++ [quote]))), rest) := by
  have hslash : quote ≠ '\\' := by
    rintro rfl
    rcases hquote with h | h <;> exact absurd h (by decide)
  rw [quotedLiteral]
  refine @literalStep_eq _ (quote :: (body ++ [quote])) rest ?_
  show afterQuoted quote (body ++ [quote] ++ rest) = some rest
  rw [List.append_assoc]
  exact afterQuoted_body hslash hbody rest

theorem baseWith_literal {step : Step TypeExpr} (l : Literal) {rest : List Char}
    (hrest : EndsWord rest) :
    baseWith step (l.text ++ rest) = some (literal (String.ofList l.text), rest) := by
  obtain ⟨text, ⟨quote, body, hquote, hbody, rfl⟩ | hnumber⟩ := l
  · have hliteral := quotedLiteral_eq hquote hbody rest
    rw [List.cons_append] at hliteral
    exact (baseWith_quoted hquote).trans hliteral
  · have hliteral := literalStep_eq (afterNumber_number hnumber hrest)
    have hstart : ∃ c cs, text = c :: cs ∧ (isDigit c = true ∨ c = '-') := by
      obtain ⟨sign, digits, places, hsign, hdigits, -, rfl⟩ := hnumber
      obtain ⟨c, cs, rfl⟩ := List.exists_cons_of_ne_nil hdigits.1
      rcases hsign with rfl | rfl
      · exact ⟨c, _, rfl, .inl (hdigits.2 c List.mem_cons_self)⟩
      · exact ⟨'-', _, rfl, .inr rfl⟩
    obtain ⟨c, cs, rfl, hc⟩ := hstart
    rw [List.cons_append] at hliteral
    exact (baseWith_number hc).trans hliteral

theorem baseWith_named {depth : Nat} (h : ReadsAtoms depth) (n : TypeName) (args : Arguments)
    {cs rest : List Char} (hlength : cs.length < depth) (hlexed : Lexed args.tokens cs rest)
    (hrest : Followed afterAtom rest) :
    baseWith (base depth) (n.text ++ cs) = some (named n.name args.exprs, rest) := by
  have hcs : Followed afterName cs := by
    cases args with
    | absent =>
      obtain ⟨⟩ := hlexed
      exact hrest.mono (by decide)
    | listed opening types =>
      cases opening with
      | plain => exact .of_lexed hlexed (by decide)
      | dotted => exact .of_lexed hlexed (by decide)
  have hparen : (trimStart cs).head? ≠ some '(' := by
    intro hhead
    obtain ⟨next, htrim⟩ := List.head?_eq_some_iff.1 hhead
    have hnone := hcs.eat?_eq_none (s := .leftParen) (by decide)
    have hsome := eat?_eq_some_iff.2 (lexed_cons_iff (t := .sign .leftParen).2 ⟨next, htrim, .nil next⟩)
    rw [hsome] at hnone
    cases hnone
  obtain ⟨c, text, htext, hword, hdigit⟩ := n.exists_cons
  have hfunction := afterFunctionWord?_typeName n hcs.endsWord hparen
  have hchain := chain?_typeName n hcs.endsWord
  rw [htext, List.cons_append] at hfunction hchain ⊢
  rw [baseWith_word hword hdigit, hfunction]
  simp only
  rw [namedType, hchain]
  simp only
  rw [typeArguments_of_lexed h args hlength hlexed hrest, Option.map_some, TypeName.name, htext]

/-- Every depth is enough for the atoms of shorter texts. -/
theorem readsAtoms (depth : Nat) : ReadsAtoms depth := by
  induction depth with
  | zero => exact fun a cs rest hlength => absurd hlength (Nat.not_lt_zero _)
  | succ depth ih =>
    intro a cs rest hlength hlexed hrest
    have htrimmed : (trimStart cs).length ≤ cs.length := (List.dropWhile_suffix _).length_le
    rw [base]
    cases a with
    | any =>
      obtain ⟨mid, htrim, ⟨⟩⟩ := lexed_cons_iff.1 hlexed
      rw [htrim]
      rfl
    | named n args =>
      obtain ⟨mid, htrim, hargs⟩ := lexed_cons_iff.1 hlexed
      obtain ⟨c, text, htext, -, -⟩ := n.exists_cons
      have hmid := congrArg List.length htrim
      rw [show Token.text (.typeName n) = n.text from rfl, List.length_append, htext,
        List.length_cons] at hmid
      rw [htrim]
      exact baseWith_named ih n args (by omega) hargs hrest
    | literal l =>
      obtain ⟨mid, htrim, ⟨⟩⟩ := lexed_cons_iff.1 hlexed
      rw [htrim]
      exact baseWith_literal l hrest.endsWord
    | group content =>
      obtain ⟨mid, htrim, hmid⟩ := lexed_cons_iff.1 hlexed
      obtain ⟨close, hcontent, hclose⟩ := lexed_append_iff.1 hmid
      have hread := alternatives_of_lexed ih content
        (by have := congrArg List.length htrim; simp [Token.text, Sign.text] at this; omega)
        hcontent (.of_lexed hclose (by decide))
      rw [htrim]
      exact closedBy_of_lexed (s := .rightParen) hread hclose
    | record fields =>
      obtain ⟨mid, htrim, hmid⟩ := lexed_cons_iff.1 hlexed
      obtain ⟨close, hfields, hclose⟩ := lexed_append_iff.1 hmid
      have hread := items_of_separated <| separated_fields ih fields
        (by have := congrArg List.length htrim; simp [Token.text, Sign.text] at this; omega)
        hfields (.of_lexed hclose (by decide))
      rw [htrim]
      show (closedBy Sign.rightBrace.text _ mid).map _ = _
      rw [closedBy_of_lexed (s := .rightBrace) hread hclose]
      rfl

/-- A printed tree is read as its expression. -/
theorem parse?_of_printed (u : Alternatives) {text : String} (h : Printed u.tokens text.toList) :
    parse? text = some u.expr := by
  obtain ⟨rest, hlexed, hblank⟩ := h
  have hread := alternatives_of_lexed (readsAtoms (text.toList.length + 1)) u (Nat.lt_succ_self _)
    hlexed (.inl hblank)
  simp only [parse?, hread, hblank, if_true]

end TypeSyntax
end ApiDoc
