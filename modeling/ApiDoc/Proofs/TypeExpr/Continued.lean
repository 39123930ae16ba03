/-
Reading type expressions from texts that go on.

No token holds a comma or a closing parenthesis unless it is one, so what a step reads it reads also if the
text goes on with one of them (`Stops`), and if it may nest deeper (`base_carries`).  The part of the text
that a step takes leaves no bracket and no quote open (`Closed`), so nothing inside of brackets is taken for
a sign of the expression around them.
-/
import ApiDoc.Proofs.TypeExpr.Completeness
import ApiDoc.Proofs.TypeExpr.Soundness

namespace ApiDoc
namespace TypeSyntax

open Text Comment TypeExpr

/-! ### Closed texts -/

def bracketPairs : List (Char × Char) := [('(', ')'), ('[', ']'), ('\x7b', '\x7d'), ('<', '>')]

def encloses (c : Char) : Bool :=
  c == '"' || c == '\'' || bracketPairs.any fun p => c == p.1 || c == p.2

/-- No bracket and no quote of the text is left open. -/
inductive Closed : List Char → Prop where
  | nil : Closed []
  | plain {c : Char} {cs : List Char} (hc : encloses c = false) (h : Closed cs) : Closed (c :: cs)
  | quoted {quote : Char} {body cs : List Char} (hquote : quote = '"' ∨ quote = '\'')
      (hbody : QuotedBody quote body) (h : Closed cs) : Closed (quote :: (body ++ quote :: cs))
  | bracketed {left right : Char} {inner cs : List Char} (hpair : (left, right) ∈ bracketPairs)
      (hinner : Closed inner) (h : Closed cs) : Closed (left :: (inner ++ right :: cs))

theorem Closed.append {cs ds : List Char} (h : Closed cs) (h' : Closed ds) : Closed (cs ++ ds) := by
  induction h with
  | nil => exact h'
  | plain hc _ ih => exact .plain hc ih
  | quoted hquote hbody _ ih =>
    rw [List.cons_append, List.append_assoc, List.cons_append]
    exact .quoted hquote hbody ih
  | bracketed hpair hinner _ _ ih =>
    rw [List.cons_append, List.append_assoc, List.cons_append]
    exact .bracketed hpair hinner ih

theorem closed_of_plain {cs : List Char} (h : ∀ c ∈ cs, encloses c = false) : Closed cs := by
  induction cs with
  | nil => exact .nil
  | cons c cs ih =>
    exact .plain (h c List.mem_cons_self) (ih fun d hd => h d (List.mem_cons_of_mem c hd))

theorem closed_of_any {cs : List Char} (h : cs.any encloses = false) : Closed cs :=
  closed_of_plain fun c hc => Bool.eq_false_iff.2 (List.any_eq_false.1 h c hc)

theorem encloses_of_isBlank {c : Char} (h : isBlank c = true) : encloses c = false :=
  eq_false_of_isBlank (by decide +kernel) h

theorem encloses_of_isNameChar {c : Char} (h : isNameChar c = true) : encloses c = false := by
  rw [Bool.eq_false_iff]
  intro hc
  have hnone : "\"'()[]\x7b\x7d<>".toList.any isNameChar = false := by decide
  have hmem : c ∈ "\"'()[]\x7b\x7d<>".toList := by
    simpa [encloses, bracketPairs, or_assoc] using hc
  exact List.any_eq_false.1 hnone c hmem h

/-- The rest is what is left of the text when a closed text is taken from its front. -/
def Takes (cs rest : List Char) : Prop := ∃ text, Closed text ∧ cs = text ++ rest

namespace Takes

theorem refl (cs : List Char) : Takes cs cs := ⟨[], .nil, rfl⟩

theorem trans {cs mid rest : List Char} (h : Takes cs mid) (h' : Takes mid rest) : Takes cs rest := by
  obtain ⟨text, htext, rfl⟩ := h
  obtain ⟨text', htext', rfl⟩ := h'
  exact ⟨text ++ text', htext.append htext', (List.append_assoc text text' rest).symm⟩

theorem length_le {cs rest : List Char} (h : Takes cs rest) : rest.length ≤ cs.length := by
  obtain ⟨text, -, rfl⟩ := h
  rw [List.length_append]
  exact Nat.le_add_left _ _

theorem of_trimStart {cs rest : List Char} (h : Takes (trimStart cs) rest) : Takes cs rest := by
  refine .trans ⟨cs.takeWhile isBlank, closed_of_plain fun c hc => ?_, ?_⟩ h
  · exact encloses_of_isBlank (List.mem_takeWhile_imp hc)
  · exact List.takeWhile_append_dropWhile.symm

theorem trimStart_eq_nil {cs rest : List Char} (h : Takes cs rest) (hcs : trimStart cs = []) :
    trimStart rest = [] := by
  obtain ⟨text, -, rfl⟩ := h
  rw [trimStart, List.dropWhile_eq_nil_iff] at hcs ⊢
  exact fun c hc => hcs c (List.mem_append_right text hc)

theorem cons {c : Char} (hc : encloses c = false) (cs : List Char) : Takes (c :: cs) cs :=
  ⟨[c], .plain hc .nil, rfl⟩

end Takes

/-! ### Tokens -/

theorem trimStart_of_eat? {token : String} {cs rest : List Char} (h : eat? token cs = some rest) :
    trimStart cs = token.toList ++ rest :=
  (List.isPrefixOf?_eq_some_iff_append_eq.1 h).symm

theorem takes_of_eat? {token : String} {cs rest : List Char} (h : eat? token cs = some rest)
    (htoken : token.toList.any encloses = false) : Takes cs rest :=
  .of_trimStart ⟨token.toList, closed_of_any htoken, trimStart_of_eat? h⟩

/-- What stands between two brackets is closed with them. -/
theorem Takes.enclosed {l r : Char} (hpair : (l, r) ∈ bracketPairs) {cs mid rest : List Char}
    (h : Takes cs mid) (hclose : trimStart mid = r :: rest) : Takes (l :: cs) rest := by
  obtain ⟨text, htext, hmid⟩ : Takes cs (r :: rest) := h.trans (.of_trimStart (hclose ▸ .refl _))
  exact ⟨l :: (text ++ [r]), .bracketed hpair htext .nil, by rw [hmid]; simp⟩

def isStop (c : Char) : Bool := c == ',' || c == ')'

/-- The text ends, or goes on with a comma or a closing parenthesis. -/
def Stops (k : List Char) : Prop := ∀ c ∈ k.head?, c = ',' ∨ c = ')'

theorem Stops.head_eq_false {k : List Char} (hk : Stops k) {p : Char → Bool} (hcomma : p ',' = false)
    (hparen : p ')' = false) : ∀ c ∈ k.head?, p c = false := by
  intro c hc
  rcases hk c hc with rfl | rfl
  · exact hcomma
  · exact hparen

section

variable {k : List Char} (hk : Stops k)
include hk

theorem trimStart_append_stops (cs : List Char) : trimStart (cs ++ k) = trimStart cs ++ k :=
  dropWhile_append_of_head (hk.head_eq_false rfl rfl) cs

theorem dropText?_append_stops {part : List Char} (hpart : part.any isStop = false)
    (cs : List Char) : dropText? part (cs ++ k) = (dropText? part cs).map (· ++ k) := by
  induction part generalizing cs with
  | nil => rfl
  | cons c part ih =>
    obtain ⟨hc, hpart⟩ := Bool.or_eq_false_iff.1 hpart
    obtain ⟨hcomma, hparen⟩ := Bool.or_eq_false_iff.1 hc
    cases cs with
    | nil =>
      cases k with
      | nil => rfl
      | cons d k =>
        have hne : (c == d) = false := by
          rcases hk d rfl with rfl | rfl
          · exact hcomma
          · exact hparen
        rw [List.nil_append, dropText?, List.isPrefixOf?, hne]
        rfl
    | cons d cs =>
      rw [List.cons_append, dropText?, dropText?, List.isPrefixOf?, List.isPrefixOf?]
      split
      · exact ih hpart cs
      · rfl

theorem eat?_append_stops {token : String} (htoken : token.toList.any isStop = false)
    (cs : List Char) : eat? token (cs ++ k) = (eat? token cs).map (· ++ k) := by
  rw [eat?, trimStart_append_stops hk, dropText?_append_stops hk htoken, eat?]

theorem eatAny?_append_stops {tokens : List String}
    (htokens : ∀ t ∈ tokens, t.toList.any isStop = false) (cs : List Char) :
    eatAny? tokens (cs ++ k) = (eatAny? tokens cs).map (· ++ k) := by
  induction tokens with
  | nil => rfl
  | cons t tokens ih =>
    rw [eatAny?, eatAny?, List.findSome?_cons, List.findSome?_cons,
      eat?_append_stops hk (htokens t List.mem_cons_self)]
    cases eat? t cs with
    | some rest => rfl
    | none => exact ih fun u hu => htokens u (List.mem_cons_of_mem t hu)

/-- Any token that is read is read from the continued text, the comma and the parenthesis too. -/
theorem eat?_append_of_some {token : String} {cs rest : List Char} (h : eat? token cs = some rest) :
    eat? token (cs ++ k) = some (rest ++ k) := by
  rw [eat?, trimStart_append_stops hk, trimStart_of_eat? h, List.append_assoc]
  exact List.isPrefixOf?_eq_some_iff_append_eq.2 rfl

omit hk in
/-- A closing parenthesis is not read if another character stands in its place. -/
theorem eat?_rightParen_eq_none {cs ds : List Char} {c : Char} (htrim : trimStart cs = c :: ds)
    (hc : c ≠ ')') : eat? ")" cs = none := by
  rw [eat?, htrim, Option.eq_none_iff_forall_ne_some]
  intro rest hrest
  exact hc (List.cons.inj (List.isPrefixOf?_eq_some_iff_append_eq.1 hrest)).1.symm

theorem eat?_rightParen_append {cs : List Char} (h : eat? ")" cs = none) (hcs : trimStart cs ≠ []) :
    eat? ")" (cs ++ k) = none := by
  obtain ⟨c, ds, htrim⟩ := List.exists_cons_of_ne_nil hcs
  have htrimmed : trimStart (cs ++ k) = c :: (ds ++ k) := by
    rw [trimStart_append_stops hk, htrim]
    rfl
  refine eat?_rightParen_eq_none htrimmed ?_
  rintro rfl
  rw [eat?, htrim] at h
  cases h

/-! ### Words and literals -/

theorem startsName_append_stops (cs : List Char) : startsName (cs ++ k) = startsName cs := by
  cases cs with
  | nil =>
    cases k with
    | nil => rfl
    | cons c k => exact hk.head_eq_false (p := isNameChar) (by decide) (by decide) c rfl
  | cons c cs => rfl

theorem takeChain_append_stops (cs : List Char) :
    takeChain (cs ++ k) = ((takeChain cs).1, (takeChain cs).2 ++ k) := by
  induction cs with
  | nil =>
    refine takeChain_of_endsWord ⟨startsName_append_stops hk [], fun next hnext => ?_⟩
    rw [List.nil_append] at hnext
    rcases hk '.' (by rw [hnext]; rfl) with h | h
    · exact absurd h (by decide)
    · exact absurd h (by decide)
  | cons c cs ih =>
    rw [List.cons_append, takeChain, takeChain, startsName_append_stops hk, ih]
    split
    · rfl
    · rfl

theorem chain?_append_stops {cs name rest : List Char} (h : chain? cs = some (name, rest)) :
    chain? (cs ++ k) = some (name, rest ++ k) := by
  rw [chain?] at h ⊢
  rw [startsName_append_stops hk, takeChain_append_stops hk]
  split at h
  · next hname =>
    rw [if_pos hname, Option.some.inj h]
  · cases h

theorem afterFunctionWord?_append_stops (cs : List Char) :
    afterFunctionWord? (cs ++ k) = (afterFunctionWord? cs).map (· ++ k) := by
  rw [afterFunctionWord?, afterFunctionWord?, dropText?_append_stops hk (by decide)]
  cases dropText? "function".toList cs with
  | none => rfl
  | some rest =>
    have hhead : ((trimStart (rest ++ k)).head? == some '(') = ((trimStart rest).head? == some '(') := by
      rw [trimStart_append_stops hk]
      cases trimStart rest with
      | cons c cs => rfl
      | nil =>
        cases k with
        | nil => rfl
        | cons c k =>
          rcases hk c rfl with rfl | rfl
          · rfl
          · rfl
    simp only [Option.map_some, hhead]
    split
    · rfl
    · rfl

theorem afterPlaces_append_stops (cs : List Char) : afterPlaces (cs ++ k) = afterPlaces cs ++ k := by
  have hdigit : ∀ c ∈ k.head?, isDigit c = false := hk.head_eq_false rfl rfl
  have hother : ∀ (c : Char) (ds : List Char), c ≠ '.' → afterPlaces (c :: ds) = c :: ds := by
    intro c ds hc
    unfold afterPlaces
    split
    · next heq => exact absurd (List.cons.inj heq).1 hc
    · rfl
  cases cs with
  | nil =>
    cases k with
    | nil => rfl
    | cons c k =>
      rcases hk c rfl with rfl | rfl
      · exact hother ',' k (by decide)
      · exact hother ')' k (by decide)
  | cons c ds =>
    by_cases hc : c = '.'
    · subst hc
      cases ds with
      | nil =>
        cases k with
        | nil => rfl
        | cons d k =>
          rw [List.singleton_append, afterPlaces, hdigit d rfl]
          rfl
      | cons d ds =>
        rw [List.cons_append, List.cons_append, afterPlaces, afterPlaces]
        split
        · exact dropWhile_append_of_head hdigit ds
        · rfl
    · rw [List.cons_append, hother c _ hc, hother c _ hc]
      rfl

theorem afterNumber_append_stops {cs rest : List Char} (h : afterNumber cs = some rest) :
    afterNumber (cs ++ k) = some (rest ++ k) := by
  have hskip : skipChar '-' cs ≠ [] → skipChar '-' (cs ++ k) = skipChar '-' cs ++ k := by
    intro hne
    cases cs with
    | nil => exact absurd rfl hne
    | cons c cs =>
      rw [List.cons_append, skipChar, skipChar]
      split
      · rfl
      · rfl
  simp only [afterNumber] at h ⊢
  split at h
  · cases h
  · next c ds hds =>
    rw [hds] at h
    rw [hskip (by rw [hds]; exact List.cons_ne_nil c ds), hds]
    split at h
    · next hc =>
      rw [List.cons_append]
      simp only
      rw [if_pos hc, ← List.cons_append, dropWhile_append_of_head (hk.head_eq_false rfl rfl),
        afterPlaces_append_stops hk, startsName_append_stops hk]
      split at h
      · cases h
      · next hend =>
        rw [if_neg hend, Option.some.inj h]
    · cases h

end

/-! ### Steps -/

/-- What the first step reads, the second one reads from the text that goes on.  What it takes is closed. -/
def Carries {α : Type} (k : List Char) (p q : Step α) : Prop :=
  ∀ ⦃cs rest : List Char⦄ ⦃a : α⦄, p cs = some (a, rest) →
    q (cs ++ k) = some (a, rest ++ k) ∧ Takes cs rest

theorem Carries.map {α β : Type} {k : List Char} {p q : Step α} (h : Carries k p q) (f : α → β) :
    Carries k (fun cs => (p cs).map fun r => (f r.1, r.2)) fun cs => (q cs).map fun r => (f r.1, r.2) := by
  intro cs rest b hread
  obtain ⟨⟨a, rest'⟩, hitem, heq⟩ := Option.map_eq_some_iff.1 hread
  cases heq
  obtain ⟨hcontinued, htakes⟩ := h hitem
  dsimp only
  rw [hcontinued]
  exact ⟨rfl, htakes⟩

/-- A token in front decides between two steps. -/
theorem Carries.marked {α : Type} {k : List Char} (hk : Stops k) (token : String)
    (hstop : token.toList.any isStop = false) (hplain : token.toList.any encloses = false)
    {p q marked marked' : Step α} (hmarked : Carries k marked marked') (h : Carries k p q) :
    Carries k
      (fun cs => match eat? token cs with
        | some rest => marked rest
        | none => p cs)
      fun cs => match eat? token cs with
        | some rest => marked' rest
        | none => q cs := by
  intro cs rest a hread
  dsimp only at hread ⊢
  rw [eat?_append_stops hk hstop]
  split at hread
  · next mid heat =>
    obtain ⟨hcontinued, htakes⟩ := hmarked hread
    rw [heat]
    exact ⟨hcontinued, (takes_of_eat? heat hplain).trans htakes⟩
  · next hnone =>
    rw [hnone]
    exact h hread

/-- A token behind decides between two results. -/
theorem Carries.trailed {α β : Type} {k : List Char} {p q : Step α} (h : Carries k p q) (hk : Stops k)
    (token : String) (hstop : token.toList.any isStop = false)
    (hplain : token.toList.any encloses = false) (f g : α → β) :
    Carries k
      (fun cs => (p cs).map fun r => match eat? token r.2 with
        | some rest => (f r.1, rest)
        | none => (g r.1, r.2))
      fun cs => (q cs).map fun r => match eat? token r.2 with
        | some rest => (f r.1, rest)
        | none => (g r.1, r.2) := by
  intro cs rest b hread
  obtain ⟨⟨a, mid⟩, hitem, heq⟩ := Option.map_eq_some_iff.1 hread
  obtain ⟨hcontinued, htakes⟩ := h hitem
  dsimp only at heq ⊢
  rw [hcontinued, Option.map_some]
  dsimp only
  rw [eat?_append_stops hk hstop]
  split at heq
  · next rest' heat =>
    cases heq
    rw [heat]
    exact ⟨rfl, htakes.trans (takes_of_eat? heat hplain)⟩
  · next hnone =>
    cases heq
    rw [hnone]
    exact ⟨rfl, htakes⟩

theorem quotedLiteral_carries {quote : Char} (hquote : quote = '"' ∨ quote = '\'') {cs rest : List Char}
    {t : TypeExpr} (h : quotedLiteral (quote :: cs) = some (t, rest)) (k : List Char) :
    quotedLiteral (quote :: cs ++ k) = some (t, rest ++ k) ∧ Takes (quote :: cs) rest := by
  obtain ⟨rest', hafter, heq⟩ := Option.map_eq_some_iff.1 h
  obtain ⟨body, hbody, rfl⟩ := body_of_afterQuoted hafter
  have hread := quotedLiteral_eq hquote hbody
  have htext : ∀ more : List Char,
      quote :: (body ++ [quote]) ++ more = quote :: (body ++ quote :: more) := by
    intro more
    rw [List.cons_append, List.append_assoc, List.singleton_append]
  rw [← htext, hread] at h
  cases h
  refine ⟨?_, quote :: (body ++ [quote]), .quoted hquote hbody .nil, (htext rest).symm⟩
  rw [← htext, List.append_assoc, hread]

theorem closed_of_number {number : List Char} (h : IsNumber number) : Closed number := by
  obtain ⟨sign, digits, places, hsign, hdigits, hplaces, rfl⟩ := h
  have hclosed : ∀ {ds : List Char}, IsDigits ds → Closed ds := fun hds =>
    closed_of_plain fun c hc => encloses_of_isNameChar (isNameChar_of_isDigit (hds.2 c hc))
  refine .append ?_ (.append (hclosed hdigits) ?_)
  · rcases hsign with rfl | rfl
    · exact .nil
    · exact .plain rfl .nil
  · rcases hplaces with rfl | ⟨ds, hds, rfl⟩
    · exact .nil
    · exact .plain rfl (hclosed hds)

theorem TypeName.closed (n : TypeName) : Closed n.text := by
  refine closed_of_plain fun c hc => ?_
  rcases n.name_or_dot hc with hname | rfl
  · exact encloses_of_isNameChar hname
  · rfl

section

variable {k : List Char} (hk : Stops k)
include hk

theorem numberLiteral_carries : Carries k numberLiteral numberLiteral := by
  intro cs rest t h
  obtain ⟨rest', hafter, heq⟩ := Option.map_eq_some_iff.1 h
  obtain ⟨number, hnumber, rfl⟩ := number_of_afterNumber hafter
  have hcontinued := afterNumber_append_stops hk hafter
  rw [List.append_assoc] at hcontinued
  rw [numberLiteral, literalStep_eq hafter] at h
  cases h
  refine ⟨?_, number, closed_of_number hnumber, rfl⟩
  rw [List.append_assoc]
  exact literalStep_eq hcontinued

omit hk in
theorem takes_of_brackets {cs rest : List Char} (h : eat? "[]" cs = some rest) : Takes cs rest := by
  refine .of_trimStart ?_
  rw [trimStart_of_eat? h]
  exact Takes.enclosed (l := '[') (r := ']') (by decide) (.refl (']' :: rest)) rfl

theorem brackets_carries {n m : Nat} {cs : List Char} (hn : cs.length ≤ n) (hm : (cs ++ k).length ≤ m) :
    brackets m (cs ++ k) = ((brackets n cs).1, (brackets n cs).2 ++ k) ∧ Takes cs (brackets n cs).2 := by
  have hnone : ∀ {m : Nat} {cs : List Char}, eat? "[]" cs = none →
      brackets m (cs ++ k) = (0, cs ++ k) := by
    intro m cs hcs
    cases m with
    | zero => rfl
    | succ m =>
      rw [brackets, eat?_append_stops hk (by decide), hcs]
      rfl
  induction n generalizing m cs with
  | zero =>
    obtain rfl := List.length_eq_zero_iff.1 (Nat.le_zero.1 hn)
    exact ⟨hnone rfl, .refl []⟩
  | succ n ih =>
    rw [brackets]
    cases heat : eat? "[]" cs with
    | none => exact ⟨hnone heat, .refl cs⟩
    | some rest =>
      have hshorter : rest.length < cs.length := (lexed_of_eat? (s := .brackets) heat).length_lt
      rw [List.length_append] at hm
      obtain ⟨m, rfl⟩ : ∃ m', m = m' + 1 := ⟨m - 1, by omega⟩
      have hlength : (rest ++ k).length ≤ m := by
        rw [List.length_append]
        omega
      have hshort : rest.length ≤ n := by omega
      obtain ⟨hread, htakes⟩ := ih hshort hlength
      rw [brackets, eat?_append_of_some hk heat]
      simp only
      rw [hread]
      exact ⟨rfl, (takes_of_brackets heat).trans htakes⟩

/-! ### Lists of items -/

/-- A separator that is read is read from the text that goes on. -/
def Separates (k : List Char) (separators : List String) : Prop :=
  ∀ {cs rest : List Char}, eatAny? separators cs = some rest →
    eatAny? separators (cs ++ k) = some (rest ++ k) ∧ Takes cs rest ∧ rest.length < cs.length

theorem separates_comma : Separates k [","] := by
  intro cs rest h
  obtain ⟨-, hlexed⟩ := comma_of_eatAny? h
  rw [eatAny?_comma] at h
  exact ⟨eatAny?_comma.trans (eat?_append_of_some hk h), takes_of_eat? h (by decide), hlexed.length_lt⟩

theorem separates_alternatives : Separates k ["/", "|"] := by
  intro cs rest h
  obtain ⟨s, hlexed⟩ := separator_of_eatAny? h
  refine ⟨?_, takes_of_eat? (eat?_eq_some_iff.2 hlexed) ?_, hlexed.length_lt⟩
  · rw [eatAny?_append_stops hk (by decide), h]
    rfl
  · cases s with
    | slash => decide
    | bar => decide

omit hk in
theorem separated_of_moreItems {α : Type} {separators : List String} {item : Step α}
    (hitem : ∀ {cs rest : List Char} {a : α}, item cs = some (a, rest) → rest.length ≤ cs.length)
    (hseparators : ∀ {cs rest : List Char}, eatAny? separators cs = some rest →
      rest.length < cs.length)
    {count : Nat} {cs mid rest : List Char} {a : α} {as : List α} (hread : item cs = some (a, mid))
    (hcount : mid.length ≤ count) (h : moreItems separators item count mid = some (as, rest)) :
    Separated separators item cs (a :: as) rest := by
  induction count generalizing cs mid a as with
  | zero =>
    cases h
    refine .one hread (hitem hread) (Option.eq_none_iff_forall_ne_some.2 fun next hnext => ?_)
    exact absurd (hseparators hnext) (by omega)
  | succ count ih =>
    rw [moreItems] at h
    split at h
    · next hend =>
      cases h
      exact .one hread (hitem hread) hend
    · next next hnext =>
      split at h
      · cases h
      · next a' mid' hread' =>
        split at h
        · cases h
        · next as' rest' hmore =>
          cases h
          have hshorter := hseparators hnext
          have hlength := hitem hread'
          exact .more hread (hitem hread) hnext hshorter (ih hread' (by omega) hmore)

omit hk in
theorem length_append_mono {cs ds : List Char} (h : cs.length ≤ ds.length) (k : List Char) :
    (cs ++ k).length ≤ (ds ++ k).length := by
  rw [List.length_append, List.length_append]
  exact Nat.add_le_add_right h _

omit hk in
theorem Separated.carries {α : Type} {separators : List String} {p q : Step α} (h : Carries k p q)
    (hseparators : Separates k separators) {cs rest : List Char} {as : List α}
    (hseparated : Separated separators p cs as rest) (hend : eatAny? separators (rest ++ k) = none) :
    Separated separators q (cs ++ k) as (rest ++ k) ∧ Takes cs rest := by
  induction hseparated with
  | one hitem hshort _ =>
    obtain ⟨hread, htakes⟩ := h hitem
    exact ⟨.one hread (length_append_mono hshort k) hend, htakes⟩
  | @more cs mid next rest a as hitem hshort hnext hshorter _ ih =>
    obtain ⟨hread, htakes⟩ := h hitem
    obtain ⟨heat, hover, -⟩ := hseparators hnext
    obtain ⟨hmore, hrest⟩ := ih hend
    have hless : (next ++ k).length < (mid ++ k).length := by
      rw [List.length_append, List.length_append]
      exact Nat.add_lt_add_right hshorter _
    exact ⟨.more hread (length_append_mono hshort k) heat hless hmore,
      htakes.trans (hover.trans hrest)⟩

omit hk in
theorem separated_of_items {α : Type} {separators : List String} {p q : Step α} (h : Carries k p q)
    (hseparators : Separates k separators) {cs rest : List Char} {as : List α}
    (hread : items separators p cs = some (as, rest)) : Separated separators p cs as rest := by
  rw [items] at hread
  split at hread
  · cases hread
  · next a mid hitem =>
    split at hread
    · cases hread
    · next as' rest' hmore =>
      cases hread
      exact separated_of_moreItems (fun hitem => (h hitem).2.length_le)
        (fun hnext => (hseparators hnext).2.2) hitem le_rfl hmore

omit hk in
theorem Separated.end_eq_none {α : Type} {separators : List String} {p : Step α} {cs rest : List Char}
    {as : List α} (h : Separated separators p cs as rest) : eatAny? separators rest = none := by
  induction h with
  | one _ _ hend => exact hend
  | more _ _ _ _ _ ih => exact ih

omit hk in
theorem items_carries {α : Type} {separators : List String} {p q : Step α} (h : Carries k p q)
    (hseparators : Separates k separators) {cs rest : List Char} {as : List α}
    (hread : items separators p cs = some (as, rest)) (hend : eatAny? separators (rest ++ k) = none) :
    items separators q (cs ++ k) = some (as, rest ++ k) ∧ Takes cs rest := by
  obtain ⟨hcontinued, htakes⟩ :=
    (separated_of_items h hseparators hread).carries h hseparators hend
  exact ⟨items_of_separated hcontinued, htakes⟩

theorem closedBy_carries {α : Type} {p q : Step α} {token : String} {cs rest : List Char} {a : α}
    (h : ∀ {mid : List Char}, p cs = some (a, mid) → eat? token mid = some rest →
      q (cs ++ k) = some (a, mid ++ k) ∧ Takes cs mid)
    (hread : closedBy token p cs = some (a, rest)) :
    closedBy token q (cs ++ k) = some (a, rest ++ k) ∧
      ∃ mid, Takes cs mid ∧ trimStart mid = token.toList ++ rest := by
  obtain ⟨⟨b, mid⟩, hitem, hclose⟩ := Option.bind_eq_some_iff.1 hread
  obtain ⟨rest', heat, heq⟩ := Option.map_eq_some_iff.1 hclose
  cases heq
  obtain ⟨hcontinued, htakes⟩ := h hitem heat
  refine ⟨?_, mid, htakes, trimStart_of_eat? heat⟩
  rw [closedBy, hcontinued, Option.bind_some, eat?_append_of_some hk heat, Option.map_some]

/-- Behind the last item of a list in brackets stands the closing one, so a comma further behind is not
read. -/
theorem listed_carries {α : Type} {p q : Step α} (h : Carries k p q) {s : Sign} (hs : s ≠ .comma)
    {cs rest : List Char} {as : List α} (hread : closedBy s.text (items [","] p) cs = some (as, rest)) :
    closedBy s.text (items [","] q) (cs ++ k) = some (as, rest ++ k) ∧
      ∃ mid, Takes cs mid ∧ trimStart mid = s.text.toList ++ rest := by
  refine closedBy_carries hk (fun {mid} hitems hclose => ?_) hread
  have hsign : Lexed [.sign s] (mid ++ k) (rest ++ k) := lexed_of_eat? (eat?_append_of_some hk hclose)
  have hend : eatAny? [","] (mid ++ k) = none := by
    rw [eatAny?_comma]
    exact hsign.eat?_eq_none fun heq => hs (by cases heq; rfl)
  exact items_carries h (separates_comma hk) hitems hend

/-! ### Nested expressions -/

variable {base base' : Step TypeExpr} (h : Carries k base base')
include h

theorem arrayType_carries : Carries k (arrayType base) (arrayType base') := by
  intro cs rest t hread
  rw [arrayType] at hread ⊢
  rw [trimStart_append_stops hk]
  split at hread
  · cases hread
  · next t' mid hbase =>
    cases hread
    obtain ⟨hcontinued, htakes⟩ := h hbase
    obtain ⟨hmore, hrest⟩ := brackets_carries hk (n := mid.length) le_rfl le_rfl
    rw [hcontinued]
    simp only
    rw [hmore]
    exact ⟨rfl, htakes.of_trimStart.trans hrest⟩

theorem markedType_carries : Carries k (markedType base) (markedType base') := by
  have harray := arrayType_carries hk h
  have hbang := Carries.marked hk "!" (by decide) (by decide) (harray.map nonNull) harray
  exact .marked hk "?" (by decide) (by decide) (harray.map nullable) hbang

theorem repeatedType_carries : Carries k (repeatedType base) (repeatedType base') := by
  have hmark := markedType_carries hk h
  refine .marked hk "..." (by decide) (by decide) (hmark.map repeated) ?_
  intro cs rest t hread
  dsimp only at hread ⊢
  split at hread
  · cases hread
  · next t' mid hmarked =>
    obtain ⟨hcontinued, htakes⟩ := hmark hmarked
    rw [hcontinued]
    simp only
    rw [eat?_append_stops hk (by decide)]
    split at hread
    · next rest' heat =>
      cases hread
      rw [heat]
      exact ⟨rfl, htakes.trans (takes_of_eat? heat (by decide))⟩
    · next hnone =>
      cases hread
      rw [hnone]
      exact ⟨rfl, htakes⟩

theorem alternatives_carries : Carries k (alternatives base) (alternatives base') := by
  intro cs rest t hread
  rw [alternatives] at hread ⊢
  split at hread
  · next t' ts rest' hitems =>
    cases hread
    have hitem : Carries k (repeatedType base) (repeatedType base') := repeatedType_carries hk h
    have hnone := (separated_of_items hitem (separates_alternatives hk) hitems).end_eq_none
    have hend : eatAny? ["/", "|"] (rest ++ k) = none := by
      rw [eatAny?_append_stops hk (by decide), hnone]
      rfl
    obtain ⟨hcontinued, htakes⟩ := items_carries hitem (separates_alternatives hk) hitems hend
    rw [hcontinued]
    exact ⟨rfl, htakes⟩
  · cases hread

end

section

variable {k : List Char} (hk : Stops k) {nested nested' : Step TypeExpr} (h : Carries k nested nested')
include hk h

theorem typeArguments_carries : Carries k (typeArguments nested) (typeArguments nested') := by
  intro cs rest ts hread
  rw [typeArguments] at hread ⊢
  rw [eatAny?_append_stops hk (by decide)]
  split at hread
  · next hnone =>
    cases hread
    rw [hnone]
    exact ⟨rfl, .refl cs⟩
  · next mid heat =>
    obtain ⟨hcontinued, close, htakes, hclose⟩ := listed_carries hk h (s := .rightAngle) (by decide) hread
    rw [heat]
    refine ⟨hcontinued, ?_⟩
    have hangle : Takes ('<' :: mid) rest := htakes.enclosed (r := '>') (by decide) hclose
    simp only [eatAny?, List.findSome?_cons, List.findSome?_nil] at heat
    split at heat
    · next mid' hdotted =>
      cases heat
      refine .of_trimStart ?_
      rw [trimStart_of_eat? hdotted]
      exact (Takes.cons (c := '.') rfl _).trans hangle
    · split at heat
      · next mid' hplain =>
        cases heat
        refine .of_trimStart ?_
        rw [trimStart_of_eat? hplain]
        exact hangle
      · cases heat

theorem namedType_carries {cs rest : List Char} {t : TypeExpr}
    (hstart : ∀ c ∈ cs.head?, isDigit c = false) (hread : namedType nested cs = some (t, rest)) :
    namedType nested' (cs ++ k) = some (t, rest ++ k) ∧ Takes cs rest := by
  rw [namedType] at hread ⊢
  split at hread
  · cases hread
  · next name mid hchain =>
    obtain ⟨⟨ts, rest'⟩, hargs, heq⟩ := Option.map_eq_some_iff.1 hread
    cases heq
    obtain ⟨hcontinued, htakes⟩ := typeArguments_carries hk h hargs
    rw [chain?_append_stops hk hchain]
    simp only
    rw [hcontinued]
    obtain ⟨n, -, rfl⟩ := typeName_of_chain? hchain hstart
    exact ⟨rfl, .trans ⟨n.text, n.closed, rfl⟩ htakes⟩

theorem field_carries : Carries k (field nested) (field nested') := by
  intro cs rest f hread
  have htake : ∀ ds : List Char, takeChars isNameChar (ds ++ k) =
      ((takeChars isNameChar ds).1, (takeChars isNameChar ds).2 ++ k) := by
    intro ds
    have hend : ∀ c ∈ k.head?, isNameChar c = false := hk.head_eq_false (by decide) (by decide)
    rw [takeChars, takeWhile_append_of_head hend, dropWhile_append_of_head hend]
    rfl
  simp only [field] at hread ⊢
  rw [trimStart_append_stops hk, htake]
  simp only
  split at hread
  · cases hread
  · next hkey =>
    have hname : Takes cs (takeChars isNameChar (trimStart cs)).2 := by
      refine .of_trimStart ⟨_, closed_of_plain fun c hc => ?_, List.takeWhile_append_dropWhile.symm⟩
      exact encloses_of_isNameChar (List.mem_takeWhile_imp hc)
    rw [if_neg hkey, eat?_append_stops hk (by decide)]
    split at hread
    · next hnone =>
      cases hread
      rw [hnone]
      exact ⟨rfl, hname⟩
    · next mid heat =>
      obtain ⟨⟨t', rest'⟩, htype, heq⟩ := Option.map_eq_some_iff.1 hread
      cases heq
      obtain ⟨hcontinued, htakes⟩ := h htype
      rw [heat]
      simp only [Option.map_some]
      rw [hcontinued]
      exact ⟨rfl, hname.trans ((takes_of_eat? heat (by decide)).trans htakes)⟩

theorem recordBody_carries {cs rest : List Char} {t : TypeExpr}
    (hread : recordBody nested cs = some (t, rest)) :
    recordBody nested' (cs ++ k) = some (t, rest ++ k) ∧ Takes ('\x7b' :: cs) rest := by
  obtain ⟨⟨fields, rest'⟩, hclosed, heq⟩ := Option.map_eq_some_iff.1 hread
  cases heq
  have hfield : Carries k (field nested) (field nested') := field_carries hk h
  obtain ⟨hcontinued, mid, htakes, hclose⟩ :=
    listed_carries hk hfield (s := .rightBrace) (by decide) hclosed
  refine ⟨?_, htakes.enclosed (r := '\x7d') (by decide) hclose⟩
  rw [recordBody, show closedBy "\x7d" _ (cs ++ k) = _ from hcontinued]
  rfl

end

/-! ### Function types -/

theorem words_of_namedArgument?_eq_none {nested : Step TypeExpr} {cs : List Char}
    (h : namedArgument? nested cs = none) : eat? "this" cs = none ∧ eat? "new" cs = none := by
  rw [namedArgument?] at h
  split at h
  · cases h
  · next hthis => exact ⟨hthis, Option.map_eq_none_iff.1 h⟩

section

variable {k : List Char} (hk : Stops k) {base base' nested nested' : Step TypeExpr}
  (h : Carries k base base') (hnested : Carries k nested nested')
include hk h hnested

theorem restArgument_carries : Carries k (restArgument base nested) (restArgument base' nested') := by
  intro cs rest a hread
  rw [restArgument] at hread ⊢
  rw [eat?_append_stops hk (by decide)]
  split at hread
  · next mid heat =>
    obtain ⟨⟨t, rest'⟩, hclosed, heq⟩ := Option.map_eq_some_iff.1 hread
    cases heq
    obtain ⟨hcontinued, close, htakes, hclose⟩ :=
      closedBy_carries hk (fun hitem _ => hnested hitem) hclosed
    rw [heat]
    simp only [Option.map_some]
    rw [hcontinued]
    refine ⟨rfl, .of_trimStart ?_⟩
    rw [trimStart_of_eat? heat]
    exact htakes.enclosed (l := '[') (r := ']') (by decide) hclose
  · next hnone =>
    obtain ⟨⟨t, rest'⟩, hmarked, heq⟩ := Option.map_eq_some_iff.1 hread
    cases heq
    obtain ⟨hcontinued, htakes⟩ := markedType_carries hk h hmarked
    rw [hnone]
    simp only [Option.map_none]
    rw [hcontinued]
    exact ⟨rfl, htakes⟩

omit h in
theorem namedArgument?_carries {cs rest : List Char} {a : ArgumentForm × TypeExpr}
    (hread : namedArgument? nested cs = some (some (a, rest))) :
    namedArgument? nested' (cs ++ k) = some (some (a, rest ++ k)) ∧ Takes cs rest := by
  have hword : ∀ {word : String} {form : ArgumentForm} {mid : List Char}, eat? word cs = some mid →
      word.toList.any encloses = false →
      ((eat? ":" mid).bind fun rest => (nested rest).map fun r => ((form, r.1), r.2)) = some (a, rest) →
      ((eat? ":" (mid ++ k)).bind fun rest => (nested' rest).map fun r => ((form, r.1), r.2)) =
        some (a, rest ++ k) ∧ Takes cs rest := by
    intro word form mid heat hplain htyped
    obtain ⟨next, hcolon, htyped⟩ := Option.bind_eq_some_iff.1 htyped
    obtain ⟨hcontinued, htakes⟩ := hnested.map (fun t => (form, t)) htyped
    rw [eat?_append_of_some hk hcolon]
    have hover : Takes cs next := (takes_of_eat? heat hplain).trans (takes_of_eat? hcolon (by decide))
    exact ⟨hcontinued, hover.trans htakes⟩
  simp only [namedArgument?] at hread ⊢
  rw [eat?_append_stops hk (by decide), eat?_append_stops hk (by decide)]
  split at hread
  · next mid hthis =>
    rw [hthis]
    obtain ⟨hcontinued, htakes⟩ := hword hthis (by decide) (Option.some.inj hread)
    exact ⟨congrArg some hcontinued, htakes⟩
  · next hthis =>
    obtain ⟨mid, hnew, hread⟩ := Option.map_eq_some_iff.1 hread
    rw [hthis, hnew]
    obtain ⟨hcontinued, htakes⟩ := hword hnew (by decide) hread
    exact ⟨congrArg some hcontinued, htakes⟩

omit h hnested in
theorem namedArgument?_append_eq_none {cs : List Char} (hthis : eat? "this" cs = none)
    (hnew : eat? "new" cs = none) : namedArgument? nested (cs ++ k) = none := by
  rw [namedArgument?, eat?_append_stops hk (by decide), hthis]
  simp only [Option.map_none]
  rw [eat?_append_stops hk (by decide), hnew]
  rfl

theorem argument_carries : Carries k (argument base nested) (argument base' nested') := by
  intro cs rest a hread
  rw [argument] at hread ⊢
  cases hnamed : namedArgument? nested cs with
  | some r =>
    rw [hnamed] at hread
    obtain rfl : r = some (a, rest) := hread
    obtain ⟨hcontinued, htakes⟩ := namedArgument?_carries hk hnested hnamed
    rw [hcontinued]
    exact ⟨rfl, htakes⟩
  | none =>
    obtain ⟨hthis, hnew⟩ := words_of_namedArgument?_eq_none hnamed
    rw [hnamed] at hread
    rw [namedArgument?_append_eq_none hk hthis hnew]
    exact Carries.marked hk "..." (by decide) (by decide) (restArgument_carries hk h hnested)
      ((repeatedType_carries hk h).trailed hk "=" (by decide) (by decide) _ _) hread

theorem argumentList_carries : Carries k (argumentList base nested) (argumentList base' nested') := by
  intro cs rest args hread
  rw [argumentList] at hread ⊢
  rw [eat?_append_stops hk (by decide)]
  split at hread
  · cases hread
  · next inner hopen =>
    have hall : ∀ {inner' : List Char}, Takes ('(' :: inner) inner' → Takes cs inner' := by
      intro inner' htakes
      refine .of_trimStart ?_
      rw [trimStart_of_eat? hopen]
      exact htakes
    rw [hopen]
    simp only [Option.map_some]
    split at hread
    · next rest' hclose =>
      cases hread
      rw [eat?_append_of_some hk hclose]
      exact ⟨rfl, hall ((Takes.refl inner).enclosed (by decide) (trimStart_of_eat? hclose))⟩
    · next hnonempty =>
      have hargument : Carries k (argument base nested) (argument base' nested') :=
        argument_carries hk h hnested
      obtain ⟨hcontinued, mid, htakes, hclose⟩ :=
        listed_carries hk hargument (s := .rightParen) (by decide) hread
      have hnone : eat? ")" (inner ++ k) = none := by
        refine eat?_rightParen_append hk hnonempty fun hblank => ?_
        rw [htakes.trimStart_eq_nil hblank] at hclose
        cases hclose
      rw [hnone]
      exact ⟨hcontinued, hall (htakes.enclosed (by decide) hclose)⟩

theorem functionBody_carries : Carries k (functionBody base nested) (functionBody base' nested') := by
  intro cs rest t hread
  rw [functionBody] at hread ⊢
  split at hread
  · cases hread
  · next args mid hargs =>
    obtain ⟨hcontinued, htakes⟩ := argumentList_carries hk h hnested hargs
    rw [hcontinued]
    simp only
    rw [eat?_append_stops hk (by decide)]
    split at hread
    · next hnone =>
      cases hread
      rw [hnone]
      exact ⟨rfl, htakes⟩
    · next next heat =>
      obtain ⟨⟨t', rest'⟩, htype, heq⟩ := Option.map_eq_some_iff.1 hread
      cases heq
      obtain ⟨hresult, hrest⟩ := hnested htype
      rw [heat]
      simp only [Option.map_some]
      rw [hresult]
      exact ⟨rfl, htakes.trans ((takes_of_eat? heat (by decide)).trans hrest)⟩

end

theorem takes_of_afterFunctionWord? {cs rest : List Char} (h : afterFunctionWord? cs = some rest) :
    Takes cs rest := by
  rw [afterFunctionWord?] at h
  split at h
  · cases h
  · next mid hword =>
    split at h
    · cases h
      exact ⟨"function".toList, closed_of_any (by decide),
        (List.isPrefixOf?_eq_some_iff_append_eq.1 hword).symm⟩
    · cases h

theorem baseWith_carries {k : List Char} (hk : Stops k) {base base' : Step TypeExpr}
    (h : Carries k base base') : Carries k (baseWith base) (baseWith base') := by
  intro cs rest t hread
  have hnested : Carries k (alternatives base) (alternatives base') := alternatives_carries hk h
  cases cs with
  | nil => cases hread
  | cons c cs =>
    rw [List.cons_append]
    unfold baseWith at hread ⊢
    dsimp only at hread ⊢
    split at hread
    · next hstar =>
      obtain rfl := beq_iff_eq.1 hstar
      cases hread
      exact ⟨rfl, .cons rfl _⟩
    · next hstar =>
      rw [if_neg hstar]
      split at hread
      · next hparen =>
        obtain rfl := beq_iff_eq.1 hparen
        obtain ⟨hcontinued, mid, htakes, hclose⟩ :=
          closedBy_carries hk (fun hitem _ => hnested hitem) hread
        exact ⟨hcontinued, htakes.enclosed (r := ')') (by decide) hclose⟩
      · next hparen =>
        rw [if_neg hparen]
        split at hread
        · next hbrace =>
          obtain rfl := beq_iff_eq.1 hbrace
          exact recordBody_carries hk hnested hread
        · next hbrace =>
          rw [if_neg hbrace]
          split at hread
          · next hquote =>
            rw [if_pos hquote]
            rw [Bool.or_eq_true, beq_iff_eq, beq_iff_eq] at hquote
            exact quotedLiteral_carries hquote hread k
          · next hquote =>
            rw [if_neg hquote]
            split at hread
            · next hnumber =>
              rw [if_pos hnumber]
              exact numberLiteral_carries hk hread
            · next hnumber =>
              rw [if_neg hnumber, ← List.cons_append, afterFunctionWord?_append_stops hk]
              split at hread
              · next mid hword =>
                obtain ⟨hcontinued, htakes⟩ := functionBody_carries hk h hnested hread
                rw [hword]
                exact ⟨hcontinued, (takes_of_afterFunctionWord? hword).trans htakes⟩
              · next hword =>
                rw [hword]
                refine namedType_carries hk hnested (fun d hd => ?_) hread
                cases hd
                simp only [Bool.or_eq_true, not_or, Bool.not_eq_true] at hnumber
                exact hnumber.1

/-- What is read at some depth is read from the text that goes on at any greater depth. -/
theorem base_carries {k : List Char} (hk : Stops k) {depth depth' : Nat} (h : depth ≤ depth') :
    Carries k (base depth) (base depth') := by
  induction depth generalizing depth' with
  | zero =>
    intro cs rest t hread
    cases hread
  | succ depth ih =>
    obtain ⟨depth', rfl⟩ : ∃ n, depth' = n + 1 := ⟨depth' - 1, by omega⟩
    exact baseWith_carries hk (ih (Nat.le_of_succ_le_succ h))

end TypeSyntax
end ApiDoc
