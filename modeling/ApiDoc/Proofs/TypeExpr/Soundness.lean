/-
What is read as a type expression is a printing of one.

Function types are left out: a text without the word that starts them is read by the other steps alone.
What a step consumes are then the tokens of a tree, by induction on the depth as for the converse.
-/
import ApiDoc.Proofs.TypeExpr.Lexeme
import ApiDoc.Proofs.TypeExpr.Syntax

namespace ApiDoc
namespace TypeSyntax

open Text Comment TypeExpr

/-- The text does not hold the word that starts function types. -/
def FunctionFree (cs : List Char) : Prop := ¬ "function".toList <:+: cs

theorem FunctionFree.suffix {cs rest : List Char} (h : FunctionFree cs) (hsuffix : rest <:+ cs) :
    FunctionFree rest := fun hrest => h (hrest.trans hsuffix.isInfix)

theorem FunctionFree.lexed {ts : List Token} {cs rest : List Char} (h : FunctionFree cs)
    (hlexed : Lexed ts cs rest) : FunctionFree rest := h.suffix hlexed.suffix

theorem FunctionFree.afterFunctionWord? {cs : List Char} (h : FunctionFree cs) :
    afterFunctionWord? cs = none := by
  unfold TypeExpr.afterFunctionWord?
  split
  · rfl
  · next rest hrest =>
    rw [dropText?, List.isPrefixOf?_eq_some_iff_append_eq] at hrest
    exact absurd ⟨[], rest, hrest⟩ h

theorem Lexed.append {ts us : List Token} {cs mid rest : List Char} (hts : Lexed ts cs mid)
    (hus : Lexed us mid rest) : Lexed (ts ++ us) cs rest := lexed_append_iff.2 ⟨mid, hts, hus⟩

theorem lexed_of_eat? {s : Sign} {cs rest : List Char} (h : eat? s.text cs = some rest) :
    Lexed [.sign s] cs rest := eat?_eq_some_iff.1 h

theorem lexed_of_closedBy {α : Type} {item : Step α} {s : Sign} {cs rest : List Char} {a : α}
    (h : closedBy s.text item cs = some (a, rest)) :
    ∃ mid, item cs = some (a, mid) ∧ Lexed [.sign s] mid rest := by
  obtain ⟨⟨b, mid⟩, hitem, hclose⟩ := Option.bind_eq_some_iff.1 h
  obtain ⟨rest', heat, heq⟩ := Option.map_eq_some_iff.1 hclose
  cases heq
  exact ⟨mid, hitem, lexed_of_eat? heat⟩

/-! ### Lists of items -/

section

variable {α σ ι : Type} {sign : σ → Sign} {toks : ι → List Token}

/-- The tokens of further items, each after a separator. -/
def tailTokens (sign : σ → Sign) (toks : ι → List Token) (tail : List (σ × ι)) : List Token :=
  tail.flatMap fun p => .sign (sign p.1) :: toks p.2

theorem lexed_of_moreItems {separators : List String} {item : Step α}
    (hseparator : ∀ {cs rest : List Char}, eatAny? separators cs = some rest →
      ∃ s, Lexed [.sign (sign s)] cs rest)
    (hitem : ∀ {cs rest : List Char} {a : α}, FunctionFree cs → item cs = some (a, rest) →
      ∃ i, Lexed (toks i) cs rest)
    {count : Nat} {cs rest : List Char} {as : List α} (hfree : FunctionFree cs)
    (h : moreItems separators item count cs = some (as, rest)) :
    ∃ tail, Lexed (tailTokens sign toks tail) cs rest := by
  induction count generalizing cs as with
  | zero =>
    cases h
    exact ⟨[], .nil _⟩
  | succ count ih =>
    rw [moreItems] at h
    split at h
    · cases h
      exact ⟨[], .nil _⟩
    · next next heat =>
      obtain ⟨s, hs⟩ := hseparator heat
      split at h
      · cases h
      · next a mid hread =>
        obtain ⟨i, hi⟩ := hitem (hfree.lexed hs) hread
        split at h
        · cases h
        · next as' rest' hmore =>
          cases h
          obtain ⟨tail, htail⟩ := ih ((hfree.lexed hs).lexed hi) hmore
          exact ⟨(s, i) :: tail, hs.append (hi.append htail)⟩

theorem lexed_of_items {separators : List String} {item : Step α}
    (hseparator : ∀ {cs rest : List Char}, eatAny? separators cs = some rest →
      ∃ s, Lexed [.sign (sign s)] cs rest)
    (hitem : ∀ {cs rest : List Char} {a : α}, FunctionFree cs → item cs = some (a, rest) →
      ∃ i, Lexed (toks i) cs rest)
    {cs rest : List Char} {as : List α} (hfree : FunctionFree cs)
    (h : items separators item cs = some (as, rest)) :
    ∃ i tail, Lexed (toks i ++ tailTokens sign toks tail) cs rest := by
  rw [items] at h
  split at h
  · cases h
  · next a mid hread =>
    obtain ⟨i, hi⟩ := hitem hfree hread
    split at h
    · cases h
    · next as' rest' hmore =>
      cases h
      obtain ⟨tail, htail⟩ := lexed_of_moreItems hseparator hitem (hfree.lexed hi) hmore
      exact ⟨i, tail, hi.append htail⟩

end

theorem comma_of_eatAny? {cs rest : List Char} (h : eatAny? [","] cs = some rest) :
    ∃ _ : Unit, Lexed [.sign .comma] cs rest := by
  simp only [eatAny?, List.findSome?_cons, List.findSome?_nil] at h
  split at h
  · next rest' heat =>
    cases h
    exact ⟨(), lexed_of_eat? (s := .comma) heat⟩
  · cases h

theorem separator_of_eatAny? {cs rest : List Char} (h : eatAny? ["/", "|"] cs = some rest) :
    ∃ s : Separator, Lexed [.sign s.sign] cs rest := by
  simp only [eatAny?, List.findSome?_cons, List.findSome?_nil] at h
  split at h
  · next rest' heat =>
    cases h
    exact ⟨.slash, lexed_of_eat? (s := .slash) heat⟩
  · split at h
    · next rest' heat =>
      cases h
      exact ⟨.bar, lexed_of_eat? (s := .bar) heat⟩
    · cases h

def Alternatives.ofList (i : Item) : List (Separator × Item) → Alternatives
  | [] => .one i
  | p :: tail => .more i p.1 (ofList p.2 tail)

theorem Alternatives.tokens_ofList (i : Item) (tail : List (Separator × Item)) :
    (ofList i tail).tokens = i.tokens ++ tailTokens Separator.sign Item.tokens tail := by
  induction tail generalizing i with
  | nil => rw [ofList, Alternatives.tokens, tailTokens, List.flatMap_nil, List.append_nil]
  | cons p tail ih =>
    rw [ofList, Alternatives.tokens, ih]
    rfl

def Types.ofList (t : Alternatives) : List (Unit × Alternatives) → Types
  | [] => .one t
  | p :: tail => .more t (ofList p.2 tail)

theorem Types.tokens_ofList (t : Alternatives) (tail : List (Unit × Alternatives)) :
    (ofList t tail).tokens = t.tokens ++ tailTokens (fun _ => .comma) Alternatives.tokens tail := by
  induction tail generalizing t with
  | nil => rw [ofList, Types.tokens, tailTokens, List.flatMap_nil, List.append_nil]
  | cons p tail ih =>
    rw [ofList, Types.tokens, ih]
    rfl

def Fields.ofList (f : Field) : List (Unit × Field) → Fields
  | [] => .one f
  | p :: tail => .more f (ofList p.2 tail)

theorem Fields.tokens_ofList (f : Field) (tail : List (Unit × Field)) :
    (ofList f tail).tokens = f.tokens ++ tailTokens (fun _ => .comma) Field.tokens tail := by
  induction tail generalizing f with
  | nil => rw [ofList, Fields.tokens, tailTokens, List.flatMap_nil, List.append_nil]
  | cons p tail ih =>
    rw [ofList, Fields.tokens, ih]
    rfl

/-! ### Steps over a base that reads nothing but atoms -/

theorem lexed_of_brackets (count : Nat) (cs : List Char) :
    Lexed (List.replicate (brackets count cs).1 (.sign .brackets)) cs (brackets count cs).2 := by
  fun_induction brackets count cs with
  | case1 cs => exact .nil cs
  | case2 count cs _ => exact .nil cs
  | case3 count cs rest heat r ih => exact (lexed_of_eat? (s := .brackets) heat).append ih

theorem Atom.tokens_eq_cons (a : Atom) : ∃ t ts, a.tokens = t :: ts := by
  cases a <;> exact ⟨_, _, rfl⟩

/-- What the step reads are the tokens of atoms. -/
def OnlyAtoms (step : Step TypeExpr) : Prop :=
  ∀ {cs rest : List Char} {t : TypeExpr}, FunctionFree cs → step cs = some (t, rest) →
    ∃ a : Atom, Lexed a.tokens cs rest

section

variable {step : Step TypeExpr} (h : OnlyAtoms step) {cs rest : List Char} {t : TypeExpr}
include h

theorem lexed_of_arrayType (hfree : FunctionFree cs) (hread : arrayType step cs = some (t, rest)) :
    ∃ (a : Atom) (n : Nat), Lexed (a.tokens ++ List.replicate n (.sign .brackets)) cs rest := by
  rw [arrayType] at hread
  split at hread
  · cases hread
  · next t' mid hbase =>
    cases hread
    have htrimmed : FunctionFree (trimStart cs) := hfree.suffix (List.dropWhile_suffix _)
    obtain ⟨a, ha⟩ := h htrimmed hbase
    obtain ⟨first, ts, htokens⟩ := a.tokens_eq_cons
    rw [htokens, lexed_trimStart_iff, ← htokens] at ha
    exact ⟨a, _, ha.append (lexed_of_brackets _ mid)⟩

theorem lexed_of_markedType (hfree : FunctionFree cs)
    (hread : markedType step cs = some (t, rest)) :
    ∃ (m : Mark) (a : Atom) (n : Nat),
      Lexed (m.tokens ++ (a.tokens ++ List.replicate n (.sign .brackets))) cs rest := by
  rw [markedType] at hread
  split at hread
  · next mid heat =>
    have hmark := lexed_of_eat? (s := .question) heat
    obtain ⟨⟨t', rest'⟩, harray, heq⟩ := Option.map_eq_some_iff.1 hread
    cases heq
    obtain ⟨a, n, ha⟩ := lexed_of_arrayType h (hfree.lexed hmark) harray
    exact ⟨.nullable, a, n, hmark.append ha⟩
  · split at hread
    · next mid heat =>
      have hmark := lexed_of_eat? (s := .bang) heat
      obtain ⟨⟨t', rest'⟩, harray, heq⟩ := Option.map_eq_some_iff.1 hread
      cases heq
      obtain ⟨a, n, ha⟩ := lexed_of_arrayType h (hfree.lexed hmark) harray
      exact ⟨.nonNull, a, n, hmark.append ha⟩
    · obtain ⟨a, n, ha⟩ := lexed_of_arrayType h hfree hread
      exact ⟨.absent, a, n, ha⟩

theorem lexed_of_repeatedType (hfree : FunctionFree cs)
    (hread : repeatedType step cs = some (t, rest)) : ∃ i : Item, Lexed i.tokens cs rest := by
  rw [repeatedType] at hread
  split at hread
  · next mid heat =>
    have hdots := lexed_of_eat? (s := .dots) heat
    obtain ⟨⟨t', rest'⟩, hmarked, heq⟩ := Option.map_eq_some_iff.1 hread
    cases heq
    obtain ⟨m, a, n, hm⟩ := lexed_of_markedType h (hfree.lexed hdots) hmarked
    refine ⟨.mk .before m a n, ?_⟩
    rw [Item.tokens, show Dots.trailing .before = [] from rfl, List.append_nil]
    exact hdots.append hm
  · split at hread
    · cases hread
    · next t' mid hmarked =>
      obtain ⟨m, a, n, hm⟩ := lexed_of_markedType h hfree hmarked
      split at hread
      · next rest' heat =>
        cases hread
        refine ⟨.mk .after m a n, ?_⟩
        rw [Item.tokens, show Dots.leading .after = [] from rfl, List.nil_append,
          ← List.append_assoc, ← List.append_assoc, List.append_assoc m.tokens]
        exact hm.append (lexed_of_eat? (s := .dots) heat)
      · cases hread
        refine ⟨.mk .absent m a n, ?_⟩
        rw [Item.tokens, show Dots.leading .absent = [] from rfl,
          show Dots.trailing .absent = [] from rfl, List.append_nil, List.nil_append]
        exact hm

theorem lexed_of_alternatives (hfree : FunctionFree cs)
    (hread : alternatives step cs = some (t, rest)) :
    ∃ u : Alternatives, Lexed u.tokens cs rest := by
  rw [alternatives] at hread
  split at hread
  · next t' ts rest' hitems =>
    cases hread
    obtain ⟨i, tail, hlexed⟩ :=
      lexed_of_items separator_of_eatAny? (lexed_of_repeatedType h) hfree hitems
    exact ⟨.ofList i tail, by rwa [Alternatives.tokens_ofList]⟩
  · cases hread

theorem lexed_of_typeArguments {ts : List TypeExpr} (hfree : FunctionFree cs)
    (hread : typeArguments (alternatives step) cs = some (ts, rest)) :
    ∃ args : Arguments, Lexed args.tokens cs rest := by
  have hlisted : ∀ (opening : Opening) {mid : List Char},
      eat? opening.sign.text cs = some mid →
      closedBy ">" (items [","] (alternatives step)) mid = some (ts, rest) →
      ∃ args : Arguments, Lexed args.tokens cs rest := by
    intro opening mid heat hclosed
    have hopen := lexed_of_eat? heat
    obtain ⟨close, hitems, hclose⟩ := lexed_of_closedBy (s := .rightAngle) hclosed
    obtain ⟨u, tail, hlexed⟩ := lexed_of_items comma_of_eatAny? (lexed_of_alternatives h)
      (hfree.lexed hopen) hitems
    rw [← Types.tokens_ofList] at hlexed
    exact ⟨.listed opening (.ofList u tail), hopen.append (hlexed.append hclose)⟩
  simp only [typeArguments, eatAny?, List.findSome?_cons, List.findSome?_nil] at hread
  split at hread
  · cases hread
    exact ⟨.absent, .nil cs⟩
  · next mid heat =>
    split at heat
    · next mid' hdotted =>
      cases heat
      exact hlisted .dotted hdotted hread
    · split at heat
      · next mid' hplain =>
        cases heat
        exact hlisted .plain hplain hread
      · cases heat

theorem lexed_of_field {f : String × Option TypeExpr} (hfree : FunctionFree cs)
    (hread : field (alternatives step) cs = some (f, rest)) :
    ∃ f : Field, Lexed f.tokens cs rest := by
  simp only [field] at hread
  split at hread
  · cases hread
  · next hkey =>
    obtain ⟨key, -, htrim⟩ := fieldName_of_takeChars (by simpa using hkey)
    have hlexed : Lexed [.fieldName key] cs (takeChars isNameChar (trimStart cs)).2 :=
      lexed_cons_iff.2 ⟨_, htrim, .nil _⟩
    split at hread
    · cases hread
      exact ⟨.plain key, hlexed⟩
    · next mid heat =>
      have hcolon := lexed_of_eat? (s := .colon) heat
      obtain ⟨⟨t', rest'⟩, htype, heq⟩ := Option.map_eq_some_iff.1 hread
      cases heq
      obtain ⟨u, hu⟩ := lexed_of_alternatives h ((hfree.lexed hlexed).lexed hcolon) htype
      exact ⟨.typed key u, hlexed.append (hcolon.append hu)⟩

/-! ### Atoms -/

theorem lexed_of_group (hfree : FunctionFree cs)
    (hread : closedBy ")" (alternatives step) cs = some (t, rest)) :
    ∃ a : Atom, Lexed a.tokens ('(' :: cs) rest := by
  obtain ⟨mid, hcontent, hclose⟩ := lexed_of_closedBy (s := .rightParen) hread
  obtain ⟨u, hu⟩ := lexed_of_alternatives h hfree hcontent
  have hopen : Lexed [.sign .leftParen] ('(' :: cs) cs := lexed_cons_iff.2 ⟨cs, rfl, .nil cs⟩
  exact ⟨.group u, hopen.append (hu.append hclose)⟩

theorem lexed_of_recordBody (hfree : FunctionFree cs)
    (hread : recordBody (alternatives step) cs = some (t, rest)) :
    ∃ a : Atom, Lexed a.tokens ('\x7b' :: cs) rest := by
  obtain ⟨⟨fields, rest'⟩, hclosed, heq⟩ := Option.map_eq_some_iff.1 hread
  cases heq
  obtain ⟨mid, hitems, hclose⟩ := lexed_of_closedBy (s := .rightBrace) hclosed
  obtain ⟨f, tail, hfields⟩ := lexed_of_items comma_of_eatAny? (lexed_of_field h) hfree hitems
  rw [← Fields.tokens_ofList] at hfields
  have hopen : Lexed [.sign .leftBrace] ('\x7b' :: cs) cs := lexed_cons_iff.2 ⟨cs, rfl, .nil cs⟩
  exact ⟨.record (.ofList f tail), hopen.append (hfields.append hclose)⟩

theorem lexed_of_namedType (hfree : FunctionFree cs) (hstart : ∀ c ∈ cs.head?, isDigit c = false)
    (hread : namedType (alternatives step) cs = some (t, rest)) :
    ∃ a : Atom, Lexed a.tokens cs rest := by
  rw [namedType] at hread
  split at hread
  · cases hread
  · next name mid hchain =>
    obtain ⟨n, -, rfl⟩ := typeName_of_chain? hchain hstart
    have hname : Lexed [.typeName n] (n.text ++ mid) mid :=
      lexed_cons_iff.2 ⟨mid, trimStart_token (.typeName n) mid, .nil mid⟩
    obtain ⟨⟨ts, rest'⟩, hargs, heq⟩ := Option.map_eq_some_iff.1 hread
    cases heq
    obtain ⟨args, hlexed⟩ := lexed_of_typeArguments h (hfree.lexed hname) hargs
    exact ⟨.named n args, hname.append hlexed⟩

omit h in
theorem lexed_of_literal {text : List Char} (hliteral : IsQuoted text ∨ IsNumber text)
    (hcs : cs = text ++ rest) : ∃ a : Atom, Lexed a.tokens cs rest := by
  subst hcs
  refine ⟨.literal ⟨text, hliteral⟩, ?_⟩
  exact lexed_cons_iff.2 ⟨rest, trimStart_token (.literal ⟨text, hliteral⟩) rest, .nil rest⟩

theorem onlyAtoms_baseWith : OnlyAtoms (baseWith step) := by
  intro cs rest t hfree hread
  unfold baseWith at hread
  dsimp only at hread
  split at hread
  · cases hread
  · next c cs =>
    have hrest : FunctionFree cs := hfree.suffix (List.suffix_cons c cs)
    split at hread
    · next hstar =>
      obtain rfl := beq_iff_eq.1 hstar
      cases hread
      exact ⟨.any, lexed_cons_iff.2 ⟨_, rfl, .nil _⟩⟩
    · split at hread
      · next hparen =>
        obtain rfl := beq_iff_eq.1 hparen
        exact lexed_of_group h hrest hread
      · split at hread
        · next hbrace =>
          obtain rfl := beq_iff_eq.1 hbrace
          exact lexed_of_recordBody h hrest hread
        · split at hread
          · next hquote =>
            rw [Bool.or_eq_true, beq_iff_eq, beq_iff_eq] at hquote
            obtain ⟨rest', hafter, heq⟩ := Option.map_eq_some_iff.1 hread
            cases heq
            obtain ⟨body, hbody, rfl⟩ := body_of_afterQuoted hafter
            exact lexed_of_literal (.inl ⟨c, body, hquote, hbody, rfl⟩) (by simp)
          · split at hread
            · obtain ⟨rest', hafter, heq⟩ := Option.map_eq_some_iff.1 hread
              cases heq
              obtain ⟨number, hnumber, hcs⟩ := number_of_afterNumber hafter
              exact lexed_of_literal (.inr hnumber) hcs
            · next hdigit =>
              rw [hfree.afterFunctionWord?] at hread
              refine lexed_of_namedType h hfree (fun d hd => ?_) hread
              cases hd
              simp only [Bool.or_eq_true, not_or, Bool.not_eq_true] at hdigit
              exact hdigit.1

end

theorem onlyAtoms_base (depth : Nat) : OnlyAtoms (base depth) := by
  induction depth with
  | zero =>
    intro cs rest t _ hread
    cases hread
  | succ depth ih => exact onlyAtoms_baseWith ih

/-- A text that is read as a type expression, and has no function types, is a printing. -/
theorem printed_of_parse? {text : String} {t : TypeExpr} (hfree : FunctionFree text.toList)
    (h : parse? text = some t) : ∃ u : Alternatives, Printed u.tokens text.toList := by
  simp only [parse?] at h
  split at h
  · next t' rest hread =>
    split at h
    · next hblank =>
      obtain ⟨u, hu⟩ := lexed_of_alternatives (onlyAtoms_base _) hfree hread
      exact ⟨u, rest, hu, hblank⟩
    · cases h
  · cases h

end TypeSyntax
end ApiDoc
