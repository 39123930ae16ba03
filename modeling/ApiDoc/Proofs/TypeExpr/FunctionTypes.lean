/-
Which function types are accepted.

A function type is made of types that are accepted by themselves.  What is read of each of them alone is
read of it as an argument too, since a comma or a closing parenthesis follows, unless the argument starts
with one of the words `this` and `new`.  These words are looked for without asking where they end, so a
name that starts with one of them is refused there (`accepts_functionType_iff`).
-/
import ApiDoc.Proofs.TypeExpr.Continued
import ApiDoc.Proofs.TypeExpr.Rendering

namespace ApiDoc

open TypeSyntax TypeExpr

namespace KnownTypes

def AllKnown (k : KnownTypes) (t : TypeExpr) : Prop := ∀ name ∈ t.names, k.isKnown name = true

def Accepts (k : KnownTypes) (text : String) : Prop := k.render text = .ok (escape text)

instance (k : KnownTypes) (text : String) : Decidable (k.Accepts text) :=
  inferInstanceAs (Decidable (k.render text = .ok (escape text)))

theorem accepts_iff {k : KnownTypes} {text : String} :
    k.Accepts text ↔ ∃ t, TypeExpr.parse? text = some t ∧ k.AllKnown t := by
  rw [Accepts, render_eq, error?]
  cases TypeExpr.parse? text with
  | none =>
    refine ⟨fun h => (by cases h), ?_⟩
    rintro ⟨t, ⟨⟩, -⟩
  | some t =>
    simp only [Option.some.injEq, exists_eq_left', AllKnown]
    cases hfind : t.names.find? fun name => !k.isKnown name with
    | none => exact ⟨fun _ => by simpa using hfind, fun _ => rfl⟩
    | some name =>
      refine ⟨fun h => (by cases h), fun hknown => ?_⟩
      have hname := List.find?_some hfind
      rw [hknown name (List.mem_of_find?_eq_some hfind)] at hname
      cases hname

end KnownTypes

namespace TypeSyntax

open Text Comment TypeExpr

/-- A slash or a bar of the text stands outside of all brackets and quotes. -/
def HasAlternatives (text : List Char) : Prop :=
  ∃ before c after, text = before ++ c :: after ∧ Closed before ∧ (c = '/' ∨ c = '|')

theorem not_hasAlternatives {text : List Char} (h : text.any (fun c => c == '/' || c == '|') = false) :
    ¬ HasAlternatives text := by
  rintro ⟨before, c, after, rfl, -, hc⟩
  refine List.any_eq_false.1 h c (List.mem_append_right before List.mem_cons_self) ?_
  rw [Bool.or_eq_true, beq_iff_eq, beq_iff_eq]
  exact hc

theorem stops_nil : Stops [] := fun c hc => by cases hc

theorem stops_comma (cs : List Char) : Stops (',' :: cs) := fun c hc => by
  cases hc
  exact .inl rfl

theorem stops_rightParen (cs : List Char) : Stops (')' :: cs) := fun c hc => by
  cases hc
  exact .inr rfl

/-- Without alternatives, one item is all that is read. -/
theorem repeatedType_of_alternatives {depth : Nat} {cs rest : List Char} {t : TypeExpr}
    (hsingle : ¬ HasAlternatives cs) (h : alternatives (base depth) cs = some (t, rest)) :
    repeatedType (base depth) cs = some (t, rest) := by
  rw [alternatives] at h
  split at h
  · next t' ts rest' hitems =>
    cases h
    have hitem : Carries [] (repeatedType (base depth)) (repeatedType (base depth)) :=
      repeatedType_carries stops_nil (base_carries stops_nil le_rfl)
    cases separated_of_items hitem (separates_alternatives stops_nil) hitems with
    | one hread _ _ => exact hread
    | @more _ mid next _ _ _ hread _ hnext _ _ =>
      obtain ⟨s, hlexed⟩ := separator_of_eatAny? hnext
      obtain ⟨mid', htrim, ⟨⟩⟩ := lexed_cons_iff.1 hlexed
      have htakes : Takes cs (trimStart mid) := (hitem hread).2.trans (.of_trimStart (.refl _))
      obtain ⟨before, hbefore, hcs⟩ := htakes
      rw [htrim] at hcs
      refine absurd ?_ hsingle
      cases s with
      | slash => exact ⟨before, '/', next, hcs, hbefore, .inl rfl⟩
      | bar => exact ⟨before, '|', next, hcs, hbefore, .inr rfl⟩
  · cases h

/-! ### Where an argument starts -/

theorem markedType_eq_none {depth : Nat} {cs ds : List Char} {c : Char} (hc : c = ')' ∨ c = '[')
    (htrim : trimStart cs = c :: ds) : markedType (base depth) cs = none := by
  have hbase : base depth (c :: ds) = none := by
    cases depth with
    | zero => rfl
    | succ depth =>
      rcases hc with rfl | rfl
      · rfl
      · rfl
  have hmark : eat? "?" cs = none ∧ eat? "!" cs = none := by
    rw [eat?, eat?, htrim]
    rcases hc with rfl | rfl
    · exact ⟨rfl, rfl⟩
    · exact ⟨rfl, rfl⟩
  rw [markedType, hmark.1]
  simp only
  rw [hmark.2]
  simp only
  rw [arrayType, htrim, hbase]

/-- A name in front of a colon is all that is read. -/
theorem repeatedType_of_colon {depth : Nat} (n : TypeName) {cs rest : List Char}
    (htrim : trimStart cs = n.text ++ rest) (hcolon : Followed [.colon] rest) :
    repeatedType (base (depth + 1)) cs = some (named n.name [], rest) := by
  obtain ⟨c, text, htext, hword, hdigit⟩ := n.exists_cons
  have hnone : ∀ {s : Sign}, s ≠ .colon → eat? s.text rest = none := fun hs =>
    hcolon.eat?_eq_none fun hmem => hs (List.mem_singleton.1 hmem)
  have hlexed : Lexed [.typeName n] cs rest := lexed_cons_iff.2 ⟨rest, htrim, .nil rest⟩
  have hmark : ∀ {s : Sign}, eat? s.text cs = none := hlexed.eat?_eq_none fun heq => by cases heq
  have hparen : (trimStart rest).head? ≠ some '(' := by
    intro hhead
    obtain ⟨next, hnext⟩ := List.head?_eq_some_iff.1 hhead
    have hsome := eat?_eq_some_iff.2 (lexed_cons_iff (t := .sign .leftParen).2 ⟨next, hnext, .nil next⟩)
    rw [hnone (s := .leftParen) (by decide)] at hsome
    cases hsome
  have harguments : eatAny? [".<", "<"] rest = none := by
    simp [eatAny?, show eat? ".<" rest = none from hnone (s := .dottedAngle) (by decide),
      show eat? "<" rest = none from hnone (s := .leftAngle) (by decide)]
  have hfunction := afterFunctionWord?_typeName n hcolon.endsWord hparen
  have hchain := chain?_typeName n hcolon.endsWord
  have hbase : base (depth + 1) (trimStart cs) = some (named n.name [], rest) := by
    rw [htrim]
    rw [htext, List.cons_append] at hfunction hchain ⊢
    rw [base, baseWith_word hword hdigit, hfunction]
    simp only
    rw [namedType, hchain]
    simp only
    rw [typeArguments, harguments, TypeName.name, htext]
    rfl
  have hbrackets : brackets rest.length rest = (0, rest) := by
    cases rest.length with
    | zero => rfl
    | succ count => rw [brackets, show eat? "[]" rest = none from hnone (s := .brackets) (by decide)]
  rw [repeatedType, show eat? "..." cs = none from hmark (s := .dots)]
  simp only
  rw [markedType, show eat? "?" cs = none from hmark (s := .question)]
  simp only
  rw [show eat? "!" cs = none from hmark (s := .bang)]
  simp only
  rw [arrayType, hbase]
  simp only
  rw [hbrackets, show eat? "..." rest = none from hnone (s := .dots) (by decide)]
  rfl

/-! ### Arguments by themselves -/

/-- The text starts with one of the words for the object and the result of a constructor. -/
def StartsMarked (text : List Char) : Prop :=
  "this".toList <+: trimStart text ∨ "new".toList <+: trimStart text

instance (text : List Char) : Decidable (StartsMarked text) := inferInstanceAs (Decidable (_ ∨ _))

theorem prefix_trimStart_iff {token : String} {cs : List Char} :
    token.toList <+: trimStart cs ↔ ∃ rest, eat? token cs = some rest := by
  constructor
  · rintro ⟨rest, h⟩
    exact ⟨rest, List.isPrefixOf?_eq_some_iff_append_eq.2 h⟩
  · rintro ⟨rest, h⟩
    exact ⟨rest, (trimStart_of_eat? h).symm⟩

/-- Whatever stops behind the text, it is read up to blanks, with a result of the kind that is asked for. -/
def ReadsAlone {α : Type} (item : Step α) (P : α → Prop) (text : List Char) : Prop :=
  ∀ ⦃k : List Char⦄, Stops k → ∃ a rest, item (text ++ k) = some (a, rest ++ k) ∧
    isBlankText rest = true ∧ rest.length ≤ text.length ∧ P a

def Refused {α : Type} (item : Step α) (text : List Char) : Prop :=
  ∀ ⦃k : List Char⦄, Stops k → item (text ++ k) = none

theorem alternatives_of_parse? {text : String} {t : TypeExpr} (h : parse? text = some t) :
    ∃ rest, alternatives (base (text.toList.length + 1)) text.toList = some (t, rest) ∧
      isBlankText rest = true := by
  simp only [parse?] at h
  split at h
  · next t' rest hread =>
    split at h
    · next hblank =>
      cases h
      exact ⟨rest, hread, hblank⟩
    · cases h
  · cases h

theorem eat?_bracket_eq_none {depth : Nat} {cs rest : List Char} {t : TypeExpr}
    (h : markedType (base depth) cs = some (t, rest)) : eat? "[" cs = none := by
  refine Option.eq_none_iff_forall_ne_some.2 fun mid hmid => ?_
  rw [markedType_eq_none (.inr rfl) (trimStart_of_eat? hmid)] at h
  cases h

section

variable {k : KnownTypes} {text : String} {t : TypeExpr} (hparse : parse? text = some t) {depth : Nat}
  (hdepth : text.toList.length < depth)
include hparse hdepth

theorem readsAlone_alternatives (hknown : k.AllKnown t) :
    ReadsAlone (alternatives (base depth)) k.AllKnown text.toList := by
  intro m hm
  obtain ⟨rest, hread, hblank⟩ := alternatives_of_parse? hparse
  obtain ⟨hcontinued, htakes⟩ := alternatives_carries hm (base_carries hm hdepth) hread
  exact ⟨t, rest, hcontinued, hblank, htakes.length_le, hknown⟩

theorem readsAlone_argument (hknown : k.AllKnown t) (hsingle : ¬ HasAlternatives text.toList)
    (hmarked : ¬ StartsMarked text.toList) (nested : Step TypeExpr) :
    ReadsAlone (argument (base depth) nested) (fun a => k.AllKnown a.2) text.toList := by
  intro m hm
  obtain ⟨rest, hread, hblank⟩ := alternatives_of_parse? hparse
  have hrepeated := repeatedType_of_alternatives hsingle hread
  have hcarries : Carries m (base (text.toList.length + 1)) (base depth) := base_carries hm hdepth
  have hword : ∀ {word : String}, ¬ word.toList <+: trimStart text.toList →
      eat? word text.toList = none := fun hword =>
    Option.eq_none_iff_forall_ne_some.2 fun next hnext => hword (prefix_trimStart_iff.2 ⟨next, hnext⟩)
  obtain ⟨hthis, hnew⟩ := not_or.1 hmarked
  have hplain : namedArgument? nested (text.toList ++ m) = none :=
    namedArgument?_append_eq_none hm (hword hthis) (hword hnew)
  rw [argument, hplain]
  simp only
  rw [eat?_append_stops hm (by decide)]
  obtain ⟨hcontinued, htakes⟩ := repeatedType_carries hm hcarries hrepeated
  cases hdots : eat? "..." text.toList with
  | some mid =>
    rw [repeatedType, hdots] at hrepeated
    obtain ⟨⟨t', rest'⟩, hitem, heq⟩ := Option.map_eq_some_iff.1 hrepeated
    obtain ⟨rfl, rfl⟩ := Prod.mk.inj heq
    obtain ⟨hcontinued, -⟩ := markedType_carries hm hcarries hitem
    refine ⟨(.rest, t'), rest', ?_, hblank, htakes.length_le, ?_⟩
    · simp only [Option.map_some]
      rw [restArgument, eat?_append_stops hm (by decide), eat?_bracket_eq_none hitem]
      simp only [Option.map_none]
      rw [hcontinued]
      rfl
    · rw [KnownTypes.AllKnown, TypeExpr.names] at hknown
      exact hknown
  | none =>
    refine ⟨(.plain, t), rest, ?_, hblank, htakes.length_le, hknown⟩
    have hequals : eat? "=" rest = none := by
      rw [eat?, show trimStart rest = [] from List.dropWhile_eq_nil_iff.2 (List.all_eq_true.1 hblank)]
      rfl
    simp only [Option.map_none]
    rw [hcontinued, Option.map_some]
    simp only
    rw [eat?_append_stops hm (by decide), hequals]
    rfl

theorem readsAlone_marked (hknown : k.AllKnown t) {word : String} (hword : word = "this" ∨ word = "new") :
    ReadsAlone (argument (base depth) (alternatives (base depth))) (fun a => k.AllKnown a.2)
      (word ++ ":" ++ text).toList := by
  intro m hm
  obtain ⟨t', rest, hread, hblank, hlength, hall⟩ := readsAlone_alternatives hparse hdepth hknown hm
  have hcs : (word ++ ":" ++ text).toList ++ m = word.toList ++ (':' :: (text.toList ++ m)) := by
    rw [String.toList_append, String.toList_append, List.append_assoc, List.append_assoc]
    rfl
  have hshorter : rest.length ≤ (word ++ ":" ++ text).toList.length := by
    rw [String.toList_append, List.length_append]
    omega
  have hcolon : eat? ":" (':' :: (text.toList ++ m)) = some (text.toList ++ m) := rfl
  rw [hcs]
  rcases hword with rfl | rfl
  · refine ⟨(.receiver, t'), rest, ?_, hblank, hshorter, hall⟩
    have hthis : eat? "this" ("this".toList ++ ':' :: (text.toList ++ m)) =
        some (':' :: (text.toList ++ m)) := rfl
    rw [argument, namedArgument?, hthis]
    simp only
    rw [hcolon, Option.bind_some, hread]
    rfl
  · refine ⟨(.created, t'), rest, ?_, hblank, hshorter, hall⟩
    have hthis : eat? "this" ("new".toList ++ ':' :: (text.toList ++ m)) = none := rfl
    have hnew : eat? "new" ("new".toList ++ ':' :: (text.toList ++ m)) =
        some (':' :: (text.toList ++ m)) := rfl
    rw [argument, namedArgument?, hthis]
    simp only
    rw [hnew, Option.map_some, hcolon, Option.bind_some, hread]
    rfl

omit hdepth in
/-- A name that starts with one of the words is taken for the word, and no colon follows. -/
theorem refused_of_startsMarked (hsingle : ¬ HasAlternatives text.toList)
    (hmarked : StartsMarked text.toList) (base' nested : Step TypeExpr) :
    Refused (argument base' nested) text.toList := by
  intro m hm
  obtain ⟨rest, hread, hblank⟩ := alternatives_of_parse? hparse
  have hrepeated := repeatedType_of_alternatives hsingle hread
  have hcolon : ∀ {word : String} (n : TypeName), n.text = word.toList → ∀ {mid : List Char},
      eat? word text.toList = some mid → eat? ":" (mid ++ m) = none := by
    intro word n hn mid hword
    rw [eat?_append_stops hm (by decide)]
    cases hmid : eat? ":" mid with
    | none => rfl
    | some next =>
      have htrim : trimStart text.toList = n.text ++ mid := hn ▸ trimStart_of_eat? hword
      have hsign : Lexed [.sign .colon] mid next := lexed_of_eat? hmid
      rw [repeatedType_of_colon n htrim (.of_lexed hsign List.mem_cons_self)] at hrepeated
      cases hrepeated
      have hnone : eat? ":" rest = none := eat?_eq_none_of_isBlankText (s := .colon) hblank
      rw [hnone] at hmid
      cases hmid
  rw [argument, namedArgument?, eat?_append_stops hm (by decide)]
  cases hthis : eat? "this" text.toList with
  | some mid =>
    simp only [Option.map_some]
    rw [hcolon (.ofWord "this".toList (by decide) rfl rfl) rfl hthis]
    rfl
  | none =>
    rcases hmarked with hmarked | hmarked
    · obtain ⟨mid, hmid⟩ := prefix_trimStart_iff.1 hmarked
      rw [hthis] at hmid
      cases hmid
    · obtain ⟨mid, hnew⟩ := prefix_trimStart_iff.1 hmarked
      simp only [Option.map_none]
      rw [eat?_append_stops hm (by decide), hnew, Option.map_some, Option.map_some,
        hcolon (.ofWord "new".toList (by decide) rfl rfl) rfl hnew]
      rfl

end

/-! ### Lists of arguments -/

theorem trimStart_blanks {blanks : List Char} (h : isBlankText blanks = true) (cs : List Char) :
    trimStart (blanks ++ cs) = trimStart cs := trimStart_append (List.all_eq_true.1 h) cs

theorem eatAny?_comma_behind {blanks : List Char} (h : isBlankText blanks = true) (cs : List Char) :
    eatAny? [","] (blanks ++ ',' :: cs) = some cs := by
  rw [eatAny?_comma, eat?, trimStart_blanks h]
  rfl

theorem eatAny?_comma_eq_none {blanks : List Char} (h : isBlankText blanks = true) (cs : List Char) :
    eatAny? [","] (blanks ++ ')' :: cs) = none := by
  rw [eatAny?_comma, eat?, trimStart_blanks h]
  rfl

theorem joined_cons_cons (text next : List Char) (texts : List (List Char)) (tail : List Char) :
    joinWith [','] (text :: next :: texts) ++ tail =
      text ++ ',' :: (joinWith [','] (next :: texts) ++ tail) := by
  rw [joinWith_cons_cons, List.append_assoc, List.append_assoc]
  rfl

theorem length_le_joined {text : List Char} {texts : List (List Char)} (h : text ∈ texts) :
    text.length ≤ (joinWith [','] texts).length := by
  induction texts with
  | nil => cases h
  | cons first texts ih =>
    cases texts with
    | nil =>
      rw [List.mem_singleton.1 h, show joinWith [','] [first] = first from List.append_nil first]
    | cons next texts =>
      rw [joinWith_cons_cons, List.length_append, List.length_append]
      rcases List.mem_cons.1 h with rfl | h
      · omega
      · have := ih h
        omega

section

variable {α : Type} {item : Step α} {P : α → Prop}

/-- Texts that are read alone are read as a list, with commas between them. -/
theorem separated_joined {text : List Char} {texts : List (List Char)}
    (h : ∀ t ∈ text :: texts, ReadsAlone item P t) (tail : List Char) :
    ∃ as rest, Separated [","] item (joinWith [','] (text :: texts) ++ ')' :: tail) as
        (rest ++ ')' :: tail) ∧ isBlankText rest = true ∧ ∀ a ∈ as, P a := by
  induction texts generalizing text with
  | nil =>
    obtain ⟨a, rest, hread, hblank, hle, ha⟩ := h text List.mem_cons_self (stops_rightParen tail)
    rw [show joinWith [','] [text] = text from List.append_nil text]
    exact ⟨[a], rest, .one hread (length_append_mono hle _) (eatAny?_comma_eq_none hblank tail), hblank,
      fun b hb => List.mem_singleton.1 hb ▸ ha⟩
  | cons next texts ih =>
    obtain ⟨as, rest, hseparated, hblank, hall⟩ := ih fun t ht => h t (List.mem_cons_of_mem text ht)
    rw [joined_cons_cons]
    generalize joinWith [','] (next :: texts) ++ ')' :: tail = more at hseparated ⊢
    obtain ⟨a, mid, hread, hmid, hle, ha⟩ := h text List.mem_cons_self (stops_comma more)
    refine ⟨a :: as, rest,
      .more hread (length_append_mono hle _) (eatAny?_comma_behind hmid more) ?_ hseparated, hblank,
      List.forall_mem_cons.2 ⟨ha, hall⟩⟩
    rw [List.length_append, List.length_cons]
    omega

theorem not_refused_of_reads {text k rest : List Char} (hk : Stops k) {a : α}
    (h : item (text ++ k) = some (a, rest)) : ¬ Refused item text := by
  intro hrefused
  rw [hrefused hk] at h
  cases h

/-- No text of a list that is read is refused. -/
theorem not_refused_of_separated {text : List Char} {texts : List (List Char)}
    (h : ∀ t ∈ text :: texts, ReadsAlone item P t ∨ Refused item t) {tail : List Char} {as : List α}
    {rest : List Char}
    (hseparated : Separated [","] item (joinWith [','] (text :: texts) ++ ')' :: tail) as rest) :
    ∀ t ∈ text :: texts, ¬ Refused item t := by
  induction texts generalizing text as with
  | nil =>
    rw [show joinWith [','] [text] = text from List.append_nil text] at hseparated
    obtain ⟨a, -, mid, -, hread, -⟩ := hseparated.reads
    exact List.forall_mem_singleton.2 (not_refused_of_reads (stops_rightParen tail) hread)
  | cons next texts ih =>
    rw [joined_cons_cons] at hseparated
    have hrest : ∀ {as : List α},
        Separated [","] item (joinWith [','] (next :: texts) ++ ')' :: tail) as rest →
        ∀ t ∈ next :: texts, ¬ Refused item t := ih fun t ht => h t (List.mem_cons_of_mem text ht)
    generalize joinWith [','] (next :: texts) ++ ')' :: tail = more at hseparated hrest
    have hfirst : ¬ Refused item text := by
      obtain ⟨a, -, mid, -, hread, -⟩ := hseparated.reads
      exact not_refused_of_reads (stops_comma more) hread
    obtain ⟨a, mid, hread, hmid, -⟩ :=
      (h text List.mem_cons_self).resolve_right hfirst (stops_comma more)
    have hcomma := eatAny?_comma_behind hmid more
    cases hseparated with
    | one hread' _ hend =>
      rw [hread] at hread'
      cases hread'
      rw [hcomma] at hend
      cases hend
    | more hread' _ hnext _ hmore =>
      rw [hread] at hread'
      cases hread'
      rw [hcomma] at hnext
      cases hnext
      exact List.forall_mem_cons.2 ⟨hfirst, hrest hmore⟩

end

/-! ### Function types -/

theorem eat?_rightParen_of_argument {depth : Nat} {nested : Step TypeExpr} {cs rest : List Char}
    {a : ArgumentForm × TypeExpr} (h : argument (base depth) nested cs = some (a, rest)) :
    eat? ")" cs = none := by
  refine Option.eq_none_iff_forall_ne_some.2 fun mid hmid => ?_
  have htrim : trimStart cs = ')' :: mid := trimStart_of_eat? hmid
  have hnone : eat? "this" cs = none ∧ eat? "new" cs = none ∧ eat? "..." cs = none := by
    rw [eat?, eat?, eat?, htrim]
    exact ⟨rfl, rfl, rfl⟩
  obtain ⟨hthis, hnew, hdots⟩ := hnone
  rw [argument, namedArgument?, hthis] at h
  simp only at h
  rw [hnew] at h
  simp only [Option.map_none] at h
  rw [hdots] at h
  simp only at h
  rw [repeatedType, hdots] at h
  simp only at h
  rw [markedType_eq_none (.inl rfl) htrim] at h
  cases h

theorem eat?_rightParen_of_startsMarked {text k : List Char} (h : StartsMarked text) (hk : Stops k) :
    eat? ")" (text ++ k) = none := by
  have hstart : ∃ c cs, trimStart text = c :: cs ∧ c ≠ ')' := by
    rcases h with ⟨rest, h⟩ | ⟨rest, h⟩
    · exact ⟨'t', _, h.symm, by decide⟩
    · exact ⟨'n', _, h.symm, by decide⟩
  obtain ⟨c, cs, htrim, hc⟩ := hstart
  have htrimmed : trimStart (text ++ k) = c :: (cs ++ k) := by
    rw [trimStart_append_stops hk, htrim]
    rfl
  exact eat?_rightParen_eq_none htrimmed hc

theorem argumentList_joined {depth : Nat} {nested : Step TypeExpr}
    {P : ArgumentForm × TypeExpr → Prop} {texts : List (List Char)}
    (h : ∀ t ∈ texts, ReadsAlone (argument (base depth) nested) P t) (tail : List Char) :
    ∃ args, argumentList (base depth) nested ('(' :: (joinWith [','] texts ++ ')' :: tail)) =
        some (args, tail) ∧ ∀ a ∈ args, P a := by
  have hopen : ∀ cs : List Char, eat? "(" ('(' :: cs) = some cs := fun cs => rfl
  rw [argumentList, hopen]
  simp only
  cases texts with
  | nil => exact ⟨[], rfl, fun a ha => absurd ha List.not_mem_nil⟩
  | cons text texts =>
    obtain ⟨as, rest, hseparated, hblank, hall⟩ := separated_joined h tail
    obtain ⟨a, -, mid, -, hfirst, -⟩ := hseparated.reads
    have hclose : eat? ")" (rest ++ ')' :: tail) = some tail := by
      rw [eat?, trimStart_blanks hblank]
      rfl
    rw [eat?_rightParen_of_argument hfirst, closedBy, items_of_separated hseparated, Option.bind_some,
      hclose]
    exact ⟨as, rfl, hall⟩

/-- If a list of arguments is read, none of them is refused. -/
theorem not_refused_of_argumentList {depth : Nat} {nested : Step TypeExpr}
    {P : ArgumentForm × TypeExpr → Prop} {texts : List (List Char)}
    (h : ∀ t ∈ texts, ReadsAlone (argument (base depth) nested) P t ∨
      Refused (argument (base depth) nested) t ∧ StartsMarked t)
    (hcarries : Carries [] (argument (base depth) nested) (argument (base depth) nested))
    {tail rest : List Char} {args : List (ArgumentForm × TypeExpr)}
    (hread : argumentList (base depth) nested ('(' :: (joinWith [','] texts ++ ')' :: tail)) =
      some (args, rest)) :
    ∀ t ∈ texts, ¬ Refused (argument (base depth) nested) t := by
  have hopen : ∀ cs : List Char, eat? "(" ('(' :: cs) = some cs := fun cs => rfl
  rw [argumentList, hopen] at hread
  simp only at hread
  cases texts with
  | nil => exact fun t ht => absurd ht List.not_mem_nil
  | cons text texts =>
    have hstops : ∃ k, Stops k ∧ joinWith [','] (text :: texts) ++ ')' :: tail = text ++ k := by
      cases texts with
      | nil =>
        rw [show joinWith [','] [text] = text from List.append_nil text]
        exact ⟨_, stops_rightParen tail, rfl⟩
      | cons next texts => exact ⟨_, stops_comma _, joined_cons_cons text next texts _⟩
    have hnonempty : eat? ")" (joinWith [','] (text :: texts) ++ ')' :: tail) = none := by
      obtain ⟨k, hk, htext⟩ := hstops
      rw [htext]
      rcases h text List.mem_cons_self with hreads | ⟨-, hmarked⟩
      · obtain ⟨a, mid, hfirst, -⟩ := hreads hk
        exact eat?_rightParen_of_argument hfirst
      · exact eat?_rightParen_of_startsMarked hmarked hk
    rw [hnonempty] at hread
    obtain ⟨⟨as, mid⟩, hitems, -⟩ := Option.bind_eq_some_iff.1 hread
    have hseparated := separated_of_items hcarries (separates_comma stops_nil) hitems
    exact not_refused_of_separated (fun t ht => (h t ht).imp_right And.left) hseparated

theorem base_function (depth : Nat) (cs : List Char) :
    base (depth + 1) ("function(".toList ++ cs) =
      functionBody (base depth) (alternatives (base depth)) ('(' :: cs) := rfl

/-- No mark stands before a function type. -/
theorem repeatedType_function (step : Step TypeExpr) (cs : List Char) :
    repeatedType step ("function(".toList ++ cs) =
      match arrayType step ("function(".toList ++ cs) with
      | none => none
      | some (t, rest) =>
        match eat? "..." rest with
        | some rest => some (repeated t, rest)
        | none => some (t, rest) := rfl

section

variable {text : String} {cs : List Char} (htext : text.toList = "function(".toList ++ cs)
include htext

theorem parse?_of_functionBody {t : TypeExpr} {rest : List Char}
    (h : functionBody (base text.toList.length) (alternatives (base text.toList.length)) ('(' :: cs) =
      some (t, rest)) (hblank : isBlankText rest = true) : parse? text = some t := by
  have hbrackets : brackets rest.length rest = (0, rest) :=
    brackets_of_lexed (n := 0) (.nil rest) (.inl hblank) le_rfl
  have hdots : eat? "..." rest = none := eat?_eq_none_of_isBlankText (s := .dots) hblank
  have hend : eatAny? ["/", "|"] rest = none := eatAny?_separators_eq_none (.inl hblank)
  have harray : arrayType (base (text.toList.length + 1)) ("function(".toList ++ cs) = some (t, rest) := by
    rw [arrayType, show trimStart ("function(".toList ++ cs) = "function(".toList ++ cs from rfl,
      base_function, h]
    simp only
    rw [hbrackets]
    rfl
  have hrepeated : repeatedType (base (text.toList.length + 1)) text.toList = some (t, rest) := by
    rw [htext] at harray ⊢
    rw [repeatedType_function, harray]
    simp only
    rw [hdots]
  rw [parse?, alternatives, items, hrepeated]
  simp only
  rw [moreItems_eq_nil hend]
  exact if_pos hblank

theorem functionBody_of_parse? {t : TypeExpr} (h : parse? text = some t) :
    ∃ t' rest, functionBody (base text.toList.length) (alternatives (base text.toList.length))
      ('(' :: cs) = some (t', rest) := by
  cases hbody : functionBody (base text.toList.length) (alternatives (base text.toList.length))
    ('(' :: cs) with
  | some r => exact ⟨r.1, r.2, rfl⟩
  | none =>
    have harray : arrayType (base (text.toList.length + 1)) ("function(".toList ++ cs) = none := by
      rw [arrayType, show trimStart ("function(".toList ++ cs) = "function(".toList ++ cs from rfl,
        base_function, hbody]
    have hrepeated : repeatedType (base (text.toList.length + 1)) text.toList = none := by
      rw [htext] at harray ⊢
      rw [repeatedType_function, harray]
    rw [parse?, alternatives, items, hrepeated] at h
    cases h

end

theorem allKnown_function {k : KnownTypes} {args : List (ArgumentForm × TypeExpr)}
    {result : Option TypeExpr} (hargs : ∀ a ∈ args, k.AllKnown a.2)
    (hresult : ∀ t ∈ result, k.AllKnown t) : k.AllKnown (function args result) := by
  intro name hname
  rw [TypeExpr.names, List.mem_append] at hname
  rcases hname with hname | hname
  · induction args with
    | nil => cases hname
    | cons a args ih =>
      obtain ⟨ha, hargs⟩ := List.forall_mem_cons.1 hargs
      rw [namesOfArguments, List.mem_append] at hname
      rcases hname with hname | hname
      · exact ha name hname
      · exact ih hargs hname
  · cases result with
    | none => cases hname
    | some t => exact hresult t rfl name hname

/-- The function type with these arguments, and with this result if there is one. -/
def functionType (args : List String) (result : Option String) : String :=
  String.ofList ("function(".toList ++ (joinWith [','] (args.map String.toList) ++
    ')' :: result.elim [] fun r => ':' :: r.toList))

theorem toList_functionType (parts : List String) (result : Option String) :
    (functionType parts result).toList = "function(".toList ++ (joinWith [','] (parts.map String.toList) ++
      ')' :: result.elim [] fun r => ':' :: r.toList) := String.toList_ofList

theorem length_part_lt {parts : List String} {part : String} (h : part ∈ parts) (result : Option String) :
    part.toList.length < (functionType parts result).toList.length := by
  have hle := length_le_joined (List.mem_map_of_mem (f := String.toList) h)
  rw [toList_functionType, List.length_append, List.length_append, List.length_cons]
  omega

theorem length_result_lt (parts : List String) (result : String) :
    result.toList.length < (functionType parts (some result)).toList.length := by
  rw [toList_functionType, List.length_append, List.length_append, List.length_cons, Option.elim_some,
    List.length_cons]
  omega

end TypeSyntax

namespace KnownTypes

section

variable {k : KnownTypes} {parts : List String} {result : Option String} {depth : Nat}
  (hdepth : (functionType parts result).toList.length = depth)
include hdepth

theorem accepts_of_readsAlone
    (h : ∀ part ∈ parts, ReadsAlone (argument (base depth) (alternatives (base depth)))
      (fun a => k.AllKnown a.2) part.toList)
    (hresult : ∀ r ∈ result, k.Accepts r) : k.Accepts (functionType parts result) := by
  have hall : ∀ text ∈ parts.map String.toList, ReadsAlone (argument (base depth)
      (alternatives (base depth))) (fun a => k.AllKnown a.2) text := List.forall_mem_map.2 h
  obtain ⟨args, hread, hargs⟩ := argumentList_joined hall (result.elim [] fun r => ':' :: r.toList)
  have htext := toList_functionType parts result
  cases result with
  | none =>
    have hbody : functionBody (base depth) (alternatives (base depth))
        ('(' :: (Text.joinWith [','] (parts.map String.toList) ++ [')'])) =
          some (function args none, []) := by
      rw [Option.elim_none] at hread
      rw [functionBody, hread]
      rfl
    refine accepts_iff.2 ⟨function args none, parse?_of_functionBody htext (hdepth ▸ hbody) rfl, ?_⟩
    exact allKnown_function hargs fun t ht => by cases ht
  | some r =>
    obtain ⟨t, hparse, hknown⟩ := accepts_iff.1 (hresult r rfl)
    have hshorter : r.toList.length < depth := hdepth ▸ length_result_lt parts r
    obtain ⟨t, rest, htype, hblank, -, hknown⟩ := readsAlone_alternatives hparse hshorter hknown stops_nil
    rw [List.append_nil, List.append_nil] at htype
    have hbody : functionBody (base depth) (alternatives (base depth))
        ('(' :: (Text.joinWith [','] (parts.map String.toList) ++ ')' :: ':' :: r.toList)) =
          some (function args (some t), rest) := by
      have hcolon : eat? ":" (':' :: r.toList) = some r.toList := rfl
      rw [Option.elim_some] at hread
      rw [functionBody, hread]
      simp only
      rw [hcolon]
      simp only
      rw [htype]
      rfl
    refine accepts_iff.2
      ⟨function args (some t), parse?_of_functionBody htext (hdepth ▸ hbody) hblank, ?_⟩
    refine allKnown_function hargs fun t' ht' => ?_
    cases ht'
    exact hknown

theorem not_refused_of_accepts
    (h : ∀ part ∈ parts, ReadsAlone (argument (base depth) (alternatives (base depth)))
        (fun a => k.AllKnown a.2) part.toList ∨
      Refused (argument (base depth) (alternatives (base depth))) part.toList ∧
        StartsMarked part.toList)
    (haccepts : k.Accepts (functionType parts result)) :
    ∀ part ∈ parts,
      ¬ Refused (argument (base depth) (alternatives (base depth))) part.toList := by
  obtain ⟨t, hparse, -⟩ := accepts_iff.1 haccepts
  obtain ⟨t', rest, hbody⟩ := functionBody_of_parse? (toList_functionType parts result) hparse
  rw [hdepth, functionBody] at hbody
  have hself : Carries [] (base depth) (base depth) := base_carries stops_nil le_rfl
  split at hbody
  · cases hbody
  · next args mid hread =>
    have hcarries : Carries [] (argument (base depth) (alternatives (base depth)))
        (argument (base depth) (alternatives (base depth))) :=
      argument_carries stops_nil hself (alternatives_carries stops_nil hself)
    have hnone := not_refused_of_argumentList (List.forall_mem_map.2 h) hcarries hread
    exact fun part hpart => hnone part.toList (List.mem_map_of_mem hpart)

end

/-- What is accepted as a type is read as an argument, unless it starts with one of the two words: then it
is refused. -/
theorem readsAlone_or_refused {k : KnownTypes} {text : String} (h : k.Accepts text)
    (hsingle : ¬ HasAlternatives text.toList) {depth : Nat} (hdepth : text.toList.length < depth)
    (nested : Step TypeExpr) :
    ¬ StartsMarked text.toList ∧
        ReadsAlone (argument (base depth) nested) (fun a => k.AllKnown a.2) text.toList ∨
      StartsMarked text.toList ∧ Refused (argument (base depth) nested) text.toList := by
  obtain ⟨t, hparse, hknown⟩ := accepts_iff.1 h
  by_cases hmarked : StartsMarked text.toList
  · exact .inr ⟨hmarked, refused_of_startsMarked hparse hsingle hmarked _ nested⟩
  · exact .inl ⟨hmarked, readsAlone_argument hparse hdepth hknown hsingle hmarked nested⟩

/-- Types that are accepted make a function type that is accepted, with or without a result and with or
without an argument for the object or the constructor, exactly if no argument starts with one of the words
that mark such an argument. -/
theorem accepts_functionType_iff (k : KnownTypes) {first : Option (String × String)}
    {args : List String} {result : Option String}
    (hfirst : ∀ p ∈ first, (p.1 = "this" ∨ p.1 = "new") ∧ k.Accepts p.2)
    (hargs : ∀ text ∈ args, k.Accepts text ∧ ¬ HasAlternatives text.toList)
    (hresult : ∀ text ∈ result, k.Accepts text) :
    k.Accepts (functionType (first.toList.map (fun p => p.1 ++ ":" ++ p.2) ++ args) result) ↔
      ∀ text ∈ args, ¬ StartsMarked text.toList := by
  generalize hparts : first.toList.map (fun p => p.1 ++ ":" ++ p.2) ++ args = parts
  obtain ⟨depth, hdepth⟩ : ∃ depth, (functionType parts result).toList.length = depth := ⟨_, rfl⟩
  have hmarked : ∀ part ∈ first.toList.map fun p => p.1 ++ ":" ++ p.2,
      ReadsAlone (argument (base depth) (alternatives (base depth))) (fun a => k.AllKnown a.2)
        part.toList := by
    intro part hpart
    obtain ⟨p, hp, rfl⟩ := List.mem_map.1 hpart
    obtain ⟨hword, haccepts⟩ := hfirst p (Option.mem_toList.1 hp)
    obtain ⟨t, hparse, hknown⟩ := accepts_iff.1 haccepts
    have hlength := length_part_lt (hparts ▸ List.mem_append_left args hpart) result
    rw [hdepth, String.toList_append, List.length_append] at hlength
    have hshorter : p.2.toList.length < depth := by omega
    exact readsAlone_marked hparse hshorter hknown hword
  have hplain : ∀ text ∈ args, _ := fun text htext =>
    readsAlone_or_refused (hargs text htext).1 (hargs text htext).2
      (hdepth ▸ length_part_lt (hparts ▸ List.mem_append_right _ htext) result)
      (alternatives (base depth))
  constructor
  · intro haccepts text htext hstarts
    have hall := not_refused_of_accepts hdepth (fun part hpart => ?_) haccepts
    · rcases hplain text htext with ⟨hnot, -⟩ | ⟨-, hrefused⟩
      · exact hnot hstarts
      · exact hall text (hparts ▸ List.mem_append_right _ htext) hrefused
    · rcases List.mem_append.1 (hparts ▸ hpart) with hpart | hpart
      · exact .inl (hmarked part hpart)
      · exact (hplain part hpart).imp And.right And.symm
  · intro hnone
    refine accepts_of_readsAlone hdepth (fun part hpart => ?_) hresult
    rcases List.mem_append.1 (hparts ▸ hpart) with hpart | hpart
    · exact hmarked part hpart
    · exact ((hplain part hpart).resolve_right fun h => hnone part hpart h.1).2

theorem functionType_this_accepts :
    ((∀ p ∈ some ("this", "Item/string"),
        (p.1 = "this" ∨ p.1 = "new") ∧ ({ names := ["Item"] } : KnownTypes).Accepts p.2) ∧
      (∀ text ∈ ["...Item", "?Item[]"], ({ names := ["Item"] } : KnownTypes).Accepts text ∧
        ¬ HasAlternatives text.toList) ∧
      ∀ text ∈ some "Item|null", ({ names := ["Item"] } : KnownTypes).Accepts text) ∧
    ({ names := ["Item"] } : KnownTypes).Accepts
      (functionType ["this:Item/string", "...Item", "?Item[]"] (some "Item|null")) := by
  have hfirst : ∀ p ∈ some ("this", "Item/string"),
      (p.1 = "this" ∨ p.1 = "new") ∧ ({ names := ["Item"] } : KnownTypes).Accepts p.2 := by
    rintro p ⟨⟩
    exact ⟨.inl rfl, by decide +kernel⟩
  have hargs : ∀ text ∈ ["...Item", "?Item[]"], ({ names := ["Item"] } : KnownTypes).Accepts text ∧
      ¬ HasAlternatives text.toList := by
    rw [List.forall_mem_cons, List.forall_mem_singleton]
    exact ⟨⟨by decide +kernel, not_hasAlternatives (by decide)⟩, by decide +kernel,
      not_hasAlternatives (by decide)⟩
  have hresult : ∀ text ∈ some "Item|null", ({ names := ["Item"] } : KnownTypes).Accepts text := by
    rintro text ⟨⟩
    decide +kernel
  have hstarts : ∀ text ∈ ["...Item", "?Item[]"], ¬ StartsMarked text.toList := by decide
  exact ⟨⟨hfirst, hargs, hresult⟩,
    (accepts_functionType_iff { names := ["Item"] } hfirst hargs hresult).2 hstarts⟩

/-- A type that is accepted may be no argument, though there are no alternatives in it. -/
theorem functionType_not_closed : ¬ ∀ (k : KnownTypes) (args : List String),
    (∀ text ∈ args, k.Accepts text ∧ ¬ HasAlternatives text.toList) →
      k.Accepts (functionType args none) := by
  intro h
  have hrefused : ({ names := ["newsletter.Item"] } : KnownTypes).render "function(newsletter.Item)" =
      .error .malformed := by decide +kernel
  have haccepts := h { names := ["newsletter.Item"] } ["newsletter.Item"] fun text htext => by
    rw [List.mem_singleton.1 htext]
    exact ⟨by decide +kernel, not_hasAlternatives (by decide)⟩
  exact absurd (hrefused.symm.trans haccepts) (by simp)

end KnownTypes
end ApiDoc
