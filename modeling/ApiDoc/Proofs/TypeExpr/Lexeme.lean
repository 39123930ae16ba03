/-
Reading names and literals of type expressions.

Each reader is met from both sides: it reads a well-formed name or literal where the word ends with it, and
what it reads is well formed.
-/
import ApiDoc.Proofs.TypeExpr.Token

namespace ApiDoc
namespace TypeSyntax

open Text Comment TypeExpr

/-! ### Dotted names -/

theorem joinWith_cons_cons (separator p q : List Char) (parts : List (List Char)) :
    joinWith separator (p :: q :: parts) = p ++ (separator ++ joinWith separator (q :: parts)) := by
  rw [joinWith, List.intercalate_cons_cons, List.append_assoc]
  rfl

theorem takeChain_append_of_name {p : List Char} (hp : ∀ c ∈ p, isNameChar c = true)
    (cs : List Char) : takeChain (p ++ cs) = (p ++ (takeChain cs).1, (takeChain cs).2) := by
  induction p with
  | nil => rfl
  | cons c p ih =>
    have hc := hp c List.mem_cons_self
    rw [List.cons_append, takeChain, hc, ih fun d hd => hp d (List.mem_cons_of_mem c hd)]
    rfl

theorem takeChain_of_endsWord {rest : List Char} (h : EndsWord rest) :
    takeChain rest = ([], rest) := by
  cases rest with
  | nil => rfl
  | cons c cs =>
    have hname : isNameChar c = false := h.word
    have hdot : (c == '.' && startsName cs) = false := by
      by_cases hc : c = '.'
      · subst hc
        simpa using h.dot cs rfl
      · simp [hc]
    rw [takeChain, hname, hdot]
    rfl

theorem takeChain_parts {parts : List (List Char)} (hids : ∀ p ∈ parts, IsIdentifier p)
    {rest : List Char} (h : EndsWord rest) :
    takeChain (joinWith ['.'] parts ++ rest) = (joinWith ['.'] parts, rest) := by
  induction parts with
  | nil => exact takeChain_of_endsWord h
  | cons p parts ih =>
    have hp := (hids p List.mem_cons_self).2
    cases parts with
    | nil =>
      rw [show joinWith ['.'] [p] = p from List.append_nil p, takeChain_append_of_name hp,
        takeChain_of_endsWord h, List.append_nil]
    | cons q parts =>
      obtain ⟨c, cs, rfl, hc⟩ := (hids q (by simp)).exists_cons
      have hdot : startsName (joinWith ['.'] ((c :: cs) :: parts) ++ rest) = true := by
        cases parts <;> exact hc
      have htail := ih fun r hr => hids r (List.mem_cons_of_mem p hr)
      rw [joinWith_cons_cons, List.append_assoc, takeChain_append_of_name hp, List.append_assoc,
        List.singleton_append, List.singleton_append, takeChain, hdot, htail]
      simp

theorem chain?_parts {parts : List (List Char)} (hne : parts ≠ [])
    (hids : ∀ p ∈ parts, IsIdentifier p) {rest : List Char} (h : EndsWord rest) :
    chain? (joinWith ['.'] parts ++ rest) = some (joinWith ['.'] parts, rest) := by
  obtain ⟨c, cs, htext, hc⟩ := joinWith_eq_cons hne hids
  have hstarts : startsName (joinWith ['.'] parts ++ rest) = true := by
    rw [htext]
    exact hc
  rw [chain?, if_pos hstarts]
  exact congrArg some (takeChain_parts hids h)

theorem chain?_typeName (n : TypeName) {rest : List Char} (h : EndsWord rest) :
    chain? (n.text ++ rest) = some (n.text, rest) := chain?_parts n.nonempty n.identifiers h

theorem isIdentifier_singleton {c : Char} (h : isNameChar c = true) : IsIdentifier [c] :=
  ⟨List.cons_ne_nil c [], fun _ hd => List.mem_singleton.1 hd ▸ h⟩

/-- The chain that is read is made of identifiers. -/
theorem parts_of_takeChain : ∀ cs : List Char, startsName cs = true →
    ∃ p parts, (∀ q ∈ p :: parts, IsIdentifier q) ∧
      (takeChain cs).1 = joinWith ['.'] (p :: parts)
  | [], h => by cases h
  | [c], h => by
    have hc : isNameChar c = true := h
    refine ⟨[c], [], fun q hq => List.mem_singleton.1 hq ▸ isIdentifier_singleton hc, ?_⟩
    rw [takeChain, hc]
    rfl
  | c :: d :: cs, h => by
    have hc : isNameChar c = true := h
    have hstep : (takeChain (c :: d :: cs)).1 = c :: (takeChain (d :: cs)).1 := by
      rw [takeChain, hc]
      rfl
    by_cases hd : isNameChar d = true
    · obtain ⟨p, parts, hids, htake⟩ := parts_of_takeChain (d :: cs) hd
      have hp := hids p List.mem_cons_self
      refine ⟨c :: p, parts, fun q hq => ?_, ?_⟩
      · rcases List.mem_cons.1 hq with rfl | hq
        · refine ⟨List.cons_ne_nil c p, fun e he => ?_⟩
          rcases List.mem_cons.1 he with rfl | he
          · exact hc
          · exact hp.2 e he
        · exact hids q (List.mem_cons_of_mem p hq)
      · rw [hstep, htake]
        cases parts <;> rfl
    · by_cases hdot : d = '.' ∧ startsName cs = true
      · obtain ⟨rfl, hcs⟩ := hdot
        obtain ⟨p, parts, hids, htake⟩ := parts_of_takeChain cs hcs
        refine ⟨[c], p :: parts, fun q hq => ?_, ?_⟩
        · rcases List.mem_cons.1 hq with rfl | hq
          · exact isIdentifier_singleton hc
          · exact hids q hq
        · rw [hstep, joinWith_cons_cons, ← htake, takeChain, hcs]
          rfl
      · have hend : takeChain (d :: cs) = ([], d :: cs) := by
          refine takeChain_of_endsWord ⟨by simpa [startsName] using hd, fun next hnext => ?_⟩
          obtain ⟨rfl, rfl⟩ := List.cons.inj hnext
          simpa using hdot
        refine ⟨[c], [], fun q hq => List.mem_singleton.1 hq ▸ isIdentifier_singleton hc, ?_⟩
        rw [hstep, hend]
        rfl

theorem typeName_of_chain? {cs name rest : List Char} (h : chain? cs = some (name, rest))
    (hstart : ∀ c ∈ cs.head?, isDigit c = false) :
    ∃ n : TypeName, n.text = name ∧ cs = n.text ++ rest := by
  unfold chain? at h
  split at h
  · next hname =>
    obtain ⟨p, parts, hids, htake⟩ := parts_of_takeChain cs hname
    have hcs := takeChain_append cs
    rw [Option.some.inj h] at htake hcs
    dsimp only at htake hcs
    have hdigit : ∀ c ∈ (joinWith ['.'] (p :: parts)).head?, isDigit c = false := by
      intro c hc
      refine hstart c ?_
      rw [← hcs, htake, List.head?_append, hc]
      rfl
    exact ⟨⟨p :: parts, List.cons_ne_nil p parts, hids, hdigit⟩, htake.symm, by
      rw [TypeName.text, ← htake, hcs]⟩
  · cases h

theorem name_or_dot_of_mem {parts : List (List Char)} (hids : ∀ p ∈ parts, IsIdentifier p)
    {c : Char} (hc : c ∈ joinWith ['.'] parts) : isNameChar c = true ∨ c = '.' := by
  induction parts with
  | nil => cases hc
  | cons p parts ih =>
    cases parts with
    | nil =>
      rw [show joinWith ['.'] [p] = p from List.append_nil p] at hc
      exact .inl ((hids p List.mem_cons_self).2 c hc)
    | cons q parts =>
      rw [joinWith_cons_cons, List.mem_append, List.mem_append, List.mem_singleton] at hc
      rcases hc with hc | hc | hc
      · exact .inl ((hids p List.mem_cons_self).2 c hc)
      · exact .inr hc
      · exact ih (fun r hr => hids r (List.mem_cons_of_mem p hr)) hc

theorem TypeName.name_or_dot (n : TypeName) {c : Char} (hc : c ∈ n.text) :
    isNameChar c = true ∨ c = '.' := name_or_dot_of_mem n.identifiers hc

/-- A name is not taken for the start of a function type unless a parenthesis follows. -/
theorem afterFunctionWord?_typeName (n : TypeName) {rest : List Char} (h : EndsWord rest)
    (hparen : (trimStart rest).head? ≠ some '(') : afterFunctionWord? (n.text ++ rest) = none := by
  have hno : ∀ {c : Char} {cs : List Char}, (isNameChar c = true ∨ c = '.') →
      (trimStart (c :: cs)).head? ≠ some '(' := by
    intro c cs hc
    have hblank : isBlank c = false := by
      rw [Bool.eq_false_iff]
      intro hb
      rcases hc with hc | rfl
      · rw [isNameChar_of_isBlank hb] at hc
        cases hc
      · exact absurd hb (by decide)
    rw [trimStart, List.dropWhile_cons_of_neg (by simp [hblank])]
    rintro ⟨⟩
    rcases hc with hc | hc
    · exact absurd hc (by decide)
    · exact absurd hc (by decide)
  unfold afterFunctionWord?
  split
  · rfl
  · next after hafter =>
    rw [if_neg]
    rw [dropText?, List.isPrefixOf?_eq_some_iff_append_eq] at hafter
    rw [beq_iff_eq]
    rcases List.append_eq_append_iff.1 hafter with ⟨mid, htext, rfl⟩ | ⟨mid, hword, hrest⟩
    · cases mid with
      | nil => exact hparen
      | cons c mid => exact hno (n.name_or_dot (by rw [htext]; simp))
    · cases mid with
      | nil =>
        rw [List.nil_append] at hrest
        rwa [← hrest]
      | cons c mid =>
        have hletters : "function".toList.all isNameChar = true := by decide
        have hletter := List.all_eq_true.1 hletters
        have hc := hletter c (by rw [hword]; simp)
        have hend := h.word
        rw [hrest, List.cons_append, startsName, hc] at hend
        cases hend

/-! ### Names of fields -/

theorem takeChars_fieldName (f : FieldName) {rest : List Char} (h : startsName rest = false) :
    takeChars isNameChar (f.text ++ rest) = (f.text, rest) := by
  have hall := f.isIdentifier.2
  cases rest with
  | nil =>
    rw [List.append_nil, takeChars, List.takeWhile_eq_self_iff.2 hall,
      List.dropWhile_eq_nil_iff.2 hall]
  | cons c rest =>
    have hc : ¬ isNameChar c = true := by simpa [startsName] using h
    rw [takeChars, List.takeWhile_append_of_pos hall, List.dropWhile_append_of_pos hall,
      List.takeWhile_cons_of_neg hc, List.dropWhile_cons_of_neg hc, List.append_nil]

theorem fieldName_of_takeChars {cs : List Char} (h : (takeChars isNameChar cs).1.isEmpty = false) :
    ∃ f : FieldName, f.text = (takeChars isNameChar cs).1 ∧
      cs = f.text ++ (takeChars isNameChar cs).2 := by
  have hid : IsIdentifier (takeChars isNameChar cs).1 := by
    refine ⟨fun hnil => ?_, fun c hc => List.mem_takeWhile_imp hc⟩
    rw [hnil] at h
    cases h
  exact ⟨⟨_, hid⟩, rfl, List.takeWhile_append_dropWhile.symm⟩

/-! ### Numbers -/

theorem EndsWord.not_digit {rest : List Char} (h : EndsWord rest) :
    ∀ c ∈ rest.head?, isDigit c = false := by
  intro c hc
  cases rest with
  | nil => cases hc
  | cons d rest =>
    cases hc
    rw [Bool.eq_false_iff]
    intro hdigit
    have hword := h.word
    rw [startsName, isNameChar_of_isDigit hdigit] at hword
    cases hword

theorem dropWhile_digits {digits rest : List Char} (hdigits : ∀ c ∈ digits, isDigit c = true)
    (hrest : ∀ c ∈ rest.head?, isDigit c = false) :
    (digits ++ rest).dropWhile isDigit = rest := by
  rw [List.dropWhile_append_of_pos hdigits]
  cases rest with
  | nil => rfl
  | cons c rest => exact List.dropWhile_cons_of_neg (by simp [hrest c rfl])

theorem afterPlaces_of_endsWord {rest : List Char} (h : EndsWord rest) : afterPlaces rest = rest := by
  unfold afterPlaces
  split
  · next c cs =>
    have hword := h.dot _ rfl
    have hdigit : isDigit c = false := by
      rw [Bool.eq_false_iff]
      intro hdigit
      rw [startsName, isNameChar_of_isDigit hdigit] at hword
      cases hword
    rw [hdigit]
    rfl
  · rfl

theorem afterNumber_number {number rest : List Char} (hnumber : IsNumber number)
    (h : EndsWord rest) : afterNumber (number ++ rest) = some rest := by
  obtain ⟨sign, digits, places, hsign, hdigits, hplaces, rfl⟩ := hnumber
  have hskip : skipChar '-' (sign ++ (digits ++ places) ++ rest) = digits ++ (places ++ rest) := by
    obtain ⟨c, cs, rfl⟩ := List.exists_cons_of_ne_nil hdigits.1
    rcases hsign with rfl | rfl
    · have hc : c ≠ '-' := by
        rintro rfl
        exact absurd (hdigits.2 '-' List.mem_cons_self) (by decide)
      simp [skipChar, hc]
    · simp [skipChar]
  have hplaced : afterPlaces ((digits ++ (places ++ rest)).dropWhile isDigit) = rest := by
    rcases hplaces with rfl | ⟨ds, hds, rfl⟩
    · rw [List.nil_append, dropWhile_digits hdigits.2 h.not_digit, afterPlaces_of_endsWord h]
    · have hdot : ∀ c ∈ ('.' :: (ds ++ rest)).head?, isDigit c = false := by
        rintro c ⟨⟩
        decide
      rw [List.cons_append, dropWhile_digits hdigits.2 hdot]
      obtain ⟨d, ds, rfl⟩ := List.exists_cons_of_ne_nil hds.1
      rw [List.cons_append, afterPlaces, if_pos (hds.2 d List.mem_cons_self)]
      exact dropWhile_digits (fun c hc => hds.2 c (List.mem_cons_of_mem d hc)) h.not_digit
  obtain ⟨c, cs, hcons⟩ := List.exists_cons_of_ne_nil hdigits.1
  simp only [afterNumber, hskip]
  rw [hcons, List.cons_append]
  simp only
  rw [if_pos (hdigits.2 c (hcons ▸ List.mem_cons_self)), ← List.cons_append, ← hcons, hplaced,
    if_neg (by simp [h.word])]

theorem exists_sign (cs : List Char) :
    ∃ sign, (sign = [] ∨ sign = ['-']) ∧ cs = sign ++ skipChar '-' cs := by
  cases cs with
  | nil => exact ⟨[], .inl rfl, rfl⟩
  | cons c cs =>
    by_cases hc : c = '-'
    · subst hc
      exact ⟨['-'], .inr rfl, by simp [skipChar]⟩
    · exact ⟨[], .inl rfl, by simp [skipChar, hc]⟩

theorem exists_places (cs : List Char) :
    ∃ places, (places = [] ∨ ∃ ds, IsDigits ds ∧ places = '.' :: ds) ∧
      cs = places ++ afterPlaces cs := by
  unfold afterPlaces
  split
  · next c cs =>
    split
    · next hc =>
      refine ⟨'.' :: c :: cs.takeWhile isDigit, .inr ⟨_, ⟨List.cons_ne_nil c _, ?_⟩, rfl⟩, ?_⟩
      · intro d hd
        rcases List.mem_cons.1 hd with rfl | hd
        · exact hc
        · exact List.mem_takeWhile_imp hd
      · simp [List.takeWhile_append_dropWhile]
    · exact ⟨[], .inl rfl, rfl⟩
  · exact ⟨[], .inl rfl, rfl⟩

theorem number_of_afterNumber {cs rest : List Char} (h : afterNumber cs = some rest) :
    ∃ number, IsNumber number ∧ cs = number ++ rest := by
  obtain ⟨sign, hsign, hcs⟩ := exists_sign cs
  simp only [afterNumber] at h
  split at h
  · cases h
  · next c digits hdigits =>
    rw [hdigits] at h hcs
    split at h
    · next hc =>
      split at h
      · cases h
      · obtain ⟨places, hplaces, hsplit⟩ := exists_places ((c :: digits).dropWhile isDigit)
        have hrest := Option.some.inj h
        rw [hrest] at hsplit
        refine ⟨_, ⟨sign, (c :: digits).takeWhile isDigit, places, hsign, ⟨?_, ?_⟩, hplaces, rfl⟩, ?_⟩
        · rw [List.takeWhile_cons_of_pos hc]
          exact List.cons_ne_nil c _
        · exact fun d hd => List.mem_takeWhile_imp hd
        · rw [List.append_assoc, List.append_assoc, ← hsplit, List.takeWhile_append_dropWhile, ← hcs]
    · cases h

/-! ### Quoted texts -/

theorem afterQuoted_body {quote : Char} (hquote : quote ≠ '\\') {body : List Char}
    (hbody : QuotedBody quote body) (rest : List Char) :
    afterQuoted quote (body ++ quote :: rest) = some rest := by
  induction hbody with
  | nil =>
    rw [List.nil_append, afterQuoted]
    · simp
    · rintro rfl
      exact absurd rfl hquote
    · rintro _ _ rfl
      exact absurd rfl hquote
  | plain hc hslash _ ih =>
    rw [List.cons_append, afterQuoted]
    · simp [hc, ih]
    · rintro rfl
      exact absurd rfl hslash
    · rintro _ _ rfl
      exact absurd rfl hslash
  | escaped _ ih => exact ih

theorem body_of_afterQuoted {quote : Char} {cs rest : List Char}
    (h : afterQuoted quote cs = some rest) :
    ∃ body, QuotedBody quote body ∧ cs = body ++ quote :: rest := by
  fun_induction afterQuoted quote cs with
  | case1 => cases h
  | case2 => cases h
  | case3 c cs ih =>
    obtain ⟨body, hbody, rfl⟩ := ih h
    exact ⟨'\\' :: c :: body, .escaped hbody, rfl⟩
  | case4 c cs _ _ hc =>
    obtain rfl := beq_iff_eq.1 hc
    obtain rfl := Option.some.inj h
    exact ⟨[], .nil, rfl⟩
  | case5 c cs _ hescape hc ih =>
    obtain ⟨body, hbody, rfl⟩ := ih h
    refine ⟨c :: body, .plain (fun heq => hc (beq_iff_eq.2 heq)) ?_ hbody, rfl⟩
    rintro rfl
    cases body with
    | nil => exact hescape _ _ rfl rfl
    | cons d body => exact hescape _ _ rfl rfl

end TypeSyntax
end ApiDoc
