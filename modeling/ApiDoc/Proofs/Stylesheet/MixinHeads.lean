/-
The heads of mixins, as they are written and as they are read.

A head is written with the name of the mixin and its parameters, each with its default value if it has
one.  The reader cuts the parameters at the commas outside of parentheses.  It counts every parenthesis
and every comma for that, also those in strings, so parameters are read back exactly if this way of
counting leaves each default value in one piece (`mixin_read_back_iff`).
-/
import ApiDoc.Proofs.Stylesheet.BlockComments
import ApiDoc.Proofs.Text.Trimmed

namespace ApiDoc
namespace Stylesheet

open Text

/-! ### Written heads -/

def paramText (p : String × Option String) : List Char :=
  match p.2 with
  | none => p.1.toList
  | some d => p.1.toList ++ ':' :: ' ' :: d.toList

def paramsText (params : List (String × Option String)) : List Char :=
  joinWith ", ".toList (params.map paramText)

def headText (name : String) (params : List (String × Option String)) : List Char :=
  "@mixin ".toList ++ (name.toList ++ '(' :: (paramsText params ++ ") \x7b".toList))

/-- A comment, white space and a head, with what follows. -/
def mixinSource (comment gap : List Char) (name : String) (params : List (String × Option String))
    (after : List Char) : String :=
  String.ofList (docOpener ++ (comment ++ (closer ++ (gap ++ (headText name params ++ after)))))

def IsMixinName (name : String) : Prop :=
  name.toList ≠ [] ∧ ∀ c ∈ name.toList, isNameChar c = true

def IsVariable (name : String) : Prop :=
  ∃ cs, name.toList = '$' :: cs ∧ ∀ c ∈ cs, isNameChar c = true

/-- A variable, and a default value that is trimmed and does not open a body. -/
structure IsParam (p : String × Option String) : Prop where
  name : IsVariable p.1
  default : ∀ d ∈ p.2, d.toList ≠ [] ∧ trim d.toList = d.toList ∧ '\x7b' ∉ d.toList

instance (name : String) : Decidable (IsMixinName name) :=
  decidable_of_iff (name.toList ≠ [] ∧ name.toList.all isNameChar = true)
    (and_congr_right fun _ => List.all_eq_true)

instance (name : String) : Decidable (IsVariable name) :=
  decidable_of_iff
    (name.toList.head? = some '$' ∧ name.toList.tail.all isNameChar = true) <| by
    rw [List.all_eq_true]
    constructor
    · rintro ⟨hdollar, hchars⟩
      obtain ⟨cs, hname⟩ := List.head?_eq_some_iff.1 hdollar
      rw [hname] at hchars
      exact ⟨cs, hname, hchars⟩
    · rintro ⟨cs, hname, hchars⟩
      rw [hname]
      exact ⟨rfl, hchars⟩

instance (p : String × Option String) : Decidable (IsParam p) :=
  decidable_of_iff
    (IsVariable p.1 ∧ ∀ d ∈ p.2, d.toList ≠ [] ∧ trim d.toList = d.toList ∧ '\x7b' ∉ d.toList)
    ⟨fun h => ⟨h.1, h.2⟩, fun h => ⟨h.name, h.default⟩⟩

/-! ### Parentheses and commas -/

def openAfter (n : Nat) (c : Char) : Nat :=
  if c = '(' then n + 1 else if c = ')' then n - 1 else n

/-- How many parentheses are open behind a text, if `n` are open before it. -/
def openCount (n : Nat) (cs : List Char) : Nat := cs.foldl openAfter n

/-- Every comma of the text stands where a parenthesis is open, `n` being open before the text. -/
def CommasEnclosed (n : Nat) (cs : List Char) : Prop :=
  ∀ front back, cs = front ++ ',' :: back → openCount n front ≠ 0

/-- Counting all parentheses and commas, also those in strings, no default value falls apart and none
but the last one goes on behind its end. -/
structure ToldApart (params : List (String × Option String)) : Prop where
  commas : ∀ p ∈ params, ∀ d ∈ p.2, CommasEnclosed 0 d.toList
  closed : ∀ p ∈ params.dropLast, ∀ d ∈ p.2, openCount 0 d.toList = 0

/-- A text in which parentheses balance outside of strings, and commas stand in parentheses or in strings
only, or anywhere if it stands `inside` of parentheses itself.  What its strings may hold is given. -/
inductive Parenthesized (strings : Bool → List Char → Prop) : Bool → List Char → Prop
  | nil {inside : Bool} : Parenthesized strings inside []
  | char {inside : Bool} {c : Char} {cs : List Char} : c ≠ '(' → c ≠ ')' → (c = ',' → inside = true) →
      Parenthesized strings inside cs → Parenthesized strings inside (c :: cs)
  | string {inside : Bool} {quote : Char} {inner cs : List Char} : quote = '"' ∨ quote = '\'' →
      quote ∉ inner → strings inside inner → Parenthesized strings inside cs →
      Parenthesized strings inside (quote :: (inner ++ quote :: cs))
  | group {inside : Bool} {inner cs : List Char} : Parenthesized strings true inner →
      Parenthesized strings inside cs → Parenthesized strings inside ('(' :: (inner ++ ')' :: cs))

def AnyString (_ : Bool) (_ : List Char) : Prop := True

/-- A string without parentheses, and without commas where these would count. -/
def HarmlessString (inside : Bool) (cs : List Char) : Prop :=
  '(' ∉ cs ∧ ')' ∉ cs ∧ (',' ∈ cs → inside = true)

theorem openCount_append (n : Nat) (cs ds : List Char) :
    openCount n (cs ++ ds) = openCount (openCount n cs) ds := List.foldl_append

theorem commasEnclosed_nil (n : Nat) : CommasEnclosed n [] := by
  intro front back h
  simp at h

theorem commasEnclosed_cons {n : Nat} {c : Char} {cs : List Char} :
    CommasEnclosed n (c :: cs) ↔ (c = ',' → n ≠ 0) ∧ CommasEnclosed (openAfter n c) cs := by
  constructor
  · refine fun h => ⟨fun hc => h [] cs (congrArg (· :: cs) hc), fun front back hcs => ?_⟩
    exact h (c :: front) back (congrArg (c :: ·) hcs)
  · rintro ⟨hc, hcs⟩ front back heq
    cases front with
    | nil => exact hc (List.cons.inj heq).1
    | cons d front =>
      obtain ⟨rfl, hrest⟩ := List.cons.inj heq
      exact hcs front back hrest

instance decidableCommasEnclosed : (n : Nat) → (cs : List Char) → Decidable (CommasEnclosed n cs)
  | n, [] => isTrue (commasEnclosed_nil n)
  | n, c :: cs =>
    have := decidableCommasEnclosed (openAfter n c) cs
    decidable_of_iff' _ commasEnclosed_cons

instance (params : List (String × Option String)) : Decidable (ToldApart params) :=
  decidable_of_iff
    ((∀ p ∈ params, ∀ d ∈ p.2, CommasEnclosed 0 d.toList) ∧
      ∀ p ∈ params.dropLast, ∀ d ∈ p.2, openCount 0 d.toList = 0)
    ⟨fun h => ⟨h.1, h.2⟩, fun h => ⟨h.commas, h.closed⟩⟩

theorem commasEnclosed_append {n : Nat} {cs ds : List Char} :
    CommasEnclosed n (cs ++ ds) ↔ CommasEnclosed n cs ∧ CommasEnclosed (openCount n cs) ds := by
  induction cs generalizing n with
  | nil => exact ⟨fun h => ⟨commasEnclosed_nil n, h⟩, fun h => h.2⟩
  | cons c cs ih =>
    rw [List.cons_append, commasEnclosed_cons, commasEnclosed_cons, ih, and_assoc]
    rfl

/-- No comma of the text cuts it, and it leaves as many parentheses open as there were. -/
def Counted (n : Nat) (cs : List Char) : Prop := CommasEnclosed n cs ∧ openCount n cs = n

theorem Counted.append {n : Nat} {cs ds : List Char} (h : Counted n cs) (h' : Counted n ds) :
    Counted n (cs ++ ds) := by
  refine ⟨commasEnclosed_append.2 ⟨h.1, ?_⟩, ?_⟩
  · rw [h.2]
    exact h'.1
  · rw [openCount_append, h.2, h'.2]

/-- Without parentheses, and with commas only where these are harmless. -/
theorem counted_flat {n : Nat} {cs : List Char} (hopen : '(' ∉ cs) (hclose : ')' ∉ cs)
    (hcomma : ',' ∈ cs → n ≠ 0) : Counted n cs := by
  induction cs with
  | nil => exact ⟨commasEnclosed_nil n, rfl⟩
  | cons c cs ih =>
    rw [List.mem_cons, not_or] at hopen hclose
    obtain ⟨hcommas, hcount⟩ := ih hopen.2 hclose.2 fun h => hcomma (List.mem_cons_of_mem c h)
    have hafter : openAfter n c = n := by
      rw [openAfter, if_neg (Ne.symm hopen.1), if_neg (Ne.symm hclose.1)]
    refine ⟨commasEnclosed_cons.2 ⟨fun hc => hcomma (hc ▸ List.mem_cons_self), ?_⟩, ?_⟩
    · rwa [hafter]
    · show openCount (openAfter n c) cs = n
      rwa [hafter]

theorem counted_group {n : Nat} {inner cs : List Char} (hinner : Counted (n + 1) inner)
    (hcs : Counted n cs) : Counted n ('(' :: (inner ++ ')' :: cs)) := by
  have hclosed : openCount (n + 1) (inner ++ ')' :: cs) = openCount n cs := by
    rw [openCount_append, hinner.2]
    rfl
  refine ⟨commasEnclosed_cons.2 ⟨fun hc => absurd hc (by decide), ?_⟩, hclosed.trans hcs.2⟩
  refine commasEnclosed_append.2 ⟨hinner.1, ?_⟩
  have hcount : openCount (openAfter n '(') inner = n + 1 := hinner.2
  rw [hcount]
  exact commasEnclosed_cons.2 ⟨fun hc => absurd hc (by decide), hcs.1⟩

/-- Balanced texts whose strings are harmless are counted right. -/
theorem Parenthesized.counted {inside : Bool} {cs : List Char}
    (h : Parenthesized HarmlessString inside cs) {n : Nat} (hn : inside = true → n ≠ 0) :
    Counted n cs := by
  induction h generalizing n with
  | nil => exact ⟨commasEnclosed_nil n, rfl⟩
  | @char inside c cs hopen hclose hcomma _ ih =>
    have hc : Counted n [c] := by
      refine counted_flat ?_ ?_ fun hmem => hn (hcomma (List.mem_singleton.1 hmem).symm)
      · exact fun hmem => hopen (List.mem_singleton.1 hmem).symm
      · exact fun hmem => hclose (List.mem_singleton.1 hmem).symm
    exact hc.append (ih hn)
  | @string inside quote inner cs hquote _ hinner _ ih =>
    obtain ⟨hopen, hclose, hcomma⟩ := hinner
    have hmark : Counted n [quote] := by
      rcases hquote with rfl | rfl
      · exact counted_flat (by decide) (by decide) fun hmem => absurd hmem (by decide)
      · exact counted_flat (by decide) (by decide) fun hmem => absurd hmem (by decide)
    have hstring : Counted n inner := counted_flat hopen hclose fun hmem => hn (hcomma hmem)
    exact hmark.append (hstring.append (hmark.append (ih hn)))
  | group _ _ ihInner ihCs => exact counted_group (ihInner fun _ => Nat.succ_ne_zero n) (ihCs hn)

/-! ### Cutting -/

theorem splitAtCommas_cons {n : Nat} {c : Char} (hc : c = ',' → n ≠ 0) (piece cs : List Char) :
    splitAtCommas n piece (c :: cs) = splitAtCommas (openAfter n c) (c :: piece) cs := by
  by_cases hopen : c = '('
  · subst hopen
    rfl
  · by_cases hclose : c = ')'
    · subst hclose
      rfl
    · have hafter : openAfter n c = n := by rw [openAfter, if_neg hopen, if_neg hclose]
      rw [hafter]
      by_cases hcomma : c = ','
      · subst hcomma
        rw [splitAtCommas, if_neg (by simpa using hc rfl)]
      · exact splitAtCommas.eq_5 n piece c cs hopen hclose hcomma

theorem splitAtCommas_append {n : Nat} {cs : List Char} (h : CommasEnclosed n cs)
    (piece rest : List Char) :
    splitAtCommas n piece (cs ++ rest) =
      splitAtCommas (openCount n cs) (cs.reverse ++ piece) rest := by
  induction cs generalizing n piece with
  | nil => rfl
  | cons c cs ih =>
    obtain ⟨hc, hcs⟩ := commasEnclosed_cons.1 h
    rw [List.cons_append, splitAtCommas_cons hc, ih hcs, List.reverse_cons, List.append_assoc]
    rfl

/-- A text has no comma outside of parentheses, or it has a first one. -/
theorem commasEnclosed_or (n : Nat) (cs : List Char) :
    CommasEnclosed n cs ∨ ∃ front back, cs = front ++ ',' :: back ∧ CommasEnclosed n front ∧
      openCount n front = 0 := by
  induction cs generalizing n with
  | nil => exact Or.inl (commasEnclosed_nil n)
  | cons c cs ih =>
    by_cases hc : c = ',' → n ≠ 0
    · rcases ih (openAfter n c) with hcs | ⟨front, back, rfl, hfront, hcount⟩
      · exact Or.inl (commasEnclosed_cons.2 ⟨hc, hcs⟩)
      · exact Or.inr ⟨c :: front, back, rfl, commasEnclosed_cons.2 ⟨hc, hfront⟩, hcount⟩
    · obtain ⟨rfl, hn⟩ := Classical.not_imp.1 hc
      exact Or.inr ⟨[], cs, rfl, commasEnclosed_nil n, Decidable.not_not.1 hn⟩

theorem splitAtCommas_single {cs : List Char} (h : CommasEnclosed 0 cs) :
    splitAtCommas 0 [] cs = [cs] := by
  have hcut := splitAtCommas_append h [] []
  rw [List.append_nil, List.append_nil] at hcut
  rw [hcut, splitAtCommas, List.reverse_reverse]

theorem splitAtCommas_comma {front : List Char} (h : Counted 0 front) (back : List Char) :
    splitAtCommas 0 [] (front ++ ',' :: back) = front :: splitAtCommas 0 [] back := by
  rw [splitAtCommas_append h.1, h.2, List.append_nil, splitAtCommas,
    if_pos (beq_self_eq_true 0), List.reverse_reverse]

theorem mixinParams_single {cs : List Char} (h : CommasEnclosed 0 cs) (hne : trim cs ≠ []) :
    mixinParams cs = [mixinParam (trim cs)] := by
  have hkept : (!(trim cs).isEmpty) = true := by simpa using hne
  rw [mixinParams, splitAtCommas_single h, List.map_singleton, List.filter_singleton, hkept]
  rfl

theorem mixinParams_comma {front : List Char} (h : Counted 0 front) (hne : trim front ≠ [])
    (back : List Char) :
    mixinParams (front ++ ',' :: back) = mixinParam (trim front) :: mixinParams back := by
  have hkept : (!(trim front).isEmpty) = true := by simpa using hne
  rw [mixinParams, splitAtCommas_comma h, List.map_cons, List.filter_cons,
    if_pos hkept]
  rfl

/-- White space before the first parameter makes no difference. -/
theorem mixinParams_blank (cs : List Char) : mixinParams (' ' :: cs) = mixinParams cs := by
  have hblank : Counted 0 [' '] := counted_flat (by decide) (by decide) fun h => absurd h (by decide)
  have hspace : ∀ c ∈ [' '], isBlank c = true := List.forall_mem_singleton.2 rfl
  have htrim : ∀ ds, trim (' ' :: ds) = trim ds := trim_blanks_append hspace
  rcases commasEnclosed_or 0 cs with hcs | ⟨front, back, rfl, hfront⟩
  · have hall : CommasEnclosed 0 (' ' :: cs) := commasEnclosed_append.2 ⟨hblank.1, hcs⟩
    rw [mixinParams, splitAtCommas_single hall, mixinParams, splitAtCommas_single hcs, List.map_cons,
      htrim, List.map_cons]
  · have hall : Counted 0 (' ' :: front) := hblank.append hfront
    have hcut : splitAtCommas 0 [] (' ' :: (front ++ ',' :: back)) =
        (' ' :: front) :: splitAtCommas 0 [] back := splitAtCommas_comma hall back
    rw [mixinParams, hcut, mixinParams, splitAtCommas_comma hfront, List.map_cons, htrim, List.map_cons]

/-! ### One parameter -/

theorem not_isBlank_of_isNameChar {c : Char} (h : isNameChar c = true) : isBlank c = false := by
  rw [← Bool.not_eq_true]
  intro hblank
  have hno : isNameChar c = false := eq_false_of_isBlank (by decide +kernel) hblank
  rw [hno] at h
  cases h

namespace IsVariable

variable {name : String} (h : IsVariable name)
include h

theorem not_mem {c : Char} (hc : isNameChar c = false) (hdollar : c ≠ '$') :
    c ∉ name.toList := by
  obtain ⟨cs, hname, hchars⟩ := h
  rw [hname, List.mem_cons, not_or]
  exact ⟨hdollar, fun hmem => by
    rw [hchars c hmem] at hc
    cases hc⟩

theorem not_isBlank_of_mem {c : Char} (hc : c ∈ name.toList) : isBlank c = false := by
  obtain ⟨cs, hname, hchars⟩ := h
  rw [hname] at hc
  rcases List.mem_cons.1 hc with rfl | hc
  · rfl
  · exact not_isBlank_of_isNameChar (hchars c hc)

theorem ne_nil : name.toList ≠ [] := by
  obtain ⟨cs, hname, -⟩ := h
  rw [hname]
  exact List.cons_ne_nil _ _

theorem trim : Text.trim name.toList = name.toList :=
  trim_eq_self_iff.2 ⟨fun _ hc => h.not_isBlank_of_mem (List.mem_of_head? hc),
    fun _ hc => h.not_isBlank_of_mem (List.mem_of_getLast? hc)⟩

theorem counted : Counted 0 name.toList :=
  counted_flat (h.not_mem (by decide) (by decide)) (h.not_mem (by decide) (by decide))
    fun hmem => absurd hmem (h.not_mem (by decide) (by decide))

/-- The front of a parameter with a default value. -/
theorem counted_front : Counted 0 (name.toList ++ [':', ' ']) :=
  h.counted.append
    (counted_flat (by decide) (by decide) fun hmem => absurd hmem (by decide))

theorem mixinParam : Stylesheet.mixinParam name.toList = (name, none) := by
  rw [Stylesheet.mixinParam, cutFirst?_of_not_mem (h.not_mem (by decide) (by decide)),
    String.ofList_toList]

theorem trim_front_append (cs : List Char) :
    Text.trim (name.toList ++ ':' :: cs) = name.toList ++ ':' :: trimEnd cs := by
  have hfront : Text.trim (name.toList ++ [':']) = name.toList ++ [':'] := by
    refine trim_eq_self_iff.2 ⟨fun c hc => ?_, fun c hc => ?_⟩
    · rw [List.head?_append_of_ne_nil _ h.ne_nil] at hc
      exact h.not_isBlank_of_mem (List.mem_of_head? hc)
    · rw [List.getLast?_concat] at hc
      obtain rfl := Option.some.inj hc
      rfl
  have hcut := trim_append hfront (by simp) cs
  rwa [List.append_assoc, List.append_assoc] at hcut

/-- A name, a colon and a text are read as the name and the text without white space around it. -/
theorem mixinParam_front (cs : List Char) :
    Stylesheet.mixinParam (Text.trim (name.toList ++ ':' :: ' ' :: cs)) =
      (name, some (String.ofList (Text.trim cs))) := by
  have hspace : ∀ c ∈ [' '], isBlank c = true := List.forall_mem_singleton.2 rfl
  have hblank : Text.trim (' ' :: cs) = Text.trim cs := trim_blanks_append hspace cs
  rw [h.trim_front_append, Stylesheet.mixinParam,
    cutFirst?_append (h.not_mem (by decide) (by decide))]
  dsimp only
  rw [h.trim, trim_trimEnd, hblank, String.ofList_toList]

end IsVariable

/-- What is cut off behind a value that starts with a comma shows in the piece. -/
theorem trim_append_comma_ne {d : List Char} (htrim : trim d = d) (hne : d ≠ []) (cs : List Char) :
    trim (d ++ ',' :: cs) ≠ d := by
  intro h
  have hrest : trimEnd (',' :: cs) = [] :=
    List.append_right_eq_self.1 ((trim_append htrim hne _).symm.trans h)
  have hmark : trim [','] = [','] := by decide
  have hcomma : trim (',' :: cs) = ',' :: trimEnd cs := trim_append hmark (List.cons_ne_nil _ _) cs
  rw [← trim_trimEnd, hrest] at hcomma
  cases hcomma

/-- Where the piece that starts with a value is the value, the value is in one piece, and the comma
behind it ends the piece. -/
theorem told_of_trim {d tail front : List Char} (htrim : trim d = d) (hne : d ≠ [])
    (htail : tail = [] ∨ ∃ rest, tail = ',' :: rest) (hfront : trim front = d)
    (hcut : front = d ++ tail ∧ CommasEnclosed 0 front ∨
      ∃ back, d ++ tail = front ++ ',' :: back ∧ Counted 0 front) :
    CommasEnclosed 0 d ∧ (tail ≠ [] → openCount 0 d = 0) := by
  rcases hcut with ⟨rfl, henclosed⟩ | ⟨back, hcut, hcounted⟩
  · rcases htail with rfl | ⟨rest, rfl⟩
    · rw [List.append_nil] at henclosed
      exact ⟨henclosed, fun h => absurd rfl h⟩
    · exact absurd hfront (trim_append_comma_ne htrim hne rest)
  · rcases List.append_eq_append_iff.1 hcut with ⟨more, hlonger, hmore⟩ | ⟨less, hshorter, hless⟩
    · cases more with
      | nil =>
        rw [List.append_nil] at hlonger
        exact hlonger ▸ ⟨hcounted.1, fun _ => hcounted.2⟩
      | cons c more =>
        rcases htail with rfl | ⟨rest, rfl⟩
        · cases hmore
        · obtain ⟨rfl, -⟩ := List.cons.inj hmore
          exact absurd (hlonger ▸ hfront) (trim_append_comma_ne htrim hne more)
    · cases less with
      | nil =>
        rw [List.append_nil] at hshorter
        exact hshorter ▸ ⟨hcounted.1, fun _ => hcounted.2⟩
      | cons c less =>
        -- The piece is shorter than the value, so it cannot be the value.
        have hlength := congrArg List.length hshorter
        rw [← hfront, List.length_append, List.length_cons] at hlength
        have hle := length_trim_le front
        omega

theorem paramText_some (name d : String) (tail : List Char) :
    paramText (name, some d) ++ tail = (name.toList ++ [':', ' ']) ++ (d.toList ++ tail) := by
  rw [paramText, List.append_assoc, List.append_assoc]
  rfl

namespace IsParam

variable {p : String × Option String} (hp : IsParam p)
include hp

/-- The text of a parameter is read as the parameter. -/
theorem read : trim (paramText p) ≠ [] ∧ mixinParam (trim (paramText p)) = p := by
  obtain ⟨name, default⟩ := p
  have hname : IsVariable name := hp.name
  cases default with
  | none =>
    show trim name.toList ≠ [] ∧ mixinParam (trim name.toList) = _
    rw [hname.trim]
    exact ⟨hname.ne_nil, hname.mixinParam⟩
  | some d =>
    obtain ⟨-, htrim, -⟩ := hp.default d rfl
    refine ⟨?_, (hname.mixinParam_front d.toList).trans ?_⟩
    · exact hname.trim_front_append (' ' :: d.toList) ▸
        List.append_ne_nil_of_left_ne_nil hname.ne_nil _
    · rw [htrim, String.ofList_toList]

/-- The text of a parameter is counted like its default value. -/
theorem counted_iff :
    (CommasEnclosed 0 (paramText p) ↔ ∀ d ∈ p.2, CommasEnclosed 0 d.toList) ∧
      (openCount 0 (paramText p) = 0 ↔ ∀ d ∈ p.2, openCount 0 d.toList = 0) := by
  obtain ⟨name, default⟩ := p
  have hname : IsVariable name := hp.name
  cases default with
  | none => simp [paramText, hname.counted.1, hname.counted.2]
  | some d =>
    have hshape := paramText_some name d []
    rw [List.append_nil, List.append_nil] at hshape
    obtain ⟨hfront, hcount⟩ := hname.counted_front
    rw [hshape, commasEnclosed_append, openCount_append _ _ d.toList, hcount]
    simp [hfront]

/-- If a parameter is read back from the front of a text, its default value is counted right. -/
theorem told_of_read {tail : List Char} (htail : tail = [] ∨ ∃ rest, tail = ',' :: rest)
    {ps : List (String × Option String)} (hread : mixinParams (paramText p ++ tail) = p :: ps) :
    (∀ d ∈ p.2, CommasEnclosed 0 d.toList) ∧ (tail ≠ [] → ∀ d ∈ p.2, openCount 0 d.toList = 0) := by
  obtain ⟨name, default⟩ := p
  have hname : IsVariable name := hp.name
  cases default with
  | none => exact ⟨fun d hd => absurd hd (by simp), fun _ d hd => absurd hd (by simp)⟩
  | some d =>
    obtain ⟨hne, htrim, -⟩ := hp.default d rfl
    have hshape : ∀ cs, (name.toList ++ [':', ' ']) ++ cs = name.toList ++ ':' :: ' ' :: cs :=
      fun cs => List.append_assoc _ _ cs
    -- The first piece is read as the name with the trimmed rest of the piece.
    have hfirst : ∀ cs, trim ((name.toList ++ [':', ' ']) ++ cs) ≠ [] ∧
        (mixinParam (trim ((name.toList ++ [':', ' ']) ++ cs)) = (name, some d) →
          trim cs = d.toList) := by
      intro cs
      rw [hshape, hname.mixinParam_front]
      refine ⟨?_, fun h => ?_⟩
      · rw [hname.trim_front_append]
        exact List.append_ne_nil_of_left_ne_nil hname.ne_nil _
      · rw [← Option.some.inj (Prod.mk.inj h).2, String.toList_ofList]
    have htold : CommasEnclosed 0 d.toList ∧ (tail ≠ [] → openCount 0 d.toList = 0) := by
      rw [paramText_some] at hread
      obtain ⟨hcommas, hcount⟩ := hname.counted_front
      rcases commasEnclosed_or 0 (d.toList ++ tail) with hall | ⟨front, back, hcut, hfront⟩
      · have henclosed : CommasEnclosed 0 ((name.toList ++ [':', ' ']) ++ (d.toList ++ tail)) :=
          commasEnclosed_append.2 ⟨hcommas, hcount.symm ▸ hall⟩
        rw [mixinParams_single henclosed (hfirst _).1] at hread
        exact told_of_trim htrim hne htail ((hfirst _).2 (List.cons.inj hread).1) (.inl ⟨rfl, hall⟩)
      · have hcounted : Counted 0 ((name.toList ++ [':', ' ']) ++ front) :=
          hname.counted_front.append hfront
        rw [hcut, ← List.append_assoc, mixinParams_comma hcounted (hfirst _).1] at hread
        exact told_of_trim htrim hne htail ((hfirst _).2 (List.cons.inj hread).1)
          (.inr ⟨back, hcut, hfront⟩)
    simpa using htold

end IsParam

/-! ### All parameters -/

theorem paramsText_singleton (p : String × Option String) : paramsText [p] = paramText p := by
  rw [paramsText, List.map_singleton, joinWith, List.intercalate_singleton]

theorem paramsText_cons_cons (p q : String × Option String) (ps : List (String × Option String)) :
    paramsText (p :: q :: ps) = paramText p ++ ',' :: ' ' :: paramsText (q :: ps) := by
  rw [paramsText, List.map_cons, List.map_cons, joinWith, List.intercalate_cons_cons,
    List.append_assoc]
  rfl

theorem toldApart_cons_cons {p q : String × Option String} {ps : List (String × Option String)} :
    ToldApart (p :: q :: ps) ↔
      (∀ d ∈ p.2, CommasEnclosed 0 d.toList) ∧ (∀ d ∈ p.2, openCount 0 d.toList = 0) ∧
        ToldApart (q :: ps) := by
  constructor
  · intro h
    obtain ⟨hp, hcommas⟩ := List.forall_mem_cons.1 h.commas
    obtain ⟨hclosed, hrest⟩ := List.forall_mem_cons.1 h.closed
    exact ⟨hp, hclosed, hcommas, hrest⟩
  · rintro ⟨hp, hclosed, h⟩
    exact ⟨List.forall_mem_cons.2 ⟨hp, h.commas⟩, List.forall_mem_cons.2 ⟨hclosed, h.closed⟩⟩

theorem toldApart_of_parenthesized {params : List (String × Option String)}
    (h : ∀ p ∈ params, ∀ d ∈ p.2, Parenthesized HarmlessString false d.toList) :
    ToldApart params := by
  have hcounted : ∀ p ∈ params, ∀ d ∈ p.2, Counted 0 d.toList := fun p hp d hd =>
    (h p hp d hd).counted fun hinside => absurd hinside Bool.false_ne_true
  exact ⟨fun p hp d hd => (hcounted p hp d hd).1,
    fun p hp d hd => (hcounted p (List.dropLast_subset _ hp) d hd).2⟩

theorem mixinParams_paramsText_iff {params : List (String × Option String)}
    (hparams : ∀ p ∈ params, IsParam p) :
    mixinParams (paramsText params) = params ↔ ToldApart params := by
  induction params with
  | nil => exact ⟨fun _ => ⟨by simp, by simp⟩, fun _ => by decide⟩
  | cons p ps ih =>
    obtain ⟨hp, hps⟩ := List.forall_mem_cons.1 hparams
    obtain ⟨hne, hread⟩ := hp.read
    cases ps with
    | nil =>
      rw [paramsText_singleton]
      constructor
      · intro h
        rw [← List.append_nil (paramText p)] at h
        exact ⟨List.forall_mem_singleton.2 (hp.told_of_read (Or.inl rfl) h).1, by simp⟩
      · intro h
        rw [mixinParams_single (hp.counted_iff.1.2 (List.forall_mem_singleton.1 h.commas)) hne, hread]
    | cons q ps =>
      rw [paramsText_cons_cons, toldApart_cons_cons]
      -- Where the first parameter is told apart, the others are read as if they stood alone.
      have hcut : Counted 0 (paramText p) →
          mixinParams (paramText p ++ ',' :: ' ' :: paramsText (q :: ps)) =
            p :: mixinParams (paramsText (q :: ps)) := by
        intro hcounted
        rw [mixinParams_comma hcounted hne, hread, mixinParams_blank]
      constructor
      · intro h
        obtain ⟨hcommas, hclosed⟩ := hp.told_of_read (Or.inr ⟨_, rfl⟩) h
        have hclosed := hclosed (List.cons_ne_nil _ _)
        rw [hcut ⟨hp.counted_iff.1.2 hcommas, hp.counted_iff.2.2 hclosed⟩] at h
        exact ⟨hcommas, hclosed, (ih hps).1 (List.cons.inj h).2⟩
      · rintro ⟨hcommas, hclosed, h⟩
        rw [hcut ⟨hp.counted_iff.1.2 hcommas, hp.counted_iff.2.2 hclosed⟩, (ih hps).2 h]

theorem not_mem_paramsText {params : List (String × Option String)}
    (hparams : ∀ p ∈ params, IsParam p) : '\x7b' ∉ paramsText params := by
  have hparam : ∀ p, IsParam p → '\x7b' ∉ paramText p := by
    rintro ⟨name, default⟩ ⟨hname, hdefault⟩
    have hfront : '\x7b' ∉ name.toList := hname.not_mem (by decide) (by decide)
    cases default with
    | none => exact hfront
    | some d =>
      obtain ⟨-, -, hbrace⟩ := hdefault d rfl
      simp [paramText, hfront, hbrace]
  induction params with
  | nil => exact List.not_mem_nil
  | cons p ps ih =>
    obtain ⟨hp, hps⟩ := List.forall_mem_cons.1 hparams
    cases ps with
    | nil =>
      rw [paramsText_singleton]
      exact hparam p hp
    | cons q ps =>
      have hrest := ih hps
      rw [paramsText_cons_cons]
      simp [hparam p hp, hrest]

/-! ### The head and its comment -/

theorem name?_append {name rest : List Char} (hne : name ≠ [])
    (hname : ∀ c ∈ name, isNameChar c = true) (hrest : ∀ c ∈ rest.head?, isNameChar c = false) :
    name? (name ++ rest) = some (name, rest) := by
  have hstop : rest.takeWhile isNameChar = [] ∧ rest.dropWhile isNameChar = rest := by
    cases rest with
    | nil => exact ⟨rfl, rfl⟩
    | cons c rest =>
      have hc := Bool.eq_false_iff.1 (hrest c rfl)
      exact ⟨List.takeWhile_cons_of_neg hc, List.dropWhile_cons_of_neg hc⟩
  rw [name?, List.takeWhile_append_of_pos hname, List.dropWhile_append_of_pos hname, hstop.1,
    hstop.2, List.append_nil]
  cases name with
  | nil => exact absurd rfl hne
  | cons c cs => rfl

theorem headContent?_append {text : List Char} (h : '\x7b' ∉ text) (after : List Char) :
    headContent? ('(' :: (text ++ ')' :: ' ' :: '\x7b' :: after)) = some text := by
  have hhead : (text ++ ')' :: ' ' :: '\x7b' :: after).takeWhile (· != '\x7b') =
      text ++ [')', ' '] := by
    rw [List.takeWhile_append_of_pos fun c hc => bne_iff_ne.2 (ne_of_mem_of_not_mem hc h)]
    rfl
  have hspace : ')' ∉ [' '] := by decide
  rw [headContent?, hhead, cutLast?_append hspace]
  rfl

/-- A head is read as its name and what is read of the text in its parentheses. -/
theorem construct?_headText {gap : List Char} (hgap : ∀ c ∈ gap, isBlank c = true) {name : String}
    (hname : IsMixinName name) {params : List (String × Option String)}
    (hparams : ∀ p ∈ params, IsParam p) (after : List Char) :
    construct? (gap ++ (headText name params ++ after)) =
      some (.styleMixin name (mixinParams (paramsText params))) := by
  obtain ⟨hne, hchars⟩ := hname
  have hshape : headText name params ++ after = '@' :: 'm' :: 'i' :: 'x' :: 'i' :: 'n' :: ' ' ::
      (name.toList ++ '(' :: (paramsText params ++ ')' :: ' ' :: '\x7b' :: after)) := by
    unfold headText
    simp
  have hsolid : ∀ {c : Char}, isBlank c = false → ∀ cs, trimStart (c :: cs) = c :: cs :=
    fun hc cs => List.dropWhile_cons_of_neg (Bool.eq_false_iff.1 hc)
  have hstart : trimStart (gap ++ (headText name params ++ after)) =
      headText name params ++ after := by
    rw [trimStart_append hgap, hshape]
    exact hsolid (by decide) _
  have hvar : varHead? (gap ++ (headText name params ++ after)) = none := by
    rw [varHead?, hstart, hshape]
    rfl
  have hread : mixinHead? (gap ++ (headText name params ++ after)) =
      some (.styleMixin name (mixinParams (paramsText params))) := by
    have hword : "@mixin".toList.isPrefixOf? (headText name params ++ after) = some (' ' ::
        (name.toList ++ '(' :: (paramsText params ++ ')' :: ' ' :: '\x7b' :: after))) := by
      rw [List.isPrefixOf?_eq_some_iff_append_eq, hshape]
      simp
    obtain ⟨c, cs, hcs⟩ := List.exists_cons_of_ne_nil hne
    have hname : trimStart (name.toList ++ '(' :: (paramsText params ++
        ')' :: ' ' :: '\x7b' :: after)) = name.toList ++ '(' :: (paramsText params ++
          ')' :: ' ' :: '\x7b' :: after) := by
      rw [hcs]
      exact hsolid (not_isBlank_of_isNameChar (hchars c (hcs ▸ List.mem_cons_self))) _
    have hopen : ∀ cs, trimStart ('(' :: cs) = '(' :: cs := hsolid (by decide)
    rw [mixinHead?, hstart, hword]
    dsimp only
    rw [if_pos (by decide), hname, name?_append hne hchars (by simp; decide), Option.map_some,
      hopen, headContent?_append (not_mem_paramsText hparams), String.ofList_toList]
  rw [construct?, hvar, hread]
  rfl

/-- What closes a comment is found behind it, if it does not stand in it. -/
theorem firstFrom?_closer {comment : List Char} (h : ¬ closer <:+: comment) (rest : List Char) :
    firstFrom? closer (comment ++ (closer ++ rest)) 0 = some comment.length := by
  refine (firstFrom?_eq_some_iff (by decide)).2 ⟨Nat.zero_le _, ?_, fun j _ hj hat => ?_⟩
  · rw [StartsAt, List.drop_left]
    exact List.prefix_append closer rest
  · obtain ⟨more, hmore⟩ := hat
    rw [List.drop_append_of_le_length (Nat.le_of_lt hj)] at hmore
    have hend : closer = ['*', '/'] := rfl
    cases hdrop : comment.drop j with
    | nil => exact absurd (List.drop_eq_nil_iff.1 hdrop) (Nat.not_le_of_lt hj)
    | cons c behind =>
      rw [hdrop, hend] at hmore
      cases behind with
      -- The `*` of what closes the comment would have to be a `/`.
      | nil => simp at hmore
      | cons d behind =>
        refine h ⟨comment.take j, behind, ?_⟩
        obtain ⟨hstar, hslash, -⟩ : '*' = c ∧ '/' = d ∧ _ := by simpa using hmore
        rw [hend, hstar, hslash, List.append_assoc, List.cons_append, List.cons_append,
          List.nil_append, ← hdrop, List.take_append_drop]

theorem cutText?_closer {comment : List Char} (h : ¬ closer <:+: comment) (rest : List Char) :
    cutText? closer (comment ++ (closer ++ rest)) = some (comment, rest) := by
  have hne : closer ≠ [] := by decide
  have hcut := cutText?_drop hne (comment ++ (closer ++ rest)) 0
  rw [firstFrom?_closer h, List.drop_zero] at hcut
  rw [hcut, Option.map_some, Nat.sub_zero, List.take_left, ← List.length_append,
    ← List.append_assoc, List.drop_left]

theorem head?_docs {comment : List Char} (h : ¬ closer <:+: comment) (rest : List Char) :
    (docs (String.ofList (docOpener ++ (comment ++ (closer ++ rest))))).head? =
      some { comment := String.ofList comment, code := construct? rest, line := 1 } := by
  have hopen : cutText? docOpener (docOpener ++ (comment ++ (closer ++ rest))) =
      some ([], comment ++ (closer ++ rest)) := by
    rfl
  rw [docs, String.toList_ofList, docsFrom_eq, hopen]
  dsimp only
  rw [cutText?_closer h]
  rfl

theorem head?_docs_mixinSource {comment gap : List Char} {name : String}
    {params : List (String × Option String)} (hcomment : ¬ closer <:+: comment)
    (hgap : ∀ c ∈ gap, isBlank c = true) (hname : IsMixinName name)
    (hparams : ∀ p ∈ params, IsParam p) (after : List Char) :
    (docs (mixinSource comment gap name params after)).head? = some
      { comment := String.ofList comment
        code := some (.styleMixin name (mixinParams (paramsText params))), line := 1 } := by
  rw [mixinSource, head?_docs hcomment, construct?_headText hgap hname hparams]

/-- A mixin with its comment is read with the comment and the name, and its parameters are read back
exactly if they are told apart.  That is so for balanced default values whose strings are harmless. -/
theorem mixin_read_back_iff {comment gap after : List Char} {name : String}
    {params : List (String × Option String)} (hcomment : ¬ closer <:+: comment)
    (hgap : ∀ c ∈ gap, isBlank c = true) (hname : IsMixinName name)
    (hparams : ∀ p ∈ params, IsParam p) :
    ∃ read,
      (docs (mixinSource comment gap name params after)).head? = some
        { comment := String.ofList comment, code := some (.styleMixin name read), line := 1 } ∧
      (read = params ↔ ToldApart params) ∧
      ((∀ p ∈ params, ∀ d ∈ p.2, Parenthesized HarmlessString false d.toList) → read = params) := by
  have hread := mixinParams_paramsText_iff hparams
  exact ⟨mixinParams (paramsText params), head?_docs_mixinSource hcomment hgap hname hparams after,
    hread, fun h => hread.2 (toldApart_of_parenthesized h)⟩

/-- A parameter without a default value, one with nested parentheses in it, and one with a string. -/
def buttonParams : List (String × Option String) :=
  [("$foo", none), ("$shadow", some "rgba(0, min(1, 2), .5)"), ("$font", some "url(\"a,b\")")]

theorem mixin_read_back_button :
    ∃ read,
      (docs (mixinSource " Button. ".toList ['\n'] "my-button" buttonParams ['\n', '\x7d'])).head? =
        some { comment := String.ofList " Button. ".toList
               code := some (.styleMixin "my-button" read), line := 1 } ∧
      read = buttonParams := by
  have hcomment : ¬ closer <:+: " Button. ".toList := by decide +kernel
  have hgap : ∀ c ∈ ['\n'], isBlank c = true := List.forall_mem_singleton.2 rfl
  have hname : IsMixinName "my-button" := by decide +kernel
  obtain ⟨read, hdocs, hread, -⟩ := mixin_read_back_iff hcomment hgap hname
    (by decide +kernel : ∀ p ∈ buttonParams, IsParam p)
  exact ⟨read, hdocs, hread.2 (by decide +kernel)⟩

/-- A default value that is a string with a comma in it. -/
def listParams : List (String × Option String) := [("$a", some "\"x, y\"")]

theorem string_default_cut :
    IsMixinName "card" ∧
    (∀ p ∈ listParams, IsParam p ∧ ∀ d ∈ p.2, Parenthesized AnyString false d.toList) ∧
    (docs (mixinSource " Card. ".toList ['\n'] "card" listParams ['\n', '\x7d'])).head? = some
      { comment := String.ofList " Card. ".toList, line := 1
        code := some (.styleMixin "card" [("$a", some "\"x"), ("y\"", none)]) } ∧
    [("$a", some "\"x"), ("y\"", none)] ≠ listParams := by
  have hname : IsMixinName "card" := by decide +kernel
  have hparams : ∀ p ∈ listParams, IsParam p := by decide +kernel
  have hcomment : ¬ closer <:+: " Card. ".toList := by decide +kernel
  have hgap : ∀ c ∈ ['\n'], isBlank c = true := List.forall_mem_singleton.2 rfl
  have hstring : Parenthesized AnyString false "\"x, y\"".toList := by
    have hvalue : "\"x, y\"".toList = '"' :: (['x', ',', ' ', 'y'] ++ '"' :: []) := by decide +kernel
    rw [hvalue]
    exact .string (Or.inl rfl) (by decide) trivial .nil
  have hread : mixinParams (paramsText listParams) = [("$a", some "\"x"), ("y\"", none)] := by
    decide +kernel
  refine ⟨hname, fun p hp => ⟨hparams p hp, fun d hd => ?_⟩, ?_, by decide⟩
  · obtain rfl := List.mem_singleton.1 hp
    obtain rfl := Option.some.inj hd
    exact hstring
  · rw [head?_docs_mixinSource hcomment hgap hname hparams, hread]

end Stylesheet
end ApiDoc
