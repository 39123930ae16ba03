/-
Default values, read by places.

What follows an equals sign is gone through character by character, and only where the value ends is its
place asked for in bytes.  A backslash steps over the next character even where there is none, so the
reader may count on behind the end of the text.
-/
import ApiDoc.Proofs.Comment.Bytes.Reader
import ApiDoc.Proofs.Comment.Complete
import Mathlib.Data.List.TakeWhile

namespace ApiDoc
namespace Comment
namespace Bytes

open Text

namespace PlaceReader

/-! ### Places counted in characters -/

def here? : PlaceReader (Option Char) := fun chars i => some (chars[i]?, i)

def stepOver : PlaceReader Unit := modify (· + 1)

/-- The place in bytes, which behind the end of the text is its end. -/
def offset : PlaceReader Nat := fun chars i => some (byteLength (chars.take i), i)

/-- Goes over a string whose opening quote is behind the place, and tells whether it is closed. -/
def passQuoted (quote : Char) : PlaceReader Bool :=
  repeated (fun again _ => do
    match ← here? with
    | none => return false
    | some c => do
      stepOver
      if c = '\\' then
        stepOver
        again ()
      else if c = quote then return true
      else again ()) ()

def passPattern (inClass : Bool) : PlaceReader Bool :=
  repeated (fun again inClass => do
    match ← here? with
    | none => return false
    | some c => do
      stepOver
      if c = '\\' then
        stepOver
        again inClass
      else if c = '[' then again true
      else if c = ']' ∧ inClass then again false
      else if c = '/' ∧ !inClass then return true
      else if c = '\n' then return false
      else again inClass) inClass

/-- What is known in front of a place in a value: the closing brackets that are due, and the last
character that is not blank. -/
structure Open where
  stack : List Char
  prev : Option Char

/-- The place in bytes of the square bracket that closes no bracket of the value. -/
def unmatchedOffset? (o : Open) : PlaceReader (Option Nat) :=
  repeated (fun again o => do
    match ← here? with
    | none => return none
    | some c =>
      if isQuote c then
        stepOver
        if ← passQuoted c then again ⟨o.stack, some c⟩ else return none
      else if c == '/' && startsPattern o.prev then
        stepOver
        if ← passPattern false then again ⟨o.stack, some c⟩ else return none
      else
        match closerOf? c with
        | some closer => do
          stepOver
          again ⟨closer :: o.stack, some c⟩
        | none =>
          if isCloser c then
            match o.stack with
            | due :: stack =>
              if due == c then
                stepOver
                again ⟨stack, some c⟩
              else return none
            | [] => if c == ']' then return some (← offset) else return none
          else
            stepOver
            again ⟨o.stack, if isBlank c then o.prev else some c⟩) o

/-- Goes over a group of brackets, and tells whether it is closed. -/
def passGroup (stack : List Char) : PlaceReader Bool :=
  repeated (fun again stack => do
    match ← here? with
    | none => return false
    | some c =>
      if isQuote c then
        stepOver
        if ← passQuoted c then again stack else return false
      else
        match closerOf? c with
        | some closer => do
          stepOver
          again (closer :: stack)
        | none =>
          if isCloser c then
            match stack with
            | [] => return false
            | due :: stack =>
              if due == c then
                stepOver
                if stack.isEmpty then return true else again stack
              else return false
          else
            stepOver
            again stack) stack

/-- The place in bytes behind the string or group that starts the text, if it is closed. -/
def literalEnd? : PlaceReader (Option Nat) := do
  match ← here? with
  | none => return none
  | some c =>
    if isQuote c then
      stepOver
      if ← passQuoted c then return some (← offset) else return none
    else if (closerOf? c).isSome then
      if ← passGroup [] then return some (← offset) else return none
    else return none

/-! ### Values -/

/-- The number of bytes in front of the first such character. -/
def firstOffset? (p : Char → Bool) (cs : List Char) : Option Nat :=
  if cs.any p then some (byteLength (cs.takeWhile fun c => !p c)) else none

/-- The first bytes of a text. -/
def firstBytes? (n : Nat) (cs : List Char) : Option (List Char) := (cutAtByte? n cs).map (·.1)

/-- The default value of a name in square brackets, and the number of bytes that it takes with the bracket
that closes it. -/
def bracketedValue? (cs : List Char) : Option (List Char × Nat) := do
  let (unmatched?, _) ← unmatchedOffset? ⟨[], none⟩ cs 0
  match unmatched?.or (firstOffset? (· == ']') cs) with
  | some close => (firstBytes? close cs).map fun front => (trim front, close + 1)
  | none =>
    let stop := (firstOffset? (· == '\n') cs).getD (byteLength cs)
    (firstBytes? stop cs).map fun front => (trim front, stop)

/-- The default value of a name without brackets, and the number of bytes that it takes. -/
def bareValue? (cs : List Char) : Option (List Char × Nat) := do
  let (literal?, _) ← literalEnd? cs 0
  let stop := literal?.getD ((firstOffset? isBlank cs).getD (byteLength cs))
  (firstBytes? stop cs).map fun front => (front, stop)

/-- Reads such a value in front of the place. -/
def value (value? : List Char → Option (List Char × Nat)) : PlaceReader (List Char) := do
  let p ← ofOption (value? (← around).2)
  advance p.2
  return p.1

/-! ### What is gone over -/

def InChars (chars : List Char) (i : Nat) (cs : List Char) : Prop := chars.drop i = cs

abbrev Walks (chars : List Char) {α : Type} (r : PlaceReader α) (cs : List Char)
    (p : α × List Char) : Prop :=
  Goes (InChars chars) chars r cs p

variable {chars : List Char}

theorem walks_here? (cs : List Char) : Walks chars here? cs (cs.head?, cs) where
  run {i} h := by
    refine ⟨cs.head?, i, ?_, rfl, h⟩
    rw [here?, ← h, List.head?_drop]

theorem walks_stepOver (cs : List Char) : Walks chars stepOver cs ((), cs.drop 1) where
  run {i} h :=
    ⟨(), i + 1, rfl, rfl, (List.drop_drop ..).symm.trans (congrArg (List.drop 1) h)⟩

theorem walks_offset (cs : List Char) : Walks chars offset cs (placeOf chars cs, cs) where
  run {i} h := by
    refine ⟨placeOf chars cs, i, ?_, rfl, h⟩
    have hsplit : byteLength (chars.take i) + byteLength cs = byteLength chars := by
      rw [← byteLength_append, ← h, List.take_append_drop]
    rw [offset, placeOf, ← hsplit, Nat.add_sub_cancel]

theorem length_le_of_inChars (i : Nat) (cs : List Char) (h : InChars chars i cs) :
    cs.length ≤ chars.length :=
  h ▸ (List.drop_suffix i chars).length_le

/-- The answer, wherever the reader stops. -/
abbrev Finds (chars : List Char) {α : Type} (r : PlaceReader α) (cs : List Char) (a : α) : Prop :=
  Runs (InChars chars) chars r cs fun a' _ => a' = a

theorem finds_repeated {α σ : Type} {body : (σ → PlaceReader α) → σ → PlaceReader α}
    (a : σ → List Char → α)
    (h : ∀ (again : σ → PlaceReader α) (s : σ) (cs : List Char),
      (∀ s' cs', cs'.length < cs.length → Finds chars (again s') cs' (a s' cs')) →
        Finds chars (body again s) cs (a s cs)) (s : σ) (cs : List Char) :
    Finds chars (repeated body s) cs (a s cs) :=
  .repeated _ length_le_of_inChars h s cs

/-- The reader tells whether there is a rest, and goes to where it starts. -/
abbrev Passes (chars : List Char) (r : PlaceReader Bool) (cs : List Char)
    (rest? : Option (List Char)) : Prop :=
  Runs (InChars chars) chars r cs fun closed i =>
    closed = rest?.isSome ∧ ∀ rest ∈ rest?, InChars chars i rest

theorem passes_repeated {σ : Type} {body : (σ → PlaceReader Bool) → σ → PlaceReader Bool}
    (rest? : σ → List Char → Option (List Char))
    (h : ∀ (again : σ → PlaceReader Bool) (s : σ) (cs : List Char),
      (∀ s' cs', cs'.length < cs.length → Passes chars (again s') cs' (rest? s' cs')) →
        Passes chars (body again s) cs (rest? s cs)) (s : σ) (cs : List Char) :
    Passes chars (repeated body s) cs (rest? s cs) :=
  .repeated _ length_le_of_inChars h s cs

theorem passes_closed (cs : List Char) : Passes chars (pure true) cs (some cs) where
  run h := ⟨true, _, rfl, rfl, fun _ ha => Option.some.inj ha ▸ h⟩

theorem passes_unclosed (cs : List Char) : Passes chars (pure false) cs none :=
  .answer fun _ => ⟨rfl, fun _ ha => nomatch ha⟩

theorem walks_of_passes {r : PlaceReader Bool} {cs rest : List Char} {rest? : Option (List Char)}
    (h : Passes chars r cs rest?) (hsome : rest? = some rest) : Walks chars r cs (true, rest) where
  run hplace := by
    obtain ⟨a, i, hrun, ha, hrest⟩ := h.run hplace
    subst hsome
    exact ⟨a, i, hrun, ha, hrest rest rfl⟩

theorem finds_of_passes {r : PlaceReader Bool} {cs : List Char} {rest? : Option (List Char)}
    (h : Passes chars r cs rest?) (hnone : rest? = none) : Finds chars r cs false where
  run hplace := by
    obtain ⟨a, i, hrun, ha, -⟩ := h.run hplace
    subst hnone
    exact ⟨a, i, hrun, ha⟩

theorem passes_passQuoted (quote : Char) (cs : List Char) :
    Passes chars (passQuoted quote) cs (afterString? quote cs) := by
  refine passes_repeated (fun _ => afterString? quote) (fun again _ cs ih => ?_) () cs
  refine (walks_here? cs).bind ?_
  fun_cases afterString? quote cs with
  | case1 => exact passes_unclosed []
  | case2 =>
    exact (walks_stepOver _).bind (.of_pos rfl
      ((walks_stepOver []).bind (ih () [] (Nat.lt_succ_self _))))
  | case3 c cs =>
    exact (walks_stepOver _).bind (.of_pos rfl
      ((walks_stepOver _).bind (ih () cs (Nat.lt_succ_of_lt (Nat.lt_succ_self _)))))
  | case4 c cs hlone hescape hc =>
    refine (walks_stepOver _).bind (.of_neg ?_ (.of_pos ?_ (passes_closed cs)))
    · exact ne_backslash hlone hescape
    · exact eq_of_beq hc
  | case5 c cs hlone hescape hc =>
    refine (walks_stepOver _).bind (.of_neg ?_ (.of_neg ?_ (ih () cs (Nat.lt_succ_self _))))
    · exact ne_backslash hlone hescape
    · simpa using hc

theorem passes_passPattern (inClass : Bool) (cs : List Char) :
    Passes chars (passPattern inClass) cs (afterPattern? inClass cs) := by
  refine passes_repeated afterPattern? (fun again inClass cs ih => ?_) inClass cs
  refine (walks_here? cs).bind ?_
  fun_cases afterPattern? inClass cs with
  | case1 => exact passes_unclosed []
  | case2 =>
    exact (walks_stepOver _).bind (.of_pos rfl
      ((walks_stepOver []).bind (ih _ [] (Nat.lt_succ_self _))))
  | case3 c cs =>
    exact (walks_stepOver _).bind (.of_pos rfl
      ((walks_stepOver _).bind (ih _ cs (Nat.lt_succ_of_lt (Nat.lt_succ_self _)))))
  | case4 cs =>
    refine (walks_stepOver _).bind ?_
    exact .of_neg (by decide) (.of_pos rfl (ih true cs (Nat.lt_succ_self _)))
  | case5 cs =>
    have hlater := ih false cs (Nat.lt_succ_self _)
    refine (walks_stepOver _).bind (.of_neg (by decide) (.of_neg (by decide) ?_))
    cases inClass with
    | false => exact .of_neg (by decide) (.of_neg (by decide) (.of_neg (by decide) hlater))
    | true => exact .of_pos ⟨rfl, rfl⟩ hlater
  | case6 cs =>
    refine (walks_stepOver _).bind ?_
    exact .of_neg (by decide) (.of_neg (by decide) (.of_neg (fun h => absurd h.1 (by decide))
      (.of_neg (fun h => absurd h.1 (by decide)) (.of_pos rfl (passes_unclosed cs)))))
  | case7 cs hclass =>
    refine (walks_stepOver _).bind ?_
    exact .of_neg (by decide) (.of_neg (by decide) (.of_neg (fun h => absurd h.1 (by decide))
      (.of_neg (fun h => absurd hclass (by simpa using h.2)) (.of_neg (by decide)
        (ih inClass cs (Nat.lt_succ_self _))))))
  | case8 cs hclass =>
    refine (walks_stepOver _).bind ?_
    exact .of_neg (by decide) (.of_neg (by decide) (.of_neg (fun h => absurd h.1 (by decide))
      (.of_pos ⟨rfl, by simpa using hclass⟩ (passes_closed cs))))
  | case9 c cs hlone hescape hopen hclose hline hslash =>
    refine (walks_stepOver _).bind ?_
    exact .of_neg (ne_backslash hlone hescape) (.of_neg hopen (.of_neg (fun h => hclose h.1)
      (.of_neg (fun h => hslash h.1) (.of_neg hline (ih inClass cs (Nat.lt_succ_self _))))))

theorem finds_unmatchedOffset? (o : Open) (cs : List Char) :
    Finds chars (unmatchedOffset? o) cs ((atUnmatched? o.stack o.prev cs).map (placeOf chars)) := by
  refine finds_repeated (fun o cs => (atUnmatched? o.stack o.prev cs).map (placeOf chars))
    (fun again o cs ih => ?_) o cs
  obtain ⟨stack, prev⟩ := o
  refine (walks_here? cs).bind ?_
  show Finds _ _ _ ((atUnmatched? stack prev cs).map _)
  fun_cases atUnmatched? stack prev cs with
  | case1 => exact .answer fun _ => rfl
  | case2 stack c cs hquote rest hrest =>
    have hlater := ih ⟨stack, some c⟩ rest (Nat.lt_succ_of_le (afterString?_suffix hrest).length_le)
    exact .of_pos hquote ((walks_stepOver _).bind
      ((walks_of_passes (passes_passQuoted c cs) hrest).bind (.of_pos rfl hlater)))
  | case3 stack c cs hquote hnone =>
    exact .of_pos hquote ((walks_stepOver _).bind
      ((finds_of_passes (passes_passQuoted c cs) hnone).bind_answer rfl fun _ => rfl))
  | case4 stack c cs hquote hslash rest hrest =>
    have hlater := ih ⟨stack, some c⟩ rest (Nat.lt_succ_of_le (afterPattern?_suffix hrest).length_le)
    exact .of_neg hquote (.of_pos hslash ((walks_stepOver _).bind
      ((walks_of_passes (passes_passPattern false cs) hrest).bind (.of_pos rfl hlater))))
  | case5 stack c cs hquote hslash hnone =>
    exact .of_neg hquote (.of_pos hslash ((walks_stepOver _).bind
      ((finds_of_passes (passes_passPattern false cs) hnone).bind_answer rfl fun _ => rfl)))
  | case6 stack c cs hquote hslash closer hopen =>
    refine .of_neg hquote (.of_neg hslash ?_)
    rw [hopen]
    exact (walks_stepOver _).bind (ih ⟨closer :: stack, some c⟩ cs (Nat.lt_succ_self _))
  | case7 c cs hquote hslash hopen hclose due stack hdue =>
    refine .of_neg hquote (.of_neg hslash ?_)
    rw [hopen]
    exact .of_pos hclose (.of_pos hdue ((walks_stepOver _).bind
      (ih ⟨stack, some c⟩ cs (Nat.lt_succ_self _))))
  | case8 c cs hquote hslash hopen hclose due stack hdue =>
    refine .of_neg hquote (.of_neg hslash ?_)
    rw [hopen]
    exact .of_pos hclose (.of_neg hdue (.answer fun _ => rfl))
  | case9 c cs hquote hslash hopen hclose hc =>
    refine .of_neg hquote (.of_neg hslash ?_)
    rw [hopen]
    exact .of_pos hclose (.of_pos hc ((walks_offset _).bind (.answer fun _ => rfl)))
  | case10 c cs hquote hslash hopen hclose hc =>
    refine .of_neg hquote (.of_neg hslash ?_)
    rw [hopen]
    exact .of_pos hclose (.of_neg hc (.answer fun _ => rfl))
  | case11 stack c cs hquote hslash hopen hclose =>
    refine .of_neg hquote (.of_neg hslash ?_)
    rw [hopen]
    exact .of_neg hclose ((walks_stepOver _).bind
      (ih ⟨stack, if isBlank c then prev else some c⟩ cs (Nat.lt_succ_self _)))

theorem passes_passGroup (stack : List Char) (cs : List Char) :
    Passes chars (passGroup stack) cs (afterGroup? stack cs) := by
  refine passes_repeated afterGroup? (fun again stack cs ih => ?_) stack cs
  refine (walks_here? cs).bind ?_
  fun_cases afterGroup? stack cs with
  | case1 => exact passes_unclosed []
  | case2 stack c cs hquote rest hrest =>
    have hlater := ih stack rest (Nat.lt_succ_of_le (afterString?_suffix hrest).length_le)
    exact .of_pos hquote ((walks_stepOver _).bind
      ((walks_of_passes (passes_passQuoted c cs) hrest).bind (.of_pos rfl hlater)))
  | case3 stack c cs hquote hnone =>
    exact .of_pos hquote ((walks_stepOver _).bind
      ((finds_of_passes (passes_passQuoted c cs) hnone).bind_answer rfl fun _ =>
        ⟨rfl, fun _ ha => nomatch ha⟩))
  | case4 stack c cs hquote closer hopen =>
    refine .of_neg hquote ?_
    rw [hopen]
    exact (walks_stepOver _).bind (ih (closer :: stack) cs (Nat.lt_succ_self _))
  | case5 c cs hquote hopen hclose =>
    refine .of_neg hquote ?_
    rw [hopen]
    exact .of_pos hclose (passes_unclosed _)
  | case6 c cs hquote hopen hclose due hdue =>
    refine .of_neg hquote ?_
    rw [hopen]
    exact .of_pos hclose (.of_pos hdue ((walks_stepOver _).bind (.of_pos rfl (passes_closed cs))))
  | case7 c cs hquote hopen hclose due hdue =>
    refine .of_neg hquote ?_
    rw [hopen]
    exact .of_pos hclose (.of_neg hdue (passes_unclosed _))
  | case8 c cs hquote hopen hclose due stack hne hdue =>
    refine .of_neg hquote ?_
    rw [hopen]
    exact .of_pos hclose (.of_pos hdue ((walks_stepOver _).bind (.of_neg (by simpa using hne)
      (ih stack cs (Nat.lt_succ_self _)))))
  | case9 c cs hquote hopen hclose due stack hne hdue =>
    refine .of_neg hquote ?_
    rw [hopen]
    exact .of_pos hclose (.of_neg hdue (passes_unclosed _))
  | case10 stack c cs hquote hopen hclose =>
    refine .of_neg hquote ?_
    rw [hopen]
    exact .of_neg hclose ((walks_stepOver _).bind (ih stack cs (Nat.lt_succ_self _)))

theorem finds_literalEnd? (cs : List Char) :
    Finds chars literalEnd? cs ((afterLiteral? cs).map (placeOf chars)) := by
  refine (walks_here? cs).bind ?_
  cases cs with
  | nil => exact .answer fun _ => rfl
  | cons c cs =>
    rw [afterLiteral?]
    by_cases hquote : isQuote c = true
    · rw [if_pos hquote]
      cases hstring : afterString? c cs with
      | some rest =>
        exact .of_pos hquote ((walks_stepOver _).bind
          ((walks_of_passes (passes_passQuoted c cs) hstring).bind (.of_pos rfl
            ((walks_offset rest).bind (.answer fun _ => rfl)))))
      | none =>
        exact .of_pos hquote ((walks_stepOver _).bind
          ((finds_of_passes (passes_passQuoted c cs) hstring).bind_answer rfl fun _ => rfl))
    · rw [if_neg hquote]
      by_cases hopen : (closerOf? c).isSome = true
      · rw [if_pos hopen]
        cases hgroup : afterGroup? [] (c :: cs) with
        | some rest =>
          exact .of_neg hquote (.of_pos hopen
            ((walks_of_passes (passes_passGroup [] (c :: cs)) hgroup).bind (.of_pos rfl
              ((walks_offset rest).bind (.answer fun _ => rfl)))))
        | none =>
          exact .of_neg hquote (.of_pos hopen
            ((finds_of_passes (passes_passGroup [] (c :: cs)) hgroup).bind_answer rfl fun _ => rfl))
      · rw [if_neg hopen]
        exact .of_neg hquote (.of_neg hopen (.answer fun _ => rfl))

/-! ### The values -/

theorem firstBytes?_append (a b : List Char) : firstBytes? (byteLength a) (a ++ b) = some a := by
  rw [firstBytes?, cutAtByte?_append]
  rfl

theorem firstBytes?_takeWhile (p : Char → Bool) (cs : List Char) :
    firstBytes? (byteLength (cs.takeWhile p)) cs = some (cs.takeWhile p) := by
  have hfirst := firstBytes?_append (cs.takeWhile p) (cs.dropWhile p)
  rwa [List.takeWhile_append_dropWhile] at hfirst

theorem firstOffset?_getD (p : Char → Bool) (cs : List Char) :
    (firstOffset? p cs).getD (byteLength cs) = byteLength (cs.takeWhile fun c => !p c) := by
  rw [firstOffset?]
  by_cases hany : cs.any p = true
  · rw [if_pos hany, Option.getD_some]
  · have hall : cs.takeWhile (fun c => !p c) = cs :=
      List.takeWhile_eq_self_iff.2 fun c hc => by
        simpa using fun hp => hany (List.any_eq_true.2 ⟨c, hc, hp⟩)
    rw [if_neg hany, Option.getD_none, hall]

theorem firstOffset?_append {d : Char} {a : List Char} (h : d ∉ a) (b : List Char) :
    firstOffset? (· == d) (a ++ d :: b) = some (byteLength a) := by
  have hfront : (a ++ d :: b).takeWhile (fun c => !(c == d)) = a := by
    rw [List.takeWhile_append_of_pos fun c hc => by simpa using ne_of_mem_of_not_mem hc h,
      List.takeWhile_cons_of_neg (by simp), List.append_nil]
  rw [firstOffset?, if_pos (by simp), hfront]

theorem firstOffset?_of_not_mem {d : Char} {cs : List Char} (h : d ∉ cs) :
    firstOffset? (· == d) cs = none :=
  if_neg (by simpa using h)

theorem not_mem_of_cutFirst? {d : Char} {cs : List Char} (h : cutFirst? d cs = none) : d ∉ cs := by
  intro hmem
  obtain ⟨a, b, rfl, ha⟩ := List.eq_append_cons_of_mem hmem
  rw [cutFirst?_append ha] at h
  cases h

/-- What is taken of the text is the value and what belongs to it, and the rest is left. -/
theorem exists_bracketedValue? (cs : List Char) :
    ∃ taken, cs = taken ++ (bracketedDefault cs).2 ∧
      bracketedValue? cs = some ((bracketedDefault cs).1, byteLength taken) := by
  obtain ⟨_, i, hrun, rfl⟩ := (@finds_unmatchedOffset? cs ⟨[], none⟩ cs).run List.drop_zero
  rw [bracketedValue?, hrun]
  cases hclose : atUnmatched? [] none cs with
  | some rest =>
    obtain ⟨text, last, htext, rfl, hhead⟩ := atUnmatched?_eq_some_iff.1 hclose
    obtain ⟨after, rfl⟩ := List.head?_eq_some_iff.1 hhead
    rw [bracketedDefault_complete htext]
    refine ⟨text ++ [']'], by simp, ?_⟩
    show (firstBytes? (placeOf _ (']' :: after)) _).map _ = _
    rw [placeOf_append_right, firstBytes?_append, byteLength_append]
    rfl
  | none =>
    rw [bracketedDefault, hclose]
    cases hfirst : cutFirst? ']' cs with
    | some p =>
      obtain ⟨hmem, rfl⟩ := eq_append_of_cutFirst? hfirst
      refine ⟨p.1 ++ [']'], by simp, ?_⟩
      show (match firstOffset? (· == ']') (p.1 ++ ']' :: p.2) with
        | some close => _
        | none => _) = _
      rw [firstOffset?_append hmem]
      show (firstBytes? _ _).map _ = _
      rw [firstBytes?_append, byteLength_append]
      rfl
    | none =>
      refine ⟨cs.takeWhile (· != '\n'), List.takeWhile_append_dropWhile.symm, ?_⟩
      show (match firstOffset? (· == ']') cs with
        | some close => _
        | none => _) = _
      rw [firstOffset?_of_not_mem (not_mem_of_cutFirst? hfirst)]
      show (firstBytes? _ _).map _ = _
      rw [firstOffset?_getD]
      show (firstBytes? (byteLength (cs.takeWhile (· != '\n'))) _).map _ = _
      rw [firstBytes?_takeWhile]
      rfl

theorem exists_bareValue? (cs : List Char) :
    ∃ taken, cs = taken ++ (bareDefault cs).2 ∧
      bareValue? cs = some ((bareDefault cs).1, byteLength taken) := by
  obtain ⟨_, i, hrun, rfl⟩ := (@finds_literalEnd? cs cs).run List.drop_zero
  rw [bareValue?, hrun, bareDefault]
  cases hliteral : afterLiteral? cs with
  | some rest =>
    obtain ⟨text, rfl⟩ := afterLiteral?_suffix hliteral
    refine ⟨text, rfl, ?_⟩
    show (firstBytes? (placeOf _ rest) _).map (fun front => (front, placeOf _ rest)) =
      some (frontOf _ rest, _)
    rw [placeOf_append_right, firstBytes?_append, frontOf_append]
    rfl
  | none =>
    refine ⟨cs.takeWhile (!isBlank ·), List.takeWhile_append_dropWhile.symm, ?_⟩
    show (firstBytes? ((firstOffset? isBlank cs).getD _) _).map
      (fun front => (front, (firstOffset? isBlank cs).getD _)) = _
    rw [firstOffset?_getD, firstBytes?_takeWhile]
    rfl

theorem reads_value {value? : List Char → Option (List Char × Nat)} {cs : List Char}
    {p : List Char × List Char}
    (h : ∃ taken, cs = taken ++ p.2 ∧ value? cs = some (p.1, byteLength taken)) :
    Reads chars (value value?) cs p := by
  obtain ⟨taken, rfl, hvalue⟩ := h
  refine (reads_around _).bind ?_
  rw [hvalue]
  exact (Runs.pure (p.1, byteLength taken) (taken ++ p.2)).bind
    ((reads_advance taken p.2).bind (.pure p.1 p.2))

theorem reads_bracketedValue (cs : List Char) :
    Reads chars (value bracketedValue?) cs (bracketedDefault cs) :=
  reads_value (exists_bracketedValue? cs)

theorem reads_bareValue (cs : List Char) : Reads chars (value bareValue?) cs (bareDefault cs) :=
  reads_value (exists_bareValue? cs)

end PlaceReader
end Bytes
end Comment
end ApiDoc
