/-
Default values that show where they end.

Strings and groups of brackets are read as a whole, by the reader of values in square brackets as well as
by the one of values without.  Brackets and quotes in the strings, and whatever comes behind the value,
make no difference (`enclosed_defaults_read_whole`).
-/
import ApiDoc.Proofs.Comment.Balanced

namespace ApiDoc
namespace Comment

open Text

/-! ### Groups of brackets -/

section

variable {stack : List Char} {due c : Char} {cs : List Char}

theorem afterGroup?_string {rest : List Char} (hc : isQuote c = true)
    (h : afterString? c cs = some rest) : afterGroup? stack (c :: cs) = afterGroup? stack rest := by
  rw [afterGroup?.eq_def]
  simp only [hc, if_true]
  split
  · next rest' h' => rw [Option.some.inj (h'.symm.trans h)]
  · next h' => cases h'.symm.trans h

theorem afterGroup?_opener {closer : Char} (h : closerOf? c = some closer) :
    afterGroup? stack (c :: cs) = afterGroup? (closer :: stack) cs := by
  obtain ⟨hquote, -⟩ := isQuote_of_closerOf? h
  rw [afterGroup?.eq_def]
  simp only [hquote, h, Bool.false_eq_true, if_false]

theorem afterGroup?_closer (h : isCloser c = true) :
    afterGroup? (c :: due :: stack) (c :: cs) = afterGroup? (due :: stack) cs := by
  obtain ⟨hquote, -, hopen⟩ := isQuote_of_isCloser h
  rw [afterGroup?.eq_def]
  simp only [hquote, hopen, h, Bool.false_eq_true, if_false, if_true, beq_self_eq_true]

theorem afterGroup?_lastCloser (h : isCloser c = true) : afterGroup? [c] (c :: cs) = some cs := by
  obtain ⟨hquote, -, hopen⟩ := isQuote_of_isCloser h
  rw [afterGroup?.eq_def]
  simp only [hquote, hopen, h, Bool.false_eq_true, if_false, if_true, beq_self_eq_true]

theorem afterGroup?_plain (hquote : isQuote c = false) (hopen : closerOf? c = none)
    (hclose : isCloser c = false) : afterGroup? stack (c :: cs) = afterGroup? stack cs := by
  rw [afterGroup?.eq_def]
  simp only [hquote, hopen, hclose, Bool.false_eq_true, if_false]

end

/-- Inside of brackets the reader steps over a balanced text, whatever follows. -/
theorem afterGroup?_balanced {cs : List Char} (h : Balanced cs) (due : Char)
    (stack rest : List Char) :
    afterGroup? (due :: stack) (cs ++ rest) = afterGroup? (due :: stack) rest := by
  -- The bracket `due` keeps the reader from stopping behind a group of the text itself.
  induction h generalizing due stack rest with
  | nil => rfl
  | char hquote hopen hclose _ _ ih =>
    rw [List.cons_append, afterGroup?_plain hquote hopen hclose, ih]
  | string hquote hinner _ ih =>
    rw [List.cons_append, List.append_assoc, List.cons_append,
      afterGroup?_string hquote (afterString?_inQuotes hquote hinner _), ih]
  | group hpair _ _ ihInner ihCs =>
    rw [List.cons_append, List.append_assoc, List.cons_append, afterGroup?_opener hpair, ihInner,
      afterGroup?_closer (isCloser_of_closerOf? hpair), ihCs]

/-! ### Values that show where they end -/

/-- A text of one whole string or of one group of brackets. -/
inductive Enclosed : List Char → Prop
  | string {quote : Char} {inner : List Char} : isQuote quote = true → InQuotes quote inner →
      Enclosed (quote :: (inner ++ [quote]))
  | group {opener closer : Char} {inner : List Char} : closerOf? opener = some closer →
      Balanced inner → Enclosed (opener :: (inner ++ [closer]))

theorem afterLiteral?_enclosed {cs : List Char} (h : Enclosed cs) (rest : List Char) :
    afterLiteral? (cs ++ rest) = some rest := by
  cases h with
  | @string quote inner hquote hinner =>
    rw [List.cons_append, List.append_assoc, List.singleton_append, afterLiteral?, if_pos hquote]
    exact afterString?_inQuotes hquote hinner rest
  | @group opener closer inner hpair hinner =>
    obtain ⟨hquote, -⟩ := isQuote_of_closerOf? hpair
    have hopens : (closerOf? opener).isSome = true := Option.isSome_of_eq_some hpair
    rw [List.cons_append, List.append_assoc, List.singleton_append, afterLiteral?,
      if_neg (Bool.eq_false_iff.1 hquote), if_pos hopens, afterGroup?_opener hpair,
      afterGroup?_balanced hinner, afterGroup?_lastCloser (isCloser_of_closerOf? hpair)]

theorem bareDefault_enclosed {cs : List Char} (h : Enclosed cs) (rest : List Char) :
    bareDefault (cs ++ rest) = (cs, rest) := by
  rw [bareDefault, afterLiteral?_enclosed h]
  exact congrArg (·, rest) (frontOf_append cs rest)

/-- The number of bytes that a reader takes off a text. -/
def bytesTaken (read : List Char → List Char × List Char) (cs : List Char) : Nat :=
  byteLength cs - byteLength (read cs).2

/-- Values that show where they end are read whole, whatever follows them: balanced ones up to the square
bracket behind them, and without brackets around name and value those of one string or one group. -/
theorem enclosed_defaults_read_whole :
    (∀ value, Balanced value → trim value = value → ∀ rest,
      bracketedDefault (value ++ ']' :: rest) = (value, rest) ∧
        bytesTaken bracketedDefault (value ++ ']' :: rest) = byteLength value + 1) ∧
      ∀ value, Enclosed value → ∀ rest,
        bareDefault (value ++ rest) = (value, rest) ∧
          bytesTaken bareDefault (value ++ rest) = byteLength value := by
  constructor
  · intro value hvalue htrim rest
    have hread : bracketedDefault (value ++ ']' :: rest) = (value, rest) := by
      rw [bracketedDefault_close hvalue, htrim]
    have hbracket : Char.utf8Size ']' = 1 := rfl
    refine ⟨hread, ?_⟩
    rw [bytesTaken, hread, byteLength_append, byteLength_cons]
    show byteLength value + (Char.utf8Size ']' + byteLength rest) - byteLength rest = _
    omega
  · intro value hvalue rest
    have hread := bareDefault_enclosed hvalue rest
    refine ⟨hread, ?_⟩
    rw [bytesTaken, hread, byteLength_append]
    exact Nat.add_sub_cancel _ _

/-- A group of brackets whose strings hold brackets and an escaped quote. -/
def hintDefault : List Char := "\x7ba: ['\\']', \"\x7d\"]\x7d".toList

theorem enclosed_defaults_read_hint :
    Balanced hintDefault ∧ Enclosed hintDefault ∧
      bracketedDefault (hintDefault ++ "] é'] rest".toList) = (hintDefault, " é'] rest".toList) ∧
      bytesTaken bracketedDefault (hintDefault ++ "] é'] rest".toList) = 18 ∧
      bareDefault (hintDefault ++ "] é'] rest".toList) = (hintDefault, "] é'] rest".toList) ∧
      bytesTaken bareDefault (hintDefault ++ "] é'] rest".toList) = 17 := by
  have hlist : Balanced "'\\']', \"\x7d\"".toList :=
    .string rfl (.escaped (.char (by decide) (by decide) .nil))
      (.char rfl rfl rfl (by decide) (.char rfl rfl rfl (by decide)
        (.string rfl (.char (by decide) (by decide) .nil) .nil)))
  have hinner : Balanced "a: ['\\']', \"\x7d\"]".toList :=
    .char rfl rfl rfl (by decide) (.char rfl rfl rfl (by decide) (.char rfl rfl rfl (by decide)
      (.group rfl hlist .nil)))
  have hbalanced : Balanced hintDefault := .group rfl hinner .nil
  have henclosed : Enclosed hintDefault := .group rfl hinner
  obtain ⟨hbracketed, hbare⟩ := enclosed_defaults_read_whole
  obtain ⟨hread, hbytes⟩ := hbracketed hintDefault hbalanced rfl " é'] rest".toList
  obtain ⟨hreadBare, hbytesBare⟩ := hbare hintDefault henclosed "] é'] rest".toList
  exact ⟨hbalanced, henclosed, hread, hbytes, hreadBare, hbytesBare⟩

end Comment
end ApiDoc
