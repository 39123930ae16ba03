/-
Texts that the readers of a tag take whole.

A type in braces ends where its braces balance, and a default value in square brackets where all of its
brackets do.  The grammars of such texts say nothing about how they are read; each reader steps over a
text of its grammar, whatever follows it.
-/
import ApiDoc.Proofs.Comment.Complete
import ApiDoc.Proofs.Text.Trimmed
import ApiDoc.Proofs.TypeExpr.Lexeme

namespace ApiDoc
namespace Comment

open Text TypeSyntax

/-! ### Types in braces -/

/-- A text in which braces balance. -/
inductive Braced : List Char → Prop
  | nil : Braced []
  | char {c : Char} {cs : List Char} : c ≠ '{' → c ≠ '}' → Braced cs → Braced (c :: cs)
  | group {inner cs : List Char} : Braced inner → Braced cs → Braced ('{' :: (inner ++ '}' :: cs))

theorem takeBraces_append {cs : List Char} (h : Braced cs) (hline : '\n' ∉ cs) (depth : Nat)
    (rest : List Char) :
    takeBraces depth (cs ++ rest) =
      (cs ++ (takeBraces depth rest).1, (takeBraces depth rest).2) := by
  induction h generalizing depth rest with
  | nil => rfl
  | @char c cs hopen hclose _ ih =>
    rw [List.mem_cons, not_or] at hline
    obtain ⟨hc, hcs⟩ := hline
    rw [List.cons_append, takeBraces.eq_6 _ _ _ (Ne.symm hc) hclose hopen, ih hcs]
    rfl
  | @group inner cs _ _ ihInner ihCs =>
    simp only [List.mem_cons, List.mem_append, not_or] at hline
    obtain ⟨-, hinner, -, hcs⟩ := hline
    rw [List.cons_append, List.append_assoc, List.cons_append, takeBraces.eq_5, ihInner hinner,
      takeBraces.eq_4, ihCs hcs]
    simp

/-- Braces end at the brace that closes them. -/
theorem takeBraces_close {cs : List Char} (h : Braced cs) (hline : '\n' ∉ cs) (rest : List Char) :
    takeBraces 0 (cs ++ '}' :: rest) = (cs, rest) := by
  rw [takeBraces_append h hline]
  simp [takeBraces]

/-! ### Default values -/

/-- A text of strings, of groups in brackets and of other characters than quotes, brackets and slashes.
In the strings and nowhere else such characters stand for themselves. -/
inductive Balanced : List Char → Prop
  | nil : Balanced []
  | char {c : Char} {cs : List Char} : isQuote c = false → closerOf? c = none →
      isCloser c = false → c ≠ '/' → Balanced cs → Balanced (c :: cs)
  | string {quote : Char} {inner cs : List Char} : isQuote quote = true → InQuotes quote inner →
      Balanced cs → Balanced (quote :: (inner ++ quote :: cs))
  | group {opener closer : Char} {inner cs : List Char} : closerOf? opener = some closer →
      Balanced inner → Balanced cs → Balanced (opener :: (inner ++ closer :: cs))

/-- A balanced text is complete wherever it stands. -/
theorem Balanced.complete {cs : List Char} (h : Balanced cs) (prev : Option Char) :
    ∃ last, Complete prev cs last := by
  induction h generalizing prev with
  | nil => exact ⟨prev, .nil⟩
  | char hquote hopen hclose hslash _ ih =>
    obtain ⟨last, hcs⟩ := ih (lastSolid prev _)
    exact ⟨last, .char hquote hopen hclose (fun hc => absurd hc hslash) hcs⟩
  | string hquote hinner _ ih =>
    obtain ⟨last, hcs⟩ := ih _
    exact ⟨last, .string hquote hinner hcs⟩
  | group hpair _ _ ihInner ihCs =>
    obtain ⟨inside, hinner⟩ := ihInner _
    obtain ⟨last, hcs⟩ := ihCs _
    exact ⟨last, .group hpair hinner hcs⟩

/-- A default value in square brackets ends at the bracket that closes them. -/
theorem bracketedDefault_close {cs : List Char} (h : Balanced cs) (rest : List Char) :
    bracketedDefault (cs ++ ']' :: rest) = (trim cs, rest) := by
  obtain ⟨last, hcomplete⟩ := h.complete none
  exact bracketedDefault_complete hcomplete rest

end Comment
end ApiDoc
