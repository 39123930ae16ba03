/-
Reading names, braces and references from the front of a text.

A reader answers with what it read and the rest of the text.  Every rest is a suffix of what was
given, which is what lets the readers built on top of them end.
-/
import ApiDoc.Doc.EntityKind
import ApiDoc.Text.Basic

namespace ApiDoc
namespace Comment

open Text

def skipBlanks (cs : List Char) : List Char := cs.dropWhile fun c => c == ' ' || c == '\t'

def skipChar (d : Char) : List Char → List Char
  | [] => []
  | c :: cs => if c == d then cs else c :: cs

def startsName : List Char → Bool
  | [] => false
  | c :: _ => isNameChar c

/-- Characters of the names that may hold a hyphen: tags and names of style sheets. -/
def isHyphenNameChar (c : Char) : Bool := isNameChar c || c == '-'

/-- The rest of a dotted chain of names.  A dot belongs to the chain if a name follows it. -/
def takeChain : List Char → List Char × List Char
  | [] => ([], [])
  | c :: cs =>
    if isNameChar c || (c == '.' && startsName cs) then
      let r := takeChain cs
      (c :: r.1, r.2)
    else ([], c :: cs)

def chain? (cs : List Char) : Option (List Char × List Char) :=
  if startsName cs then some (takeChain cs) else none

/-- What is inside a pair of braces, `depth` counting the inner ones that are open, and what
follows the closing brace.  Braces do not reach over the end of a line: without a closing brace
the content is the rest of the line. -/
def takeBraces (depth : Nat) : List Char → List Char × List Char
  | [] => ([], [])
  | '\n' :: cs => ([], '\n' :: cs)
  | '}' :: cs =>
    match depth with
    | 0 => ([], cs)
    | depth + 1 =>
      let r := takeBraces depth cs
      ('}' :: r.1, r.2)
  | '{' :: cs =>
    let r := takeBraces (depth + 1) cs
    ('{' :: r.1, r.2)
  | c :: cs =>
    let r := takeBraces depth cs
    (c :: r.1, r.2)

def braces? : List Char → Option (List Char × List Char)
  | '{' :: cs => some (takeBraces 0 cs)
  | _ => none

/-- The longest front of the text that holds such characters, and the rest. -/
def takeChars (p : Char → Bool) (cs : List Char) : List Char × List Char :=
  (cs.takeWhile p, cs.dropWhile p)

/-- Drops a text from the front of another, if it is there. -/
def dropText? (part cs : List Char) : Option (List Char) := part.isPrefixOf? cs

theorem skipBlanks_suffix (cs : List Char) : skipBlanks cs <:+ cs := List.dropWhile_suffix _

theorem skipChar_suffix (d : Char) (cs : List Char) : skipChar d cs <:+ cs := by
  cases cs with
  | nil => exact List.suffix_refl _
  | cons c cs =>
    simp only [skipChar]
    split
    · exact List.suffix_cons c cs
    · exact List.suffix_refl _

theorem takeChain_append (cs : List Char) : (takeChain cs).1 ++ (takeChain cs).2 = cs := by
  induction cs with
  | nil => rfl
  | cons c cs ih =>
    unfold takeChain
    split
    · simp [ih]
    · rfl

theorem takeChain_suffix (cs : List Char) : (takeChain cs).2 <:+ cs :=
  ⟨(takeChain cs).1, takeChain_append cs⟩

theorem chain?_suffix {cs a b : List Char} (h : chain? cs = some (a, b)) : b <:+ cs := by
  unfold chain? at h
  split at h
  · have e : takeChain cs = (a, b) := Option.some.inj h
    have s := takeChain_suffix cs
    rwa [e] at s
  · exact absurd h (by simp)

theorem chain?_ne_nil {cs a b : List Char} (h : chain? cs = some (a, b)) : a ≠ [] := by
  unfold chain? at h
  split at h
  · next hs =>
    cases cs with
    | nil => simp [startsName] at hs
    | cons c cs =>
      have hc : isNameChar c = true := hs
      have e : takeChain (c :: cs) = (a, b) := Option.some.inj h
      unfold takeChain at e
      simp only [hc, Bool.true_or, if_true, Prod.mk.injEq] at e
      rw [← e.1]
      simp
  · exact absurd h (by simp)

theorem takeBraces_suffix (depth : Nat) (cs : List Char) : (takeBraces depth cs).2 <:+ cs := by
  fun_induction takeBraces depth cs with
  | case1 => exact List.suffix_refl _
  | case2 => exact List.suffix_refl _
  | case3 cs => exact List.suffix_cons _ cs
  | case4 cs depth r ih => exact ih.trans (List.suffix_cons _ cs)
  | case5 depth cs r ih => exact ih.trans (List.suffix_cons _ cs)
  | case6 depth c cs _ _ _ r ih => exact ih.trans (List.suffix_cons _ cs)

theorem braces?_suffix {cs a b : List Char} (h : braces? cs = some (a, b)) : b <:+ cs := by
  cases cs with
  | nil => simp [braces?] at h
  | cons c cs =>
    by_cases hc : c = '{'
    · subst hc
      have e : takeBraces 0 cs = (a, b) := Option.some.inj h
      have s := takeBraces_suffix 0 cs
      rw [e] at s
      exact s.trans (List.suffix_cons _ cs)
    · simp [braces?, hc] at h

theorem dropText?_suffix {part cs rest : List Char} (h : dropText? part cs = some rest) :
    rest <:+ cs := by
  rw [Text.eq_append_of_isPrefixOf? h]
  exact List.suffix_append part rest

end Comment
end ApiDoc
