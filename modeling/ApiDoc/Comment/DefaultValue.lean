/-
Default values, as they are written in `[name=value]` and `name=value`.

A value may be a string, a pattern, an array or an object, and these may hold the bracket that would
close the name.  So the reader keeps a stack of the closing brackets it waits for, and steps over
strings and patterns as a whole.  A value that does not balance is read up to the first closing
bracket, or to the end of its line.
-/
import ApiDoc.Comment.Scan

namespace ApiDoc
namespace Comment

open Text

/-- What follows a string whose opening quote is already read.  A backslash protects the next
character. -/
def afterString? (quote : Char) : List Char → Option (List Char)
  | [] => none
  | ['\\'] => none
  | '\\' :: _ :: cs => afterString? quote cs
  | c :: cs => if c == quote then some cs else afterString? quote cs

/-- What follows a pattern whose opening slash is already read.  In a class of characters a slash
stands for itself, and a pattern ends before the line does. -/
def afterPattern? (inClass : Bool) : List Char → Option (List Char)
  | [] => none
  | ['\\'] => none
  | '\\' :: _ :: cs => afterPattern? inClass cs
  | '[' :: cs => afterPattern? true cs
  | ']' :: cs => afterPattern? false cs
  | '\n' :: _ => none
  | '/' :: cs => if inClass then afterPattern? inClass cs else some cs
  | _ :: cs => afterPattern? inClass cs

theorem afterString?_suffix {quote : Char} {cs rest : List Char}
    (h : afterString? quote cs = some rest) : rest <:+ cs := by
  fun_induction afterString? quote cs with
  | case1 => simp at h
  | case2 => simp at h
  | case3 c cs ih => exact (ih h).trans ⟨['\\', c], rfl⟩
  | case4 c cs _ _ hc => simp at h; exact h ▸ List.suffix_cons c cs
  | case5 c cs _ _ hc ih => exact (ih h).trans (List.suffix_cons c cs)

theorem afterPattern?_suffix {inClass : Bool} {cs rest : List Char}
    (h : afterPattern? inClass cs = some rest) : rest <:+ cs := by
  fun_induction afterPattern? inClass cs with
  | case1 => simp at h
  | case2 => simp at h
  | case3 inClass c cs ih => exact (ih h).trans ⟨['\\', c], rfl⟩
  | case4 _ cs ih => exact (ih h).trans (List.suffix_cons _ cs)
  | case5 _ cs ih => exact (ih h).trans (List.suffix_cons _ cs)
  | case6 => simp at h
  | case7 cs ih => exact (ih h).trans (List.suffix_cons _ cs)
  | case8 _ cs => simp at h; exact h ▸ List.suffix_cons _ cs
  | case9 _ c cs _ _ _ _ _ _ ih => exact (ih h).trans (List.suffix_cons c cs)

def closerOf? : Char → Option Char
  | '[' => some ']'
  | '{' => some '}'
  | '(' => some ')'
  | _ => none

def isCloser (c : Char) : Bool := c == ']' || c == '}' || c == ')'

def isQuote (c : Char) : Bool := c == '"' || c == '\''

/-- Whether a slash after such a character starts a pattern, and not a division. -/
def startsPattern : Option Char → Bool
  | none => true
  | some c => "(,=:[!&|?{};".toList.contains c

/-- Steps over a value inside square brackets.  The answer starts with the square bracket that
closes no bracket of the value; `stack` holds the closing brackets that are due and `prev` the last
character that is not blank. -/
def atUnmatched? (stack : List Char) (prev : Option Char) : List Char → Option (List Char)
  | [] => none
  | c :: cs =>
    if isQuote c then
      match _h : afterString? c cs with
      | some rest => atUnmatched? stack (some c) rest
      | none => none
    else if c == '/' && startsPattern prev then
      match _h : afterPattern? false cs with
      | some rest => atUnmatched? stack (some c) rest
      | none => none
    else
      match closerOf? c with
      | some closer => atUnmatched? (closer :: stack) (some c) cs
      | none =>
        if isCloser c then
          match stack with
          | due :: stack => if due == c then atUnmatched? stack (some c) cs else none
          | [] => if c == ']' then some (c :: cs) else none
        else atUnmatched? stack (if isBlank c then prev else some c) cs
termination_by cs => cs.length
decreasing_by
  · exact Nat.lt_succ_of_le (afterString?_suffix _h).length_le
  · exact Nat.lt_succ_of_le (afterPattern?_suffix _h).length_le
  · exact Nat.lt_succ_self _
  · exact Nat.lt_succ_self _
  · exact Nat.lt_succ_self _

theorem atUnmatched?_suffix {stack : List Char} {prev : Option Char} {cs rest : List Char}
    (h : atUnmatched? stack prev cs = some rest) : rest <:+ cs := by
  fun_induction atUnmatched? stack prev cs with
  | case1 => simp at h
  | case2 _ _ c cs _ r hr ih =>
    exact ((ih h).trans (afterString?_suffix hr)).trans (List.suffix_cons c cs)
  | case3 => simp at h
  | case4 _ _ c cs _ _ r hr ih =>
    exact ((ih h).trans (afterPattern?_suffix hr)).trans (List.suffix_cons c cs)
  | case5 => simp at h
  | case6 _ _ c cs _ _ _ _ ih => exact (ih h).trans (List.suffix_cons c cs)
  | case7 _ c cs _ _ _ _ due stack _ ih => exact (ih h).trans (List.suffix_cons c cs)
  | case8 => simp at h
  | case9 => simp at h; exact h ▸ List.suffix_refl _
  | case10 => simp at h
  | case11 _ _ c cs _ _ _ _ ih => exact (ih h).trans (List.suffix_cons c cs)

def afterGroup? (stack : List Char) : List Char → Option (List Char)
  | [] => none
  | c :: cs =>
    if isQuote c then
      match _h : afterString? c cs with
      | some rest => afterGroup? stack rest
      | none => none
    else
      match closerOf? c with
      | some closer => afterGroup? (closer :: stack) cs
      | none =>
        if isCloser c then
          match stack with
          | [] => none
          | [due] => if due == c then some cs else none
          | due :: stack => if due == c then afterGroup? stack cs else none
        else afterGroup? stack cs
termination_by cs => cs.length
decreasing_by
  · exact Nat.lt_succ_of_le (afterString?_suffix _h).length_le
  · exact Nat.lt_succ_self _
  · exact Nat.lt_succ_self _
  · exact Nat.lt_succ_self _

theorem afterGroup?_suffix {stack : List Char} {cs rest : List Char}
    (h : afterGroup? stack cs = some rest) : rest <:+ cs := by
  fun_induction afterGroup? stack cs with
  | case1 => simp at h
  | case2 _ c cs _ r hr ih =>
    exact ((ih h).trans (afterString?_suffix hr)).trans (List.suffix_cons c cs)
  | case3 => simp at h
  | case4 _ c cs _ _ _ ih => exact (ih h).trans (List.suffix_cons c cs)
  | case5 => simp at h
  | case6 c cs => simp at h; exact h ▸ List.suffix_cons c cs
  | case7 => simp at h
  | case8 c cs _ _ _ _ _ _ _ ih => exact (ih h).trans (List.suffix_cons c cs)
  | case9 => simp at h
  | case10 _ c cs _ _ _ ih => exact (ih h).trans (List.suffix_cons c cs)

/-- The front of a text that ends where `rest` starts. -/
def frontOf (cs rest : List Char) : List Char := cs.take (cs.length - rest.length)

theorem frontOf_append (a rest : List Char) : frontOf (a ++ rest) rest = a := by
  simp [frontOf]

/-- The default value of a name in square brackets, read from after the equals sign, and what
follows the closing bracket. -/
def bracketedDefault (cs : List Char) : List Char × List Char :=
  match atUnmatched? [] none cs with
  | some rest => (trim (frontOf cs rest), rest.drop 1)
  | none =>
    match cutFirst? ']' cs with
    | some p => (trim p.1, p.2)
    | none => (trim (cs.takeWhile (· != '\n')), cs.dropWhile (· != '\n'))

def afterLiteral? : List Char → Option (List Char)
  | [] => none
  | c :: cs =>
    if isQuote c then afterString? c cs
    else if (closerOf? c).isSome then afterGroup? [] (c :: cs)
    else none

/-- The default value of a name without brackets, and what follows it.  A string or a group of
brackets is read as a whole, anything else up to the next white space. -/
def bareDefault (cs : List Char) : List Char × List Char :=
  match afterLiteral? cs with
  | some rest => (frontOf cs rest, rest)
  | none => (cs.takeWhile (!isBlank ·), cs.dropWhile (!isBlank ·))

theorem cutFirst?_suffix {d : Char} {cs a b : List Char} (h : cutFirst? d cs = some (a, b)) :
    b <:+ cs := by
  obtain ⟨-, rfl⟩ := eq_append_of_cutFirst? h
  exact (List.suffix_cons d b).trans (List.suffix_append a (d :: b))

theorem bracketedDefault_suffix (cs : List Char) : (bracketedDefault cs).2 <:+ cs := by
  unfold bracketedDefault
  split
  · next rest h => exact (List.drop_suffix 1 rest).trans (atUnmatched?_suffix h)
  · split
    · next p h => exact cutFirst?_suffix h
    · exact List.dropWhile_suffix _

theorem afterLiteral?_suffix {cs rest : List Char} (h : afterLiteral? cs = some rest) :
    rest <:+ cs := by
  cases cs with
  | nil => simp [afterLiteral?] at h
  | cons c cs =>
    simp only [afterLiteral?] at h
    split at h
    · exact (afterString?_suffix h).trans (List.suffix_cons c cs)
    · split at h
      · exact afterGroup?_suffix h
      · exact absurd h (by simp)

theorem bareDefault_suffix (cs : List Char) : (bareDefault cs).2 <:+ cs := by
  unfold bareDefault
  split
  · next rest h => exact afterLiteral?_suffix h
  · exact List.dropWhile_suffix _

end Comment
end ApiDoc
