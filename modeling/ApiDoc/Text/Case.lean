/-
Capital and small letters of whole texts.

A character maps to a sequence of characters: `ß` becomes `SS` and `İ` becomes an `i` with a dot
above it.  The one mapping that looks at its neighbours is that of the capital sigma, which becomes
the final form at the end of a word.
-/
import ApiDoc.Text.CaseMap
import ApiDoc.Text.Cased
import ApiDoc.Text.CharClass

namespace ApiDoc
namespace Text

def shiftBy? (runs : List (Nat × Nat × Nat × Nat)) (n : Nat) : Option Nat :=
  match runs.find? fun r => inRun r.1 r.2.1 r.2.2.1 n with
  | some r => some (r.2.2.2 + (n - r.1))
  | none => none

/-- The image of a character under a table of runs and a table of sequences. -/
def mapCase (runs : List (Nat × Nat × Nat × Nat)) (sequences : List (Nat × List Nat))
    (c : Char) : List Char :=
  match sequences.find? fun s => s.1 == c.toNat with
  | some s => s.2.map Char.ofNat
  | none =>
    match shiftBy? runs c.toNat with
    | some n => [Char.ofNat n]
    | none => [c]

def capitalOf (c : Char) : List Char := mapCase capitalRuns capitalSequences c

def smallOf (c : Char) : List Char := mapCase smallRuns smallSequences c

def isCased (c : Char) : Bool := inRanges casedRanges c.toNat

def isCaseIgnorable (c : Char) : Bool := inRanges caseIgnorableRanges c.toNat

def nextIsCased (cs : List Char) : Bool :=
  match cs.dropWhile isCaseIgnorable with
  | [] => false
  | c :: _ => isCased c

/-- Small letters, `before` holding what was read, the last character first. -/
def lowercaseFrom (before : List Char) : List Char → List Char
  | [] => []
  | c :: rest =>
    let image :=
      if c == 'Σ' then
        if nextIsCased before && !nextIsCased rest then ['ς'] else ['σ']
      else smallOf c
    image ++ lowercaseFrom (c :: before) rest

def lowercase (s : String) : String := String.ofList (lowercaseFrom [] s.toList)

def capitalize (s : String) : String :=
  match s.toList with
  | [] => ""
  | c :: rest => String.ofList (capitalOf c ++ rest)

def asciiLowercase (cs : List Char) : List Char :=
  cs.map fun c => if 'A' ≤ c && c ≤ 'Z' then Char.ofNat (c.toNat + 32) else c

end Text
end ApiDoc
