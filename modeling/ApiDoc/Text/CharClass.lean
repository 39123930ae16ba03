/-
Classes of characters.

A class is a table of code-point ranges and one membership test.  The classes that occur in every
text get a short way for ASCII, so the tables are only searched for other characters.
-/
import ApiDoc.Text.Alphabetic
import ApiDoc.Text.IdentifierMark
import ApiDoc.Text.Numeric
import ApiDoc.Text.Uppercase
import ApiDoc.Text.WordMark

namespace ApiDoc
namespace Text

def inRanges (ranges : List (Nat × Nat)) (n : Nat) : Bool :=
  ranges.any fun r => r.1 ≤ n && n ≤ r.2

/-- Whether a code point lies in a run that starts at `first`, ends at `last` and takes every
`step`-th code point. -/
def inRun (first last step n : Nat) : Bool :=
  first ≤ n && n ≤ last && (n - first) % step == 0

/-- The characters with the property `White_Space`. -/
def blankRanges : List (Nat × Nat) := [
    (0x09, 0x0D), (0x20, 0x20), (0x85, 0x85), (0xA0, 0xA0), (0x1680, 0x1680),
    (0x2000, 0x200A), (0x2028, 0x2029), (0x202F, 0x202F), (0x205F, 0x205F), (0x3000, 0x3000) ]

/-- White space.  It includes the no-break spaces and the line separators, but neither the
zero-width space nor the byte order mark. -/
def isBlank (c : Char) : Bool := inRanges blankRanges c.toNat

def isAsciiAlphanumeric (c : Char) : Bool :=
  ('a' ≤ c && c ≤ 'z') || ('A' ≤ c && c ≤ 'Z') || ('0' ≤ c && c ≤ '9')

def isAlphanumeric (c : Char) : Bool :=
  if c.toNat < 0x80 then isAsciiAlphanumeric c
  else inRanges alphabeticRanges c.toNat || inRanges numericRanges c.toNat

/-- Characters that are capital letters by themselves.  Titlecase digraphs are not. -/
def isUppercase (c : Char) : Bool :=
  if c.toNat < 0x80 then 'A' ≤ c && c ≤ 'Z'
  else uppercaseRuns.any fun r => inRun r.1 r.2.1 r.2.2 c.toNat

/-- Word characters in the sense of pattern matching: alphabetic characters, marks, decimal
digits, connector punctuation and join controls. -/
def isWordChar (c : Char) : Bool :=
  if c.toNat < 0x80 then isAsciiAlphanumeric c || c == '_'
  else inRanges alphabeticRanges c.toNat || inRanges wordMarkRanges c.toNat

/-- Characters of the names that comments use: letters, numbers, `_` and `$`. -/
def isNameChar (c : Char) : Bool := isAlphanumeric c || c == '_' || c == '$'

def isIdentifierStart (c : Char) : Bool :=
  if c.toNat < 0x80 then
    ('a' ≤ c && c ≤ 'z') || ('A' ≤ c && c ≤ 'Z') || c == '_' || c == '$'
  else
    (inRanges alphabeticRanges c.toNat && !inRanges noIdentifierStartRanges c.toNat)
      || inRanges otherIdentifierStartRanges c.toNat

def isIdentifierPart (c : Char) : Bool :=
  if c.toNat < 0x80 then isAsciiAlphanumeric c || c == '_' || c == '$'
  else
    (isWordChar c && !inRanges noIdentifierPartRanges c.toNat)
      || inRanges otherIdentifierPartRanges c.toNat

end Text
end ApiDoc
