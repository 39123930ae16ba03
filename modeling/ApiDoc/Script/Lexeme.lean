/-
Names, numbers, quoted texts and patterns of scripts.

Each reader gets the text from where its lexeme starts and answers with the number of characters that
the lexeme takes, and with its value where that differs from the text.
-/
import ApiDoc.Number.Double
import ApiDoc.Script.Cursor
import ApiDoc.Text.Case

namespace ApiDoc
namespace Script

open Text

abbrev Read (α : Type) := α × Nat

/-! ## Escapes -/

def digitValue? (base : Nat) (c : Char) : Option Nat :=
  let n :=
    if '0' ≤ c && c ≤ '9' then c.toNat - '0'.toNat
    else if 'a' ≤ c && c ≤ 'z' then c.toNat - 'a'.toNat + 10
    else if 'A' ≤ c && c ≤ 'Z' then c.toNat - 'A'.toNat + 10
    else base
  if n < base then some n else none

def isDigitOf (base : Nat) (c : Char) : Bool := (digitValue? base c).isSome

def isDecimalDigit (c : Char) : Bool := isDigitOf 10 c

/-- The value of digits, all of which must be digits of the base. -/
def digitsValue? (base : Nat) (cs : List Char) : Option Nat :=
  if cs.isEmpty then none
  else (cs.mapM (digitValue? base)).map fun ds => ds.foldl (fun n d => n * base + d) 0

/-- The code in `HHHH` or `\x7bH…\x7d`, what stands after `\u`. -/
def unicodeCode? : List Char → Option (Read Nat)
  | '{' :: cs =>
    let digits := cs.takeWhile (· != '}')
    if cs.length == digits.length then none
    else
      match digitsValue? 16 digits with
      | some n => if n ≤ 0x10FFFF then some (n, digits.length + 2) else none
      | none => none
  | cs => if cs.length < 4 then none else (digitsValue? 16 (cs.take 4)).map fun n => (n, 4)

/-- Characters that stand for a lone half of a surrogate pair. -/
def loneSurrogate (n : Nat) : List Char := '\uFFFD' :: Nat.toDigits 16 n

/-- The characters for a code after `\u`, and for the second half of a pair behind it. -/
def unicodeEscape? (cs : List Char) : Option (Read (List Char)) :=
  match unicodeCode? cs with
  | none => none
  | some (n, count) =>
    if 0xD800 ≤ n && n < 0xDC00 then
      match cs.drop count with
      | '\\' :: 'u' :: more =>
        match unicodeCode? more with
        | some (k, more) =>
          if 0xDC00 ≤ k && k < 0xE000 then
            some ([Char.ofNat (0x10000 + (n - 0xD800) * 0x400 + (k - 0xDC00))], count + 2 + more)
          else some (loneSurrogate n, count)
        | none => some (loneSurrogate n, count)
      | _ => some (loneSurrogate n, count)
    else if 0xDC00 ≤ n && n < 0xE000 then some (loneSurrogate n, count)
    else some ([Char.ofNat n], count)

/-- The character of an octal code: up to three digits that stay below 256. -/
def octalEscape (cs : List Char) : Read (List Char) :=
  let digits := (cs.takeWhile (isDigitOf 8)).take 3
  let digits :=
    match digits with
    | a :: _ :: [_] => if '3' < a then digits.take 2 else digits
    | _ => digits
  ([Char.ofNat ((digitsValue? 8 digits).getD 0)], digits.length)

/-- The characters that an escape stands for, `cs` being what follows the backslash. -/
def escape? (cs : List Char) : Option (Read (List Char)) :=
  match cs with
  | [] => none
  | '\r' :: '\n' :: _ => some ([], 2)
  | 'x' :: a :: b :: _ => (digitsValue? 16 [a, b]).map fun n => ([Char.ofNat n], 3)
  | 'u' :: more => (unicodeEscape? more).map fun r => (r.1, r.2 + 1)
  | c :: _ =>
    if isLineEnd c then some ([], 1)
    else if isDigitOf 8 c then some (octalEscape cs)
    else
      match c with
      | 'b' => some (['\x08'], 1)
      | 't' => some (['\t'], 1)
      | 'n' => some (['\n'], 1)
      | 'v' => some (['\x0b'], 1)
      | 'f' => some (['\x0c'], 1)
      | 'r' => some (['\r'], 1)
      | 'x' => none
      | c => some ([c], 1)

/-! ## Quoted texts -/

/-- The content of a text after its opening quote, the closing quote being counted.  Every step takes
a character, which bounds `fuel`. -/
def quotedFrom (quote : Char) : Nat → List Char → Option (Read (List Char))
  | 0, _ => none
  | _ + 1, [] => none
  | fuel + 1, c :: cs =>
    if c == quote then some ([], 1)
    else if c == '\n' || c == '\r' then none
    else if c == '\\' then
      match escape? cs with
      | none => none
      | some (text, count) =>
        (quotedFrom quote fuel (cs.drop count)).map fun r => (text ++ r.1, count + 1 + r.2)
    else (quotedFrom quote fuel cs).map fun r => (c :: r.1, r.2 + 1)

def quoted? : List Char → Option (Read String)
  | [] => none
  | quote :: cs =>
    (quotedFrom quote (cs.length + 1) cs).map fun r => (String.ofList r.1, r.2 + 1)

/-- A piece of a template up to the closing quote or to a substitution. -/
structure TemplateChunk where
  /-- The text, unless an escape in it is not well formed. -/
  text : Option (List Char)
  /-- The piece ends at a substitution. -/
  opensSubstitution : Bool

def templateEscape? (cs : List Char) : Option (Read (List Char)) :=
  match cs with
  | '0' :: c :: _ => if isDecimalDigit c then none else some (['\x00'], 1)
  | c :: _ => if isDecimalDigit c && c != '0' then none else escape? cs
  | [] => none

def templateFrom : Nat → List Char → Option (Read TemplateChunk)
  | 0, _ => none
  | _ + 1, [] => none
  | _ + 1, '`' :: _ => some ({ text := some [], opensSubstitution := false }, 1)
  | _ + 1, '$' :: '{' :: _ => some ({ text := some [], opensSubstitution := true }, 2)
  | fuel + 1, c :: cs =>
    let (piece, count) : Option (List Char) × Nat :=
      if c == '\\' then
        match templateEscape? cs with
        | some (text, count) => (some text, count + 1)
        | none => (none, 2)
      else if c == '\r' then (some ['\n'], if cs.head? == some '\n' then 2 else 1)
      else (some [c], 1)
    (templateFrom fuel ((c :: cs).drop count)).map fun r =>
      ({ r.1 with text := piece.bind fun a => r.1.text.map fun b => a ++ b }, count + r.2)

def templateChunk? (cs : List Char) : Option (Read TemplateChunk) :=
  templateFrom (cs.length + 1) cs

/-! ## Names -/

def nameFrom : Nat → List Char → Option (Read (List Char))
  | 0, _ => none
  | _ + 1, [] => some ([], 0)
  | fuel + 1, '\\' :: 'u' :: cs =>
    match unicodeCode? cs with
    | none => none
    | some (n, count) =>
      if isIdentifierPart (Char.ofNat n) then
        (nameFrom fuel (cs.drop count)).map fun r => (Char.ofNat n :: r.1, count + 2 + r.2)
      else none
  | fuel + 1, c :: cs =>
    if isIdentifierPart c then (nameFrom fuel cs).map fun r => (c :: r.1, r.2 + 1)
    else if c == '\\' then none
    else some ([], 0)

def startsIdentifier : List Char → Bool
  | '\\' :: 'u' :: cs =>
    match unicodeCode? cs with
    | some (n, _) => isIdentifierStart (Char.ofNat n)
    | none => false
  | c :: _ => isIdentifierStart c
  | [] => false

def name? (cs : List Char) : Option (Read String) :=
  if startsIdentifier cs then
    (nameFrom (cs.length + 1) cs).map fun r => (String.ofList r.1, r.2)
  else none

/-! ## Numbers -/

/-- How many digits of a base are at the front, single underscores between them included. -/
def digitCount (base : Nat) : List Char → Nat
  | [] => 0
  | c :: cs =>
    if isDigitOf base c then
      match cs with
      | '_' :: d :: _ => if isDigitOf base d then digitCount base cs + 1 else 1
      | _ => digitCount base cs + 1
    else if c == '_' then
      match cs with
      | d :: _ => if isDigitOf base d then digitCount base cs + 1 else 0
      | [] => 0
    else 0

def baseOf? : Char → Option Nat
  | 'x' | 'X' => some 16
  | 'o' | 'O' => some 8
  | 'b' | 'B' => some 2
  | _ => none

def exponentCount (cs : List Char) : Nat :=
  match cs with
  | e :: rest =>
    if e == 'e' || e == 'E' then
      let sign :=
        match rest with
        | '+' :: _ => 1
        | '-' :: _ => 1
        | _ => 0
      match digitCount 10 (rest.drop sign) with
      | 0 => 0
      | n => n + sign + 1
    else 0
  | [] => 0

def placesCount (cs : List Char) : Nat :=
  match cs with
  | '.' :: '_' :: _ => 1
  | '.' :: rest => digitCount 10 rest + 1
  | _ => 0

def decimalCount (cs : List Char) : Nat :=
  let whole := digitCount 10 cs
  let places := placesCount (cs.drop whole)
  whole + places + exponentCount (cs.drop (whole + places))

def isOldOctal (cs : List Char) : Bool :=
  match cs with
  | '0' :: rest => !rest.isEmpty && rest.all (isDigitOf 8)
  | _ => false

/-- Whether a number has a zero in front that is neither a base nor all of its whole part. -/
def hasLeadingZero (cs : List Char) : Bool :=
  match cs with
  | '0' :: c :: _ => isDecimalDigit c || c == '_'
  | _ => false

/-- How many characters a number takes, without the sign of a big integer behind it.  Behind a
leading zero digits are not separated. -/
def numberCount? (cs : List Char) : Option Nat :=
  match cs with
  | '0' :: p :: rest =>
    match baseOf? p with
    | some base =>
      match digitCount base rest with
      | 0 => none
      | n => some (n + 2)
    | none =>
      if hasLeadingZero cs then
        let digits := cs.takeWhile isDecimalDigit
        if (cs.drop digits.length).head? == some '_' then none
        else if isOldOctal digits then some digits.length
        else some (decimalCount cs)
      else some (decimalCount cs)
  | cs => some (decimalCount cs)

/-- Whether a number can be a big integer: it has no leading zero, and neither decimal places nor an
exponent. -/
def canBeBig (digits : List Char) : Bool :=
  !hasLeadingZero digits
    && ((digits.drop 1).head?.any (fun c => (baseOf? c).isSome)
      || !digits.any fun c => ['.', 'e', 'E'].contains c)

/-- Whether a number is a big integer.  Neither a letter nor a digit may stand behind it. -/
def number? (cs : List Char) : Option (Read Bool) :=
  match numberCount? cs with
  | none => none
  | some n =>
    let isBig := (cs.drop n).head? == some 'n' && canBeBig (cs.take n)
    let n := if isBig then n + 1 else n
    let rest := cs.drop n
    if startsIdentifier rest || rest.head?.any isDecimalDigit then none else some (isBig, n)

def plainValue (base : Nat) (cs : List Char) : Nat :=
  ((cs.filter (· != '_')).filterMap (digitValue? base)).foldl (fun n d => n * base + d) 0

/-- `digits * 10 ^ exponent` as a fraction.  Exponents that lead out of all bounds are cut off. -/
def decimalRatio (digits : Nat) (exponent : Int) : Nat × Nat :=
  let e := max (-1500) (min 1500 exponent)
  if 0 ≤ e then (digits * Nat.pow 10 e.toNat, 1) else (digits, Nat.pow 10 (-e).toNat)

def decimalValue (cs : List Char) : Nat × Nat :=
  let (mantissa, power) :=
    match cutFirst? 'e' (asciiLowercase cs) with
    | some (m, e) => (m, e)
    | none => (cs, [])
  let (whole, places) :=
    match cutFirst? '.' mantissa with
    | some (w, p) => (w, p.filter (· != '_'))
    | none => (mantissa, [])
  let exponent : Int :=
    match power with
    | '-' :: ds => -(plainValue 10 ds : Int)
    | ds => plainValue 10 ds
  decimalRatio (plainValue 10 (whole ++ places)) (exponent - places.length)

def numberValue (cs : List Char) : Nat × Nat :=
  match cs with
  | '0' :: p :: rest =>
    match baseOf? p with
    | some base => (plainValue base rest, 1)
    | none => if isOldOctal cs then (plainValue 8 cs, 1) else decimalValue cs
  | cs => decimalValue cs

def numberKey (raw : String) : String :=
  let v := numberValue raw.toList
  (Double.ofRatio v.1 v.2).text

/-! ## Patterns -/

/-- How many characters a pattern takes after its opening slash.  In brackets a slash is an ordinary
character. -/
def patternCount (inBrackets : Bool) : List Char → Option Nat
  | [] => none
  | '\\' :: c :: cs => if isLineEnd c then none else (patternCount inBrackets cs).map (· + 2)
  | c :: cs =>
    if isLineEnd c then none
    else if c == '/' && !inBrackets then some 1
    else
      (patternCount (if c == '[' then true else if c == ']' then false else inBrackets) cs).map
        (· + 1)

def patternFlags : List Char := ['g', 'i', 'm', 's', 'u', 'y', 'd', 'v']

def areFlags : List Char → Bool
  | [] => true
  | c :: cs => patternFlags.contains c && !cs.contains c && areFlags cs

def pattern? (cs : List Char) : Option Nat :=
  match cs with
  | [] => none
  | _ :: body =>
    match patternCount false body with
    | none => none
    | some n =>
      let flags := (body.drop n).takeWhile isIdentifierPart
      if areFlags flags then some (n + flags.length + 1) else none

end Script
end ApiDoc
