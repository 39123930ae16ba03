/-
Flat TOML documents: keys with texts, flags, numbers and lists.

Headers of tables are read, and what stands under them becomes a table of its own.  Dates, arrays of
tables, inline tables and texts over several lines are not part of flat documents.
-/
import ApiDoc.Comment.Scan
import ApiDoc.Config.Value
import ApiDoc.Text.Case

namespace ApiDoc
namespace Toml

open Text Comment

def isBareKeyChar (c : Char) : Bool := isAsciiAlphanumeric c || c == '_' || c == '-'

def isPlain (c : Char) : Bool := c == '\t' || (0x20 ≤ c.toNat && c.toNat != 0x7F)

def skipComment (cs : List Char) : List Char :=
  match cs with
  | '#' :: rest => rest.dropWhile isPlain
  | cs => cs

def lineEnd? : List Char → Option (List Char)
  | '\n' :: cs => some cs
  | '\r' :: '\n' :: cs => some cs
  | _ => none

def skipLines : Nat → List Char → List Char
  | 0, cs => cs
  | count + 1, cs =>
    let rest := skipComment (skipBlanks cs)
    match lineEnd? rest with
    | some rest => skipLines count rest
    | none => rest

def hexDigit? (c : Char) : Option Nat :=
  if '0' ≤ c && c ≤ '9' then some (c.toNat - '0'.toNat)
  else if 'a' ≤ c && c ≤ 'f' then some (c.toNat - 'a'.toNat + 10)
  else if 'A' ≤ c && c ≤ 'F' then some (c.toNat - 'A'.toNat + 10)
  else none

/-- The character whose code is written in exactly these digits. -/
def codePoint? (digits : List Char) : Option Char := do
  let values ← digits.mapM hexDigit?
  let n := values.foldl (fun n d => n * 16 + d) 0
  if n.isValidChar then some (Char.ofNat n) else none

def escaped? : Char → Option Char
  | 'b' => some '\x08'
  | 't' => some '\t'
  | 'n' => some '\n'
  | 'f' => some '\x0c'
  | 'r' => some '\r'
  | '"' => some '"'
  | '\\' => some '\\'
  | _ => none

def quoted? : List Char → Option (List Char × List Char)
  | [] => none
  | '"' :: cs => some ([], cs)
  | '\\' :: 'u' :: a :: b :: c :: d :: cs => do
    let ch ← codePoint? [a, b, c, d]
    (quoted? cs).map fun r => (ch :: r.1, r.2)
  | '\\' :: 'U' :: a :: b :: c :: d :: e :: f :: g :: h :: cs => do
    let ch ← codePoint? [a, b, c, d, e, f, g, h]
    (quoted? cs).map fun r => (ch :: r.1, r.2)
  | '\\' :: c :: cs => do
    let ch ← escaped? c
    (quoted? cs).map fun r => (ch :: r.1, r.2)
  | c :: cs =>
    if c == '\\' || !isPlain c then none else (quoted? cs).map fun r => (c :: r.1, r.2)

/-- A text in single quotes, after the opening one.  Nothing in it is escaped. -/
def verbatim? (cs : List Char) : Option (List Char × List Char) :=
  match cutFirst? '\'' cs with
  | some (text, rest) =>
    if text.all isPlain then some (text, rest) else none
  | none => none

def key? (cs : List Char) : Option (String × List Char) :=
  match cs with
  | '"' :: rest => (quoted? rest).map fun r => (String.ofList r.1, r.2)
  | '\'' :: rest => (verbatim? rest).map fun r => (String.ofList r.1, r.2)
  | cs =>
    match takeChars isBareKeyChar cs with
    | ([], _) => none
    | (name, rest) => some (String.ofList name, rest)

def keys? : Nat → List Char → Option (List String × List Char)
  | 0, _ => none
  | count + 1, cs =>
    match key? cs with
    | none => none
    | some (name, rest) =>
      match skipBlanks rest with
      | '.' :: more => (keys? count (skipBlanks more)).map fun r => (name :: r.1, r.2)
      | rest => some ([name], rest)

/-- Whether digits may have underscores as these do: one between two digits. -/
def isDigitRun (isDigit : Char → Bool) (cs : List Char) : Bool :=
  (cs.splitOn '_').all fun run => !run.isEmpty && run.all isDigit

def isDecimal (c : Char) : Bool := '0' ≤ c && c ≤ '9'

def isWhole (cs : List Char) : Bool :=
  isDigitRun isDecimal cs && (cs.length == 1 || cs.head? != some '0')

def unsigned (cs : List Char) : List Char :=
  match cs with
  | '+' :: rest => rest
  | '-' :: rest => rest
  | cs => cs

/-- A number with decimal places, an exponent, or both. -/
def isFraction (cs : List Char) : Bool :=
  let (mantissa, exponent) : List Char × Option (List Char) :=
    match cutFirst? 'e' (asciiLowercase cs) with
    | some (m, e) => (m, some e)
    | none => (cs, none)
  let (whole, places) : List Char × Option (List Char) :=
    match cutFirst? '.' mantissa with
    | some (w, p) => (w, some p)
    | none => (mantissa, none)
  isWhole whole && places.all (isDigitRun isDecimal)
    && exponent.all (fun e => isDigitRun isDecimal (unsigned e))
    && (places.isSome || exponent.isSome)

/-- Whether a word is a number. -/
def isNumber (cs : List Char) : Bool :=
  let digits := unsigned cs
  isWhole digits || isFraction digits || digits == "inf".toList || digits == "nan".toList
    || match cs with
      | '0' :: 'x' :: rest => isDigitRun (fun c => (hexDigit? c).isSome) rest
      | '0' :: 'o' :: rest => isDigitRun (fun c => '0' ≤ c && c ≤ '7') rest
      | '0' :: 'b' :: rest => isDigitRun (fun c => c == '0' || c == '1') rest
      | _ => false

def isWordChar (c : Char) : Bool := isBareKeyChar c || c == '+' || c == '.'

def word? (cs : List Char) : Option (ConfigValue × List Char) :=
  let r := takeChars isWordChar cs
  if r.1 == "true".toList then some (.flag true, r.2)
  else if r.1 == "false".toList then some (.flag false, r.2)
  else if isNumber r.1 then some (.number, r.2)
  else none

mutual

/-- A value.  Every step down or along takes a character, which bounds `depth`. -/
def value? : Nat → List Char → Option (ConfigValue × List Char)
  | 0, _ => none
  | depth + 1, cs =>
    match cs with
    | '"' :: rest => (quoted? rest).map fun r => (.text (String.ofList r.1), r.2)
    | '\'' :: rest => (verbatim? rest).map fun r => (.text (String.ofList r.1), r.2)
    | '[' :: rest => (items? depth rest).map fun r => (.list r.1, r.2)
    | cs => word? cs

def items? : Nat → List Char → Option (List ConfigValue × List Char)
  | 0, _ => none
  | depth + 1, cs =>
    match skipLines cs.length cs with
    | ']' :: rest => some ([], rest)
    | cs =>
      match value? depth cs with
      | none => none
      | some (v, rest) =>
        match skipLines rest.length rest with
        | ']' :: rest => some ([v], rest)
        | ',' :: rest => (items? depth rest).map fun r => (v :: r.1, r.2)
        | _ => none

end

inductive Line where
  | header (path : List String)
  | entry (path : List String) (value : ConfigValue)
  deriving Repr, Inhabited

def line? (cs : List Char) : Option (Line × List Char) :=
  match cs with
  | '[' :: rest =>
    match keys? rest.length (skipBlanks rest) with
    | some (path, ']' :: rest) => some (.header path, rest)
    | _ => none
  | cs =>
    match keys? cs.length cs with
    | some (path, '=' :: rest) =>
      let rest := skipBlanks rest
      (value? (rest.length + 1) rest).map fun r => (.entry path r.1, r.2)
    | _ => none

/-- The lines of a document.  Each takes a character, which bounds `count`. -/
def lines? : Nat → List Char → Option (List Line)
  | 0, _ => some []
  | count + 1, cs =>
    match skipLines cs.length cs with
    | [] => some []
    | cs =>
      match line? cs with
      | none => none
      | some (line, rest) =>
        match skipComment (skipBlanks rest) with
        | [] => some [line]
        | rest =>
          match lineEnd? rest with
          | none => none
          | some rest => (lines? count rest).map fun ls => line :: ls

/-- What is known of a document: full paths with values.  Tables stand for themselves. -/
abbrev Entries := List (List String × ConfigValue)

def isTable : ConfigValue → Bool
  | .table _ => true
  | _ => false

/-- Whether a path cannot be set any more. -/
def isTaken (entries : Entries) (path : List String) : Bool :=
  entries.any fun e =>
    e.1 == path || (e.1.isPrefixOf path && !isTable e.2) || path.isPrefixOf e.1

/-- Adds the lines to what is known, `table` being the table that the last header named. -/
def entriesOf? (entries : Entries) (table : List String) : List Line → Option Entries
  | [] => some entries
  | .header path :: ls =>
    if entries.any fun e => e.1 == path || (e.1.isPrefixOf path && !isTable e.2) then none
    else entriesOf? (entries ++ [(path, .table [])]) path ls
  | .entry path v :: ls =>
    if isTaken entries (table ++ path) then none
    else entriesOf? (entries ++ [(table ++ path, v)]) table ls

/-- The entry of the top table that a full path belongs to. -/
def topEntry : List String × ConfigValue → Option (String × ConfigValue)
  | ([], _) => none
  | ([name], v) => some (name, v)
  | (name :: _, _) => some (name, .table [])

/-- Reads a document.  There is no answer if it is not well formed. -/
def parse? (text : String) : Option ConfigValue := do
  let cs := text.toList
  let ls ← lines? (cs.length + 1) cs
  let entries ← entriesOf? [] [] ls
  some (.table (entries.filterMap topEntry))

end Toml
end ApiDoc
