/-
The types of values in style sheets.
-/
import ApiDoc.Text.Basic
import ApiDoc.Text.Case

namespace ApiDoc
namespace Code

open Text

def colorNames : List String := [
    "aliceblue", "antiquewhite", "aqua", "aquamarine", "azure", "beige", "bisque", "black",
    "blanchedalmond", "blue", "blueviolet", "brown", "burlywood", "cadetblue", "chartreuse",
    "chocolate", "coral", "cornflowerblue", "cornsilk", "crimson", "cyan", "darkblue",
    "darkcyan", "darkgoldenrod", "darkgray", "darkgreen", "darkgrey", "darkkhaki",
    "darkmagenta", "darkolivegreen", "darkorange", "darkorchid", "darkred", "darksalmon",
    "darkseagreen", "darkslateblue", "darkslategray", "darkslategrey", "darkturquoise",
    "darkviolet", "deeppink", "deepskyblue", "dimgray", "dimgrey", "dodgerblue", "firebrick",
    "floralwhite", "forestgreen", "fuchsia", "gainsboro", "ghostwhite", "gold", "goldenrod",
    "gray", "green", "greenyellow", "grey", "honeydew", "hotpink", "indianred", "indigo",
    "ivory", "khaki", "lavender", "lavenderblush", "lawngreen", "lemonchiffon", "lightblue",
    "lightcoral", "lightcyan", "lightgoldenrodyellow", "lightgray", "lightgreen", "lightgrey",
    "lightpink", "lightsalmon", "lightseagreen", "lightskyblue", "lightslategray",
    "lightslategrey", "lightsteelblue", "lightyellow", "lime", "limegreen", "linen", "magenta",
    "maroon", "mediumaquamarine", "mediumblue", "mediumorchid", "mediumpurple",
    "mediumseagreen", "mediumslateblue", "mediumspringgreen", "mediumturquoise",
    "mediumvioletred", "midnightblue", "mintcream", "mistyrose", "moccasin", "navajowhite",
    "navy", "oldlace", "olive", "olivedrab", "orange", "orangered", "orchid", "palegoldenrod",
    "palegreen", "paleturquoise", "palevioletred", "papayawhip", "peachpuff", "peru", "pink",
    "plum", "powderblue", "purple", "red", "rosybrown", "royalblue", "saddlebrown", "salmon",
    "sandybrown", "seagreen", "seashell", "sienna", "silver", "skyblue", "slateblue",
    "slategray", "slategrey", "snow", "springgreen", "steelblue", "tan", "teal", "thistle",
    "tomato", "transparent", "turquoise", "violet", "wheat", "white", "whitesmoke", "yellow",
    "yellowgreen" ]

def colorFunctions : List String := [
    "rgb", "rgba", "hsl", "hsla", "mix", "adjust-hue", "lighten", "darken", "saturate",
    "desaturate", "grayscale", "complement", "invert", "alpha", "opacify", "fade-in",
    "transparentize", "fade-out", "adjust-color", "scale-color", "change-color", "ie-hex-str" ]

def isAsciiLetter (c : Char) : Bool := ('a' ≤ c && c ≤ 'z') || ('A' ≤ c && c ≤ 'Z')

def isAsciiDigit (c : Char) : Bool := '0' ≤ c && c ≤ '9'

def isHexDigit (c : Char) : Bool :=
  isAsciiDigit c || ('a' ≤ c && c ≤ 'f') || ('A' ≤ c && c ≤ 'F')

/-- A trimmed value without the flags at its end, such as `!default`. -/
def stripFlagsFrom (value : List Char) : List Char :=
  match _h : cutLast? '!' value with
  | some p =>
    if !p.2.isEmpty && p.2.all isAsciiLetter then stripFlagsFrom (trimEnd p.1) else value
  | none => value
termination_by value.length
decreasing_by exact Nat.lt_of_le_of_lt (length_trimEnd_le p.1) (length_fst_cutLast? _h)

/-- A value without white space around it and without the flags at its end. -/
def stripFlags (value : List Char) : List Char := stripFlagsFrom (trim value)

def isNumber (value : List Char) : Bool :=
  let digits := match value with
    | '-' :: rest => rest
    | rest => rest
  let isDigitOrDot := fun (c : Char) => isAsciiDigit c || c == '.'
  let number := digits.takeWhile isDigitOrDot
  let unit := digits.dropWhile isDigitOrDot
  !number.isEmpty && number != ['.'] && number.count '.' ≤ 1
    && (unit == ['%'] || unit.all isAsciiLetter)

/-- A color: a hexadecimal one, a name, or the call of a function that makes one. -/
def isColor (value : List Char) : Bool :=
  match value with
  | '#' :: hex => [3, 4, 6, 8].contains hex.length && hex.all isHexDigit
  | _ =>
    colorNames.contains (String.ofList (asciiLowercase value))
      || match cutFirst? '(' value with
        | some p =>
          value.getLast? == some ')' && colorFunctions.contains (String.ofList (trim p.1))
        | none => false

def isQuoted (value : List Char) : Bool :=
  2 ≤ value.length
    && ((value.head? == some '"' && value.getLast? == some '"')
      || (value.head? == some '\'' && value.getLast? == some '\''))

/-- The pieces of a value between separators that stand neither in quotes nor in parentheses.
`piece` holds the piece that is being read, the last character first. -/
def splitTopLevelFrom (isSeparator : Char → Bool) (depth : Nat) (quote : Option Char)
    (piece : List Char) : List Char → List (List Char)
  | [] => [piece.reverse]
  | c :: cs =>
    match quote with
    | some q =>
      splitTopLevelFrom isSeparator depth (if c == q then none else some q) (c :: piece) cs
    | none =>
      if c == '"' || c == '\'' then splitTopLevelFrom isSeparator depth (some c) (c :: piece) cs
      else if c == '(' then splitTopLevelFrom isSeparator (depth + 1) none (c :: piece) cs
      else if c == ')' then splitTopLevelFrom isSeparator (depth - 1) none (c :: piece) cs
      else if depth == 0 && isSeparator c then
        piece.reverse :: splitTopLevelFrom isSeparator depth none [] cs
      else splitTopLevelFrom isSeparator depth none (c :: piece) cs

def splitTopLevel (isSeparator : Char → Bool) (value : List Char) : List (List Char) :=
  ((splitTopLevelFrom isSeparator 0 none [] value).map trim).filter fun p => !p.isEmpty

/-- The elements of a list value: between commas, or else between white space. -/
def splitListValue (value : List Char) : List (List Char) :=
  let byComma := splitTopLevel (· == ',') value
  if byComma.length > 1 then byComma else splitTopLevel isBlank value

def isBareWordChar (c : Char) : Bool :=
  isAsciiLetter c || isAsciiDigit c || c == '-' || c == '_'

def styleType? (value : List Char) : Option String :=
  let value := stripFlags value
  if value.isEmpty || value == "null".toList then none
  else if (splitListValue value).length > 1 then some "list"
  else if isNumber value then some "number"
  else if value == "true".toList || value == "false".toList then some "boolean"
  else if isColor value then some "color"
  else if isQuoted value then some "string"
  else if value.contains '(' then none
  else if value.all isBareWordChar then some "string"
  else none

end Code
end ApiDoc
