/-
Places in the text of a script.
-/
import ApiDoc.Text.Basic

namespace ApiDoc
namespace Script

structure Cursor where
  rest : List Char
  left : Nat
  offset : Nat := 0
  line : Nat := 1
  deriving Repr, Inhabited

namespace Cursor

def start (text : List Char) : Cursor := { rest := text, left := text.length }

def next (c : Cursor) : Cursor :=
  match c.rest with
  | [] => c
  | ch :: rest =>
    { rest
      left := c.left - 1
      offset := c.offset + ch.utf8Size
      line := if ch == '\n' then c.line + 1 else c.line }

def forward : Nat → Cursor → Cursor
  | 0, c => c
  | n + 1, c => forward n c.next

def textTo (a b : Cursor) : String := String.ofList (a.rest.take (a.left - b.left))

end Cursor

def isLineEnd (c : Char) : Bool :=
  c == '\n' || c == '\r' || c.toNat == 0x2028 || c.toNat == 0x2029

/-- White space between tokens.  It includes the zero-width space and the byte order mark. -/
def isSpace (c : Char) : Bool :=
  (Text.isBlank c || c.toNat == 0x200B || c.toNat == 0xFEFF) && !isLineEnd c

end Script
end ApiDoc
