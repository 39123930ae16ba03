/-
A comment as a list of tags.

The plain text of a comment is cut at its tags into segments: what leads the text, and for each tag
what the tag read and what follows up to the next one.  The list of tags is then made from the
segments.  Text after a tag belongs to the tag if it takes text, and to the documented entity if not.
-/
import ApiDoc.Comment.Argument
import ApiDoc.Comment.Undecorate

namespace ApiDoc
namespace Comment

open Text

/-- A tag, the text that it was read from, and the text between it and the next tag. -/
structure Segment where
  tag : Tag
  head : List Char
  text : List Char
  deriving DecidableEq

structure Segments where
  lead : List Char := []
  tagged : List Segment := []
  /-- The words that look like tags and are not known. -/
  unknown : List String := []

/-- The number of spaces that start the line on which `before` ends.  `before` holds the text up
to here, the last character first. -/
def indentBefore (before : List Char) : Nat :=
  ((before.takeWhile (· != '\n')).reverse.takeWhile (· == ' ')).length

/-- Whether an `@` between `before` and `after` can start a tag: at the start of a word, not on a
line that is indented like code, and followed by a name. -/
def canStartTag (before after : List Char) : Bool :=
  (match before with
    | [] => true
    | c :: _ => isBlank c)
  && indentBefore before < 4 && startsName after

/-- Cuts a text at its tags.  `before` holds what precedes it, the last character first. -/
def segments (source : SourceKind) (before : List Char) : List Char → Segments
  | [] => {}
  | c :: cs =>
    if c == '@' && canStartTag before cs then
      let name := String.ofList (cs.takeWhile isHyphenNameChar)
      match TagKind.ofSpelling? source name with
      | some kind =>
        let r := readTag kind (cs.dropWhile isHyphenNameChar)
        let head := frontOf (c :: cs) r.2
        let s := segments source (head.reverse ++ before) r.2
        { s with lead := [], tagged := { tag := r.1, head, text := s.lead } :: s.tagged }
      | none =>
        let s := segments source (c :: before) cs
        { s with lead := c :: s.lead, unknown := name :: s.unknown }
    else
      let s := segments source (c :: before) cs
      { s with lead := c :: s.lead }
termination_by cs => cs.length
decreasing_by
  · exact Nat.lt_succ_of_le
      ((readTag_suffix _ _).trans (List.dropWhile_suffix isHyphenNameChar)).length_le
  · exact Nat.lt_succ_self _
  · exact Nat.lt_succ_self _

def docTag (text : List Char) : Tag := { kind := .doc, doc := String.ofList (trim text) }

/-- The tags that a segment contributes: its own, with its text if it takes text, and else
followed by the text unless that is blank. -/
def Segment.tags (s : Segment) : List Tag :=
  if s.tag.kind.takesText then [{ s.tag with doc := String.ofList (trim s.text) }]
  else if isBlankText s.text then [s.tag]
  else [s.tag, docTag s.text]

/-- The tags of a text.  The first one always holds the leading text. -/
def Segments.tags (s : Segments) : List Tag := docTag s.lead :: s.tagged.flatMap Segment.tags

/-- The tags of a comment, and the unknown words that look like tags. -/
structure Parsed where
  tags : List Tag := []
  unknown : List String := []
  deriving Repr

def ofPlain (source : SourceKind) (text : List Char) : Parsed :=
  let s := segments source [] text
  { tags := s.tags, unknown := s.unknown }

def parse (source : SourceKind) (comment : String) : Except Error Parsed :=
  match undecorate? comment.toList with
  | some text => .ok (ofPlain source text)
  | none => .error .brokenIndent

end Comment
end ApiDoc
