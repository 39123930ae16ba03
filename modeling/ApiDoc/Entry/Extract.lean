/-
The entities that the comments of one file document.

Comments are read in their order.  A class body tells in which section each of its documented
properties stands, and the comments of these properties come later in the file, so the sections are
handed on from comment to comment.
-/
import ApiDoc.Code.Classify
import ApiDoc.Comment.Parsed
import ApiDoc.Entry.Merge
import ApiDoc.Entry.Source

namespace ApiDoc
namespace Entry

open Code

def unknownTagWarnings (file : FileRef) (unknown : List String) : List Warning :=
  unknown.map fun tag =>
    { kind := .tag, message := "Unsupported tag: @" ++ tag, file := some file }

/-- Whether a member was found in code and is not the one of that name in a comment. -/
def isReplacedBy (name : String) (m : Member) : Bool := m.inferred.kind && m.name == name

/-- A class with a member that its own comment documents.  It takes the place of members of the same
name that were found in the code. -/
def addDocumented (c : ClassDoc) (m : Member) : ClassDoc :=
  { c with members := (c.members.filter fun o => !isReplacedBy m.name o) ++ [m] }

def addGroups (file : FileRef) (c : ClassDoc) :
    List Comment.TagGroup → ClassDoc × List Warning
  | [] => (c, [])
  | g :: gs =>
    let r := Comment.interpret g.tags ⟨g.kind, true⟩ file
    let c := if r.1.isIgnored then c else addDocumented c (mergeMember r.1 {} file)
    let rest := addGroups file c gs
    (rest.1, r.2 ++ rest.2)

/-- The entry of a class comment, given as the tags of the class and the other groups. -/
def classEntry (tags : List Tag) (groups : List Comment.TagGroup) (detected : Comment.Detected)
    (code : CodeRecord) (file : FileRef) : Entry × List Warning :=
  let r := Comment.interpret tags detected file
  let c := addGroups file (mergeClass r.1 code file) groups
  ({ entity := .ofClass c.1, memberOf := r.1.memberOf, isIgnored := r.1.isIgnored }, r.2 ++ c.2)

def build (tags : List Tag) (detected : Comment.Detected) (code : CodeRecord) (file : FileRef) :
    Entry × List Warning :=
  if detected.kind == .classDef then
    let r := Comment.cutGroups none tags
    classEntry r.1 r.2 detected code file
  else
    let r := Comment.interpret tags detected file
    (merge r.1 code file, r.2)

/-- Whether nothing at all is said about an entity that others may use. -/
def isUndocumented (e : Entry) : Bool :=
  !e.isIgnored &&
    match e.entity with
    | .ofClass c => c.doc.isEmpty && !c.isPrivate && c.inheritdoc.isNone
    | .ofMember m => m.doc.isEmpty && !m.isPrivate && m.inheritdoc.isNone

def entityName : Entity → String
  | .ofClass c => c.name
  | .ofMember m => m.name

def undocumentedWarnings (file : FileRef) (e : Entry) : List Warning :=
  if isUndocumented e then
    [{ kind := .undocumented
       message := "No documentation for " ++ entityName e.entity
       file := some file }]
  else []

def ofParsed (parsed : Comment.Parsed) (code : CodeRecord) (file : FileRef) :
    Entry × List Warning :=
  let kind := if code.isPresent then some code.kind else none
  let r := build parsed.tags (Comment.detect parsed.tags kind) code file
  (r.1, unknownTagWarnings file parsed.unknown ++ r.2 ++ undocumentedWarnings file r.1)

/-- The entries of comments in a row, `hints` being the sections that are known so far. -/
def extractDocs (ns : Namespaces) (kind : SourceKind) (filename : String) (hints : SectionHints) :
    List SourceDoc → Except Error (List Entry × List Warning)
  | [] => .ok ([], [])
  | d :: ds =>
    match Comment.parse kind d.comment with
    | .error e => .error e
    | .ok parsed =>
      let code := classify ns hints d.code
      let r := ofParsed parsed code { filename, line := d.line }
      match extractDocs ns kind filename (hints ++ code.hints) ds with
      | .error e => .error e
      | .ok rest => .ok (r.1 :: rest.1, r.2 ++ rest.2)

def extract (ns : Namespaces) (file : SourceFile) : Except Error (List Entry × List Warning) :=
  extractDocs ns file.kind file.filename [] file.docs

end Entry
end ApiDoc
