/-
Source files as lists of comments.
-/
import ApiDoc.Code.Node
import ApiDoc.Doc.EntityKind

namespace ApiDoc

/-- A documentation comment, without its delimiters, and the code after it. -/
structure SourceDoc where
  comment : String
  code : Option Code.Node := none
  line : Nat
  deriving BEq, Repr, Inhabited

/-- The documentation comments of a file, in their order. -/
structure SourceFile where
  filename : String
  kind : SourceKind
  docs : List SourceDoc
  deriving BEq, Repr, Inhabited

end ApiDoc
