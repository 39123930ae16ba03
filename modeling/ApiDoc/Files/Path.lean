/-
Paths, as texts with slashes.

Paths are joined and never simplified, so they are shown the way they were put together.
-/
import ApiDoc.Text.Basic
import ApiDoc.Text.Case

namespace ApiDoc
namespace Path

def isAbsolute (path : String) : Bool := path.toList.head? == some '/'

/-- A path below another one.  An absolute path stays what it is. -/
def join (folder path : String) : String :=
  if isAbsolute path || folder.isEmpty then path
  else if folder.toList.getLast? == some '/' then folder ++ path
  else folder ++ "/" ++ path

def parts (path : String) : List String := (path.toList.splitOn '/').map String.ofList

/-- The last name of a path.  There is none if the path ends by going up. -/
def lastName? (path : String) : Option String :=
  match ((parts path).filter fun p => !p.isEmpty && p != ".").getLast? with
  | none => none
  | some name => if name == ".." then none else some name

/-- The text after the last dot of a name, unless that dot starts the name. -/
def extensionOfName? (name : String) : Option String :=
  match Text.cutLast? '.' name.toList with
  | none => none
  | some p => if p.1.isEmpty then none else some (String.ofList p.2)

def extension? (path : String) : Option String := (lastName? path).bind extensionOfName?

def hasExtension (extension path : String) : Bool :=
  match extension? path with
  | none => false
  | some e => Text.asciiLowercase e.toList == extension.toList

end Path
end ApiDoc
