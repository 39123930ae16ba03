/-
Trees of files, and the source files below the inputs of a run.
-/
import ApiDoc.Error
import ApiDoc.Files.Path

namespace ApiDoc

inductive FileTree where
  | file (text : String)
  | folder (entries : List (String × FileTree))
  deriving Repr, Inhabited

namespace FileTree

def single (text : String) : List String → FileTree
  | [] => file text
  | name :: path => folder [(name, single text path)]

mutual

/-- Puts a file at a path.  A file that is in the way of a folder is replaced. -/
def put (text : String) : FileTree → List String → FileTree
  | file _, path => single text path
  | folder _, [] => file text
  | folder entries, name :: path => folder (putEntry text name path entries)

def putEntry (text name : String) (path : List String) :
    List (String × FileTree) → List (String × FileTree)
  | [] => [(name, single text path)]
  | (key, tree) :: entries =>
    if key == name then (key, put text tree path) :: entries
    else (key, tree) :: putEntry text name path entries

end

def ofFiles (files : List (String × String)) : FileTree :=
  files.foldl (fun tree f => tree.put f.2 (Path.parts f.1)) (folder [])

def entry? (tree : FileTree) (name : String) : Option FileTree :=
  match tree with
  | file _ => none
  | folder entries => entries.lookup name

/-- Goes down a path.  `above` holds the folders on the way to `tree`, the nearest one first; at the
top, going up leads nowhere else. -/
def descend (above : List FileTree) (tree : FileTree) : List String → Option FileTree
  | [] => some tree
  | name :: path =>
    match tree with
    | file _ => none
    | folder entries =>
      if name == "" || name == "." then descend above (folder entries) path
      else if name == ".." then
        match above with
        | [] => descend [] (folder entries) path
        | up :: above => descend above up path
      else
        match entries.lookup name with
        | some inner => descend (folder entries :: above) inner path
        | none => none

def get? (tree : FileTree) (path : String) : Option FileTree :=
  if path.isEmpty then none else descend [] tree (Path.parts path)

def textAt? (tree : FileTree) (path : String) : Option String :=
  match tree.get? path with
  | some (file text) => some text
  | _ => none

/-- Names that are passed over. -/
def isHidden (name : String) : Bool := name.toList.head? == some '.'

/-- The extensions of the source files that are picked up below folders. -/
def sourceExtensions : List String := ["js", "scss"]

def isSourceName (name : String) : Bool :=
  match Path.extensionOfName? name with
  | some e => sourceExtensions.contains e
  | none => false

def inOrder (listings : List (String × List String)) : List String :=
  (listings.mergeSort fun a b => !decide (b.1 < a.1)).flatMap (·.2)

mutual

def sources (name path : String) : FileTree → List String
  | file _ => if isSourceName name then [path] else []
  | folder entries => inOrder (listings path entries)

def listings (path : String) : List (String × FileTree) → List (String × List String)
  | [] => []
  | (name, tree) :: entries =>
    if isHidden name then listings path entries
    else (name, sources name (Path.join path name) tree) :: listings path entries

end

/-- The source files that an input stands for.  A file stands for itself, a folder for the source
files below it, unless it is hidden. -/
def sourcesAt (tree : FileTree) (input : String) : Except Error (List String) :=
  match tree.get? input with
  | none => .error (.inputNotFound input)
  | some (file _) => .ok [input]
  | some (folder entries) =>
    let name := (Path.lastName? input).getD input
    .ok (if isHidden name then [] else sources name input (folder entries))

def collect (tree : FileTree) (inputs : List String) : Except Error (List String) :=
  (inputs.mapM tree.sourcesAt).map List.flatten

end FileTree
end ApiDoc
