/-
Runs: from source texts to the finished documentation.

Every file is read by itself, with a collector of warnings of its own.  The files are then joined in
their order, so the result does not depend on which file was read first.  Scripts are read by whatever
reader a run is given.
-/
import ApiDoc.Config.Settings
import ApiDoc.Entry.Extract
import ApiDoc.Files.Tree
import ApiDoc.Script.Reader
import ApiDoc.Stylesheet.Reader

namespace ApiDoc

/-- What reads a script: its documentation comments with the code after them, if it is well formed. -/
abbrev ScriptReader := String → Option (List SourceDoc)

/-- Reads a source text.  The extension `scss` marks style sheets; everything else is a script. -/
def SourceFile.parse (filename text : String) (readScript : ScriptReader := Script.docs?) :
    Except Error SourceFile :=
  if Path.hasExtension "scss" filename then
    .ok { filename, kind := .stylesheet, docs := Stylesheet.docs text }
  else
    match readScript text with
    | some docs => .ok { filename, kind := .script, docs }
    | none => .error (.unreadable filename)

structure Extracted where
  filename : String
  entries : List Entry
  warnings : Warnings
  deriving Repr, Inhabited

def Extracted.ofSource (readScript : ScriptReader) (ns : Code.Namespaces) (ws : Warnings)
    (source : String × String) : Except Error Extracted :=
  match SourceFile.parse source.1 source.2 readScript with
  | .error e => .error e
  | .ok file =>
    (Entry.extract ns file).map fun r =>
      { filename := file.filename, entries := r.1, warnings := ws.fork.addAll r.2 }

/-- The finished documentation, with the warnings that the settings let through. -/
structure Documentation where
  registry : Registry
  warnings : List Warning
  deriving Repr, Inhabited

def join (s : Settings) (ws : Warnings) (files : List Extracted) :
    Except Error Documentation :=
  let read := files.foldl (fun ws f => ws.absorb f.warnings) ws
  let grouped :=
    reportEach (fun (g : Grouping) (f : Extracted) => g.addFile f.filename f.entries) {} files
  let done := grouped.1.finish s.assemblyOptions
  let all := (read.addAll grouped.2).addAll done.2
  match done.1 with
  | .error e => .error e
  | .ok registry =>
    (all.check s.warningsAreErrors).map fun _ => { registry, warnings := all.collected }

def documentSources (s : Settings) (sources : List (String × String))
    (readScript : ScriptReader := Script.docs?) : Except Error Documentation :=
  match s.validate, s.rules with
  | .error e, _ => .error e
  | _, .error e => .error e
  | .ok _, .ok rules =>
    let ws : Warnings := { rules }
    match sources.mapM (Extracted.ofSource readScript s.codeNamespaces ws) with
    | .error e => .error e
    | .ok files => join s ws files

/-- Documents the inputs of the settings, which are taken from a tree of files. -/
def document (s : Settings) (files : FileTree) (readScript : ScriptReader := Script.docs?) :
    Except Error Documentation :=
  match s.validate with
  | .error e => .error e
  | .ok _ =>
    match files.collect s.inputs with
    | .error e => .error e
    | .ok paths =>
      documentSources s (paths.map fun path => (path, (files.textAt? path).getD "")) readScript

end ApiDoc
