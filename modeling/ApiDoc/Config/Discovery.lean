/-
Configuration files.

A run is configured by a file in its root folder.  Inputs that are not absolute are taken from the
root folder, wherever the file is.
-/
import ApiDoc.Config.Settings
import ApiDoc.Config.Toml
import ApiDoc.Files.Tree

namespace ApiDoc

def configFileName : String := "docket.toml"

structure Discovery where
  files : FileTree
  root : String

namespace Discovery

def find? (d : Discovery) : Option String :=
  let path := Path.join d.root configFileName
  if (d.files.textAt? path).isSome then some path else none

def locate (d : Discovery) (s : Settings) : Settings :=
  { s with inputs := s.inputs.map (Path.join d.root) }

def read (d : Discovery) (text : String) : Except Error Settings :=
  match Toml.parse? text with
  | none => .error (.invalidConfig "configuration" "malformed file")
  | some v => (Settings.ofValue "configuration" v).map d.locate

def loadFrom (d : Discovery) (path : String) : Except Error Settings :=
  if !Path.hasExtension "toml" path then .error (.unsupportedFormat path)
  else
    match d.files.textAt? path with
    | none => .error .configNotFound
    | some text => d.read text

def load (d : Discovery) : Except Error Settings :=
  match d.find? with
  | some path => d.loadFrom path
  | none => .error .configNotFound

/-- The same, but without a configuration file everything has its default value. -/
def loadOrDefault (d : Discovery) : Except Error Settings :=
  match d.find? with
  | some path => d.loadFrom path
  | none => .ok {}

end Discovery
end ApiDoc
