/-
The settings of a run.
-/
import ApiDoc.Assembly
import ApiDoc.Code.Record
import ApiDoc.Config.Value
import ApiDoc.Text.Case
import ApiDoc.Warning

namespace ApiDoc

inductive LogLevel where
  | silent
  | error
  | warn
  | info
  | debug
  deriving DecidableEq, Repr, Inhabited

namespace LogLevel

def word : LogLevel → String
  | silent => "silent"
  | error => "error"
  | warn => "warn"
  | info => "info"
  | debug => "debug"

/-- The word by which messages are filtered, which is also how a level is shown. -/
def filterWord : LogLevel → String
  | silent => "off"
  | level => level.word

def ofWord? (word : String) : Option LogLevel :=
  match word with
  | "silent" | "off" => some silent
  | "error" => some error
  | "warn" | "warning" => some warn
  | "info" => some info
  | "debug" => some debug
  | _ => none

/-- The level that a user names, in capital or small letters; the failure is a message. -/
def parse (text : String) : Except String LogLevel :=
  let word := Text.lowercase text
  match ofWord? word with
  | some level => .ok level
  | none => .error ("Invalid log level: " ++ word)

/-- The level that a value stands for.  A word can also be the only key of a table, without a
value. -/
def ofValue? : ConfigValue → Option LogLevel
  | .text word => ofWord? word
  | .table [(word, .null)] => ofWord? word
  | _ => none

end LogLevel

structure Settings where
  inputs : List String := []
  namespaces : List String := ["Ext"]
  eventOptions : Option Bool := none
  warnings : List String := []
  warningsAreErrors : Bool := false
  logLevel : LogLevel := .info
  checksTypes : Bool := false
  deriving DecidableEq, Repr, Inhabited

namespace Settings

/-- The names of the settings, in the order in which a list gives their values. -/
def keys : List String :=
  ["inputs", "ext_namespaces", "ext4_events", "warnings", "warnings_as_errors", "log_level",
    "check_types"]

/-- Reads one setting from a table; one that is missing has its default value. -/
def read? {α : Type} (entries : List (String × ConfigValue)) (key : String) (default : α)
    (read : ConfigValue → Option α) : Option α :=
  match entries.lookup key with
  | none => some default
  | some v => read v

/-- Reads settings from a table.  Keys that are no settings are passed over. -/
def ofEntries? (entries : List (String × ConfigValue)) : Option Settings := do
  let d : Settings := {}
  let inputs ← read? entries "inputs" d.inputs ConfigValue.texts?
  let namespaces ← read? entries "ext_namespaces" d.namespaces ConfigValue.texts?
  let eventOptions ←
    read? entries "ext4_events" d.eventOptions (ConfigValue.nullable? ConfigValue.flag?)
  let warnings ← read? entries "warnings" d.warnings ConfigValue.texts?
  let warningsAreErrors ←
    read? entries "warnings_as_errors" d.warningsAreErrors ConfigValue.flag?
  let logLevel ← read? entries "log_level" d.logLevel LogLevel.ofValue?
  let checksTypes ← read? entries "check_types" d.checksTypes ConfigValue.flag?
  some
    { inputs, namespaces, eventOptions, warnings, warningsAreErrors, logLevel, checksTypes }

/-- Reads settings from a table, or from a list that gives their values in order. -/
def ofValue? : ConfigValue → Option Settings
  | .table entries => ofEntries? entries
  | .list items => if items.length ≤ keys.length then ofEntries? (keys.zip items) else none
  | _ => none

def isDotted (name : String) : Bool := (name.toList.splitOn '.').all fun part => !part.isEmpty

def rules (s : Settings) : Except Error (List WarningRule) :=
  match s.warnings.mapM WarningRule.parseList with
  | .ok lists => .ok lists.flatten
  | .error (.invalidRule rule reason) => .error (.invalidRuleSetting rule reason)
  | .error e => .error e

def namespaceProblem? (namespaces : List String) : Option String :=
  if namespaces.isEmpty then some "at least one namespace is required"
  else
    (namespaces.find? fun name => !isDotted name).map fun name =>
      "'" ++ name ++ "' is not a dotted namespace"

def validate (s : Settings) : Except Error Unit :=
  match namespaceProblem? s.namespaces with
  | some hint => .error (.invalidConfig "ext_namespaces" hint)
  | none => s.rules.map fun _ => ()

/-- The settings that a value stands for, `source` naming what has a wrong shape otherwise. -/
def ofValue (source : String) (v : ConfigValue) : Except Error Settings :=
  match ofValue? v with
  | none => .error (.invalidConfig source "wrong type")
  | some s => s.validate.map fun _ => s

def assemblyOptions (s : Settings) : AssemblyOptions :=
  { eventOptions := s.eventOptions, checksTypes := s.checksTypes }

def codeNamespaces (s : Settings) : Code.Namespaces := { names := s.namespaces }

end Settings
end ApiDoc
