/-
Warnings, and the rules that switch kinds of warnings on and off.

Whatever inspects documentation answers with the list of all warnings that it has to give.  A
`Warnings` collector then keeps those that its rules let through.  Rules are compared in order and
the last one that matches decides, so adding a rule changes nothing but what that rule matches.
-/
import ApiDoc.Doc.Param
import ApiDoc.Error
import ApiDoc.Text.Basic

namespace ApiDoc

inductive WarningKind where
  /-- An unknown tag in a comment. -/
  | tag
  /-- A malformed type expression. -/
  | typeSyntax
  /-- A type expression with an unknown class. -/
  | typeName
  /-- A reference to documentation that does not exist. -/
  | inheritdoc
  /-- An override of a class that does not exist. -/
  | overrideTarget
  /-- A parent outside the registry. -/
  | parent
  /-- A mixin outside the registry. -/
  | mixin
  /-- A member of a wrong shape. -/
  | member
  /-- An enumeration without members. -/
  | enumeration
  /-- An alternate name that two classes claim. -/
  | alternateName
  /-- A member without a class. -/
  | global
  /-- A public entity without documentation. -/
  | undocumented
  /-- An entity without a name. -/
  | nameMissing
  deriving DecidableEq, Repr, Inhabited

namespace WarningKind

def all : List WarningKind :=
  [.tag, .typeSyntax, .typeName, .inheritdoc, .overrideTarget, .parent, .mixin, .member,
    .enumeration, .alternateName, .global, .undocumented, .nameMissing]

def word : WarningKind → String
  | .tag => "tag"
  | .typeSyntax => "type_syntax"
  | .typeName => "type_name"
  | .inheritdoc => "inheritdoc"
  | .overrideTarget => "override"
  | .parent => "extend"
  | .mixin => "mixin"
  | .member => "member"
  | .enumeration => "enum"
  | .alternateName => "alt_name"
  | .global => "global"
  | .undocumented => "nodoc"
  | .nameMissing => "name_missing"

def ofWord? (word : String) : Option WarningKind := all.find? fun k => k.word == word

def unknownWord (word : String) : String := "unknown warning kind: " ++ word

/-- The kinds that would be reported too often are off until a rule asks for them. -/
def isOnByDefault : WarningKind → Bool
  | .tag | .global | .undocumented => false
  | _ => true

theorem ofWord?_word (k : WarningKind) : ofWord? k.word = some k := by cases k <;> rfl

end WarningKind

structure Warning where
  kind : WarningKind
  message : String
  file : Option FileRef := none
  deriving DecidableEq, Repr, Inhabited

def Warning.display (w : Warning) : String :=
  match w.file with
  | some f => "[" ++ w.kind.word ++ "] " ++ f.filename ++ ":" ++ toString f.line ++ ": " ++ w.message
  | none => "[" ++ w.kind.word ++ "] " ++ w.message

/-- Switches one kind of warnings, or all, for all files or for those with a text in their name. -/
structure WarningRule where
  kind : Option WarningKind
  isOn : Bool
  path : Option String := none
  deriving DecidableEq, Repr, Inhabited

namespace WarningRule

def isFor (r : WarningRule) (kind : WarningKind) (filename : String) : Bool :=
  (match r.kind with
    | none => true
    | some k => k == kind)
  && (match r.path with
    | none => true
    | some p => Text.containsText p.toList filename.toList)

/-- The sign before a rule, and the text after it.  No sign means that the rule switches on. -/
def cutSign : List Char → Bool × List Char
  | '+' :: rest => (true, rest)
  | '-' :: rest => (false, rest)
  | rest => (true, rest)

/-- Reads `kind`, `+kind` or `-kind`, each optionally followed by `:path`. -/
def parse (input : String) : Except Error WarningRule :=
  let (isOn, rest) := cutSign (Text.trim input.toList)
  let (name, path) : List Char × Option (List Char) :=
    match Text.cutFirst? ':' rest with
    | some (name, path) => (Text.trim name, some (Text.trim path))
    | none => (Text.trim rest, none)
  let path := (path.filter fun p => !p.isEmpty).map String.ofList
  let name := String.ofList name
  if name == "all" then .ok { kind := none, isOn, path }
  else
    match WarningKind.ofWord? name with
    | some kind => .ok { kind := some kind, isOn, path }
    | none => .error (.invalidRule input (WarningKind.unknownWord name))

/-- The rules between the commas of a text.  Blank pieces count for nothing. -/
def parseList (input : String) : Except Error (List WarningRule) :=
  ((input.toList.splitOn ',').map Text.trim |>.filter fun p => !p.isEmpty).mapM
    fun p => parse (String.ofList p)

end WarningRule

def reportEach {σ α : Type} (step : σ → α → σ × List Warning) : σ → List α → σ × List Warning
  | s, [] => (s, [])
  | s, x :: xs =>
    let one := step s x
    let rest := reportEach step one.1 xs
    (rest.1, one.2 ++ rest.2)

/-- A collector: its rules, and the warnings that it let through. -/
structure Warnings where
  rules : List WarningRule := []
  collected : List Warning := []
  deriving Repr, Inhabited

namespace Warnings

/-- Whether rules let such a warning through: the last rule about it decides. -/
def isOn (rules : List WarningRule) (kind : WarningKind) (filename : String) : Bool :=
  match rules.reverse.find? fun r => r.isFor kind filename with
  | some r => r.isOn
  | none => kind.isOnByDefault

def filenameOf (w : Warning) : String :=
  match w.file with
  | some f => f.filename
  | none => ""

def add (ws : Warnings) (w : Warning) : Warnings :=
  if isOn ws.rules w.kind (filenameOf w) then
    { ws with collected := ws.collected ++ [w] }
  else ws

def addAll (ws : Warnings) (news : List Warning) : Warnings := news.foldl add ws

def fork (ws : Warnings) : Warnings := { rules := ws.rules }

def absorb (ws other : Warnings) : Warnings :=
  { ws with collected := ws.collected ++ other.collected }

def addRule (ws : Warnings) (r : WarningRule) : Warnings := { ws with rules := ws.rules ++ [r] }

def check (ws : Warnings) (asErrors : Bool) : Except Error Unit :=
  if asErrors && !ws.collected.isEmpty then .error (.warnings ws.collected.length) else .ok ()

@[simp] theorem rules_add (ws : Warnings) (w : Warning) : (ws.add w).rules = ws.rules := by
  unfold add
  split <;> rfl

@[simp] theorem rules_addAll (ws : Warnings) (news : List Warning) :
    (ws.addAll news).rules = ws.rules := by
  induction news generalizing ws with
  | nil => rfl
  | cons w news ih => simp only [addAll, List.foldl_cons] at ih ⊢; rw [ih, rules_add]

/-- Adding many warnings appends those that the rules let through, in their order. -/
theorem collected_addAll (ws : Warnings) (news : List Warning) :
    (ws.addAll news).collected =
      ws.collected ++ news.filter fun w => isOn ws.rules w.kind (filenameOf w) := by
  induction news generalizing ws with
  | nil => simp [addAll]
  | cons w news ih =>
    have step : ws.addAll (w :: news) = (ws.add w).addAll news := rfl
    rw [step, ih, rules_add]
    unfold add
    split
    · next h => simp [h]
    · next h => simp [h]

end Warnings

end ApiDoc
