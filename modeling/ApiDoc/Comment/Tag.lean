/-
Tags: the words after `@` that comments are written with, and what follows each of them.
-/
import ApiDoc.Doc.Param

namespace ApiDoc

/-- The tags, each spelling resolved to the one it stands for. -/
inductive TagKind where
  /-- Free text: what leads a comment, and what follows a tag that takes none. -/
  | doc
  | classDef
  | parent
  | mixins
  | alternateNames
  | aliases
  | xtypes
  | ftypes
  | ptypes
  | requires
  | uses
  | singleton
  | overrideOf
  | memberOf
  | method
  | event
  | constructorDef
  | config
  | property
  | valueType
  | styleVar
  | styleMixin
  | param
  | returns
  | throws
  | fires
  | privateFlag
  | protectedFlag
  | staticFlag
  | inheritable
  | abstractFlag
  | template
  | preventable
  | chainable
  | accessor
  | evented
  | hidden
  | skipped
  | readonly
  | required
  | markdown
  | deprecated
  | removed
  | since
  | localdoc
  | inheritdoc
  | enumeration
  | ignored
  deriving DecidableEq, Repr, Inhabited

inductive TagShape where
  | flag
  | flagLine
  | className
  | classList
  | memberName
  | typed
  /-- `{type}` and perhaps the name of a part of the return value, then text. -/
  | returned
  | thrown
  | type
  | words
  | version
  | since
  | text
  | reference
  | enumeration
  | styleMixin
  deriving DecidableEq, Repr

namespace TagKind

def spellings : List (String × TagKind) := [
    ("class", .classDef), ("extends", .parent), ("extend", .parent), ("mixins", .mixins),
    ("alternateClassName", .alternateNames), ("alternateClassNames", .alternateNames),
    ("alias", .aliases), ("xtype", .xtypes), ("ftype", .ftypes), ("ptype", .ptypes),
    ("requires", .requires), ("uses", .uses), ("singleton", .singleton),
    ("override", .overrideOf), ("member", .memberOf), ("method", .method), ("event", .event),
    ("constructor", .constructorDef), ("cfg", .config), ("property", .property),
    ("type", .valueType), ("var", .styleVar), ("param", .param), ("params", .param),
    ("return", .returns), ("returns", .returns), ("throws", .throws), ("fires", .fires),
    ("private", .privateFlag), ("protected", .protectedFlag), ("static", .staticFlag),
    ("inheritable", .inheritable), ("abstract", .abstractFlag), ("template", .template),
    ("preventable", .preventable), ("chainable", .chainable), ("accessor", .accessor),
    ("evented", .evented), ("hide", .hidden), ("ignore", .skipped), ("readonly", .readonly),
    ("required", .required), ("markdown", .markdown), ("deprecated", .deprecated),
    ("removed", .removed), ("since", .since), ("localdoc", .localdoc),
    ("inheritdoc", .inheritdoc), ("inheritDoc", .inheritdoc), ("enum", .enumeration),
    ("todo", .ignored), ("TODO", .ignored), ("Todo", .ignored), ("cancelable", .ignored),
    ("version", .ignored), ("bindable", .ignored), ("locale", .ignored), ("Locale", .ignored),
    ("disable", .ignored), ("cmd-auto-dependency", .ignored), ("cmd", .ignored),
    ("this", .ignored), ("copyright", .ignored), ("license", .ignored), ("date", .ignored),
    ("controllable", .ignored), ("declarativeHandler", .ignored) ]

/-- The tag that a spelling stands for.  In a style sheet `@mixin` documents a mixin; in a script it
is another spelling of `@mixins`. -/
def ofSpelling? (source : SourceKind) (spelling : String) : Option TagKind :=
  if spelling == "mixin" then
    match source with
    | .stylesheet => some .styleMixin
    | .script => some .mixins
  else (spellings.find? fun s => s.1 == spelling).map (·.2)

def shape : TagKind → TagShape
  | .doc | .singleton | .constructorDef | .privateFlag | .protectedFlag | .staticFlag
  | .inheritable | .abstractFlag | .template | .chainable | .accessor | .evented | .hidden
  | .skipped | .readonly | .required | .markdown => .flag
  | .preventable | .ignored => .flagLine
  | .classDef | .parent | .overrideOf | .memberOf => .className
  | .mixins | .alternateNames | .aliases | .xtypes | .ftypes | .ptypes | .requires | .uses =>
    .classList
  | .method | .event => .memberName
  | .config | .property | .styleVar | .param => .typed
  | .returns => .returned
  | .throws => .thrown
  | .valueType => .type
  | .fires => .words
  | .deprecated | .removed => .version
  | .since => .since
  | .localdoc => .text
  | .inheritdoc => .reference
  | .enumeration => .enumeration
  | .styleMixin => .styleMixin

/-- Whether the text after a tag belongs to the tag, and not to the documented entity. -/
def takesText (k : TagKind) : Bool :=
  match k.shape with
  | .typed | .returned | .thrown | .version | .text => true
  | _ => false

def aliasPrefix? : TagKind → Option String
  | .xtypes => some "widget."
  | .ftypes => some "feature."
  | .ptypes => some "plugin."
  | _ => none

end TagKind

structure Tag where
  kind : TagKind
  name : Option String := none
  type : Option String := none
  default : Option String := none
  isOptional : Bool := false
  isRequired : Bool := false
  names : List String := []
  version : Option String := none
  inheritdoc : Option InheritRef := none
  doc : String := ""
  deriving DecidableEq, Repr, Inhabited

def Tag.nameText (t : Tag) : String := t.name.getD ""

end ApiDoc
