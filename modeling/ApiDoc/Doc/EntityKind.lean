/-
What a comment can document, and the kind of file it stands in.
-/
namespace ApiDoc

/-- The kinds of documented entities.  All but `classDef` are kinds of members. -/
inductive EntityKind where
  | classDef
  | method
  | event
  | config
  | property
  | styleVar
  | styleMixin
  deriving DecidableEq, Repr, Inhabited

namespace EntityKind

def word : EntityKind → String
  | .classDef => "class"
  | .method => "method"
  | .event => "event"
  | .config => "cfg"
  | .property => "property"
  | .styleVar => "css_var"
  | .styleMixin => "css_mixin"

def memberKinds : List EntityKind :=
  [.method, .event, .config, .property, .styleVar, .styleMixin]

/-- The member kind that a word names.  Classes have no member ids, so `class` names none. -/
def ofMemberWord? (word : String) : Option EntityKind :=
  memberKinds.find? fun k => k.word == word

def isValue : EntityKind → Bool
  | .config | .property | .styleVar => true
  | _ => false

theorem word_injective {a b : EntityKind} (h : a.word = b.word) : a = b := by
  cases a <;> cases b <;> simp_all [word]

theorem ofMemberWord?_word {k : EntityKind} (h : k ≠ .classDef) :
    ofMemberWord? k.word = some k := by
  cases k <;> simp_all [ofMemberWord?, memberKinds, word]

end EntityKind

inductive SourceKind where
  | script
  | stylesheet
  deriving DecidableEq, Repr, Inhabited

end ApiDoc
