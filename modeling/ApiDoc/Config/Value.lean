/-
Values of configurations, whatever file or message they come from.
-/
namespace ApiDoc

inductive ConfigValue where
  | null
  | flag (b : Bool)
  /-- A number.  No setting is one, so its value does not matter. -/
  | number
  | text (s : String)
  | list (items : List ConfigValue)
  | table (entries : List (String × ConfigValue))
  deriving Repr, Inhabited

namespace ConfigValue

def flag? : ConfigValue → Option Bool
  | flag b => some b
  | _ => none

def text? : ConfigValue → Option String
  | text s => some s
  | _ => none

def texts? : ConfigValue → Option (List String)
  | list items => items.mapM text?
  | _ => none

def nullable? {α : Type} (read : ConfigValue → Option α) : ConfigValue → Option (Option α)
  | null => some none
  | v => (read v).map some

end ConfigValue
end ApiDoc
