/-
Why a run can fail.
-/
namespace ApiDoc

/-- The causes of failure.  Problems in documentation are warnings; only these end a run. -/
inductive Error where
  /-- The indentation of a comment ends inside a character. -/
  | brokenIndent
  /-- A class inherits from itself.  The chain starts and ends with the same class. -/
  | circularInheritance (chain : List String)
  | warnings (count : Nat)
  | unknownClass (name : String)
  | invalidRule (rule reason : String)
  /-- A source text is not well formed. -/
  | unreadable (path : String)
  | inputNotFound (path : String)
  | invalidConfig (field hint : String)
  | invalidRuleSetting (rule reason : String)
  | configNotFound
  | unsupportedFormat (path : String)
  deriving DecidableEq, Repr

def Error.message : Error → String
  | .brokenIndent => "comment indentation ends inside a character"
  | .circularInheritance chain => "circular inheritance: " ++ String.intercalate " -> " chain
  | .warnings count =>
    toString count ++ " warning(s) reported while warnings are treated as errors"
  | .unknownClass name => "unknown class '" ++ name ++ "'"
  | .invalidRule rule reason => "invalid warning rule '" ++ rule ++ "': " ++ reason
  | .unreadable path => "failed to parse source '" ++ path ++ "'"
  | .inputNotFound path => "input not found: " ++ path
  | .invalidRuleSetting rule reason =>
    "invalid warning rule: invalid warning rule '" ++ rule ++ "': " ++ reason
  | .configNotFound => "config not found"
  | .unsupportedFormat path => "unsupported configuration format: " ++ path
  | .invalidConfig field hint => "invalid config value for '" ++ field ++ "': " ++ hint

end ApiDoc
