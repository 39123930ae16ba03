/-
The code that comments document, as a tree.

Only what matters for documentation has a form of its own.  Everything else is `other`: its text and
those of its parts that are of interest.  `Node.children` lists the parts of any node and
`Node.preorder` all nodes below it, so a scan of a whole tree is a scan of a list.
-/
namespace ApiDoc
namespace Code

inductive LiteralKind where
  | number
  | string
  | boolean
  | null
  | pattern
  deriving DecidableEq, Repr, Inhabited

mutual

inductive Node where
  | function (name : Option String) (params : List String) (body : List Node)
  | var (name : String) (init : Option Node)
  | assign (target : String) (value : Node)
  | call (callee : Node) (args : List Node) (raw : String)
  | member (object : Node) (property raw : String)
  | ident (name : String)
  | this
  | literal (kind : LiteralKind) (value raw : String)
  | object (properties : List Property) (raw : String)
  /-- An array, with the line comments before each of its elements. -/
  | array (elements : List Node) (comments : List (Option String)) (raw : String)
  | property (p : Property)
  | returned (value : Option Node)
  | branch (test consequent : Node) (alternate : Option Node)
  | block (body : List Node)
  /-- A loop.  The body of a `do` loop runs at least once. -/
  | loop (isDoWhile : Bool) (header : List Node) (body : Node)
  | other (raw : String) (children : List Node)
  | styleVar (name value : String)
  /-- A mixin of a style sheet with its parameters and their default values. -/
  | styleMixin (name : String) (params : List (String × Option String))

structure Property where
  key : String
  value : Node
  /-- Where the property starts, in bytes.  It tells properties apart across comments. -/
  offset : Nat
  line : Nat
  isDocumented : Bool
  lineComment : Option String

end

deriving instance BEq, Repr for Node, Property

instance : Inhabited Node := ⟨.this⟩

namespace Node

def children : Node → List Node
  | .function _ _ body => body
  | .var _ init => init.toList
  | .assign _ value => [value]
  | .call callee args _ => callee :: args
  | .member inner _ _ => [inner]
  | .object properties _ => properties.map Property.value
  | .array elements _ _ => elements
  | .property p => [p.value]
  | .returned value => value.toList
  | .branch test consequent alternate => test :: consequent :: alternate.toList
  | .block body => body
  | .loop _ header body => header ++ [body]
  | .other _ children => children
  | .ident _ | .this | .literal .. | .styleVar .. | .styleMixin .. => []

theorem sizeOf_lt_of_mem_toList {o : Option Node} {c : Node} (h : c ∈ o.toList) :
    sizeOf c < sizeOf o := by
  cases o with
  | none => simp at h
  | some v =>
    simp only [Option.toList_some, List.mem_singleton] at h
    subst h
    simp

theorem sizeOf_value_lt (p : Property) : sizeOf p.value < sizeOf p := by
  cases p
  simp
  omega

theorem sizeOf_lt_of_mem_children {n c : Node} (h : c ∈ n.children) : sizeOf c < sizeOf n := by
  cases n with
  | function _ _ body =>
    have := List.sizeOf_lt_of_mem (show c ∈ body from h)
    simp only [function.sizeOf_spec]
    omega
  | var _ init =>
    have := sizeOf_lt_of_mem_toList (show c ∈ init.toList from h)
    simp only [var.sizeOf_spec]
    omega
  | assign _ value =>
    obtain rfl := List.mem_singleton.1 h
    simp only [assign.sizeOf_spec]
    omega
  | call callee args _ =>
    simp only [call.sizeOf_spec]
    rcases List.mem_cons.1 h with rfl | h
    · omega
    · have := List.sizeOf_lt_of_mem h
      omega
  | member object _ _ =>
    obtain rfl := List.mem_singleton.1 h
    simp only [member.sizeOf_spec]
    omega
  | object properties _ =>
    obtain ⟨p, hp, rfl⟩ := List.mem_map.1 h
    have h1 := List.sizeOf_lt_of_mem hp
    have h2 := sizeOf_value_lt p
    simp only [object.sizeOf_spec]
    omega
  | array elements _ _ =>
    have := List.sizeOf_lt_of_mem (show c ∈ elements from h)
    simp only [array.sizeOf_spec]
    omega
  | property p =>
    obtain rfl := List.mem_singleton.1 h
    have := sizeOf_value_lt p
    simp only [property.sizeOf_spec]
    omega
  | returned value =>
    have := sizeOf_lt_of_mem_toList (show c ∈ value.toList from h)
    simp only [returned.sizeOf_spec]
    omega
  | branch test consequent alternate =>
    simp only [branch.sizeOf_spec]
    rcases List.mem_cons.1 h with rfl | h
    · omega
    · rcases List.mem_cons.1 h with rfl | h
      · omega
      · have := sizeOf_lt_of_mem_toList h
        omega
  | block body =>
    have := List.sizeOf_lt_of_mem (show c ∈ body from h)
    simp only [block.sizeOf_spec]
    omega
  | loop _ header body =>
    simp only [loop.sizeOf_spec]
    rcases List.mem_append.1 h with h | h
    · have := List.sizeOf_lt_of_mem h
      omega
    · obtain rfl := List.mem_singleton.1 h
      omega
  | other _ children =>
    have := List.sizeOf_lt_of_mem (show c ∈ children from h)
    simp only [other.sizeOf_spec]
    omega
  | ident _ => simp [children] at h
  | this => simp [children] at h
  | literal _ _ _ => simp [children] at h
  | styleVar _ _ => simp [children] at h
  | styleMixin _ _ => simp [children] at h

def preorder (n : Node) : List Node :=
  n :: n.children.attach.flatMap fun ⟨c, _⟩ => c.preorder
termination_by sizeOf n
decreasing_by exact sizeOf_lt_of_mem_children (by assumption)

/-- The dotted name of an identifier or of a chain of members, such as `this.size`. -/
def dottedName? : Node → Option String
  | .ident name => some name
  | .this => some "this"
  | .member inner name _ => (dottedName? inner).map fun o => o ++ "." ++ name
  | _ => none

def rawText? : Node → Option String
  | .ident name => some name
  | .this => some "this"
  | .literal _ _ raw | .object _ raw | .array _ _ raw | .call _ _ raw | .member _ _ raw
  | .other raw _ => some raw
  | _ => none

def string? : Node → Option String
  | .literal .string value _ => some value
  | _ => none

def properties? : Node → Option (List Property)
  | .object properties _ => some properties
  | _ => none

def isThis : Node → Bool
  | .this => true
  | _ => false

def isFunction : Node → Bool
  | .function .. => true
  | _ => false

def isTrue : Node → Bool
  | .literal .boolean value _ => value == "true"
  | _ => false

def hasFunction (n : Node) : Bool := n.preorder.any isFunction

end Node

end Code
end ApiDoc
