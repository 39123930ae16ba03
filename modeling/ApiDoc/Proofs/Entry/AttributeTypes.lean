/-
Where sources give types to configs and properties.

A comment, or a part of the comment of a class, gives a config or property the type that it says, else
the one that the code after it shows for the same entity, else `Object`.  A member that is found in code
alone has the type that its own value shows: it is made of an undocumented key of an object in that code,
or of a string of an array (`found_classify`).  These are all the members that an entry of a source brings
(`typed_or_silent_extract`).
-/
import ApiDoc.Proofs.Code.Origins
import ApiDoc.Proofs.Entry.Readings

namespace ApiDoc

namespace EntityKind

/-- Configs and properties.  A variable of a style sheet holds a value too, but it can do without a
type. -/
def isAttribute (k : EntityKind) : Bool := k == .config || k == .property

theorem isAttribute_iff {k : EntityKind} : k.isAttribute = true ↔ k = .config ∨ k = .property := by
  cases k <;> decide

theorem isValue_of_isAttribute {k : EntityKind} (h : k.isAttribute = true) : k.isValue = true := by
  rcases isAttribute_iff.1 h with rfl | rfl
  · rfl
  · rfl

theorem beq_styleVar_of_isAttribute {k : EntityKind} (h : k.isAttribute = true) :
    (k == .styleVar) = false := by
  rcases isAttribute_iff.1 h with rfl | rfl
  · rfl
  · rfl

end EntityKind

namespace Code

/-- What the value of an undocumented key shows of its type.  An object under a capital name reads as a
class, which is a value of no type. -/
def shownType? (p : Property) : Option String :=
  match p.value with
  | .object .. => if isClassName p.key then none else some "Object"
  | value => literalType? value

/-- A member that is made of a name in a piece of code which nothing documents, with what its own value
shows of its type: the value of the key that it is made of, or the string in an array that it stands for. -/
inductive Found (ns : Namespaces) (code : Node) : Member → Option String → Prop where
  | key {properties : List Property} {raw : String} {p : Property}
      (hobject : .object properties raw ∈ code.preorder) (hp : p ∈ undocumented properties) :
      Found ns code (memberOf ns p) (shownType? p)
  | placed {s : Section} {p : Property} (h : SectionKey ns code s p) :
      Found ns code (s.place (memberOf ns p)) (shownType? p)
  | element {elements : List Node} {comments : List (Option String)} {raw : String} {m : Member}
      (harray : .array elements comments raw ∈ code.preorder)
      (hm : m ∈ elementMembers elements comments) : Found ns code m (some "String")

/-- A function has no type, and what stands for an empty function has none either. -/
theorem literalType?_of_isEmptyFunction {ns : Namespaces} {value : Node}
    (h : isEmptyFunction ns value = true) : literalType? value = none := by
  cases value with
  | literal _ _ _ => exact absurd h Bool.false_ne_true
  | object _ _ => exact absurd h Bool.false_ne_true
  | array _ _ _ => exact absurd h Bool.false_ne_true
  | _ => rfl

/-- What is read off a key for its member: a method has no type, and anything else the type that the
value shows. -/
theorem type_inferredRecord (ns : Namespaces) (p : Property) :
    (inferredRecord ns p).type = shownType? p ∧
      ((inferredRecord ns p).kind = .method → shownType? p = none) := by
  unfold inferredRecord shownType?
  split
  · next hvalue =>
    rw [hvalue]
    exact ⟨rfl, fun _ => rfl⟩
  · next hvalue =>
    rw [hvalue]
    split
    · exact ⟨rfl, fun _ => rfl⟩
    · exact ⟨rfl, fun _ => rfl⟩
  · next hvalue =>
    rw [hvalue]
    dsimp only
    split
    · exact ⟨rfl, fun _ => rfl⟩
    · exact ⟨rfl, fun hkind => nomatch hkind⟩
  · next value _ _ hobject =>
    have hshown : (match p.value with
        | .object .. => if isClassName p.key then none else some "Object"
        | value => literalType? value) = literalType? p.value := by
      split
      · next properties raw hvalue => exact absurd hvalue (hobject properties raw)
      · rfl
    rw [hshown]
    split
    · next hempty => exact ⟨(literalType?_of_isEmptyFunction hempty).symm,
        fun _ => literalType?_of_isEmptyFunction hempty⟩
    · exact ⟨rfl, fun hkind => nomatch hkind⟩

theorem type_memberOf (ns : Namespaces) (p : Property) : (memberOf ns p).type = shownType? p := by
  obtain ⟨htype, hmethod⟩ := type_inferredRecord ns p
  unfold memberOf inferredMember
  dsimp only
  split
  · next hkind =>
    refine (hmethod ?_).symm
    unfold memberKind at hkind
    split at hkind
    · next hrecord => exact eq_of_beq hrecord
    · exact absurd hkind (by decide)
  · exact htype

theorem inferred_memberOf (ns : Namespaces) (p : Property) :
    (memberOf ns p).inferred.member = true := by
  unfold memberOf inferredMember
  dsimp only
  split
  · rfl
  · rfl

theorem inferred_place (s : Section) (m : Member) :
    (s.place m).inferred = m.inferred ∧ (s.place m).type = m.type := by
  unfold Section.place
  split
  · exact ⟨rfl, rfl⟩
  · exact ⟨rfl, rfl⟩

namespace Found

variable {ns : Namespaces} {code : Node} {m : Member} {shown : Option String}

theorem type (h : Found ns code m shown) : m.type = shown := by
  cases h with
  | key _ _ => exact type_memberOf ns _
  | placed _ => exact (inferred_place _ _).2.trans (type_memberOf ns _)
  | element _ hm =>
    obtain ⟨e, -, hmember⟩ := List.mem_filterMap.1 hm
    obtain ⟨name, -, rfl⟩ := Option.map_eq_some_iff.1 hmember
    rfl

theorem inferred (h : Found ns code m shown) : m.inferred.member = true := by
  cases h with
  | key _ _ => exact inferred_memberOf ns _
  | placed _ =>
    rw [(inferred_place _ _).1]
    exact inferred_memberOf ns _
  | element _ hm =>
    obtain ⟨e, -, hmember⟩ := List.mem_filterMap.1 hm
    obtain ⟨name, -, rfl⟩ := Option.map_eq_some_iff.1 hmember
    rfl

end Found

/-- What a member is made of shows a type or none. -/
theorem Origin.found {ns : Namespaces} {code : Node} {m : Member} (h : Origin ns code m) :
    ∃ shown, Found ns code m shown := by
  cases h with
  | key hobject hp => exact ⟨_, .key hobject hp⟩
  | placed h => exact ⟨_, .placed h⟩
  | element harray hm => exact ⟨_, .element harray hm⟩

/-- All members that a piece of code has are found in it. -/
theorem found_classify (ns : Namespaces) (hints : SectionHints) (code : Option Node) :
    ∀ m ∈ (classify ns hints code).members, ∃ node shown, code = some node ∧ Found ns node m shown := by
  intro m hm
  obtain ⟨node, hnode, horigin⟩ := origin_classify ns hints code m hm
  obtain ⟨shown, hfound⟩ := horigin.found
  exact ⟨node, shown, hnode, hfound⟩

end Code

namespace Entry
open Code

/-- The type of a config or property that is documented: the one that the comment says, else the one
that the code shows, if it defines the same entity and that holds a value, else `Object`. -/
def documentedType (doc : DocRecord) (code : CodeRecord) : String :=
  (doc.type.or
    (if isSameEntity doc code && isSameSort code.kind doc.kind then code.type else none)).getD "Object"

theorem fst_fillGap (doc code : Option String) (mayFill : Bool) :
    (fillGap doc code mayFill).1 = doc.or (if mayFill then code else none) := by
  cases doc with
  | some _ => rfl
  | none =>
    cases code with
    | none =>
      cases mayFill with
      | true => rfl
      | false => rfl
    | some _ =>
      cases mayFill with
      | true => rfl
      | false => rfl

theorem type_mergeMember {doc : DocRecord} (hkind : doc.kind.isAttribute = true) (code : CodeRecord)
    (file : FileRef) : (mergeMember doc code file).type = some (documentedType doc code) := by
  have hcode : (if isSameSort (relevantCode doc code).kind doc.kind then (relevantCode doc code).type
      else none) = if isSameEntity doc code && isSameSort code.kind doc.kind then code.type else none := by
    unfold relevantCode
    cases isSameEntity doc code with
    | true => rfl
    | false => exact ite_self none
  show (typeOf doc (relevantCode doc code)).1 = _
  unfold typeOf documentedType
  rw [if_pos (EntityKind.isValue_of_isAttribute hkind)]
  dsimp only
  rw [EntityKind.beq_styleVar_of_isAttribute hkind, fst_fillGap, hcode]
  cases doc.type.or _ with
  | none => rfl
  | some _ => rfl

namespace Reading

/-- How a config or property comes to the type that it has in the entry of a comment.  The comment
documents it, as its only entity or in a part; or it is found in the code, where its own value shows a
type. -/
inductive Typed (ns : Namespaces) (d : Reading) (m : Member) : Prop where
  | whole (hm : m = mergeMember d.record d.code d.file)
      (htype : m.type = some (documentedType d.record d.code))
  | part {doc : DocRecord} (hdoc : doc ∈ d.parts) (hm : m = mergeMember doc {} d.file)
      (htype : m.type = some (documentedType doc {}))
  | shown {node : Node} {old : Member} {type : String} (hnode : d.node = some node)
      (hfound : Found ns node old (some type)) (hm : m = locate d.file old) (htype : m.type = some type)

/-- The member is found in the code after a comment and has no type, since its own value shows none. -/
inductive Silent (ns : Namespaces) (d : Reading) (m : Member) : Prop where
  | found {node : Node} {old : Member} (hnode : d.node = some node) (hfound : Found ns node old none)
      (hm : m = locate d.file old) (htype : m.type = none)

theorem Typed.isSome {ns : Namespaces} {d : Reading} {m : Member} (h : d.Typed ns m) :
    m.type.isSome = true := by
  cases h with
  | whole _ htype =>
    rw [htype]
    rfl
  | part _ _ htype =>
    rw [htype]
    rfl
  | shown _ _ _ htype =>
    rw [htype]
    rfl

/-- Inheriting tells what is only found in code from what is documented. -/
theorem Silent.inferred {ns : Namespaces} {d : Reading} {m : Member} (h : d.Silent ns m) :
    m.inferred.member = true := by
  obtain ⟨-, hfound, rfl, -⟩ := h
  exact hfound.inferred

theorem Brings.typed_or_silent {ns : Namespaces} {d : Reading} (hd : d.Classified ns) {m : Member}
    (h : d.Brings m) (hkind : m.kind.isAttribute = true) : d.Typed ns m ∨ d.Silent ns m := by
  cases h with
  | whole => exact Or.inl (.whole rfl (type_mergeMember hkind _ _))
  | part hdoc => exact Or.inl (.part hdoc rfl (type_mergeMember hkind _ _))
  | @found old hold =>
    obtain ⟨hints, hcode⟩ := hd
    rw [hcode] at hold
    obtain ⟨node, shown, hnode, hfound⟩ := found_classify ns hints d.node old hold
    have htype : (locate d.file old).type = shown := hfound.type
    cases shown with
    | none => exact Or.inr (.found hnode hfound rfl htype)
    | some type => exact Or.inl (.shown hnode hfound rfl htype)

end Reading

/-- Every config and property in the entries of a source is typed by a comment or by its own value, or is
found in code and its value shows no type. -/
theorem typed_or_silent_extract {ns : Namespaces} {source : SourceFile} {entries : List Entry}
    {warnings : List Warning} (h : extract ns source = .ok (entries, warnings)) {e : Entry}
    (he : e ∈ entries) {m : Member} (hm : m ∈ e.members) (hkind : m.kind.isAttribute = true) :
    ∃ d ∈ readings ns source, d.Typed ns m ∨ d.Silent ns m := by
  obtain ⟨d, hd, hclassified, hbrings⟩ := exists_reading_of_extract h he hm
  exact ⟨d, hd, hbrings.typed_or_silent hclassified hkind⟩

end Entry
end ApiDoc
