/-
Keys of a section of a class body, with and without a comment.

A key without a comment is a member that the body itself finds.  A key with a comment is read again by
itself when its comment comes, and the section that it stands in is remembered until then.  Both take
their flags from the section alone.  What kind of entity they are is read off the value twice, and the
two readings differ where the value by itself makes a class: `documented_key_agrees_iff` says exactly
where.
-/
import ApiDoc.Code.Classify

namespace ApiDoc
namespace Code

/-- What a section has a say in: the kind of an entity and the flags that depend on where it stands. -/
structure Standing where
  kind : EntityKind
  isStatic : Bool := false
  isInheritable : Bool := false
  isAccessor : Bool := false
  isEvented : Bool := false
  deriving DecidableEq, Repr

def CodeRecord.standing (r : CodeRecord) : Standing :=
  ⟨r.kind, r.isStatic, r.isInheritable, r.isAccessor, r.isEvented⟩

/-- What a section makes of an entity of a kind. -/
def Section.standing (s : Section) (kind : EntityKind) : Standing :=
  if s.isConfig then { kind := .config, isAccessor := true, isEvented := s == .eventedConfig }
  else { kind, isStatic := true, isInheritable := s == .inheritableStatics }

/-- Whether a value makes a class of such a key: a function or an object under a capital name, or a
call that makes a class. -/
def definesClass (ns : Namespaces) (key : String) : Node → Bool
  | .function .. | .object .. => isClassName key
  | .call callee _ _ => makesClass ns callee
  | _ => false

end Code

open Code in
def Member.standing (m : Member) : Standing :=
  ⟨m.kind, m.isStatic, m.isInheritable, m.isAccessor, m.isEvented⟩

namespace Code

/-! ### Values by themselves -/

theorem standing_addProperty (ns : Namespaces) (r : CodeRecord) (p : Property) :
    (addProperty ns r p).standing = r.standing := by
  unfold addProperty
  split
  case h_10 =>
    split
    · rfl
    · split <;> rfl
  all_goals rfl

theorem standing_foldl_addProperty (ns : Namespaces) (body : List Property) (r : CodeRecord) :
    (body.foldl (addProperty ns) r).standing = r.standing := by
  induction body generalizing r with
  | nil => rfl
  | cons p body ih => rw [List.foldl_cons, ih, standing_addProperty]

theorem standing_definedClass (ns : Namespaces) (name : Option String)
    (body : Option (List Property)) :
    (definedClass ns name body).standing = { kind := .classDef } := by
  have hbase : ∀ r : CodeRecord, (withBaseClass r).standing = r.standing := by
    intro r
    unfold withBaseClass
    split <;> rfl
  rw [definedClass, hbase, standing_foldl_addProperty]
  rfl

theorem standing_namedValue (ns : Namespaces) (name : String) (value : Node) :
    (namedValue ns name value).standing = { kind := .property } := by
  unfold namedValue
  split <;> rfl

/-- A value by itself makes a class, or else the kind of member that a body finds in it. -/
theorem standing_assignedRecord (ns : Namespaces) (p : Property) :
    (assignedRecord ns p.key p.value).standing =
      { kind := if definesClass ns p.key p.value then .classDef
          else memberKind (inferredRecord ns p) } := by
  obtain ⟨key, value, offset, line, isDocumented, lineComment⟩ := p
  cases value with
  | function name params body =>
    cases hcapital : isClassName key <;>
      simp only [assignedRecord, definesClass, hcapital, Bool.false_eq_true, if_true, if_false] <;> rfl
  | object properties raw =>
    cases hcapital : isClassName key with
    | true =>
      simp only [assignedRecord, definesClass, hcapital, if_true]
      rfl
    | false =>
      simp only [assignedRecord, definesClass, inferredRecord, hcapital, Bool.false_eq_true, if_false]
      exact standing_namedValue ns key _
  | call callee args raw =>
    cases hextend : ns.isExtend (calledName callee) with
    | true =>
      simp only [assignedRecord, definesClass, makesClass, hextend, Bool.true_or, if_true]
      rfl
    | false =>
      cases hdefine : ns.isDefine (calledName callee) with
      | true =>
        simp only [assignedRecord, definesClass, makesClass, callRecord, hextend, hdefine,
          Bool.or_true, Bool.false_eq_true, if_true, if_false]
        exact standing_definedClass ns _ _
      | false =>
        simp only [assignedRecord, definesClass, inferredRecord, makesClass, hextend, hdefine,
          Bool.or_false, Bool.false_eq_true, if_false]
        exact standing_namedValue ns key _
  | _ =>
    simp only [assignedRecord, definesClass, inferredRecord, Bool.false_eq_true, if_false]
    split
    · rfl
    · exact standing_namedValue ns key _

/-! ### Values in a section -/

theorem standing_memberOf (ns : Namespaces) (p : Property) :
    (memberOf ns p).standing = { kind := memberKind (inferredRecord ns p) } := by
  simp only [memberOf, inferredMember]
  rw [apply_ite Member.standing]
  exact ite_self _

theorem Section.standing_placeRecord (s : Section) {r : CodeRecord} {kind : EntityKind}
    (h : r.standing = { kind }) : (s.placeRecord r).standing = s.standing kind := by
  unfold Section.placeRecord Section.standing
  injection h with hkind hstatic hinheritable haccessor hevented
  split
  · simp [CodeRecord.standing, hstatic, hinheritable]
  · simp [CodeRecord.standing, hkind, haccessor, hevented]

theorem Section.standing_place (s : Section) {m : Member} {kind : EntityKind}
    (h : m.standing = { kind }) : (s.place m).standing = s.standing kind := by
  have hrefresh : ∀ m : Member, m.refreshId.standing = m.standing := fun _ => rfl
  unfold Section.place Section.standing
  rw [hrefresh]
  injection h with hkind hstatic hinheritable haccessor hevented
  split
  · simp [Member.standing, hstatic, hinheritable]
  · simp [Member.standing, hkind, haccessor, hevented]

theorem memberKind_ne_classDef (r : CodeRecord) : memberKind r ≠ .classDef := by
  unfold memberKind
  split <;> exact EntityKind.noConfusion

theorem members_addSection (ns : Namespaces) (s : Section) (r : CodeRecord) {p : Property}
    (h : p.isDocumented = false) :
    (addSection ns s [p] r).members = r.members ++ [s.place (memberOf ns p)] := by
  simp [addSection, membersOf, undocumented, h]

/-- A key that is documented, with its section remembered, has the flags of the member that the section
makes of the same key without a comment.  It is of the same kind too, unless it stands among the
statics and its value by itself makes a class: there it is a class, which the member never is. -/
theorem documented_key_agrees_iff (ns : Namespaces) {hints : SectionHints} {s : Section}
    {p : Property} (h : hints.sectionAt? p.offset = some s) :
    let said := classify ns hints (some (.property p))
    let found := s.place (memberOf ns p)
    (∀ r, (addSection ns s [{ p with isDocumented := false }] r).members = r.members ++ [found]) ∧
      said.isStatic = found.isStatic ∧ said.isInheritable = found.isInheritable ∧
      said.isAccessor = found.isAccessor ∧ said.isEvented = found.isEvented ∧
      (said.kind = found.kind ↔ s.isConfig = true ∨ definesClass ns p.key p.value = false) ∧
      (said.kind = .classDef ↔ s.isConfig = false ∧ definesClass ns p.key p.value = true) := by
  intro said found
  have hsaid : said.standing = s.standing (if definesClass ns p.key p.value then .classDef
      else memberKind (inferredRecord ns p)) := by
    have hplaced : said = s.placeRecord (assignedRecord ns p.key p.value) := by
      show propertyRecord ns hints p = _
      rw [propertyRecord, h]
    rw [hplaced, s.standing_placeRecord (standing_assignedRecord ns p)]
  have hfound : found.standing = s.standing (memberKind (inferredRecord ns p)) :=
    s.standing_place (standing_memberOf ns p)
  have hmember := memberKind_ne_classDef (inferredRecord ns p)
  refine ⟨fun r => members_addSection ns s r rfl, ?_⟩
  show said.standing.isStatic = found.standing.isStatic ∧
    said.standing.isInheritable = found.standing.isInheritable ∧
    said.standing.isAccessor = found.standing.isAccessor ∧
    said.standing.isEvented = found.standing.isEvented ∧
    (said.standing.kind = found.standing.kind ↔ _) ∧ (said.standing.kind = .classDef ↔ _)
  rw [hsaid, hfound]
  unfold Section.standing
  cases s.isConfig with
  | true => simp
  | false => cases definesClass ns p.key p.value <;> simp [hmember, hmember.symm]

/-- A function under a capital name. -/
def helperKey : Property :=
  { key := "Helper", value := .function none ["a"] [], offset := 7, line := 1, isDocumented := true,
    lineComment := none }

/-- The section itself remembers where its documented key stands. -/
theorem documented_key_helper :
    (addSection {} .eventedConfig [helperKey] {}).hints.sectionAt? 7 = some .eventedConfig ∧
      (classify {} (addSection {} .eventedConfig [helperKey] {}).hints
        (some (.property helperKey))).kind = .config ∧
      (classify {} (addSection {} .statics [helperKey] {}).hints
        (some (.property helperKey))).kind = .classDef := by
  have hconfig : (addSection {} .eventedConfig [helperKey] {}).hints.sectionAt? helperKey.offset =
      some .eventedConfig := rfl
  have hstatic : (addSection {} .statics [helperKey] {}).hints.sectionAt? helperKey.offset =
      some .statics := rfl
  obtain ⟨-, -, -, -, -, hsame, -⟩ := documented_key_agrees_iff {} hconfig
  obtain ⟨-, -, -, -, -, -, hclass⟩ := documented_key_agrees_iff {} hstatic
  exact ⟨hconfig, hsame.2 (.inl rfl), hclass.2 ⟨rfl, by decide⟩⟩

/-- Among the statics a documented function under a capital name is a class, and without a comment it
is a static method. -/
theorem documented_static_is_class :
    (classify {} [(7, .statics)] (some (.property helperKey))).standing =
        { kind := .classDef, isStatic := true } ∧
      (Section.statics.place (memberOf {} helperKey)).standing =
        { kind := .method, isStatic := true } := by
  decide

end Code
end ApiDoc
