/-
Where the members that code has come from.

A member that is found in code is made of an undocumented key of an object, of an undocumented key of a
section of a class body, or of a string of an array.  Whatever form the code has, it has no other members
(`origin_classify`).  All of them are marked as found in code (`Origin.inferred_kind`).
-/
import ApiDoc.Code.Classify

namespace ApiDoc
namespace Code

namespace Node

theorem self_mem_preorder (n : Node) : n ∈ n.preorder := by
  rw [preorder]
  exact List.mem_cons_self

theorem mem_preorder_iff {n part : Node} :
    part ∈ n.preorder ↔ part = n ∨ ∃ c ∈ n.children, part ∈ c.preorder := by
  rw [preorder]
  simp

theorem preorder_subset_of_mem_children {n c : Node} (h : c ∈ n.children) :
    c.preorder ⊆ n.preorder :=
  fun _ hpart => mem_preorder_iff.2 (Or.inr ⟨c, h, hpart⟩)

theorem exists_object_of_properties? {n : Node} {properties : List Property}
    (h : n.properties? = some properties) : ∃ raw, n = .object properties raw := by
  cases n with
  | object own raw =>
    obtain rfl := Option.some.inj h
    exact ⟨raw, rfl⟩
  | _ => exact absurd h (by simp [properties?])

end Node

theorem object_of_objectAt? {callee : Node} {args : List Node} {raw : String} {i : Nat}
    {properties : List Property} (h : objectAt? args i = some properties) :
    ∃ text, .object properties text ∈ (Node.call callee args raw).preorder := by
  obtain ⟨arg, harg, hproperties⟩ := Option.bind_eq_some_iff.1 h
  obtain ⟨text, rfl⟩ := Node.exists_object_of_properties? hproperties
  have hchild : .object properties text ∈ (Node.call callee args raw).children :=
    List.mem_cons_of_mem _ (List.mem_of_getElem? harg)
  exact ⟨text, Node.preorder_subset_of_mem_children hchild (Node.self_mem_preorder _)⟩

/-- Somewhere in a piece of code a class is defined by a call, and an undocumented key stands in a
section of its body. -/
inductive SectionKey (ns : Namespaces) (code : Node) (s : Section) (p : Property) : Prop where
  | intro {callee : Node} {args : List Node} {raw : String} {body below : List Property} {q : Property}
      (hcall : .call callee args raw ∈ code.preorder) (hdefine : ns.isDefine (calledName callee) = true)
      (hbody : objectAt? args 1 = some body) (hq : q ∈ body) (hsection : Section.ofKey? q.key = some s)
      (hbelow : q.value.properties? = some below) (hp : p ∈ undocumented below)

/-- A member is made of a name that nothing documents somewhere in a piece of code. -/
inductive Origin (ns : Namespaces) (code : Node) : Member → Prop where
  | key {properties : List Property} {raw : String} {p : Property}
      (hobject : .object properties raw ∈ code.preorder) (hp : p ∈ undocumented properties) :
      Origin ns code (memberOf ns p)
  | placed {s : Section} {p : Property} (h : SectionKey ns code s p) :
      Origin ns code (s.place (memberOf ns p))
  | element {elements : List Node} {comments : List (Option String)} {raw : String} {m : Member}
      (harray : .array elements comments raw ∈ code.preorder)
      (hm : m ∈ elementMembers elements comments) : Origin ns code m

section
variable {ns : Namespaces} {code whole : Node} (hsub : code.preorder ⊆ whole.preorder)
include hsub

theorem SectionKey.mono {s : Section} {p : Property} (h : SectionKey ns code s p) :
    SectionKey ns whole s p := by
  cases h with
  | intro hcall hdefine hbody hq hsection hbelow hp =>
    exact .intro (hsub hcall) hdefine hbody hq hsection hbelow hp

theorem Origin.mono {m : Member} (h : Origin ns code m) : Origin ns whole m := by
  cases h with
  | key hobject hp => exact .key (hsub hobject) hp
  | placed h => exact .placed (h.mono hsub)
  | element harray hm => exact .element (hsub harray) hm

end

theorem origin_membersOf (ns : Namespaces) {code : Node} {properties : List Property} {raw : String}
    (hobject : .object properties raw ∈ code.preorder) :
    ∀ m ∈ membersOf ns properties, Origin ns code m := by
  intro m hm
  obtain ⟨p, hp, rfl⟩ := List.mem_map.1 hm
  exact .key hobject hp

section
variable {ns : Namespaces} {callee : Node} {args : List Node} {raw : String}

/-- Of the keys of a class body, sections bring the keys below them and the others bring themselves. -/
theorem origin_addProperty (hdefine : ns.isDefine (calledName callee) = true) {body : List Property}
    (hbody : objectAt? args 1 = some body) {r : CodeRecord}
    (h : ∀ m ∈ r.members, Origin ns (.call callee args raw) m) {p : Property} (hp : p ∈ body) :
    ∀ m ∈ (addProperty ns r p).members, Origin ns (.call callee args raw) m := by
  unfold addProperty
  split
  iterate 9 exact h
  split
  · next s below hsection hbelow =>
    intro m hm
    rcases List.mem_append.1 hm with hold | hnew
    · exact h m hold
    · obtain ⟨old, hold, rfl⟩ := List.mem_map.1 hnew
      obtain ⟨key, hkey, rfl⟩ := List.mem_map.1 hold
      exact .placed (.intro (Node.self_mem_preorder _) hdefine hbody hp hsection hbelow hkey)
  · split
    · exact h
    · next hundocumented =>
      intro m hm
      rcases List.mem_append.1 hm with hold | hnew
      · exact h m hold
      · rw [List.mem_singleton.1 hnew]
        obtain ⟨text, hobject⟩ := object_of_objectAt? hbody
        exact .key hobject (List.mem_filter.2 ⟨hp, by simpa using hundocumented⟩)

theorem origin_definedClass (hdefine : ns.isDefine (calledName callee) = true) (name : Option String) :
    ∀ m ∈ (definedClass ns name (objectAt? args 1)).members, Origin ns (.call callee args raw) m := by
  have hclass : ∀ m ∈ (((objectAt? args 1).getD []).foldl (addProperty ns)
      { CodeRecord.named .classDef name with isDefined := true }).members,
      Origin ns (.call callee args raw) m := by
    refine List.foldlRecOn (motive := fun r : CodeRecord => ∀ m ∈ r.members,
      Origin ns (.call callee args raw) m) _ _ (fun _ hm => absurd hm List.not_mem_nil) fun r h p hp => ?_
    cases hbody : objectAt? args 1 with
    | none =>
      rw [hbody] at hp
      exact absurd hp List.not_mem_nil
    | some body =>
      rw [hbody] at hp
      exact origin_addProperty hdefine hbody h hp
  unfold definedClass withBaseClass
  split
  · exact hclass
  · exact hclass

/-- The members of an object among the arguments of a call. -/
theorem origin_argument (i : Nat) :
    ∀ m ∈ membersOf ns ((objectAt? args i).getD []), Origin ns (.call callee args raw) m := by
  cases hbody : objectAt? args i with
  | none => exact fun _ hm => absurd hm List.not_mem_nil
  | some properties =>
    obtain ⟨text, hobject⟩ := object_of_objectAt? hbody
    exact origin_membersOf ns hobject

theorem members_describedProperty (args : List Node) : (describedProperty args).members = [] := by
  unfold describedProperty
  split
  · rfl
  · rfl

end

theorem origin_callRecord (ns : Namespaces) (callee : Node) (args : List Node) (raw : String) :
    ∀ m ∈ (callRecord ns callee args).members, Origin ns (.call callee args raw) m := by
  unfold callRecord
  dsimp only
  split
  · next hdefine => exact origin_definedClass hdefine _
  · split
    · exact fun _ hm => absurd hm List.not_mem_nil
    · split
      · exact origin_argument 1
      · split
        · exact origin_argument 1
        · split
          · rw [members_describedProperty]
            exact fun _ hm => absurd hm List.not_mem_nil
          · split
            · exact fun _ hm => absurd hm List.not_mem_nil
            · exact fun _ hm => absurd hm List.not_mem_nil

theorem origin_namedValue (ns : Namespaces) (name : String) (value : Node) :
    ∀ m ∈ (namedValue ns name value).members, Origin ns value m := by
  unfold namedValue
  dsimp only
  split
  · exact origin_membersOf ns (Node.self_mem_preorder _)
  · exact fun m hm => .element (Node.self_mem_preorder _) hm
  · exact fun _ hm => absurd hm List.not_mem_nil

theorem origin_assignedRecord (ns : Namespaces) (name : String) (value : Node) :
    ∀ m ∈ (assignedRecord ns name value).members, Origin ns value m := by
  unfold assignedRecord
  split
  · split
    · exact fun _ hm => absurd hm List.not_mem_nil
    · exact fun _ hm => absurd hm List.not_mem_nil
  · split
    · exact origin_argument 1
    · split
      · exact origin_callRecord ns _ _ _
      · exact origin_namedValue ns name _
  · split
    · exact origin_membersOf ns (Node.self_mem_preorder _)
    · exact origin_namedValue ns name _
  · split
    · exact fun _ hm => absurd hm List.not_mem_nil
    · exact origin_namedValue ns name _

theorem members_placeRecord (s : Section) (r : CodeRecord) : (s.placeRecord r).members = r.members := by
  unfold Section.placeRecord
  split
  · rfl
  · rfl

theorem origin_propertyRecord (ns : Namespaces) (hints : SectionHints) (p : Property) :
    ∀ m ∈ (propertyRecord ns hints p).members, Origin ns (.property p) m := by
  have hvalue : p.value ∈ (Node.property p).children := List.mem_singleton_self _
  have hassigned : ∀ m ∈ (assignedRecord ns p.key p.value).members, Origin ns (.property p) m :=
    fun m hm => (origin_assignedRecord ns p.key p.value m hm).mono
      (Node.preorder_subset_of_mem_children hvalue)
  unfold propertyRecord
  dsimp only
  split
  · rw [members_placeRecord]
    exact hassigned
  · exact hassigned

/-- All members that a piece of code has are made of names in it. -/
theorem origin_classify (ns : Namespaces) (hints : SectionHints) (code : Option Node) :
    ∀ m ∈ (classify ns hints code).members, ∃ node, code = some node ∧ Origin ns node m := by
  intro m hm
  cases code with
  | none => exact absurd hm List.not_mem_nil
  | some node =>
    refine ⟨node, rfl, ?_⟩
    have hpart : ∀ {name : String} {value : Node}, value ∈ node.children →
        m ∈ (assignedRecord ns name value).members → Origin ns node m :=
      fun hchild hm => (origin_assignedRecord ns _ _ m hm).mono
        (Node.preorder_subset_of_mem_children hchild)
    unfold classify at hm
    dsimp only at hm
    split at hm
    · exact origin_assignedRecord ns _ _ m hm
    · exact absurd hm List.not_mem_nil
    · exact hpart (List.mem_singleton_self _) hm
    · exact absurd hm List.not_mem_nil
    · exact hpart (List.mem_singleton_self _) hm
    · exact origin_propertyRecord ns hints _ m hm
    · exact origin_callRecord ns _ _ _ m hm
    iterate 6 exact absurd hm List.not_mem_nil

theorem Origin.inferred_kind {ns : Namespaces} {code : Node} {m : Member} (h : Origin ns code m) :
    m.inferred.kind = true := by
  have hkey : ∀ p : Property, (memberOf ns p).inferred.kind = true := by
    intro p
    unfold memberOf inferredMember
    dsimp only
    split
    · rfl
    · rfl
  cases h with
  | key _ _ => exact hkey _
  | placed _ =>
    unfold Section.place
    split
    · exact hkey _
    · exact hkey _
  | element _ hm =>
    obtain ⟨e, -, hmember⟩ := List.mem_filterMap.1 hm
    obtain ⟨name, -, rfl⟩ := Option.map_eq_some_iff.1 hmember
    rfl

/-! ### Code that is there -/

theorem isPresent_addProperty (ns : Namespaces) (r : CodeRecord) (p : Property) :
    (addProperty ns r p).isPresent = r.isPresent := by
  unfold addProperty
  split
  iterate 9 rfl
  split
  · rfl
  · split
    · rfl
    · rfl

theorem isPresent_definedClass (ns : Namespaces) (name : Option String)
    (body : Option (List Property)) : (definedClass ns name body).isPresent = true := by
  have hclass := List.foldlRecOn (motive := fun r : CodeRecord => r.isPresent = true) (body.getD [])
    (addProperty ns) (show ({ CodeRecord.named .classDef name with isDefined := true } :
      CodeRecord).isPresent = true from rfl)
    fun r h p _ => (isPresent_addProperty ns r p).trans h
  unfold definedClass withBaseClass
  split
  · exact hclass
  · exact hclass

theorem isPresent_callRecord (ns : Namespaces) (callee : Node) (args : List Node) :
    (callRecord ns callee args).isPresent = true := by
  unfold callRecord describedProperty
  dsimp only
  split
  · exact isPresent_definedClass ns _ _
  · repeat' split
    all_goals rfl

theorem isPresent_namedValue (ns : Namespaces) (name : String) (value : Node) :
    (namedValue ns name value).isPresent = true := by
  unfold namedValue
  dsimp only
  split
  · rfl
  · rfl
  · rfl

theorem isPresent_assignedRecord (ns : Namespaces) (name : String) (value : Node) :
    (assignedRecord ns name value).isPresent = true := by
  unfold assignedRecord
  split
  · split
    · rfl
    · rfl
  · split
    · rfl
    · split
      · exact isPresent_callRecord ns _ _
      · exact isPresent_namedValue ns name _
  · split
    · rfl
    · exact isPresent_namedValue ns name _
  · split
    · rfl
    · exact isPresent_namedValue ns name _

theorem isPresent_propertyRecord (ns : Namespaces) (hints : SectionHints) (p : Property) :
    (propertyRecord ns hints p).isPresent = true := by
  unfold propertyRecord Section.placeRecord
  dsimp only
  split
  · split
    · exact isPresent_assignedRecord ns _ _
    · exact isPresent_assignedRecord ns _ _
  · exact isPresent_assignedRecord ns _ _

/-- Where there is no code there are no members. -/
theorem isPresent_classify {ns : Namespaces} {hints : SectionHints} {code : Option Node} {m : Member}
    (h : m ∈ (classify ns hints code).members) : (classify ns hints code).isPresent = true := by
  cases code with
  | none => exact absurd h List.not_mem_nil
  | some node =>
    unfold classify
    dsimp only
    split
    · exact isPresent_assignedRecord ns _ _
    · rfl
    · exact isPresent_assignedRecord ns _ _
    · rfl
    · exact isPresent_assignedRecord ns _ _
    · exact isPresent_propertyRecord ns hints _
    · exact isPresent_callRecord ns _ _
    iterate 6 rfl

end Code
end ApiDoc
