/-
Parameters, configs and properties under their dotted names.

A tag documents the name that is written behind it, plain or in square brackets.  In a script the name
is read to its end, and what is documented under a longer name nests under it, unless the name starts
with `$` (`names_nest_unless_dollar`).  Such a name is read as the variable of a style sheet, up to its
first dot.
-/
import ApiDoc.Comment.Record
import ApiDoc.Proofs.Comment.Nested
import ApiDoc.Proofs.Comment.Places

namespace ApiDoc
namespace Comment

open Text TypeSyntax

/-- The text documents the name: it is written plainly and a blank follows, or it stands in square
brackets, perhaps with a default value. -/
inductive Documents (name : List Char) : List Char → Prop
  | plain {leading rest : List Char} : LeadsName leading → (∀ c ∈ rest.head?, isBlank c = true) →
      Documents name (leading ++ (name ++ rest))
  | optional {leading gap gap' rest : List Char} : LeadsName leading → IsGap gap → IsGap gap' →
      Documents name (leading ++ '[' :: (gap ++ (name ++ (gap' ++ ']' :: rest))))
  | withDefault {leading gap gap' rest : List Char} : LeadsName leading → IsGap gap → IsGap gap' →
      Documents name (leading ++ '[' :: (gap ++ (name ++ (gap' ++ '=' :: rest))))

/-- A name between two spaces is documented. -/
theorem Documents.behindSpace (name rest : List Char) :
    Documents name ([' '] ++ (name ++ ' ' :: rest)) := by
  refine .plain (.gap (List.forall_mem_singleton.2 rfl)) ?_
  rintro c hc
  cases hc
  rfl

theorem name_readNameTail (t : Tag) (name cs : List Char) :
    (readNameTail t name cs).1.name = t.name := by
  unfold readNameTail
  split
  · rfl
  · split
    · split <;> rfl
    · split <;> rfl

theorem name_readOptionalName (t : Tag) (cs : List Char) :
    (readOptionalName t cs).1.name =
      some (String.ofList ((valueName? (skipBlanks cs)).getD ([], skipBlanks cs)).1) := by
  simp only [readOptionalName]
  split <;> rfl

theorem endsName_of_blank {rest : List Char} (h : ∀ c ∈ rest.head?, isBlank c = true) :
    EndsName rest := by
  intro c hc
  have hblank := h c hc
  refine ⟨?_, ?_⟩
  · rw [← Bool.not_eq_true]
    intro hchar
    rw [not_isBlank_of_isHyphenNameChar hchar] at hblank
    cases hblank
  · rintro rfl
    cases hblank

section

variable {name : List Char}

theorem name_readOptionalName_written (t : Tag) (hname : WrittenName name) {gap rest : List Char}
    (hgap : IsGap gap) (hrest : EndsName rest) :
    (readOptionalName t (gap ++ (name ++ rest))).1.name = some (String.ofList (readPart name)) := by
  obtain ⟨left, hread⟩ := valueName?_readPart hname hrest
  rw [name_readOptionalName, hname.skipBlanks_gap hgap, hread]
  rfl

theorem name_readTypedName_written (t : Tag) (hname : WrittenName name) {rest : List Char}
    (hrest : EndsName rest) :
    (readTypedName t (name ++ rest)).1.name = some (String.ofList (readPart name)) := by
  obtain ⟨left, hread⟩ := valueName?_readPart hname hrest
  obtain ⟨c, cs, rfl, hc⟩ := hname.exists_cons
  unfold readTypedName
  split
  · next heq =>
    obtain ⟨rfl, -⟩ := List.cons.inj heq
    cases hc
  · rw [hread]
    exact name_readNameTail _ _ _

theorem name_readTag_bracket {kind : TagKind} (hshape : kind.shape = .typed) (hname : WrittenName name)
    {leading gap gap' rest : List Char} {d : Char} (hleading : LeadsName leading) (hgap : IsGap gap)
    (hgap' : IsGap gap') (hd : isHyphenNameChar d = false ∧ d ≠ '.') :
    (readTag kind (leading ++ '[' :: (gap ++ (name ++ (gap' ++ d :: rest))))).1.name =
      some (String.ofList (readPart name)) := by
  have hends : EndsName (d :: rest) := by
    intro c hc
    cases hc
    exact hd
  obtain ⟨t, hread⟩ := readTag_bracket hshape hleading (gap ++ (name ++ (gap' ++ d :: rest)))
  rw [hread, name_readOptionalName_written t hname hgap (hends.append hgap')]

/-- A tag takes what is read of the name that is written behind it. -/
theorem Documents.name_readTag {kind : TagKind} {arguments : List Char}
    (h : Documents name arguments) (hshape : kind.shape = .typed) (hname : WrittenName name) :
    (readTag kind arguments).1.name = some (String.ofList (readPart name)) := by
  cases h with
  | plain hleading hrest =>
    obtain ⟨type, hread⟩ := hleading.readTyped (hname.head_append _)
    rw [readTag_typed hshape, hread, name_readTypedName_written _ hname (endsName_of_blank hrest)]
  | optional hleading hgap hgap' =>
    exact name_readTag_bracket hshape hname hleading hgap hgap' (by decide)
  | withDefault hleading hgap hgap' =>
    exact name_readTag_bracket hshape hname hleading hgap hgap' (by decide)

end

/-! ### The tags of a comment -/

/-- The tag with its text. -/
def TagPlace.tag {source : SourceKind} {text : List Char} (p : TagPlace source text) : Tag :=
  { p.segment.tag with doc := String.ofList (trim p.segment.text) }

theorem TagPlace.tag_mem {source : SourceKind} {text : List Char} (p : TagPlace source text)
    (h : p.segment.tag.kind.takesText = true) : p.tag ∈ (ofPlain source text).tags := by
  refine List.mem_cons_of_mem _ (List.mem_flatMap.2 ⟨p.segment, ?_, ?_⟩)
  · rw [p.tagged]
    exact List.mem_append_right _ List.mem_cons_self
  · rw [Segment.tags, if_pos h]
    exact List.mem_singleton.2 rfl

theorem TagPlace.name_of_documents {source : SourceKind} {text : List Char} (p : TagPlace source text)
    (hshape : p.segment.tag.kind.shape = .typed) {name : List Char} (hname : WrittenName name)
    (h : Documents name p.arguments) : p.tag.name = some (String.ofList (readPart name)) := by
  have hread := h.name_readTag hshape hname
  rwa [p.readTag_arguments] at hread

/-! ### Longer names -/

theorem joinWith_concat {parts : List (List Char)} (hne : parts ≠ []) (x : List Char) :
    joinWith ['.'] (parts ++ [x]) = joinWith ['.'] parts ++ '.' :: x := by
  induction parts with
  | nil => exact absurd rfl hne
  | cons p parts ih =>
    cases parts with
    | nil =>
      rw [List.cons_append, List.nil_append, joinWith_cons_cons]
      simp [joinWith]
    | cons q parts =>
      have hlast := ih (List.cons_ne_nil _ _)
      rw [List.cons_append] at hlast
      rw [List.cons_append, List.cons_append, joinWith_cons_cons, joinWith_cons_cons, hlast,
        List.append_assoc, List.append_assoc]

theorem dot_not_mem_identifier {x : List Char} (hx : IsIdentifier x) : '.' ∉ x := fun hmem => by
  cases hx.2 '.' hmem

theorem parentName?_part (name : List Char) {x : List Char} (hx : IsIdentifier x) :
    parentName? (String.ofList (name ++ '.' :: x)) = some (String.ofList name) := by
  rw [parentName?, String.toList_ofList, cutLast?_append (dot_not_mem_identifier hx)]
  rfl

theorem lastSegment_part (name : List Char) {x : List Char} (hx : IsIdentifier x) :
    lastSegment (String.ofList (name ++ '.' :: x)) = String.ofList x := by
  rw [lastSegment, String.toList_ofList, cutLast?_append (dot_not_mem_identifier hx)]

theorem parentName?_of_not_mem {name : List Char} (h : '.' ∉ name) :
    parentName? (String.ofList name) = none := by
  rw [parentName?, String.toList_ofList, cutLast?, cutFirst?_of_not_mem (by simpa using h)]
  rfl

theorem readPart_eq_iff (name : List Char) : readPart name = name ↔ IsReadWhole name := by
  unfold readPart
  split
  · next hwhole => exact iff_of_true rfl hwhole
  · next hcut =>
    refine iff_of_false (fun heq => ?_) hcut
    rw [IsReadWhole, Classical.not_imp, not_not, ← heq] at hcut
    cases List.mem_takeWhile_imp hcut.2

section

variable {text : List Char} {p q : TagPlace .script text} {name x : List Char}

/-- A tag under the longer name nests wherever it is read together with one under the name. -/
theorem nestsUnder_of_documents (hshape : p.segment.tag.kind.shape = .typed)
    (hkind : q.segment.tag.kind = p.segment.tag.kind) (hname : WrittenName name)
    (hlonger : WrittenName (name ++ '.' :: x)) (hx : IsIdentifier x) (hp : Documents name p.arguments)
    (hq : Documents (name ++ '.' :: x) q.arguments) (hhead : name.head? ≠ some '$') {tags : List Tag}
    (hpmem : p.tag ∈ tags) (hqmem : q.tag ∈ tags) :
    Nesting.NestsUnder ((tagsOf tags p.segment.tag.kind).map Tag.toParam) q.tag.toParam
      (String.ofList name) (String.ofList x) := by
  have hpname : p.tag.name = some (String.ofList name) := by
    rw [p.name_of_documents hshape hname hp,
      (readPart_eq_iff name).2 fun h => absurd h hhead]
  have hlongerHead : (name ++ '.' :: x).head? ≠ some '$' := by
    obtain ⟨c, cs, rfl, -⟩ := hname.exists_cons
    exact hhead
  have hqname : q.tag.name = some (String.ofList (name ++ '.' :: x)) := by
    rw [q.name_of_documents (hkind ▸ hshape) hlonger hq,
      (readPart_eq_iff _).2 fun h => absurd h hlongerHead]
  have howner : p.tag.toParam ∈ (tagsOf tags p.segment.tag.kind).map Tag.toParam :=
    List.mem_map_of_mem (List.mem_filter.2 ⟨hpmem, beq_self_eq_true _⟩)
  have hpart : q.tag.toParam ∈ (tagsOf tags p.segment.tag.kind).map Tag.toParam :=
    List.mem_map_of_mem (List.mem_filter.2 ⟨hqmem, beq_iff_eq.2 hkind⟩)
  have hownerName : p.tag.toParam.nameText = String.ofList name :=
    congrArg (Option.getD · "") hpname
  have hparent : parentName? (String.ofList (name ++ '.' :: x)) = some p.tag.toParam.nameText := by
    rw [hownerName, parentName?_part name hx]
  have hnests := Nesting.nestsUnder_of_parentName? howner hpart hqname hparent
  rwa [hownerName, lastSegment_part name hx] at hnests

/-- A name that starts with `$` has no parts: what is read of a longer name has no dot. -/
theorem parentName?_of_dollar (hshape : q.segment.tag.kind.shape = .typed)
    (hname : WrittenName name) (hlonger : WrittenName (name ++ '.' :: x))
    (hq : Documents (name ++ '.' :: x) q.arguments) (hhead : name.head? = some '$') :
    parentName? q.tag.nameText = none := by
  have hcut : ¬ IsReadWhole (name ++ '.' :: x) := by
    obtain ⟨cs, rfl⟩ := List.head?_eq_some_iff.1 hhead
    exact fun h => h rfl (List.mem_append_right _ List.mem_cons_self)
  rw [Tag.nameText, q.name_of_documents hshape hlonger hq, Option.getD_some, readPart, if_neg hcut]
  exact parentName?_of_not_mem fun hmem => by cases List.mem_takeWhile_imp hmem

end

/-- In a script a tag takes the name that is written behind it, whole, if and only if the name does not
both start with `$` and hold a dot.  A tag of the kind under a longer name nests under it in every group
of tags that holds both; only if the name starts with `$`, what is read of the longer one has no dot and
so no parent. -/
theorem names_nest_unless_dollar {text : List Char} {parts : List (List Char)} (hne : parts ≠ [])
    (hids : ∀ part ∈ parts, IsIdentifier part) (p : TagPlace .script text)
    (hkind : p.segment.tag.kind ∈ [TagKind.param, .config, .property])
    (h : Documents (joinWith ['.'] parts) p.arguments) :
    p.tag ∈ (ofPlain .script text).tags ∧
      (p.tag.name = some (String.ofList (joinWith ['.'] parts)) ↔
        IsReadWhole (joinWith ['.'] parts)) ∧
      ∀ x, IsIdentifier x → ∀ q : TagPlace .script text,
        q.segment.tag.kind = p.segment.tag.kind →
        Documents (joinWith ['.'] (parts ++ [x])) q.arguments →
        ((joinWith ['.'] parts).head? ≠ some '$' → ∀ tags, p.tag ∈ tags → q.tag ∈ tags →
          Nesting.NestsUnder ((tagsOf tags p.segment.tag.kind).map Tag.toParam) q.tag.toParam
            (String.ofList (joinWith ['.'] parts)) (String.ofList x)) ∧
        ((joinWith ['.'] parts).head? = some '$' → parentName? q.tag.nameText = none) := by
  have hname : WrittenName (joinWith ['.'] parts) := .chain hne hids
  obtain ⟨hshape, htext⟩ : p.segment.tag.kind.shape = .typed ∧
      p.segment.tag.kind.takesText = true := by
    simp only [List.mem_cons, List.not_mem_nil, or_false] at hkind
    rcases hkind with hkind | hkind | hkind <;> rw [hkind] <;> exact ⟨rfl, rfl⟩
  refine ⟨p.tag_mem htext, ?_, fun x hx q hq hlonger => ?_⟩
  · rw [p.name_of_documents hshape hname h, Option.some.injEq, String.ofList_inj, readPart_eq_iff]
  · have hlongerName : WrittenName (joinWith ['.'] parts ++ '.' :: x) := by
      rw [← joinWith_concat hne]
      refine .chain (by simp) fun part hpart => ?_
      rcases List.mem_append.1 hpart with hpart | hpart
      · exact hids part hpart
      · exact List.mem_singleton.1 hpart ▸ hx
    rw [joinWith_concat hne] at hlonger
    refine ⟨fun hhead tags hpmem hqmem => ?_, fun hhead => ?_⟩
    · exact nestsUnder_of_documents hshape hq hname hlongerName hx h hlonger hhead hpmem hqmem
    · exact parentName?_of_dollar (hq ▸ hshape) hname hlongerName hlonger hhead

def nodeComment : List Char := "@param el.dom Its element.\n@param el The node.".toList

def nodePart : TagPlace .script nodeComment where
  earlier := []
  segment :=
    { tag := { kind := .param, name := some "el.dom" }
      head := "@param el.dom".toList
      text := " Its element.\n".toList }
  later :=
    [{ tag := { kind := .param, name := some "el" }
       head := "@param el".toList
       text := " The node.".toList }]
  tagged := by decide +kernel

def nodeOwner : TagPlace .script nodeComment where
  earlier := [nodePart.segment]
  segment :=
    { tag := { kind := .param, name := some "el" }
      head := "@param el".toList
      text := " The node.".toList }
  later := []
  tagged := nodePart.tagged

theorem documents_nodeOwner : Documents (joinWith ['.'] ["el".toList]) nodeOwner.arguments := by
  have harguments : nodeOwner.arguments = [' '] ++ ("el".toList ++ " The node.".toList) := by
    decide +kernel
  rw [harguments]
  exact .behindSpace _ _

theorem documents_nodePart :
    Documents (joinWith ['.'] (["el".toList] ++ ["dom".toList])) nodePart.arguments := by
  have harguments : nodePart.arguments =
      [' '] ++ ("el.dom".toList ++ " Its element.\n@param el The node.".toList) := by decide +kernel
  rw [harguments]
  exact .behindSpace _ _

theorem nodeComment_nests :
    IsIdentifier "el".toList ∧ IsIdentifier "dom".toList ∧
      Documents (joinWith ['.'] ["el".toList]) nodeOwner.arguments ∧
      Documents (joinWith ['.'] (["el".toList] ++ ["dom".toList])) nodePart.arguments ∧
      nodeOwner.tag.name = some "el" ∧
      Nesting.NestsUnder ((tagsOf (ofPlain .script nodeComment).tags .param).map Tag.toParam)
        nodePart.tag.toParam "el" "dom" := by
  have hel : IsIdentifier "el".toList := ⟨by decide, List.all_eq_true.1 rfl⟩
  have hdom : IsIdentifier "dom".toList := ⟨by decide, List.all_eq_true.1 rfl⟩
  obtain ⟨hmem, hname, hparts⟩ := names_nest_unless_dollar (List.cons_ne_nil _ _)
    (List.forall_mem_singleton.2 hel) nodeOwner (by decide) documents_nodeOwner
  obtain ⟨hnests, -⟩ := hparts _ hdom nodePart rfl documents_nodePart
  exact ⟨hel, hdom, documents_nodeOwner, documents_nodePart, hname.2 (by decide),
    hnests (by decide) _ hmem (nodePart.tag_mem rfl)⟩

def dollarComment : List Char := "@param $el.dom The node.".toList

def dollarName : TagPlace .script dollarComment where
  earlier := []
  segment :=
    { tag := { kind := .param, name := some "$el" }
      head := "@param $el".toList
      text := ".dom The node.".toList }
  later := []
  tagged := by decide +kernel

/-- The rest of the name goes to the text of the parameter. -/
theorem dollarName_is_cut :
    (∀ part ∈ ["$el".toList, "dom".toList], IsIdentifier part) ∧
      Documents (joinWith ['.'] ["$el".toList, "dom".toList]) dollarName.arguments ∧
      dollarName.tag.name = some "$el" ∧ dollarName.tag.doc = ".dom The node." := by
  have harguments : dollarName.arguments = [' '] ++ ("$el.dom".toList ++ " The node.".toList) := by
    decide +kernel
  refine ⟨?_, ?_, rfl, by decide +kernel⟩
  · exact List.forall_mem_cons.2 ⟨⟨by decide, List.all_eq_true.1 rfl⟩,
      List.forall_mem_singleton.2 ⟨by decide, List.all_eq_true.1 rfl⟩⟩
  · rw [harguments]
    exact .behindSpace _ _

end Comment
end ApiDoc
