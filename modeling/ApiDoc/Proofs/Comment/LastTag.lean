/-
Tags that cannot be repeated.

Some tags say a single thing about what is documented, such as its name or the version since which it
exists.  Of several such tags of one kind the last one counts, and the ones before it can be left out:
neither what the comment says nor what is wrong with it changes (`interpret_superseded`).  The return
value is documented once too, but its parts, which have names, add up.
-/
import ApiDoc.Comment.Record

namespace ApiDoc

/-- The kinds of tags that cannot be repeated, whatever else a tag of the kind says. -/
def TagKind.isSingle : TagKind → Bool
  | .classDef | .parent | .overrideOf | .memberOf | .method | .event | .styleMixin | .valueType
  | .enumeration | .deprecated | .removed | .since | .localdoc | .inheritdoc => true
  | _ => false

namespace Tag

/-- Whether a tag cannot be repeated.  A return value that is a part of another one can. -/
def isSingle (t : Tag) : Bool := t.kind.isSingle || (t.kind == .returns && t.name.isNone)

/-- The tags say the same single thing, so the later one alone counts. -/
structure Supersedes (later t : Tag) : Prop where
  isSingle : t.isSingle = true
  later_isSingle : later.isSingle = true
  kind : later.kind = t.kind

end Tag

namespace Comment

/-- The last of the tags of a kind that cannot be repeated. -/
def lastSingle? (tags : List Tag) (kind : TagKind) : Option Tag :=
  tags.reverse.find? fun t => t.isSingle && t.kind == kind

/-- The tags that add up. -/
def repeatable (tags : List Tag) : List Tag := tags.filter fun t => !t.isSingle

/-- The same tags add up in both lists, and of the others the same ones are the last. -/
structure SameReading (tags tags' : List Tag) : Prop where
  last : ∀ kind, lastSingle? tags kind = lastSingle? tags' kind
  repeatable : repeatable tags = repeatable tags'

/-! ### What is read of the tags -/

theorem lastTag?_eq_lastSingle? {kind : TagKind} (hkind : kind.isSingle = true) (tags : List Tag) :
    lastTag? tags kind = lastSingle? tags kind := by
  unfold lastTag? lastSingle?
  congr 1
  funext t
  by_cases ht : t.kind = kind
  · simp [Tag.isSingle, ht, hkind]
  · simp [ht]

theorem isSingle_of_kind {kind : TagKind} (hkind : kind.isSingle = false) (hreturns : kind ≠ .returns)
    {t : Tag} (ht : t.kind = kind) : t.isSingle = false := by
  simp [Tag.isSingle, ht, hkind, hreturns]

theorem tagsOf_repeatable {kind : TagKind} (hkind : kind.isSingle = false) (hreturns : kind ≠ .returns)
    (tags : List Tag) : tagsOf (repeatable tags) kind = tagsOf tags kind := by
  unfold tagsOf repeatable
  rw [List.filter_filter]
  congr 1
  funext t
  by_cases ht : t.kind = kind
  · simp [ht, isSingle_of_kind hkind hreturns ht]
  · simp [ht]

theorem hasTag_repeatable {kind : TagKind} (hkind : kind.isSingle = false) (hreturns : kind ≠ .returns)
    (tags : List Tag) : hasTag (repeatable tags) kind = hasTag tags kind := by
  unfold hasTag repeatable
  rw [List.any_filter]
  congr 1
  funext t
  by_cases ht : t.kind = kind
  · simp [ht, isSingle_of_kind hkind hreturns ht]
  · simp [ht]

/-- The return value itself is the last of the single tags. -/
theorem find?_returns (tags : List Tag) :
    ((tagsOf tags .returns).reverse.find? fun t => t.name.isNone) = lastSingle? tags .returns := by
  unfold tagsOf lastSingle?
  rw [← List.filter_reverse, List.find?_filter]
  congr 1
  funext t
  by_cases ht : t.kind = .returns
  · simp only [Tag.isSingle, ht, TagKind.isSingle, beq_self_eq_true, Bool.true_and, Bool.false_or,
      Bool.and_true, true_and, Bool.decide_eq_true]
  · simp [ht]

/-- The parts of the return value are among the tags that add up. -/
theorem filter_returns (tags : List Tag) :
    ((tagsOf tags .returns).filter fun t => t.name.isSome) = tagsOf (repeatable tags) .returns := by
  unfold tagsOf repeatable
  rw [List.filter_filter, List.filter_filter]
  congr 1
  funext t
  by_cases ht : t.kind = .returns
  · simp [Tag.isSingle, ht, TagKind.isSingle]
  · rw [beq_eq_false_iff_ne.2 ht, Bool.and_false, Bool.false_and]

theorem aliasPrefix?_of_isSingle {t : Tag} (ht : t.isSingle = true) : t.kind.aliasPrefix? = none := by
  unfold Tag.isSingle at ht
  cases hkind : t.kind with
  | xtypes | ftypes | ptypes =>
    rw [hkind] at ht
    cases ht
  | _ => rfl

/-- Short aliases add up. -/
theorem aliasesOf_repeatable (tags : List Tag) : aliasesOf (repeatable tags) = aliasesOf tags := by
  unfold aliasesOf namesOf
  rw [tagsOf_repeatable rfl TagKind.noConfusion]
  congr 1
  unfold repeatable
  induction tags with
  | nil => rfl
  | cons t tags ih =>
    cases ht : t.isSingle with
    | false => rw [List.filter_cons_of_pos (by rw [ht]; rfl), List.flatMap_cons, List.flatMap_cons, ih]
    | true =>
      rw [List.filter_cons_of_neg (by rw [ht]; decide), List.flatMap_cons, ih,
        aliasPrefix?_of_isSingle ht]
      rfl

/-! ### Readings of lists that differ in superseded tags -/

namespace SameReading

variable {tags tags' : List Tag} (h : SameReading tags tags')
include h

theorem lastTag? {kind : TagKind} (hkind : kind.isSingle = true) :
    lastTag? tags kind = lastTag? tags' kind := by
  rw [lastTag?_eq_lastSingle? hkind, lastTag?_eq_lastSingle? hkind, h.last]

theorem lastName? {kind : TagKind} (hkind : kind.isSingle = true) :
    lastName? tags kind = lastName? tags' kind := by
  unfold Comment.lastName?
  rw [h.lastTag? hkind]

theorem hasTag {kind : TagKind} (hkind : kind.isSingle = false) (hreturns : kind ≠ .returns) :
    hasTag tags kind = hasTag tags' kind := by
  rw [← hasTag_repeatable hkind hreturns, h.repeatable, hasTag_repeatable hkind hreturns]

theorem tagsOf {kind : TagKind} (hkind : kind.isSingle = false) (hreturns : kind ≠ .returns) :
    tagsOf tags kind = tagsOf tags' kind := by
  rw [← tagsOf_repeatable hkind hreturns, h.repeatable, tagsOf_repeatable hkind hreturns]

theorem namesOf {kind : TagKind} (hkind : kind.isSingle = false) (hreturns : kind ≠ .returns) :
    namesOf tags kind = namesOf tags' kind := by
  unfold Comment.namesOf
  rw [h.tagsOf hkind hreturns]

theorem returnDoc (file : FileRef) : returnDoc tags file = returnDoc tags' file := by
  unfold Comment.returnDoc
  dsimp only
  rw [find?_returns, find?_returns, filter_returns, filter_returns, h.last, h.repeatable]

theorem withClassFields (r : DocRecord) : withClassFields r tags = withClassFields r tags' := by
  have haliases : aliasesOf tags = aliasesOf tags' := by
    rw [← aliasesOf_repeatable, h.repeatable, aliasesOf_repeatable]
  unfold Comment.withClassFields enumInfo?
  rw [haliases]
  simp (disch := decide) only [h.lastName?, h.lastTag?, h.namesOf]

theorem withMethodFields (r : DocRecord) : withMethodFields r tags = withMethodFields r tags' := by
  unfold Comment.withMethodFields
  rw [h.lastName? rfl, h.hasTag rfl TagKind.noConfusion]

theorem withValueFields (r : DocRecord) {kind : TagKind} (hkind : kind.isSingle = false)
    (hreturns : kind ≠ .returns) (file : FileRef) :
    withValueFields r tags kind file = withValueFields r tags' kind file := by
  unfold Comment.withValueFields
  rw [h.tagsOf hkind hreturns, h.lastTag? rfl]

theorem withKindFields (r : DocRecord) (file : FileRef) :
    withKindFields r tags file = withKindFields r tags' file := by
  unfold Comment.withKindFields
  cases r.kind with
  | classDef => exact congrArg (·, []) (h.withClassFields r)
  | method => exact congrArg (·, []) (h.withMethodFields r)
  | event =>
    dsimp only
    rw [h.lastName? rfl]
  | styleMixin =>
    dsimp only
    rw [h.lastName? rfl]
  | config => exact h.withValueFields r rfl TagKind.noConfusion file
  | styleVar => exact h.withValueFields r rfl TagKind.noConfusion file
  | property => exact h.withValueFields r rfl TagKind.noConfusion file

theorem commonFields (detected : Detected) (params : List Param) (returns : Option ReturnDoc) :
    commonFields tags detected params returns = commonFields tags' detected params returns := by
  unfold Comment.commonFields freeText
  simp (disch := decide) only [h.lastName?, h.lastTag?, h.hasTag, h.tagsOf, h.namesOf]

/-- Nothing else is read of the tags. -/
theorem interpret (detected : Detected) (file : FileRef) :
    interpret tags detected file = interpret tags' detected file := by
  unfold Comment.interpret
  rw [h.tagsOf rfl TagKind.noConfusion, h.returnDoc]
  dsimp only
  rw [h.commonFields, h.withKindFields]

end SameReading

/-! ### Leaving superseded tags out -/

theorem lastSingle?_cons (t : Tag) (tags : List Tag) (kind : TagKind) :
    lastSingle? (t :: tags) kind =
      (lastSingle? tags kind).or (if t.isSingle && t.kind == kind then some t else none) := by
  unfold lastSingle?
  rw [List.reverse_cons, List.find?_append, List.find?_singleton]

theorem isSome_lastSingle? {tags : List Tag} {later : Tag} (hlater : later ∈ tags)
    (hsingle : later.isSingle = true) : (lastSingle? tags later.kind).isSome = true := by
  unfold lastSingle?
  rw [List.find?_isSome]
  exact ⟨later, List.mem_reverse.2 hlater, by simp [hsingle]⟩

namespace SameReading

theorem cons (t : Tag) {tags tags' : List Tag} (h : SameReading tags tags') :
    SameReading (t :: tags) (t :: tags') := by
  refine ⟨fun kind => ?_, ?_⟩
  · rw [lastSingle?_cons, lastSingle?_cons, h.last]
  · unfold Comment.repeatable
    rw [List.filter_cons, List.filter_cons]
    split
    · exact congrArg (t :: ·) h.repeatable
    · exact h.repeatable

theorem append (before : List Tag) {tags tags' : List Tag} (h : SameReading tags tags') :
    SameReading (before ++ tags) (before ++ tags') := by
  induction before with
  | nil => exact h
  | cons t before ih => exact ih.cons t

/-- A tag that a later one supersedes adds nothing, and it is not the last of its kind. -/
theorem drop {t later : Tag} (h : later.Supersedes t) {after : List Tag} (hlater : later ∈ after) :
    SameReading (t :: after) after := by
  refine ⟨fun kind => ?_, ?_⟩
  · rw [lastSingle?_cons]
    by_cases hkind : t.kind = kind
    · have hlast := isSome_lastSingle? hlater h.later_isSingle
      rw [h.kind, hkind] at hlast
      rw [Option.or_of_isSome hlast]
    · simp [hkind]
  · exact List.filter_cons_of_neg (by rw [h.isSingle]; decide)

end SameReading

/-- A tag that cannot be repeated can be left out if a later one says the same thing: the comment
documents the same, with the same warnings. -/
theorem interpret_superseded {t later : Tag} (h : later.Supersedes t) {after : List Tag}
    (hlater : later ∈ after) (before : List Tag) (detected : Detected) (file : FileRef) :
    interpret (before ++ t :: after) detected file = interpret (before ++ after) detected file :=
  ((SameReading.drop h hlater).append before).interpret detected file

/-- Of a method whose return value is documented twice, with a part in front of each, only the last
value counts, and both parts do. -/
theorem interpret_returns_twice :
    let first : Tag := { kind := .returns, type := some "Object", doc := "The first." }
    let last : Tag := { kind := .returns, type := some "Size", doc := "The last." }
    let width : Tag := { kind := .returns, name := some "return.width" }
    let height : Tag := { kind := .returns, name := some "return.height" }
    last.Supersedes first ∧
      interpret [width, first, height, last] ⟨.method, true⟩ ⟨"Box.js", 3⟩ =
        interpret [width, height, last] ⟨.method, true⟩ ⟨"Box.js", 3⟩ := by
  intro first last width height
  have hsupersedes : last.Supersedes first := ⟨rfl, rfl, rfl⟩
  exact ⟨hsupersedes, interpret_superseded hsupersedes (List.mem_cons_of_mem _ (List.mem_singleton_self _))
    [width] _ _⟩

end Comment
end ApiDoc
