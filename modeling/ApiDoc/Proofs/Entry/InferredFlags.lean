/-
Flags that say which parts of a member come from code.

A flag is truthful if the member has the part that it speaks of.  Comments and code are merged so that all
flags are truthful, and so are those of members that are found in code, with one exception: a section of
configs takes the parameters of a function and the kind of a method away and leaves the flags.
`flags_truthful_iff` says which members that concerns.
-/
import ApiDoc.Proofs.Code.Origins
import ApiDoc.Proofs.Entry.Readings
import Mathlib.Data.List.Basic

namespace ApiDoc

/-- What a member is said to have from code it has. -/
structure Member.Truthful (m : Member) : Prop where
  params : m.inferred.params = true → m.params ≠ []
  type : m.inferred.type = true → m.type.isSome = true
  default : m.inferred.default = true → m.default.isSome = true
  chainable : m.inferred.chainable = true → m.kind = .method ∧ m.isChainable = true

namespace Code

/-! ### Members that are found in code -/

theorem truthful_inferredMember (p : Property) (r : CodeRecord) : (inferredMember p r).Truthful := by
  unfold inferredMember
  dsimp only
  split
  · next hkind =>
    refine ⟨fun hset hnil => ?_, (absurd · Bool.false_ne_true), (absurd · Bool.false_ne_true),
      fun hset => ⟨eq_of_beq hkind, hset⟩⟩
    rw [show r.params = [] from hnil] at hset
    cases hset
  · exact ⟨(absurd · Bool.false_ne_true), id, id, (absurd · Bool.false_ne_true)⟩

theorem truthful_elementMembers (elements : List Node) (comments : List (Option String)) :
    ∀ m ∈ elementMembers elements comments, m.Truthful := by
  intro m hm
  obtain ⟨e, -, hmember⟩ := List.mem_filterMap.1 hm
  obtain ⟨name, -, rfl⟩ := Option.map_eq_some_iff.1 hmember
  exact ⟨(absurd · Bool.false_ne_true), fun _ => rfl, (absurd · Bool.false_ne_true),
    (absurd · Bool.false_ne_true)⟩

/-- The flags that only a method has, as they are read off a function. -/
theorem inferred_memberOf_function (ns : Namespaces) {p : Property} {name : Option String}
    {params : List String} {body : List Node} (hvalue : p.value = .function name params body) :
    (memberOf ns p).inferred =
      { member := true, kind := true, params := !params.isEmpty, chainable := returnsThis body } := by
  have hrecord : inferredRecord ns p = methodRecord (some p.key) params body := by
    rw [inferredRecord, hvalue]
  rw [memberOf, hrecord]
  show Inferred.mk _ _ _ _ _ (!(params.map _).isEmpty) _ _ = _
  rw [List.isEmpty_map]
  rfl

/-- Only functions have parameters or return the object itself. -/
theorem inferred_memberOf_of_not_isFunction (ns : Namespaces) {p : Property}
    (hvalue : p.value.isFunction = false) :
    (memberOf ns p).inferred.params = false ∧ (memberOf ns p).inferred.chainable = false := by
  have hrecord : (inferredRecord ns p).params = [] ∧ (inferredRecord ns p).isChainable = false := by
    unfold inferredRecord
    split
    · next hfunction =>
      rw [hfunction] at hvalue
      cases hvalue
    · split
      · exact ⟨rfl, rfl⟩
      · exact ⟨rfl, rfl⟩
    · split
      · exact ⟨rfl, rfl⟩
      · exact ⟨rfl, rfl⟩
    · split
      · exact ⟨rfl, rfl⟩
      · exact ⟨rfl, rfl⟩
  unfold memberOf inferredMember
  dsimp only
  rw [hrecord.1, hrecord.2]
  split
  · exact ⟨rfl, rfl⟩
  · exact ⟨rfl, rfl⟩

namespace Section

theorem truthful_place_of_static {s : Section} (hs : s.isConfig = false) {m : Member}
    (h : m.Truthful) : (s.place m).Truthful := by
  unfold place
  rw [hs]
  exact ⟨h.params, h.type, h.default, h.chainable⟩

theorem truthful_place_of_config (s : Section) {m : Member} (h : m.Truthful)
    (hparams : m.inferred.params = false) (hchainable : m.inferred.chainable = false) :
    (s.place m).Truthful := by
  unfold place
  split
  · exact ⟨fun hset => absurd (hparams.symm.trans hset) Bool.false_ne_true, h.type, h.default,
      fun hset => absurd (hchainable.symm.trans hset) Bool.false_ne_true⟩
  · exact ⟨h.params, h.type, h.default, h.chainable⟩

end Section

/-- The member is made of a function in a section of configs, which has the given parameters and body. -/
inductive ConfigFunction (ns : Namespaces) (code : Node) (params : List String) (body : List Node) :
    Member → Prop where
  | intro {s : Section} {p : Property} {name : Option String} (hkey : SectionKey ns code s p)
      (hconfig : s.isConfig = true) (hvalue : p.value = .function name params body) :
      ConfigFunction ns code params body (s.place (memberOf ns p))

namespace ConfigFunction

variable {ns : Namespaces} {code : Node} {params : List String} {body : List Node} {m : Member}
  (h : ConfigFunction ns code params body m)
include h

/-- The member is a config without parameters, whatever its flags say. -/
theorem config : m.kind = .config ∧ m.params = [] := by
  cases h with
  | intro _ hconfig _ =>
    unfold Section.place
    rw [hconfig]
    exact ⟨rfl, rfl⟩

theorem inferred : m.inferred =
    { member := true, kind := true, params := !params.isEmpty, chainable := returnsThis body } := by
  cases h with
  | intro _ hconfig hvalue =>
    unfold Section.place
    rw [hconfig]
    exact inferred_memberOf_function ns hvalue

end ConfigFunction

/-- The flags of a member that is found in code are truthful, or it is made of a function among configs. -/
theorem Origin.truthful_or_configFunction {ns : Namespaces} {code : Node} {m : Member}
    (h : Origin ns code m) : m.Truthful ∨ ∃ params body, ConfigFunction ns code params body m := by
  cases h with
  | key _ _ => exact Or.inl (truthful_inferredMember _ _)
  | element _ hm => exact Or.inl (truthful_elementMembers _ _ m hm)
  | @placed s p hkey =>
    have hmember : (memberOf ns p).Truthful := truthful_inferredMember _ _
    cases hconfig : s.isConfig with
    | false => exact Or.inl (Section.truthful_place_of_static hconfig hmember)
    | true =>
      cases hvalue : p.value with
      | function name params body => exact Or.inr ⟨params, body, .intro hkey hconfig hvalue⟩
      | _ =>
        have hflags := inferred_memberOf_of_not_isFunction ns (p := p) (by rw [hvalue]; rfl)
        exact Or.inl (s.truthful_place_of_config hmember hflags.1 hflags.2)

end Code

namespace Entry
open Code

/-! ### Members that are documented -/

theorem isSome_fillGap {doc code : Option String} {mayFill : Bool}
    (h : (fillGap doc code mayFill).2 = true) : (fillGap doc code mayFill).1.isSome = true := by
  unfold fillGap at h ⊢
  split
  · split
    · rfl
    · next hno => simp [hno] at h
  · next hno => simp at h

theorem isSome_typeOf {doc : DocRecord} {code : CodeRecord} (h : (typeOf doc code).2 = true) :
    (typeOf doc code).1.isSome = true := by
  unfold typeOf at h ⊢
  split
  · next hvalue =>
    rw [if_pos hvalue] at h
    have hfilled := isSome_fillGap h
    dsimp only
    split
    · exact hfilled
    · rw [Option.isSome_or, hfilled]
      rfl
  · next hvalue =>
    rw [if_neg hvalue] at h
    cases h

theorem isSome_defaultOf {doc : DocRecord} {code : CodeRecord} (h : (defaultOf doc code).2 = true) :
    (defaultOf doc code).1.isSome = true := by
  unfold defaultOf at h ⊢
  split
  · next hvalue =>
    rw [if_pos hvalue] at h
    exact isSome_fillGap h
  · next hvalue =>
    rw [if_neg hvalue] at h
    cases h

theorem ne_nil_paramsOf {doc : DocRecord} {code : CodeRecord} (h : (paramsOf doc code).2 = true) :
    (paramsOf doc code).1 ≠ [] := by
  unfold paramsOf at h ⊢
  split
  · next hdoc =>
    rw [if_pos hdoc] at h
    cases h
  · next hdoc =>
    rw [if_neg hdoc] at h
    split
    · next hcode =>
      rw [if_pos hcode] at h
      intro hnil
      rw [show code.params = [] from hnil] at h
      cases h
    · next hcode =>
      rw [if_neg hcode] at h
      cases h

theorem kind_of_isChainableByCode {doc : DocRecord} {code : CodeRecord}
    (h : isChainableByCode doc code = true) : doc.kind = .method := by
  simp only [isChainableByCode, Bool.and_eq_true] at h
  exact eq_of_beq h.1.1.1.1.1

/-- Whatever the comment and the code say, a member that a comment documents has what its flags say. -/
theorem truthful_mergeMember (doc : DocRecord) (code : CodeRecord) (file : FileRef) :
    (mergeMember doc code file).Truthful where
  params h := ne_nil_paramsOf h
  type h := isSome_typeOf h
  default h := isSome_defaultOf h
  chainable h := ⟨kind_of_isChainableByCode h, Bool.or_eq_true_iff.2 (Or.inr h)⟩

theorem truthful_locate (file : FileRef) {m : Member} (h : m.Truthful) : (locate file m).Truthful :=
  ⟨h.params, h.type, h.default, h.chainable⟩

namespace Reading

/-- The member is made of a function in a section of configs in the code after the comment. -/
def ConfigFunction (ns : Namespaces) (d : Reading) (params : List String) (body : List Node)
    (m : Member) : Prop :=
  ∃ code found, d.node = some code ∧ Code.ConfigFunction ns code params body found ∧
    m = locate d.file found

theorem Brings.truthful_or_configFunction {ns : Namespaces} {d : Reading} (hd : d.Classified ns)
    {m : Member} (h : d.Brings m) : m.Truthful ∨ ∃ params body, d.ConfigFunction ns params body m := by
  cases h with
  | whole => exact Or.inl (truthful_mergeMember _ _ _)
  | part _ => exact Or.inl (truthful_mergeMember _ _ _)
  | @found old hold =>
    obtain ⟨hints, hcode⟩ := hd
    rw [hcode] at hold
    obtain ⟨code, hnode, horigin⟩ := origin_classify ns hints d.node old hold
    rcases horigin.truthful_or_configFunction with htruthful | ⟨params, body, hfunction⟩
    · exact Or.inl (truthful_locate d.file htruthful)
    · exact Or.inr ⟨params, body, code, old, hnode, hfunction, rfl⟩

end Reading

/-- The member of the entry is made of a function in a section of configs of a class body. -/
def FromConfigFunction (ns : Namespaces) (source : SourceFile) (e : Entry) (params : List String)
    (body : List Node) (m : Member) : Prop :=
  ∃ d ∈ readings ns source, d.entry = e ∧ d.ConfigFunction ns params body m

theorem FromConfigFunction.flags {ns : Namespaces} {source : SourceFile} {e : Entry}
    {params : List String} {body : List Node} {m : Member}
    (h : FromConfigFunction ns source e params body m) :
    m.kind = .config ∧ m.params = [] ∧ m.inferred =
      { member := true, kind := true, params := !params.isEmpty, chainable := returnsThis body } := by
  obtain ⟨d, -, -, code, found, -, hfunction, rfl⟩ := h
  exact ⟨hfunction.config.1, hfunction.config.2, hfunction.inferred⟩

theorem truthful_or_fromConfigFunction {ns : Namespaces} {source : SourceFile} {entries : List Entry}
    {warnings : List Warning} (h : extract ns source = .ok (entries, warnings)) {e : Entry}
    (he : e ∈ entries) {m : Member} (hm : m ∈ e.members) :
    m.Truthful ∨ ∃ params body, FromConfigFunction ns source e params body m := by
  rw [entries_eq_readingsFrom h] at he
  obtain ⟨d, hd, rfl⟩ := List.mem_map.1 he
  have hclassified := classified_readingsFrom ns _ _ _ _ d hd
  rcases (d.brings_entry m hm).truthful_or_configFunction hclassified with htruthful | ⟨params, body, hm⟩
  · exact Or.inl htruthful
  · exact Or.inr ⟨params, body, d, hd, rfl, hm⟩

/-- The types and default values that members of a source are said to have from code are there.  So are
the parameters, unless the member is made of a function with parameters in a section of configs; and it is
a chainable method, unless it is made of a function there that returns the object itself. -/
theorem flags_truthful_iff {ns : Namespaces} {source : SourceFile} {entries : List Entry}
    {warnings : List Warning} (h : extract ns source = .ok (entries, warnings)) {e : Entry}
    (he : e ∈ entries) {m : Member} (hm : m ∈ e.members) :
    (m.inferred.type = true → m.type.isSome = true) ∧
      (m.inferred.default = true → m.default.isSome = true) ∧
      ((m.inferred.params = true → m.params ≠ []) ↔
        ¬ ∃ params body, FromConfigFunction ns source e params body m ∧ params ≠ []) ∧
      ((m.inferred.chainable = true → m.kind = .method ∧ m.isChainable = true) ↔
        ¬ ∃ params body, FromConfigFunction ns source e params body m ∧ returnsThis body = true) := by
  have horigin := truthful_or_fromConfigFunction h he hm
  refine ⟨?_, ?_, ⟨?_, ?_⟩, ⟨?_, ?_⟩⟩
  · rcases horigin with htruthful | ⟨params, body, hfunction⟩
    · exact htruthful.type
    · intro hset
      rw [hfunction.flags.2.2] at hset
      cases hset
  · rcases horigin with htruthful | ⟨params, body, hfunction⟩
    · exact htruthful.default
    · intro hset
      rw [hfunction.flags.2.2] at hset
      cases hset
  · rintro htold ⟨params, body, hfunction, hparams⟩
    obtain ⟨-, hnil, hflags⟩ := hfunction.flags
    refine htold ?_ hnil
    rw [hflags]
    simpa using hparams
  · intro hnone hset
    rcases horigin with htruthful | ⟨params, body, hfunction⟩
    · exact htruthful.params hset
    · rw [hfunction.flags.2.2] at hset
      exact absurd ⟨params, body, hfunction, by simpa using hset⟩ hnone
  · rintro htold ⟨params, body, hfunction, hreturns⟩
    obtain ⟨hkind, -, hflags⟩ := hfunction.flags
    have hmethod := (htold (by rw [hflags]; exact hreturns)).1
    rw [hkind] at hmethod
    cases hmethod
  · intro hnone hset
    rcases horigin with htruthful | ⟨params, body, hfunction⟩
    · exact htruthful.chainable hset
    · rw [hfunction.flags.2.2] at hset
      exact absurd ⟨params, body, hfunction, hset⟩ hnone

/-- A function with a parameter that returns the object itself. -/
def filterFunction : Node := .function none ["item"] [.returned (some .this)]

def filterKey : Property := ⟨"filter", filterFunction, 20, 3, false, none⟩

def selectKey : Property := ⟨"select", filterFunction, 30, 5, false, none⟩

/-- A class with such a function among its configs, and as a method. -/
def menuCode : Node :=
  .call (.member (.ident "Ext") "define" "Ext.define")
    [.literal .string "Menu" "'Menu'",
      .object [⟨"config", .object [filterKey] "", 10, 2, false, none⟩, selectKey] ""] ""

def menuSource : SourceFile :=
  { filename := "menu.js", kind := .script
    docs := [{ comment := "* A menu.", line := 1, code := some menuCode }] }

def menuFilter : Member :=
  { kind := .config, name := "filter", id := "cfg-filter", isChainable := true, isAccessor := true
    inferred := { member := true, kind := true, params := true, chainable := true }
    inheritdoc := some {}, files := [⟨"menu.js", 3⟩], line := 3 }

def menuSelect : Member :=
  { kind := .method, name := "select", id := "method-select", isChainable := true
    params := [{ name := some "item" }]
    inferred := { member := true, kind := true, params := true, chainable := true }
    inheritdoc := some {}, files := [⟨"menu.js", 5⟩], line := 5 }

def menuEntry : Entry :=
  { entity := .ofClass
      { name := "Menu", parent := some "Ext.Base", isDefined := true, doc := "A menu."
        files := [⟨"menu.js", 1⟩], members := [menuFilter, menuSelect] } }

theorem extract_menuSource : extract {} menuSource = .ok ([menuEntry], []) := by decide +kernel

/-- The flags of the method are truthful, so it is not made of a function among the configs. -/
theorem flags_of_menuSelect :
    extract {} menuSource = .ok ([menuEntry], []) ∧ menuSelect ∈ menuEntry.members ∧
      menuSelect.inferred.params = true ∧
      ¬ ∃ params body, FromConfigFunction {} menuSource menuEntry params body menuSelect ∧
        params ≠ [] := by
  have hmem : menuSelect ∈ menuEntry.members := List.mem_cons_of_mem _ (List.mem_singleton_self _)
  obtain ⟨-, -, hparams, -⟩ := flags_truthful_iff extract_menuSource (List.mem_singleton_self _) hmem
  exact ⟨extract_menuSource, hmem, rfl, hparams.1 fun _ => List.cons_ne_nil _ _⟩

/-- The config has no parameters and is no method, and its flags say otherwise. -/
theorem flags_of_menuFilter :
    extract {} menuSource = .ok ([menuEntry], []) ∧ menuFilter ∈ menuEntry.members ∧
      (menuFilter.inferred.params = true ∧ menuFilter.params = []) ∧
      (menuFilter.inferred.chainable = true ∧ menuFilter.kind = .config) :=
  ⟨extract_menuSource, List.mem_cons_self, ⟨rfl, rfl⟩, rfl, rfl⟩

end Entry
end ApiDoc
