/-
The configs of a class comment, counted and cut.

What a comment documents is told by counting the configs that are no parts of others, wherever these
stand.  The cut of a class comment looks back only: a config stays with the one before it if its name
is dotted and starts with the same segment.  The two agree on the comments in which each part stands in
one run with the config that it is a part of, and nothing else continues a run (`splitsAsCounted_iff`).
-/
import ApiDoc.Comment.Record
import ApiDoc.Proofs.Comment.Nested
import Mathlib.Data.List.Induction

namespace ApiDoc
namespace Comment

open Text

/-! ### Two notions of a config of its own -/

/-- The configs that are counted, as tags. -/
def countedConfigs (tags : List Tag) : List Tag :=
  tags.filter fun t => t.kind == .config && !isPartOf (configNames tags) t.nameText

theorem length_countedConfigs (tags : List Tag) :
    (countedConfigs tags).length = topLevelConfigs tags := by
  rw [countedConfigs, topLevelConfigs, configNames, List.countP_map, List.countP_filter,
    List.countP_eq_length_filter]
  simp only [Function.comp_def, Bool.and_comm]

/-- The tags that open a group of a config. -/
def groupHeads (groups : List TagGroup) : List Tag :=
  groups.filterMap fun g => if g.kind = .config then g.tags.head? else none

/-- What a group of a config is read from: its configs, one under the other. -/
def configTree (g : TagGroup) : Nested := nest ((tagsOf g.tags .config).map Tag.toParam)

/-- A class comment is cut as its configs are counted: each config that is counted opens a group, each
other one stands in a group with the config it is a part of, and so a group documents one config. -/
structure SplitsAsCounted (tags : List Tag) : Prop where
  heads : groupHeads (expandClass tags) = countedConfigs tags
  parts : ∀ g ∈ expandClass tags, ∀ t ∈ g.tags, t.kind = .config →
    isPartOf (configNames tags) t.nameText = true → isPartOf (configNames g.tags) t.nameText = true
  trees : ∀ g ∈ expandClass tags, g.kind = .config → (configTree g).items.length = 1

/-! ### Runs -/

/-- The tag goes on with a config whose name starts with this segment: it opens nothing, or it is a
config with a dotted name that starts so as well. -/
def GoesOn (first : String) (t : Tag) : Prop :=
  t.kind ≠ .constructorDef ∧
    (t.kind = .config → '.' ∈ t.nameText.toList ∧ firstSegment t.nameText = first)

/-- A config and tags that go on with it. -/
def RunOf (first : String) (run : List Tag) : Prop :=
  ∃ h rest, run = h :: rest ∧ h.kind = .config ∧ firstSegment h.nameText = first ∧
    ∀ t ∈ rest, GoesOn first t

def IsRun (run : List Tag) : Prop := ∃ first, RunOf first run

/-- Each part of a documented config is in one run with it, behind the first config of the run, and no
config that is counted goes on with a run. -/
structure PartsInRuns (tags : List Tag) : Prop where
  part : ∀ before t after, tags = before ++ t :: after → t.kind = .config →
    isPartOf (configNames tags) t.nameText = true →
    ∃ front run more rest, before = front ++ run ∧ after = more ++ rest ∧ run ≠ [] ∧
      IsRun (run ++ t :: more) ∧ isPartOf (configNames (run ++ t :: more)) t.nameText = true
  counted : ∀ before t after, tags = before ++ t :: after → t.kind = .config →
    isPartOf (configNames tags) t.nameText = false →
    ∀ front run, before = front ++ run → run ≠ [] → ¬ IsRun (run ++ [t])

theorem RunOf.ne_nil {first : String} {run : List Tag} (h : RunOf first run) : run ≠ [] := by
  obtain ⟨_, _, rfl, _⟩ := h
  exact List.cons_ne_nil _ _

theorem runOf_append {first : String} {run more : List Tag} (hrun : run ≠ []) :
    RunOf first (run ++ more) ↔ RunOf first run ∧ ∀ t ∈ more, GoesOn first t := by
  obtain ⟨h, rest, rfl⟩ := List.exists_cons_of_ne_nil hrun
  simp only [RunOf, List.cons_append, List.cons.injEq, ← exists_and_right]
  constructor
  · rintro ⟨h', rest', ⟨rfl, rfl⟩, hh, hfirst, hall⟩
    exact ⟨h, rest, ⟨⟨rfl, rfl⟩, hh, hfirst, fun t ht => hall t (List.mem_append_left _ ht)⟩,
      fun t ht => hall t (List.mem_append_right _ ht)⟩
  · rintro ⟨h', rest', ⟨⟨rfl, rfl⟩, hh, hfirst, hall⟩, hmore⟩
    exact ⟨h, _, ⟨rfl, rfl⟩, hh, hfirst, List.forall_mem_append.2 ⟨hall, hmore⟩⟩

/-- The first segment of the config that is documented after a tag. -/
def rootAfter (root : Option String) (t : Tag) : Option String :=
  match t.kind with
  | .config => some (firstSegment t.nameText)
  | .constructorDef => none
  | _ => root

def rootAt (before : List Tag) : Option String := before.foldl rootAfter none

theorem rootAt_concat (before : List Tag) (t : Tag) :
    rootAt (before ++ [t]) = rootAfter (rootAt before) t := by
  rw [rootAt, List.foldl_append]
  rfl

theorem rootAfter_eq_some {root : Option String} {t : Tag} {first : String} :
    rootAfter root t = some first ↔
      (t.kind = .config ∧ firstSegment t.nameText = first) ∨
        (root = some first ∧ GoesOn first t) := by
  unfold rootAfter GoesOn
  split
  · next hk =>
    simp only [hk, Option.some.injEq]
    tauto
  · next hk => simp [hk]
  · next hconfig hconstructor =>
    have hconfig' : t.kind ≠ .config := hconfig
    have hconstructor' : t.kind ≠ .constructorDef := hconstructor
    simp [hconfig', hconstructor']

/-- A config is being documented where a run of it ends. -/
theorem rootAt_eq_some {before : List Tag} {first : String} :
    rootAt before = some first ↔ ∃ front run, before = front ++ run ∧ RunOf first run := by
  induction before using List.reverseRecOn with
  | nil =>
    refine ⟨fun h => (by cases h), ?_⟩
    rintro ⟨front, run, heq, hrun⟩
    exact absurd (List.append_eq_nil_iff.1 heq.symm).2 hrun.ne_nil
  | append_singleton before t ih =>
    rw [rootAt_concat, rootAfter_eq_some, ih]
    constructor
    · rintro (⟨hk, hfirst⟩ | ⟨⟨front, run, rfl, hrun⟩, hgoes⟩)
      · exact ⟨before, [t], rfl, t, [], rfl, hk, hfirst, by simp⟩
      · refine ⟨front, run ++ [t], List.append_assoc _ _ _, ?_⟩
        exact (runOf_append hrun.ne_nil).2 ⟨hrun, List.forall_mem_singleton.2 hgoes⟩
    · rintro ⟨front, run, heq, hrun⟩
      obtain rfl | ⟨run', t', rfl⟩ := List.eq_nil_or_concat run
      · exact absurd rfl hrun.ne_nil
      rw [List.concat_eq_append] at heq hrun
      rw [← List.append_assoc] at heq
      obtain ⟨rfl, ht⟩ := List.append_inj' heq rfl
      obtain rfl := List.singleton_inj.1 ht
      cases run' with
      | nil =>
        obtain ⟨h, rest, hcons, hk, hfirst, -⟩ := hrun
        obtain ⟨rfl, -⟩ := List.cons.inj hcons
        exact .inl ⟨hk, hfirst⟩
      | cons h rest =>
        obtain ⟨hrun', hgoes⟩ := (runOf_append (List.cons_ne_nil _ _)).1 hrun
        exact .inr ⟨⟨front, h :: rest, rfl, hrun'⟩, List.forall_mem_singleton.1 hgoes⟩

/-! ### Where a class comment is cut -/

/-- The tag opens a group, where a config with this first segment is being documented. -/
def Opens (root : Option String) (t : Tag) : Prop :=
  t.kind = .constructorDef ∨ t.kind = .config ∧ ∀ first ∈ root, ¬ GoesOn first t

theorem not_opens_of_goesOn {first : String} {t : Tag} (h : GoesOn first t) :
    ¬ Opens (some first) t := by
  rintro (hk | ⟨-, hnot⟩)
  · exact h.1 hk
  · exact hnot first rfl h

theorem config_goesOn_of_not_opens {root : Option String} {t : Tag} (hk : t.kind = .config)
    (h : ¬ Opens root t) : ∃ first, root = some first ∧ GoesOn first t := by
  by_contra hnone
  exact h (.inr ⟨hk, fun first hroot hgoes => hnone ⟨first, hroot, hgoes⟩⟩)

theorem goesOn_of_not_opens {first : String} {t : Tag} (h : ¬ Opens (some first) t) :
    GoesOn first t := by
  refine ⟨fun hk => h (.inl hk), fun hk => ?_⟩
  obtain ⟨first', hroot, hgoes⟩ := config_goesOn_of_not_opens hk h
  obtain rfl := Option.some.inj hroot
  exact hgoes.2 hk

theorem rootAfter_of_not_opens {root : Option String} {t : Tag} (h : ¬ Opens root t) :
    rootAfter root t = root := by
  cases root with
  | some first => exact rootAfter_eq_some.2 (.inr ⟨rfl, goesOn_of_not_opens h⟩)
  | none =>
    by_contra hne
    obtain ⟨first, hfirst⟩ := Option.ne_none_iff_exists'.1 hne
    obtain ⟨hk, -⟩ | ⟨hroot, -⟩ := rootAfter_eq_some.1 hfirst
    · exact h (.inr ⟨hk, by simp⟩)
    · cases hroot

theorem foldl_rootAfter_of_not_opens {root : Option String} {tags : List Tag}
    (h : ∀ t ∈ tags, ¬ Opens root t) : tags.foldl rootAfter root = root := by
  induction tags with
  | nil => rfl
  | cons t tags ih =>
    rw [List.foldl_cons, rootAfter_of_not_opens (h t List.mem_cons_self)]
    exact ih fun u hu => h u (List.mem_cons_of_mem t hu)

def openedKind (t : Tag) : EntityKind := if t.kind = .config then .config else .method

theorem cutGroups_of_not_opens {root : Option String} {t : Tag} (h : ¬ Opens root t)
    (tags : List Tag) :
    cutGroups root (t :: tags) = (t :: (cutGroups root tags).1, (cutGroups root tags).2) := by
  rw [cutGroups]
  split
  · next hk =>
    obtain ⟨first, rfl, hgoes⟩ := config_goesOn_of_not_opens hk h
    obtain ⟨hdot, hfirst⟩ := hgoes.2 hk
    have hsame : (t.nameText.toList.contains '.' && some first == some (firstSegment t.nameText)) =
        true := by simp [hdot, hfirst]
    simp only [hsame, if_true]
  · next hk => exact absurd (.inl hk) h
  · rfl

theorem cutGroups_of_opens {root : Option String} {t : Tag} (h : Opens root t) (tags : List Tag) :
    cutGroups root (t :: tags) =
      ([], { kind := openedKind t, tags := t :: (cutGroups (rootAfter root t) tags).1 } ::
        (cutGroups (rootAfter root t) tags).2) := by
  rw [cutGroups, openedKind, rootAfter]
  rcases h with hk | ⟨hk, hnot⟩
  · simp only [hk, reduceCtorEq, if_false]
  · have hother : (t.nameText.toList.contains '.' && root == some (firstSegment t.nameText)) =
        false := by
      rw [Bool.and_eq_false_imp]
      intro hdot
      rw [beq_eq_false_iff_ne]
      intro hroot
      exact hnot _ hroot ⟨by simp [hk], fun _ => ⟨by simpa using hdot, rfl⟩⟩
    simp only [hk, hother, Bool.false_eq_true, if_true, if_false]

theorem not_opens_of_mem_lead {root : Option String} {tags : List Tag} {t : Tag}
    (h : t ∈ (cutGroups root tags).1) : ¬ Opens root t := by
  induction tags generalizing root with
  | nil => cases h
  | cons u tags ih =>
    by_cases hopens : Opens root u
    · rw [cutGroups_of_opens hopens] at h
      cases h
    · rw [cutGroups_of_not_opens hopens] at h
      rcases List.mem_cons.1 h with rfl | h
      · exact hopens
      · exact ih h

/-- A group with what stands before and after it: only its first tag opens something, and it ends where
the next tag opens something. -/
structure GroupAt (before : List Tag) (g : TagGroup) (after : List Tag) : Prop where
  opened : ∃ h rest, g = { kind := openedKind h, tags := h :: rest } ∧ Opens (rootAt before) h ∧
    ∀ t ∈ rest, ¬ Opens (rootAfter (rootAt before) h) t
  ended : ∀ t ∈ after.head?, Opens (rootAt (before ++ g.tags)) t

theorem head?_flatMap_groups {root : Option String} {tags : List Tag} {t : Tag}
    (h : t ∈ ((cutGroups root tags).2.flatMap TagGroup.tags).head?) : Opens root t := by
  induction tags generalizing root with
  | nil => cases h
  | cons u tags ih =>
    by_cases hopens : Opens root u
    · rw [cutGroups_of_opens hopens] at h
      obtain rfl : u = t := by simpa using h
      exact hopens
    · rw [cutGroups_of_not_opens hopens] at h
      exact ih h

theorem groupAt_of_split {before tags : List Tag} {gs₁ gs₂ : List TagGroup} {g : TagGroup}
    (h : (cutGroups (rootAt before) tags).2 = gs₁ ++ g :: gs₂) :
    GroupAt (before ++ (cutGroups (rootAt before) tags).1 ++ gs₁.flatMap TagGroup.tags) g
      (gs₂.flatMap TagGroup.tags) := by
  induction tags generalizing before gs₁ with
  | nil => simp [cutGroups] at h
  | cons t tags ih =>
    by_cases hopens : Opens (rootAt before) t
    · rw [cutGroups_of_opens hopens] at h ⊢
      cases gs₁ with
      | nil =>
        obtain ⟨rfl, rfl⟩ := List.cons.inj h
        have hlead : ∀ u ∈ (cutGroups (rootAfter (rootAt before) t) tags).1,
            ¬ Opens (rootAfter (rootAt before) t) u := fun u => not_opens_of_mem_lead
        have hroot : rootAt (before ++ t :: (cutGroups (rootAfter (rootAt before) t) tags).1) =
            rootAfter (rootAt before) t := by
          rw [rootAt, List.foldl_append, List.foldl_cons]
          exact foldl_rootAfter_of_not_opens hlead
        rw [List.append_nil, List.flatMap_nil, List.append_nil]
        refine ⟨⟨t, _, rfl, hopens, hlead⟩, fun u hu => ?_⟩
        rw [hroot]
        exact head?_flatMap_groups hu
      | cons g' gs₁ =>
        obtain ⟨rfl, hrest⟩ := List.cons.inj h
        rw [← rootAt_concat] at hrest ⊢
        simpa using ih hrest
    · rw [cutGroups_of_not_opens hopens] at h ⊢
      have hroot : rootAt (before ++ [t]) = rootAt before := by
        rw [rootAt_concat, rootAfter_of_not_opens hopens]
      rw [← hroot] at h ⊢
      simpa using ih h

/-! ### What opens a group and what is counted -/

theorem forall_split_cons {α : Type} {P : List α → α → List α → Prop} {a : α} {l : List α} :
    (∀ before t after, a :: l = before ++ t :: after → P before t after) ↔
      P [] a l ∧ ∀ before t after, l = before ++ t :: after → P (a :: before) t after := by
  constructor
  · exact fun h => ⟨h [] a l rfl, fun before t after heq => h _ _ _ (congrArg (a :: ·) heq)⟩
  · rintro ⟨hnil, hcons⟩ before t after heq
    cases before with
    | nil =>
      obtain ⟨rfl, rfl⟩ := List.cons.inj heq
      exact hnil
    | cons b before =>
      obtain ⟨rfl, rfl⟩ := List.cons.inj heq
      exact hcons before t after rfl

theorem groupHeads_cons (g : TagGroup) (groups : List TagGroup) :
    groupHeads (g :: groups) =
      (if g.kind = .config then g.tags.head? else none).toList ++ groupHeads groups := by
  unfold groupHeads
  rw [List.filterMap_cons]
  cases (if g.kind = .config then g.tags.head? else none) <;> rfl

theorem groupHeads_of_not_opens {root : Option String} {t : Tag} (h : ¬ Opens root t)
    (tags : List Tag) : groupHeads (cutGroups root (t :: tags)).2 =
      groupHeads (cutGroups (rootAfter root t) tags).2 := by
  rw [cutGroups_of_not_opens h, rootAfter_of_not_opens h]

theorem groupHeads_of_opens {root : Option String} {t : Tag} (h : Opens root t) (tags : List Tag) :
    groupHeads (cutGroups root (t :: tags)).2 =
      (if t.kind = .config then [t] else []) ++
        groupHeads (cutGroups (rootAfter root t) tags).2 := by
  rw [cutGroups_of_opens h, groupHeads_cons, openedKind]
  by_cases hk : t.kind = .config
  · simp only [hk, if_true, List.head?_cons, Option.toList_some]
  · simp only [hk, if_false, reduceCtorEq, Option.toList_none]

theorem groupHeads_sublist (root : Option String) (tags : List Tag) :
    (groupHeads (cutGroups root tags).2).Sublist tags := by
  induction tags generalizing root with
  | nil => exact List.Sublist.refl []
  | cons t tags ih =>
    by_cases hopens : Opens root t
    · rw [groupHeads_of_opens hopens]
      split
      · exact (ih _).cons_cons t
      · exact (ih _).cons t
    · rw [groupHeads_of_not_opens hopens]
      exact (ih _).cons t

/-- Heads of groups are the configs with a property if and only if at every config a group opens where
the property holds. -/
theorem groupHeads_eq_filter_iff {p : Tag → Bool} {root : Option String} {tags : List Tag} :
    groupHeads (cutGroups root tags).2 = tags.filter (fun t => t.kind == .config && p t) ↔
      ∀ before t after, tags = before ++ t :: after → t.kind = .config →
        (Opens (before.foldl rootAfter root) t ↔ p t = true) := by
  induction tags generalizing root with
  | nil => exact ⟨fun _ before t after h => by simp at h, fun _ => rfl⟩
  | cons t tags ih =>
    rw [forall_split_cons]
    simp only [List.foldl_nil, List.foldl_cons]
    rw [← ih]
    by_cases hk : t.kind = .config
    · have hkept : (t.kind == .config && p t) = p t := by simp [hk]
      rw [List.filter_cons, hkept]
      by_cases hopens : Opens root t <;> cases hp : p t
      · rw [groupHeads_of_opens hopens, if_pos hk, if_neg Bool.false_ne_true]
        refine ⟨fun heq => ?_, fun h => absurd ((h.1 hk).1 hopens) Bool.false_ne_true⟩
        have hmem : t ∈ tags.filter fun t => t.kind == .config && p t := by
          rw [← heq]
          exact List.mem_cons_self
        exact absurd (List.mem_filter.1 hmem).2 (by simp [hp])
      · rw [groupHeads_of_opens hopens, if_pos hk, if_pos rfl]
        simp [hopens]
      · rw [groupHeads_of_not_opens hopens, if_neg Bool.false_ne_true]
        simp [hopens]
      · rw [groupHeads_of_not_opens hopens, if_pos rfl]
        refine ⟨fun heq => ?_, fun h => absurd ((h.1 hk).2 rfl) hopens⟩
        -- The heads would be more tags with the property than there are behind `t`.
        have hsub := (groupHeads_sublist (rootAfter root t) tags).filter fun t => t.kind == .config && p t
        rw [heq, List.filter_cons_of_pos (by simp [hk, hp]), List.filter_filter] at hsub
        exact absurd hsub.length_le (by simp)
    · have hkept : (t.kind == .config && p t) = false := by simp [hk]
      have hheads : groupHeads (cutGroups root (t :: tags)).2 =
          groupHeads (cutGroups (rootAfter root t) tags).2 := by
        by_cases hopens : Opens root t
        · rw [groupHeads_of_opens hopens, if_neg hk, List.nil_append]
        · exact groupHeads_of_not_opens hopens tags
      rw [hheads, List.filter_cons, hkept, if_neg Bool.false_ne_true]
      simp [hk]

/-- The heads of the groups are the configs that are counted just where no part opens a group and
nothing else continues one. -/
theorem heads_eq_counted_iff {tags : List Tag} :
    groupHeads (expandClass tags) = countedConfigs tags ↔
      ∀ before t after, tags = before ++ t :: after → t.kind = .config →
        (Opens (rootAt before) t ↔ isPartOf (configNames tags) t.nameText = false) := by
  have hfirst : groupHeads (expandClass tags) = groupHeads (cutGroups none tags).2 := by
    rw [expandClass, groupHeads_cons]
    rfl
  rw [hfirst, countedConfigs, groupHeads_eq_filter_iff]
  simp only [Bool.not_eq_true']
  rfl

/-! ### Configs in trees -/

theorem configNames_subset {tags tags' : List Tag} (h : tags ⊆ tags') :
    configNames tags ⊆ configNames tags' := by
  intro name hname
  obtain ⟨t, ht, rfl⟩ := List.mem_map.1 hname
  obtain ⟨hmem, hk⟩ := List.mem_filter.1 ht
  exact List.mem_map_of_mem (List.mem_filter.2 ⟨h hmem, hk⟩)

/-- Nesting the configs of a group leaves as many trees as are counted in it. -/
theorem length_items_configTree (g : TagGroup) :
    (configTree g).items.length = topLevelConfigs g.tags := by
  have hnames : ((tagsOf g.tags .config).map Tag.toParam).map Param.nameText =
      configNames g.tags := by
    rw [List.map_map]
    rfl
  rw [configTree, nest, List.length_map, ← List.countP_eq_length_filter, topLevelConfigs]
  simp only [Nesting.isNone_parentOf?, hnames]
  rw [← hnames, ← Nesting.map_nameOf_zipIdx, List.countP_map]
  rfl

/-! ### Groups and runs -/

theorem exists_group_of_split {groups : List TagGroup} {before after : List Tag} {t : Tag}
    (h : groups.flatMap TagGroup.tags = before ++ t :: after) :
    ∃ gs₁ g gs₂ x y, groups = gs₁ ++ g :: gs₂ ∧ g.tags = x ++ t :: y ∧
      before = gs₁.flatMap TagGroup.tags ++ x ∧ after = y ++ gs₂.flatMap TagGroup.tags := by
  induction groups generalizing before with
  | nil => simp at h
  | cons g groups ih =>
    have hlater : ∀ {between : List Tag}, before = g.tags ++ between →
        groups.flatMap TagGroup.tags = between ++ t :: after →
        ∃ gs₁ g' gs₂ x y, g :: groups = gs₁ ++ g' :: gs₂ ∧ g'.tags = x ++ t :: y ∧
          before = gs₁.flatMap TagGroup.tags ++ x ∧ after = y ++ gs₂.flatMap TagGroup.tags := by
      rintro between rfl hrest
      obtain ⟨gs₁, g', gs₂, x, y, rfl, htags, rfl, hafter⟩ := ih hrest
      exact ⟨g :: gs₁, g', gs₂, x, y, rfl, htags, by rw [List.flatMap_cons, List.append_assoc], hafter⟩
    rw [List.flatMap_cons, List.append_eq_append_iff] at h
    obtain ⟨between, hbefore, hrest⟩ | ⟨y, htags, hrest⟩ := h
    · exact hlater hbefore hrest
    · cases y with
      | nil => exact @hlater [] (htags.symm ▸ (by simp)) hrest.symm
      | cons u y =>
        obtain ⟨rfl, hafter⟩ := List.cons.inj hrest
        exact ⟨[], g, groups, before, y, rfl, htags, rfl, hafter⟩

theorem flatMap_tags_expandClass (tags : List Tag) :
    (expandClass tags).flatMap TagGroup.tags = tags := by
  rw [expandClass, List.flatMap_cons]
  exact flatMap_tags_cutGroups none tags

/-- A group of a config, with what stands before and after it: a run as long as can be. -/
structure ConfigGroupAt (before : List Tag) (g : TagGroup) (after : List Tag) : Prop where
  run : ∃ h rest, g.tags = h :: rest ∧ h.kind = .config ∧ Opens (rootAt before) h ∧
    ∀ t ∈ rest, GoesOn (firstSegment h.nameText) t
  ended : ∀ t ∈ after.head?, Opens (rootAt (before ++ g.tags)) t

theorem configGroupAt_of_split {tags : List Tag} {gs₁ gs₂ : List TagGroup} {g : TagGroup}
    (h : expandClass tags = gs₁ ++ g :: gs₂)
    (hconfig : g.kind = .config ∨ ∃ t ∈ g.tags, t.kind = .config) :
    ConfigGroupAt (gs₁.flatMap TagGroup.tags) g (gs₂.flatMap TagGroup.tags) := by
  have hopens : ∀ t : Tag, t.kind = .config → Opens none t := fun t hk => .inr ⟨hk, by simp⟩
  rw [expandClass] at h
  cases gs₁ with
  | nil =>
    obtain ⟨rfl, -⟩ := List.cons.inj h
    obtain hk | ⟨t, ht, hk⟩ := hconfig
    · cases hk
    · exact absurd (hopens t hk) (not_opens_of_mem_lead ht)
  | cons c gs₁ =>
    obtain ⟨rfl, hrest⟩ := List.cons.inj h
    have hat : GroupAt ([] ++ _ ++ _) g _ := groupAt_of_split hrest
    rw [List.nil_append] at hat
    obtain ⟨⟨u, rest, rfl, hu, hnot⟩, hended⟩ := hat
    have huk : u.kind = .config := by
      rcases hconfig with hk | ⟨t, ht, hk⟩
      · by_contra hne
        simp [openedKind, hne] at hk
      · rcases List.mem_cons.1 ht with rfl | ht
        · exact hk
        · -- Behind a constructor no config belongs to the group.
          by_contra hne
          have huk := hu.resolve_right fun h => hne h.1
          refine hnot t ht ?_
          rw [rootAfter, huk]
          exact hopens t hk
    refine ⟨⟨u, rest, rfl, huk, hu, fun t ht => goesOn_of_not_opens ?_⟩, hended⟩
    have hroot := hnot t ht
    rwa [rootAfter_eq_some.2 (.inl ⟨huk, rfl⟩)] at hroot

theorem ConfigGroupAt.isRun {before after : List Tag} {g : TagGroup}
    (h : ConfigGroupAt before g after) : IsRun g.tags := by
  obtain ⟨u, rest, htags, hk, -, hgoes⟩ := h.run
  exact ⟨_, u, rest, htags, hk, rfl, hgoes⟩

theorem not_opens_of_run {before front run more : List Tag} {t : Tag} (hbefore : before = front ++ run)
    (hne : run ≠ []) (hrun : IsRun (run ++ t :: more)) : ¬ Opens (rootAt before) t := by
  obtain ⟨first, hrun⟩ := hrun
  obtain ⟨hrun, hgoes⟩ := (runOf_append hne).1 hrun
  rw [rootAt_eq_some.2 ⟨front, run, hbefore, hrun⟩]
  exact not_opens_of_goesOn (hgoes t List.mem_cons_self)

theorem exists_run_of_not_opens {before : List Tag} {t : Tag} (hk : t.kind = .config)
    (h : ¬ Opens (rootAt before) t) :
    ∃ front run, before = front ++ run ∧ run ≠ [] ∧ IsRun (run ++ [t]) := by
  obtain ⟨first, hroot, hgoes⟩ := config_goesOn_of_not_opens hk h
  obtain ⟨front, run, hbefore, hrun⟩ := rootAt_eq_some.1 hroot
  exact ⟨front, run, hbefore, hrun.ne_nil, first,
    (runOf_append hrun.ne_nil).2 ⟨hrun, List.forall_mem_singleton.2 hgoes⟩⟩

/-- A run that meets a group of a config lies in the group, but for what the group's head leaves out. -/
theorem ConfigGroupAt.subset_of_run {before after x y front run more rest : List Tag} {g : TagGroup}
    {t : Tag} (h : ConfigGroupAt before g after) (htags : g.tags = x ++ t :: y)
    (hbefore : before ++ x = front ++ run) (hafter : y ++ after = more ++ rest) (hne : run ≠ [])
    (hrun : IsRun (run ++ t :: more)) : run ++ t :: more ⊆ g.tags := by
  obtain ⟨u, rest', hcons, -, hu, -⟩ := h.run
  have hleft : run ⊆ x := by
    obtain ⟨between, -, rfl⟩ | ⟨earlier, rfl, rfl⟩ := List.append_eq_append_iff.1 hbefore
    · exact List.subset_append_right _ _
    · by_cases hnil : earlier = []
      · rw [hnil]
        exact List.Subset.refl x
      · -- The head of the group would go on with what stands before it.
        obtain ⟨later, hlater⟩ : ∃ later, x ++ t :: more = u :: later := by
          rw [htags] at hcons
          cases x with
          | nil => exact ⟨more, congrArg (· :: more) (List.cons.inj hcons).1⟩
          | cons v x => exact ⟨x ++ t :: more, congrArg (· :: _) (List.cons.inj hcons).1⟩
        rw [List.append_assoc, hlater] at hrun
        exact absurd hu (not_opens_of_run rfl hnil hrun)
  have hright : more ⊆ y := by
    obtain ⟨beyond, rfl, rfl⟩ | ⟨between, rfl, -⟩ := List.append_eq_append_iff.1 hafter
    · cases beyond with
      | nil => simp
      | cons v beyond =>
        have hopens := h.ended v rfl
        have hends : before ++ g.tags = front ++ (run ++ t :: y) := by
          rw [htags, ← List.append_assoc, hbefore, List.append_assoc]
        rw [← List.cons_append, ← List.append_assoc] at hrun
        exact absurd hopens (not_opens_of_run hends (by simp) hrun)
    · exact List.subset_append_left _ _
  rw [htags]
  refine List.append_subset.2 ⟨List.Subset.trans hleft (List.subset_append_left _ _), ?_⟩
  exact List.Subset.trans (List.cons_subset_cons t hright) (List.subset_append_right _ _)

/-! ### The two notions agree -/

theorem topLevelConfigs_group {tags : List Tag}
    (heads : groupHeads (expandClass tags) = countedConfigs tags)
    (parts : ∀ g ∈ expandClass tags, ∀ t ∈ g.tags, t.kind = .config →
      isPartOf (configNames tags) t.nameText = true → isPartOf (configNames g.tags) t.nameText = true)
    {g : TagGroup} (hg : g ∈ expandClass tags) (hk : g.kind = .config) :
    topLevelConfigs g.tags = 1 := by
  obtain ⟨gs₁, gs₂, hsplit⟩ := List.mem_iff_append.1 hg
  have hat := configGroupAt_of_split hsplit (.inl hk)
  obtain ⟨u, rest, htags, huk, hu, hgoes⟩ := hat.run
  have hwhole : tags = gs₁.flatMap TagGroup.tags ++ (g.tags ++ gs₂.flatMap TagGroup.tags) := by
    rw [← flatMap_tags_expandClass tags, hsplit, List.flatMap_append, List.flatMap_cons]
  have hcounted := heads_eq_counted_iff.1 heads
  have hhead : isPartOf (configNames g.tags) u.nameText = false := by
    have hall : isPartOf (configNames tags) u.nameText = false := by
      refine (hcounted (gs₁.flatMap TagGroup.tags) u (rest ++ gs₂.flatMap TagGroup.tags) ?_ huk).1 hu
      rw [hwhole, htags, List.cons_append]
    rw [← Bool.not_eq_true] at hall ⊢
    refine fun hpart => hall (isPartOf_mono (configNames_subset ?_) hpart)
    rw [hwhole]
    exact fun t ht => List.mem_append_right _ (List.mem_append_left _ ht)
  have hrest : ∀ t ∈ rest, t.kind = .config → isPartOf (configNames g.tags) t.nameText = true := by
    intro t ht htk
    obtain ⟨x, y, rfl⟩ := List.mem_iff_append.1 ht
    have hmem : t ∈ g.tags := by
      rw [htags]
      exact List.mem_cons_of_mem u ht
    refine parts g hg t hmem htk ?_
    rw [← Bool.not_eq_false, ← hcounted (gs₁.flatMap TagGroup.tags ++ u :: x) t
      (y ++ gs₂.flatMap TagGroup.tags) (by rw [hwhole, htags]; simp) htk]
    have hrun : IsRun (u :: x ++ t :: y) := by
      rw [List.cons_append, ← htags]
      exact hat.isRun
    exact not_opens_of_run rfl (List.cons_ne_nil u x) hrun
  have hone : countedConfigs g.tags = [u] := by
    rw [countedConfigs]
    generalize configNames g.tags = names at hhead hrest ⊢
    rw [htags, List.filter_cons_of_pos (by rw [huk, hhead]; rfl), List.filter_eq_nil_iff.2]
    intro t ht hc
    obtain ⟨htk, hnot⟩ := Bool.and_eq_true_iff.1 hc
    rw [hrest t ht (eq_of_beq htk)] at hnot
    cases hnot
  rw [← length_countedConfigs, hone, List.length_singleton]

theorem SplitsAsCounted.partsInRuns {tags : List Tag} (h : SplitsAsCounted tags) :
    PartsInRuns tags := by
  have hcounted := heads_eq_counted_iff.1 h.heads
  refine ⟨fun before t after heq hk hpart => ?_, fun before t after heq hk hpart front run hbefore
    hne hrun => ?_⟩
  · have hnot : ¬ Opens (rootAt before) t := by
      rw [hcounted before t after heq hk, hpart]
      exact fun h => Bool.noConfusion h
    obtain ⟨gs₁, g, gs₂, x, y, hsplit, htags, hbefore, hafter⟩ :=
      exists_group_of_split ((flatMap_tags_expandClass tags).trans heq)
    have hmem : t ∈ g.tags := htags ▸ List.mem_append_right _ List.mem_cons_self
    have hat := configGroupAt_of_split hsplit (.inr ⟨t, hmem, hk⟩)
    have hg : g ∈ expandClass tags := hsplit ▸ List.mem_append_right _ List.mem_cons_self
    refine ⟨_, x, y, _, hbefore, hafter, ?_, htags ▸ hat.isRun, htags ▸ h.parts g hg t hmem hk hpart⟩
    -- At the front of its group the part would open it.
    rintro rfl
    obtain ⟨u, rest, hcons, -, hu, -⟩ := hat.run
    obtain ⟨rfl, -⟩ := List.cons.inj (htags.symm.trans hcons)
    rw [List.append_nil] at hbefore
    exact hnot (hbefore ▸ hu)
  · exact not_opens_of_run hbefore hne hrun ((hcounted before t after heq hk).2 hpart)

theorem PartsInRuns.heads {tags : List Tag} (h : PartsInRuns tags) :
    groupHeads (expandClass tags) = countedConfigs tags := by
  rw [heads_eq_counted_iff]
  intro before t after heq hk
  constructor
  · intro hopens
    rw [← Bool.not_eq_true]
    intro hpart
    obtain ⟨front, run, more, rest, hbefore, -, hne, hrun, -⟩ := h.part before t after heq hk hpart
    exact not_opens_of_run hbefore hne hrun hopens
  · intro hpart
    by_contra hnot
    obtain ⟨front, run, hbefore, hne, hrun⟩ := exists_run_of_not_opens hk hnot
    exact h.counted before t after heq hk hpart front run hbefore hne hrun

theorem PartsInRuns.parts {tags : List Tag} (h : PartsInRuns tags) {g : TagGroup}
    (hg : g ∈ expandClass tags) {t : Tag} (ht : t ∈ g.tags) (hk : t.kind = .config)
    (hpart : isPartOf (configNames tags) t.nameText = true) :
    isPartOf (configNames g.tags) t.nameText = true := by
  obtain ⟨gs₁, gs₂, hsplit⟩ := List.mem_iff_append.1 hg
  have hat := configGroupAt_of_split hsplit (.inr ⟨t, ht, hk⟩)
  obtain ⟨x, y, htags⟩ := List.mem_iff_append.1 ht
  have hwhole : tags = (gs₁.flatMap TagGroup.tags ++ x) ++ t :: (y ++ gs₂.flatMap TagGroup.tags) := by
    rw [← flatMap_tags_expandClass tags, hsplit, List.flatMap_append, List.flatMap_cons, htags]
    simp
  obtain ⟨front, run, more, rest, hbefore, hafter, hne, hrun, hin⟩ := h.part _ t _ hwhole hk hpart
  exact isPartOf_mono (configNames_subset (hat.subset_of_run htags hbefore hafter hne hrun)) hin

/-- A class comment is cut as its configs are counted if and only if each part stands in a run with the
config that it is a part of, behind the first of the run, and what is no part goes on with none. -/
theorem splitsAsCounted_iff (tags : List Tag) : SplitsAsCounted tags ↔ PartsInRuns tags := by
  refine ⟨SplitsAsCounted.partsInRuns, fun h => ?_⟩
  have parts : ∀ g ∈ expandClass tags, ∀ t ∈ g.tags, t.kind = .config →
      isPartOf (configNames tags) t.nameText = true →
      isPartOf (configNames g.tags) t.nameText = true :=
    fun g hg t ht hk hpart => h.parts hg ht hk hpart
  refine ⟨h.heads, parts, fun g hg hk => ?_⟩
  rw [length_items_configTree, topLevelConfigs_group h.heads parts hg hk]

/-- A part behind another config is not counted, but opens a group of its own. -/
theorem part_behind_other_config :
    let tags : List Tag := [{ kind := .doc }, { kind := .classDef, name := some "Foo" },
      { kind := .config, name := some "a" }, { kind := .config, name := some "b" },
      { kind := .config, name := some "a.x" }]
    (countedConfigs tags).map Tag.nameText = ["a", "b"] ∧
      (groupHeads (expandClass tags)).map Tag.nameText = ["a", "b", "a.x"] ∧
      ¬ SplitsAsCounted tags := by
  refine ⟨by decide, by decide, fun h => ?_⟩
  exact absurd h.heads (by decide)

end Comment
end ApiDoc
