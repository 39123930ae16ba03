/-
Which source files the inputs of a run stand for.

The files below a folder are given by the names that lead to them.  A folder stands for the source files
below it that no hidden name leads to, in the order of these lists of names, which is depth first with
siblings in the order of their names (`Beneath`).  The rule about hidden names is applied to the folder
too that is given as an input: one whose own name is hidden stands for nothing (`collect_stands`).
-/
import ApiDoc.Doc.Names
import ApiDoc.Files.Tree
import Mathlib.Data.List.Nodup
import Mathlib.Data.String.Basic
import Mathlib.Tactic.Choose

namespace ApiDoc
namespace FileTree

theorem induction {P : FileTree → Prop} (hfile : ∀ text, P (file text))
    (hfolder : ∀ entries : List (String × FileTree), (∀ e ∈ entries, P e.2) → P (folder entries))
    (tree : FileTree) : P tree := by
  refine @FileTree.rec P (fun entries => ∀ e ∈ entries, P e.2) (fun e => P e.2) hfile hfolder
    (fun _ h => absurd h List.not_mem_nil) (fun first rest hfirst hrest e he => ?_)
    (fun _ _ htree => htree) tree
  rcases List.mem_cons.1 he with rfl | he
  · exact hfirst
  · exact hrest e he

/-- No two entries of a folder have the same name. -/
inductive Distinct : FileTree → Prop
  | file (text : String) : Distinct (file text)
  | folder {entries : List (String × FileTree)} (names : (entries.map Prod.fst).Nodup)
      (inner : ∀ e ∈ entries, Distinct e.2) : Distinct (folder entries)

theorem distinct_single (text : String) (names : List String) : (single text names).Distinct := by
  induction names with
  | nil => exact .file text
  | cons name names ih =>
    refine .folder (List.nodup_singleton name) fun e he => ?_
    rw [List.mem_singleton.1 he]
    exact ih

theorem names_putEntry (text name : String) (names : List String) (entries : List (String × FileTree)) :
    (putEntry text name names entries).map Prod.fst = appendNew (entries.map Prod.fst) [name] := by
  induction entries with
  | nil => rfl
  | cons e entries ih =>
    rw [putEntry, List.map_cons, appendNew_cons, List.contains_cons]
    split
    · next hname =>
      rw [BEq.comm, hname]
      rfl
    · next hname =>
      rw [List.map_cons, ih, appendNew_cons, BEq.comm, Bool.eq_false_iff.2 hname, Bool.false_or]
      split
      · rfl
      · rfl

theorem mem_putEntry {text name : String} {names : List String} {entries : List (String × FileTree)}
    {e : String × FileTree} (h : e ∈ putEntry text name names entries) :
    e ∈ entries ∨ e.2 = single text names ∨ ∃ old ∈ entries, e.2 = put text old.2 names := by
  induction entries with
  | nil => exact Or.inr (Or.inl (by rw [List.mem_singleton.1 h]))
  | cons first entries ih =>
    rw [putEntry] at h
    split at h
    · rcases List.mem_cons.1 h with rfl | h
      · exact Or.inr (Or.inr ⟨first, List.mem_cons_self, rfl⟩)
      · exact Or.inl (List.mem_cons_of_mem first h)
    · rcases List.mem_cons.1 h with rfl | h
      · exact Or.inl List.mem_cons_self
      · rcases ih h with hold | hnew | ⟨old, hold, hput⟩
        · exact Or.inl (List.mem_cons_of_mem first hold)
        · exact Or.inr (Or.inl hnew)
        · exact Or.inr (Or.inr ⟨old, List.mem_cons_of_mem first hold, hput⟩)

theorem Distinct.put {tree : FileTree} (h : tree.Distinct) (text : String) (names : List String) :
    (tree.put text names).Distinct := by
  induction tree using FileTree.induction generalizing names with
  | hfile old =>
    rw [FileTree.put]
    exact distinct_single text names
  | hfolder entries ih =>
    cases names with
    | nil =>
      rw [FileTree.put]
      exact .file text
    | cons name names =>
      rw [FileTree.put]
      cases h with
      | folder hnames hinner =>
        refine .folder (names_putEntry text name names entries ▸ nodup_appendNew hnames) fun e he => ?_
        rcases mem_putEntry he with hold | hnew | ⟨old, hold, hput⟩
        · exact hinner e hold
        · exact hnew ▸ distinct_single text names
        · exact hput ▸ ih old hold (hinner old hold) names

theorem distinct_ofFiles (files : List (String × String)) : (ofFiles files).Distinct := by
  have hrun : ∀ (files : List (String × String)) (tree : FileTree), tree.Distinct →
      (files.foldl (fun tree f => tree.put f.2 (Path.parts f.1)) tree).Distinct := by
    intro files
    induction files with
    | nil => exact fun _ h => h
    | cons f files ih => exact fun tree h => ih _ (h.put f.2 (Path.parts f.1))
  exact hrun files (folder []) (.folder List.nodup_nil fun _ he => absurd he List.not_mem_nil)

/-- The names lead from the tree to a file. -/
inductive Holds : FileTree → List String → Prop
  | file (text : String) : Holds (file text) []
  | entry {entries : List (String × FileTree)} {e : String × FileTree} {names : List String}
      (mem : e ∈ entries) (inner : Holds e.2 names) : Holds (folder entries) (e.1 :: names)

/-- None of the names is hidden, and the last one is the name of a source file. -/
def Wanted (names : List String) : Prop :=
  (∀ name ∈ names, isHidden name = false) ∧
    ∃ name, names.getLast? = some name ∧ isSourceName name = true

/-- The paths of the wanted files below a tree, each once, depth first with siblings in the order of their
names. -/
def Beneath (tree : FileTree) (path : String) (paths : List String) : Prop :=
  ∃ found : List (List String), paths = found.map (fun names => names.foldl Path.join path) ∧
    found.Pairwise (· < ·) ∧ ∀ names, names ∈ found ↔ tree.Holds names ∧ Wanted names

theorem listings_eq (path : String) (entries : List (String × FileTree)) :
    listings path entries = (entries.filter fun e => !isHidden e.1).map fun e =>
      (e.1, sources e.1 (Path.join path e.1) e.2) := by
  induction entries with
  | nil => rfl
  | cons e entries ih =>
    rw [listings, List.filter_cons, ih]
    cases isHidden e.1 with
    | true => rfl
    | false => rfl

/-- The entries that are gone through, in the order of their names. -/
theorem exists_ordered {entries : List (String × FileTree)} (h : (entries.map Prod.fst).Nodup)
    (path : String) :
    ∃ ordered : List (String × FileTree),
      inOrder (listings path entries) =
        ordered.flatMap (fun e => sources e.1 (Path.join path e.1) e.2) ∧
      ordered.Pairwise (fun a b => a.1 < b.1) ∧
      ∀ e, e ∈ ordered ↔ e ∈ entries ∧ isHidden e.1 = false := by
  let kept := entries.filter fun e => !isHidden e.1
  let before (a b : String × FileTree) : Bool := !decide (b.1 < a.1)
  have hperm : (kept.mergeSort before).Perm kept := List.mergeSort_perm _ _
  have hnodup : (kept.mergeSort before).Pairwise fun a b => a.1 ≠ b.1 := by
    have hkept : (kept.map Prod.fst).Nodup := h.sublist (List.filter_sublist.map Prod.fst)
    exact List.pairwise_map.1 ((hperm.map Prod.fst).nodup_iff.2 hkept)
  have hsorted : (kept.mergeSort before).Pairwise fun a b => before a b = true := by
    refine List.pairwise_mergeSort (fun a b c hab hbc => ?_) (fun a b => ?_) kept
    · simp only [before, Bool.not_eq_true', decide_eq_false_iff_not, not_lt] at hab hbc ⊢
      exact hab.trans hbc
    · simp only [before, Bool.or_eq_true, Bool.not_eq_true', decide_eq_false_iff_not, not_lt]
      exact le_total a.1 b.1
  refine ⟨kept.mergeSort before, ?_, ?_, fun e => ?_⟩
  · let read (e : String × FileTree) := (e.1, sources e.1 (Path.join path e.1) e.2)
    have hread : (kept.map read).mergeSort (fun a b => !decide (b.1 < a.1)) =
        (kept.mergeSort before).map read := (List.map_mergeSort (f := read) fun _ _ _ _ => rfl).symm
    rw [listings_eq, inOrder, hread, List.flatMap_map]
  · refine (hnodup.and hsorted).imp fun hab => ?_
    obtain ⟨hne, hle⟩ := hab
    simp only [before, Bool.not_eq_true', decide_eq_false_iff_not, not_lt] at hle
    exact lt_of_le_of_ne hle hne
  · rw [hperm.mem_iff, List.mem_filter, Bool.not_eq_true']

theorem holds_file_iff {text : String} {names : List String} :
    (file text).Holds names ↔ names = [] := by
  constructor
  · rintro ⟨⟩
    rfl
  · rintro rfl
    exact .file text

theorem holds_folder_iff {entries : List (String × FileTree)} {names : List String} :
    (folder entries).Holds names ↔ ∃ e ∈ entries, ∃ rest, e.2.Holds rest ∧ names = e.1 :: rest := by
  constructor
  · rintro ⟨⟩
    next e rest inner mem => exact ⟨e, mem, rest, inner, rfl⟩
  · rintro ⟨e, mem, rest, inner, rfl⟩
    exact .entry mem inner

/-- The sources of a tree with a name, given by what leads to them from there. -/
theorem exists_sources {tree : FileTree} (h : tree.Distinct) (name path : String) :
    ∃ found : List (List String), sources name path tree = found.map (·.foldl Path.join path) ∧
      found.Pairwise (· < ·) ∧
      ∀ names, names ∈ found ↔ tree.Holds names ∧ (∀ n ∈ names, isHidden n = false) ∧
        isSourceName (names.getLastD name) = true := by
  induction tree using FileTree.induction generalizing name path with
  | hfile text =>
    rw [sources]
    split
    · next hsource =>
      refine ⟨[[]], rfl, List.pairwise_singleton _ _, fun names => ?_⟩
      rw [List.mem_singleton, holds_file_iff]
      exact ⟨fun hnil => ⟨hnil, hnil ▸ ⟨fun n hn => absurd hn List.not_mem_nil, hsource⟩⟩, And.left⟩
    · next hother =>
      refine ⟨[], rfl, List.Pairwise.nil, fun names => ?_⟩
      refine ⟨fun hmem => absurd hmem List.not_mem_nil, fun ⟨hholds, _, hsource⟩ => ?_⟩
      rw [holds_file_iff.1 hholds] at hsource
      exact absurd hsource hother
  | hfolder entries ih =>
    cases h with
    | folder hnames hinner =>
      have hbelow := fun e he => ih e he (hinner e he) e.1 (Path.join path e.1)
      choose! found hread hsorted hmem using hbelow
      obtain ⟨ordered, hordered, hasc, hentries⟩ := exists_ordered hnames path
      refine ⟨ordered.flatMap fun e => (found e).map (e.1 :: ·), ?_, ?_, fun names => ?_⟩
      · rw [sources, hordered, List.map_flatMap]
        refine List.flatMap_congr fun e he => ?_
        rw [hread e ((hentries e).1 he).1, List.map_map]
        rfl
      · rw [List.pairwise_flatMap]
        refine ⟨fun e he => ?_, hasc.imp fun hab a ha b hb => ?_⟩
        · refine List.pairwise_map.2 ((hsorted e ((hentries e).1 he).1).imp fun hab => ?_)
          exact List.Lex.cons hab
        · obtain ⟨_, -, rfl⟩ := List.mem_map.1 ha
          obtain ⟨_, -, rfl⟩ := List.mem_map.1 hb
          exact List.Lex.rel hab
      · rw [holds_folder_iff, List.mem_flatMap]
        constructor
        · rintro ⟨e, he, hnames⟩
          obtain ⟨hmember, hshown⟩ := (hentries e).1 he
          obtain ⟨rest, hrest, rfl⟩ := List.mem_map.1 hnames
          obtain ⟨hholds, hplain, hsource⟩ := (hmem e hmember rest).1 hrest
          refine ⟨⟨e, hmember, rest, hholds, rfl⟩, List.forall_mem_cons.2 ⟨hshown, hplain⟩, ?_⟩
          rw [List.getLastD_cons]
          exact hsource
        · rintro ⟨⟨e, hmember, rest, hholds, rfl⟩, hplain, hsource⟩
          obtain ⟨hshown, hplain⟩ := List.forall_mem_cons.1 hplain
          rw [List.getLastD_cons] at hsource
          exact ⟨e, (hentries e).2 ⟨hmember, hshown⟩,
            List.mem_map_of_mem ((hmem e hmember rest).2 ⟨hholds, hplain, hsource⟩)⟩

theorem beneath_sources {entries : List (String × FileTree)} (h : (folder entries).Distinct)
    (name path : String) : Beneath (folder entries) path (sources name path (folder entries)) := by
  obtain ⟨found, hread, hsorted, hmem⟩ := exists_sources h name path
  refine ⟨found, hread, hsorted, fun names => (hmem names).trans (and_congr_right fun hholds => ?_)⟩
  obtain ⟨e, -, rest, -, rfl⟩ := holds_folder_iff.1 hholds
  have hlast : (e.1 :: rest).getLast? = some ((e.1 :: rest).getLastD name) := by
    rw [List.getLast?_cons, List.getLastD_cons, List.getLastD_eq_getLast?]
  rw [Wanted, hlast]
  simp only [Option.some.injEq, exists_eq_left']

theorem Distinct.entry {entries : List (String × FileTree)} (h : (FileTree.folder entries).Distinct)
    {name : String} {inner : FileTree} (hinner : entries.lookup name = some inner) : inner.Distinct := by
  cases h with
  | folder _ hall =>
    obtain ⟨before, after, hsplit, -⟩ := List.lookup_eq_some_iff.1 hinner
    exact hall (name, inner) (hsplit ▸ List.mem_append_right before List.mem_cons_self)

theorem Distinct.descend {above : List FileTree} (habove : ∀ t ∈ above, t.Distinct) {tree : FileTree}
    (h : tree.Distinct) {names : List String} {found : FileTree}
    (hfound : FileTree.descend above tree names = some found) : found.Distinct := by
  fun_induction FileTree.descend above tree names with
  | case1 above tree => exact Option.some.inj hfound ▸ h
  | case2 above name names text => exact absurd hfound (Option.some_ne_none found).symm
  | case3 above name names entries hstay ih => exact ih habove h hfound
  | case4 name names entries hstay hup ih => exact ih habove h hfound
  | case5 name names entries hstay hup up above ih =>
    exact ih (fun t ht => habove t (List.mem_cons_of_mem up ht)) (habove up List.mem_cons_self) hfound
  | case6 above name names entries hstay hup inner hinner ih =>
    exact ih (List.forall_mem_cons.2 ⟨h, habove⟩) (h.entry hinner) hfound
  | case7 above name names entries hstay hup hnone =>
    exact absurd hfound (Option.some_ne_none found).symm

theorem Distinct.get? {tree : FileTree} (h : tree.Distinct) {path : String} {found : FileTree}
    (hfound : tree.get? path = some found) : found.Distinct := by
  rw [FileTree.get?] at hfound
  split at hfound
  · exact absurd hfound (by simp)
  · exact Distinct.descend (fun t ht => absurd ht List.not_mem_nil) h hfound

/-- What an input stands for: a file for itself, a folder for the wanted files below it, but a folder
whose own name is hidden for nothing. -/
inductive Stands (tree : FileTree) (input : String) : List String → Prop
  | file {text : String} (found : tree.get? input = some (file text)) : Stands tree input [input]
  | folder {entries : List (String × FileTree)} {paths : List String}
      (found : tree.get? input = some (folder entries))
      (shown : isHidden ((Path.lastName? input).getD input) = false)
      (beneath : Beneath (folder entries) input paths) : Stands tree input paths
  | hidden {entries : List (String × FileTree)} (found : tree.get? input = some (folder entries))
      (hidden : isHidden ((Path.lastName? input).getD input) = true) : Stands tree input []

theorem sourcesAt_of_none {tree : FileTree} {input : String} (h : tree.get? input = none) :
    tree.sourcesAt input = .error (.inputNotFound input) := by
  rw [sourcesAt, h]

theorem exists_sourcesAt {tree : FileTree} (h : tree.Distinct) {input : String} {found : FileTree}
    (hfound : tree.get? input = some found) :
    ∃ paths, tree.sourcesAt input = .ok paths ∧ Stands tree input paths := by
  cases found with
  | file text =>
    refine ⟨[input], ?_, .file hfound⟩
    rw [sourcesAt, hfound]
  | folder entries =>
    rw [sourcesAt, hfound]
    refine ⟨_, rfl, ?_⟩
    split
    · next hhidden => exact .hidden hfound hhidden
    · next hshown =>
      exact .folder hfound (Bool.eq_false_iff.2 hshown) (beneath_sources (h.get? hfound) _ input)

theorem collect_cons (tree : FileTree) (input : String) (inputs : List String) :
    tree.collect (input :: inputs) =
      (tree.sourcesAt input).bind fun paths => (tree.collect inputs).map (paths ++ ·) := by
  rw [collect, collect, List.mapM_cons]
  cases tree.sourcesAt input with
  | error e => rfl
  | ok first =>
    cases inputs.mapM tree.sourcesAt with
    | error e => rfl
    | ok rest => rfl

/-- The inputs stand for what each of them stands for, one after the other, unless there is one that is
neither a file nor a folder; the first such one is what the error is about. -/
theorem collect_stands {tree : FileTree} (h : tree.Distinct) (inputs : List String) :
    ((∀ input ∈ inputs, (tree.get? input).isSome) → ∃ found : List (List String),
      tree.collect inputs = .ok found.flatten ∧ List.Forall₂ tree.Stands inputs found) ∧
    ∀ input, inputs.find? (fun input => (tree.get? input).isNone) = some input →
      tree.collect inputs = .error (.inputNotFound input) := by
  induction inputs with
  | nil => exact ⟨fun _ => ⟨[], rfl, .nil⟩, fun _ hnone => absurd hnone (by simp)⟩
  | cons input inputs ih =>
    rw [collect_cons, List.find?_cons, List.forall_mem_cons]
    cases hfound : tree.get? input with
    | none =>
      rw [sourcesAt_of_none hfound]
      refine ⟨fun hall => absurd hall.1 (by simp), fun missing hmissing => ?_⟩
      rw [← Option.some.inj hmissing]
      rfl
    | some one =>
      obtain ⟨paths, hpaths, hstands⟩ := exists_sourcesAt h hfound
      rw [hpaths]
      refine ⟨fun hall => ?_, fun missing hmissing => ?_⟩
      · obtain ⟨found, hrest, hall⟩ := ih.1 hall.2
        rw [hrest]
        exact ⟨paths :: found, rfl, .cons hstands hall⟩
      · rw [ih.2 missing hmissing]
        rfl

theorem hidden_folder_stands :
    (ofFiles [("src/box.js", ""), (".docs/size.scss", "")]).Distinct ∧
    ∃ found : List (List String),
      (ofFiles [("src/box.js", ""), (".docs/size.scss", "")]).collect ["src", ".docs"] =
        .ok found.flatten ∧
      List.Forall₂ (ofFiles [("src/box.js", ""), (".docs/size.scss", "")]).Stands ["src", ".docs"]
        found :=
  ⟨distinct_ofFiles _, (collect_stands (distinct_ofFiles _) _).1 (by decide)⟩

/-- A folder does not stand for the wanted files below it, whatever its own name. -/
theorem hidden_folder_passed_over : ¬ ∀ (tree : FileTree) (input : String)
    (entries : List (String × FileTree)), tree.Distinct → tree.get? input = some (folder entries) →
      ∃ paths, tree.collect [input] = .ok paths ∧ Beneath (folder entries) input paths := by
  intro h
  have hholds : (folder [("size.scss", file "")]).Holds ["size.scss"] :=
    .entry (e := ("size.scss", file "")) List.mem_cons_self (.file "")
  have hwanted : Wanted ["size.scss"] :=
    ⟨fun name hname => List.mem_singleton.1 hname ▸ rfl, "size.scss", rfl, rfl⟩
  obtain ⟨paths, hcollect, found, rfl, -, hmem⟩ :=
    h (ofFiles [(".docs/size.scss", "")]) ".docs" [("size.scss", file "")] (distinct_ofFiles _) rfl
  have hnone : found.map (fun names => names.foldl Path.join ".docs") = [] := by
    have hempty : (ofFiles [(".docs/size.scss", "")]).collect [".docs"] = .ok [] := rfl
    exact Except.ok.inj (hcollect.symm.trans hempty)
  have hfound := (hmem ["size.scss"]).2 ⟨hholds, hwanted⟩
  rw [List.map_eq_nil_iff.1 hnone] at hfound
  exact absurd hfound List.not_mem_nil

end FileTree
end ApiDoc
