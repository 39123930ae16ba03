/-
Runs are those of a sequential reference.

A run reads every file with a collector of its own and joins the collectors when all files are read.  The
reference reads and groups file after file, and everything that is inspected reports to one collector.
`documentSources_eq_outcome` says that both give the same documentation, the same warnings in the same
order and the same failures.
-/
import ApiDoc.Proofs.Inheritance.Build
import ApiDoc.Run

namespace ApiDoc

/-! ### The reference -/

namespace Sequential

/-- Extracts file after file, with all warnings given to one collector. -/
def extract (ns : Code.Namespaces) (ws : Warnings) :
    List SourceFile → Except Error (List (String × List Entry) × Warnings)
  | [] => .ok ([], ws)
  | file :: files =>
    match Entry.extract ns file with
    | .error e => .error e
    | .ok r =>
      (extract ns (ws.addAll r.2) files).map fun rest => ((file.filename, r.1) :: rest.1, rest.2)

/-- Adds the entries file after file to a grouping. -/
def group (g : Grouping) (ws : Warnings) : List (String × List Entry) → Grouping × Warnings
  | [] => (g, ws)
  | file :: files =>
    let r := g.addFile file.1 file.2
    group r.1 (ws.addAll r.2) files

/-- Makes a registry of the entries, which can fail.  The collector holds the warnings in any case. -/
def assemble (options : AssemblyOptions) (ws : Warnings) (files : List (String × List Entry)) :
    Except Error Registry × Warnings :=
  let grouped := group {} ws files
  let done := grouped.1.finish options
  (done.1, grouped.2.addAll done.2)

/-- What a run leaves: the registry or why there is none, and the one collector. -/
def run (s : Settings) (rules : List WarningRule) (files : List SourceFile) :
    Except Error (Except Error Registry × Warnings) :=
  (extract s.codeNamespaces { rules } files).map fun r => assemble s.assemblyOptions r.2 r.1

/-- Warnings end a run that has a registry if they are treated as errors. -/
def outcome (s : Settings) :
    Except Error (Except Error Registry × Warnings) → Except Error Documentation
  | .error e => .error e
  | .ok (.error e, _) => .error e
  | .ok (.ok registry, ws) =>
    if s.warningsAreErrors = true ∧ ws.collected ≠ [] then .error (.warnings ws.collected.length)
    else .ok { registry, warnings := ws.collected }

end Sequential

/-! ### Collectors -/

namespace Warnings

theorem addAll_append (ws : Warnings) (a b : List Warning) :
    ws.addAll (a ++ b) = (ws.addAll a).addAll b := List.foldl_append

/-- What a fork collected can be absorbed later: it is what the collector would have let through. -/
theorem absorb_fork {ws base : Warnings} (h : ws.rules = base.rules) (news : List Warning) :
    ws.absorb (base.fork.addAll news) = ws.addAll news := by
  have hrules : (ws.addAll news).rules = ws.rules := rules_addAll ws news
  have hcollected : (base.fork.addAll news).collected =
      news.filter fun w => isOn ws.rules w.kind (filenameOf w) := by
    rw [collected_addAll, h]
    rfl
  have hadd : (ws.addAll news).collected = (ws.absorb (base.fork.addAll news)).collected := by
    rw [collected_addAll, ← hcollected]
    rfl
  cases hws : ws.addAll news with
  | mk rules collected =>
    rw [hws] at hrules hadd
    rw [show collected = _ from hadd, show rules = _ from hrules]
    rfl

theorem check_eq (ws : Warnings) (asErrors : Bool) :
    ws.check asErrors =
      if asErrors = true ∧ ws.collected ≠ [] then .error (.warnings ws.collected.length)
      else .ok () := by
  unfold check
  cases ws.collected <;> simp

end Warnings

/-! ### Reading the files one by one -/

def Extracted.ofFile (ns : Code.Namespaces) (ws : Warnings) (file : SourceFile) :
    Except Error Extracted :=
  (Entry.extract ns file).map fun r =>
    { filename := file.filename, entries := r.1, warnings := ws.fork.addAll r.2 }

def Extracted.named (f : Extracted) : String × List Entry := (f.filename, f.entries)

theorem mapM_ofSource {readScript : ScriptReader} {ns : Code.Namespaces} {ws : Warnings}
    {sources : List (String × String)} {files : List SourceFile}
    (h : sources.mapM (fun source => SourceFile.parse source.1 source.2 readScript) = .ok files) :
    sources.mapM (Extracted.ofSource readScript ns ws) = files.mapM (Extracted.ofFile ns ws) := by
  induction sources generalizing files with
  | nil =>
    cases h
    rfl
  | cons source sources ih =>
    rw [List.mapM_cons] at h ⊢
    cases hparse : SourceFile.parse source.1 source.2 readScript with
    | error e =>
      rw [hparse] at h
      cases h
    | ok file =>
      rw [hparse] at h
      cases hrest : sources.mapM (fun source => SourceFile.parse source.1 source.2 readScript) with
      | error e =>
        rw [hrest] at h
        cases h
      | ok rest =>
        rw [hrest] at h
        cases h
        have hfirst : Extracted.ofSource readScript ns ws source = Extracted.ofFile ns ws file := by
          rw [Extracted.ofSource, hparse]
          rfl
        rw [hfirst, ih hrest, List.mapM_cons]

namespace Sequential

/-- Forked collectors that are absorbed in the order of the files leave what one collector holds. -/
theorem extract_eq (ns : Code.Namespaces) {base ws : Warnings} (h : ws.rules = base.rules)
    (files : List SourceFile) :
    extract ns ws files = (files.mapM (Extracted.ofFile ns base)).map fun read =>
      (read.map Extracted.named, read.foldl (fun ws f => ws.absorb f.warnings) ws) := by
  induction files generalizing ws with
  | nil => rfl
  | cons file files ih =>
    rw [List.mapM_cons, extract, Extracted.ofFile]
    cases Entry.extract ns file with
    | error e => rfl
    | ok r =>
      have hrules : (ws.addAll r.2).rules = base.rules := by rw [Warnings.rules_addAll, h]
      show (extract ns (ws.addAll r.2) files).map _ = _
      rw [ih hrules]
      cases hrest : files.mapM (Extracted.ofFile ns base) with
      | error e => rfl
      | ok read =>
        show Except.ok (_, List.foldl _ (ws.addAll r.2) read) = Except.ok (_, List.foldl _ _ _)
        rw [List.foldl_cons, Warnings.absorb_fork h]
        rfl

theorem group_eq (g : Grouping) (ws : Warnings) (read : List Extracted) :
    group g ws (read.map Extracted.named) =
      let grouped :=
        reportEach (fun (g : Grouping) (f : Extracted) => g.addFile f.filename f.entries) g read
      (grouped.1, ws.addAll grouped.2) := by
  induction read generalizing g ws with
  | nil => rfl
  | cons f read ih =>
    show group (g.addFile f.filename f.entries).1 (ws.addAll (g.addFile f.filename f.entries).2)
      (read.map Extracted.named) = _
    rw [ih]
    simp only [reportEach, Warnings.addAll_append]

theorem join_eq (s : Settings) (ws : Warnings) (read : List Extracted) :
    join s ws read =
      outcome s (.ok (assemble s.assemblyOptions
        (read.foldl (fun ws f => ws.absorb f.warnings) ws) (read.map Extracted.named))) := by
  simp only [join, assemble, group_eq, Warnings.check_eq]
  cases (Grouping.finish _ s.assemblyOptions).1 with
  | error e => rfl
  | ok registry =>
    simp only [outcome]
    split <;> rfl

end Sequential

/-! ### No part of a run fails with warnings -/

namespace Entry

theorem brokenIndent_of_extractDocs {ns : Code.Namespaces} {kind : SourceKind} {filename : String}
    {docs : List SourceDoc} {hints : Code.SectionHints} {e : Error}
    (h : extractDocs ns kind filename hints docs = .error e) : e = .brokenIndent := by
  induction docs generalizing hints with
  | nil => cases h
  | cons d docs ih =>
    rw [extractDocs] at h
    split at h
    · next e' hparse =>
      cases h
      unfold Comment.parse at hparse
      split at hparse
      · cases hparse
      · exact (Except.error.inj hparse).symm
    · dsimp only at h
      split at h
      · next e' hrest =>
        cases h
        exact ih hrest
      · cases h

end Entry

namespace Sequential

theorem brokenIndent_of_extract {ns : Code.Namespaces} {files : List SourceFile} {ws : Warnings}
    {e : Error} (h : extract ns ws files = .error e) : e = .brokenIndent := by
  induction files generalizing ws with
  | nil => cases h
  | cons file files ih =>
    rw [extract] at h
    split at h
    · next e' hfile =>
      cases h
      exact Entry.brokenIndent_of_extractDocs hfile
    · next r _ =>
      cases hrest : extract ns (ws.addAll r.2) files with
      | error e' =>
        rw [hrest] at h
        cases h
        exact ih hrest
      | ok rest =>
        rw [hrest] at h
        cases h

theorem circular_of_finish {g : Grouping} {options : AssemblyOptions} {e : Error}
    (h : (g.finish options).1 = .error e) : ∃ chain, e = .circularInheritance chain := by
  have hbuild : ∃ classes ignored, (Registry.build classes ignored).1 = .error e := by
    refine ⟨(completeMembers options g.resolve.1.1).1, g.resolve.1.2, ?_⟩
    simp only [Grouping.finish, completeInheritance] at h
    split at h
    · next e' he =>
      rw [he]
      exact h
    · cases h
  obtain ⟨classes, ignored, he⟩ := hbuild
  obtain ⟨cycle, -, rfl⟩ := Registry.build_eq_error_iff.1 he
  exact ⟨_, rfl⟩

theorem finish_of_run {s : Settings} {rules : List WarningRule} {files : List SourceFile}
    {r : Except Error Registry × Warnings} (h : run s rules files = .ok r) :
    ∃ g : Grouping, (g.finish s.assemblyOptions).1 = r.1 := by
  rw [run] at h
  cases hextract : extract s.codeNamespaces { rules } files with
  | error e =>
    rw [hextract] at h
    cases h
  | ok read =>
    rw [hextract] at h
    obtain rfl : assemble s.assemblyOptions read.2 read.1 = r := Except.ok.inj h
    exact ⟨(group {} read.2 read.1).1, by simp only [assemble]⟩

theorem brokenIndent_of_run {s : Settings} {rules : List WarningRule} {files : List SourceFile}
    {e : Error} (h : run s rules files = .error e) : e = .brokenIndent := by
  rw [run] at h
  cases hextract : extract s.codeNamespaces { rules } files with
  | error e' =>
    rw [hextract] at h
    cases h
    exact brokenIndent_of_extract hextract
  | ok read =>
    rw [hextract] at h
    cases h

/-- The reference ends with warnings just if it has a registry, warnings are treated as errors and the
collector is not empty. -/
theorem outcome_run_eq_warnings_iff (s : Settings) (rules : List WarningRule)
    (files : List SourceFile) (n : Nat) :
    outcome s (run s rules files) = .error (.warnings n) ↔
      s.warningsAreErrors = true ∧ ∃ registry ws, run s rules files = .ok (.ok registry, ws) ∧
        ws.collected ≠ [] ∧ n = ws.collected.length := by
  cases hrun : run s rules files with
  | error e =>
    obtain rfl := brokenIndent_of_run hrun
    simp [outcome]
  | ok r =>
    obtain ⟨result, ws⟩ := r
    cases result with
    | error e =>
      obtain ⟨g, hg⟩ := finish_of_run hrun
      obtain ⟨chain, rfl⟩ := circular_of_finish hg
      simp [outcome]
    | ok registry =>
      simp only [outcome]
      constructor
      · intro h
        split at h
        · next hstrict => exact ⟨hstrict.1, registry, ws, rfl, hstrict.2, by cases h; rfl⟩
        · cases h
      · rintro ⟨hstrict, registry', ws', hok, hne, rfl⟩
        cases hok
        rw [if_pos ⟨hstrict, hne⟩]

end Sequential

/-- How a run of the reference ends, without what it makes. -/
theorem Sequential.run_of_ending {s : Settings} {rules : List WarningRule} {files : List SourceFile}
    {ending : Except Error Unit} {n : Nat}
    (h : (run s rules files).map (fun r => (r.1.map fun _ => (), r.2.collected.length)) =
      .ok (ending, n)) :
    ∃ result ws, run s rules files = .ok (result, ws) ∧ result.map (fun _ => ()) = ending ∧
      ws.collected.length = n := by
  cases hrun : run s rules files with
  | error e =>
    rw [hrun] at h
    cases h
  | ok r =>
    rw [hrun] at h
    obtain ⟨hending, hlength⟩ := Prod.mk.inj (Except.ok.inj h)
    exact ⟨r.1, r.2, rfl, hending, hlength⟩

theorem Settings.rules_of_validate {s : Settings} (h : s.validate = .ok ()) :
    ∃ rules, s.rules = .ok rules := by
  unfold Settings.validate at h
  split at h
  · cases h
  · cases hrules : s.rules with
    | error e =>
      rw [hrules] at h
      cases h
    | ok rules => exact ⟨rules, rfl⟩

theorem documentSources_eq_outcome {readScript : ScriptReader} {s : Settings}
    {rules : List WarningRule} {sources : List (String × String)} {files : List SourceFile}
    (hs : s.validate = .ok ()) (hrules : s.rules = .ok rules)
    (hparse : sources.mapM (fun source => SourceFile.parse source.1 source.2 readScript) = .ok files) :
    documentSources s sources readScript = Sequential.outcome s (Sequential.run s rules files) := by
  simp only [documentSources, hs, hrules]
  have hsame : ({ rules } : Warnings).rules = ({ rules } : Warnings).rules := rfl
  rw [mapM_ofSource hparse, Sequential.run, Sequential.extract_eq s.codeNamespaces hsame files]
  cases hread : files.mapM (Extracted.ofFile s.codeNamespaces { rules }) with
  | error e => rfl
  | ok read => exact Sequential.join_eq s { rules } read

/-- For settings that are valid and sources that can be read, a run gives what the reference gives, whatever
reads the scripts: the same registry with the same warnings in the same order, or the same failure.  It
fails because of warnings just if there is a registry, warnings are treated as errors and the collector of
the reference is not empty, and then it tells how many that collector holds. -/
theorem documentSources_sequential {readScript : ScriptReader} {s : Settings}
    {sources : List (String × String)} {files : List SourceFile} (hs : s.validate = .ok ())
    (hparse : sources.mapM (fun source => SourceFile.parse source.1 source.2 readScript) = .ok files) :
    ∃ rules, s.rules = .ok rules ∧
      documentSources s sources readScript = Sequential.outcome s (Sequential.run s rules files) ∧
      ∀ n, documentSources s sources readScript = .error (.warnings n) ↔
        s.warningsAreErrors = true ∧
          ∃ registry ws, Sequential.run s rules files = .ok (.ok registry, ws) ∧
            ws.collected ≠ [] ∧ n = ws.collected.length := by
  obtain ⟨rules, hrules⟩ := Settings.rules_of_validate hs
  have heq := documentSources_eq_outcome hs hrules hparse
  refine ⟨rules, hrules, heq, fun n => ?_⟩
  rw [heq, Sequential.outcome_run_eq_warnings_iff]

/-- A comment without code after it. -/
def SourceDoc.bare (said : String × Nat) : SourceDoc := { comment := said.1, line := said.2 }

theorem SourceDoc.eq_map_bare {docs : List SourceDoc} {said : List (String × Nat)}
    (h : docs.map (fun d => (d.comment, d.code.isNone, d.line)) = said.map fun s => (s.1, true, s.2)) :
    docs = said.map bare := by
  induction docs generalizing said with
  | nil =>
    rw [List.map_nil, eq_comm, List.map_eq_nil_iff] at h
    rw [h, List.map_nil]
  | cons d docs ih =>
    cases said with
    | nil => cases h
    | cons s said =>
      obtain ⟨hfirst, hrest⟩ := List.cons.inj h
      obtain ⟨comment, code, line⟩ := d
      obtain ⟨rfl, hcode, rfl⟩ : comment = s.1 ∧ code.isNone = true ∧ line = s.2 := by
        simpa using hfirst
      rw [List.map_cons, ← ih hrest, Option.isNone_iff_eq_none.1 hcode]
      rfl

/-- Unknown tags are reported, and warnings are errors. -/
def strictSettings : Settings := { warnings := ["+tag"], warningsAreErrors := true }

def strictRules : List WarningRule := [{ kind := some .tag, isOn := true }]

theorem valid_strictSettings : strictSettings.validate = .ok () := by decide +kernel

theorem rules_strictSettings : strictSettings.rules = .ok strictRules := by decide +kernel

/-- Reads a style sheet in which no comment has code after it. -/
theorem parse_sheet (readScript : ScriptReader) {filename text : String} (said : List (String × Nat))
    (hextension : Path.hasExtension "scss" filename = true)
    (h : (Stylesheet.docs text).map (fun d => (d.comment, d.code.isNone, d.line)) =
      said.map fun s => (s.1, true, s.2)) :
    SourceFile.parse filename text readScript =
      .ok { filename, kind := .stylesheet, docs := said.map SourceDoc.bare } := by
  rw [SourceFile.parse, if_pos hextension, SourceDoc.eq_map_bare h]

/-- A comment with an unknown tag in front of an assignment. -/
def remarkedScript : String := "/** @foo */\nsize = 1;"

def remarkedDocs : List SourceDoc :=
  [{ comment := " @foo ", code := some (.assign "size" (.literal .number "1" "1")), line := 1 }]

/-- A reader that knows one script. -/
def readRemarked : ScriptReader := fun text => if text = remarkedScript then some remarkedDocs else none

def remarkedSources : List (String × String) := [("a.js", remarkedScript), ("b.scss", "/** @bar */")]

def remarkedFiles : List SourceFile :=
  [{ filename := "a.js", kind := .script, docs := remarkedDocs },
    { filename := "b.scss", kind := .stylesheet, docs := [{ comment := " @bar ", line := 1 }] }]

theorem parse_remarkedSources :
    remarkedSources.mapM (fun source => SourceFile.parse source.1 source.2 readRemarked) =
      .ok remarkedFiles := by
  have hscript : SourceFile.parse "a.js" remarkedScript readRemarked =
      .ok { filename := "a.js", kind := .script, docs := remarkedDocs } := by
    have hextension : Path.hasExtension "scss" "a.js" = false := by decide +kernel
    rw [SourceFile.parse, hextension, readRemarked, if_pos rfl]
    rfl
  have hsheet : SourceFile.parse "b.scss" "/** @bar */" readRemarked = _ :=
    parse_sheet _ [(" @bar ", 1)] (by decide +kernel) (by decide +kernel)
  rw [remarkedSources, List.mapM_cons, List.mapM_cons, List.mapM_nil]
  dsimp only
  rw [hscript, hsheet]
  rfl

/-- Each file has an unknown tag, and the comment of the style sheet documents nothing by name. -/
theorem documentSources_remarked :
    (strictSettings.validate = .ok () ∧
      remarkedSources.mapM (fun source => SourceFile.parse source.1 source.2 readRemarked) =
        .ok remarkedFiles) ∧
    documentSources strictSettings remarkedSources readRemarked = .error (.warnings 3) := by
  obtain ⟨rules, hrules, -, hstrict⟩ :=
    documentSources_sequential valid_strictSettings parse_remarkedSources
  obtain rfl := Except.ok.inj (hrules.symm.trans rules_strictSettings)
  refine ⟨⟨valid_strictSettings, parse_remarkedSources⟩, (hstrict 3).2 ⟨rfl, ?_⟩⟩
  have hrun : (Sequential.run strictSettings strictRules remarkedFiles).map
      (fun r => (r.1.map fun _ => (), r.2.collected.length)) = .ok (.ok (), 3) := by decide +kernel
  obtain ⟨result, ws, hrun, hending, hlength⟩ := Sequential.run_of_ending hrun
  cases result with
  | error e => cases hending
  | ok registry =>
    exact ⟨registry, ws, hrun, List.ne_nil_of_length_pos (by omega), hlength.symm⟩

/-- Two classes that inherit from each other, and an unknown tag. -/
def circularSources : List (String × String) :=
  [("a.scss", "/** @class A\n@extends B\n@foo */"), ("b.scss", "/** @class B\n@extends A */")]

def circularFiles : List SourceFile :=
  [{ filename := "a.scss", kind := .stylesheet
     docs := [{ comment := " @class A\n@extends B\n@foo ", line := 1 }] },
    { filename := "b.scss", kind := .stylesheet
      docs := [{ comment := " @class B\n@extends A ", line := 1 }] }]

theorem parse_circularSources (readScript : ScriptReader) :
    circularSources.mapM (fun source => SourceFile.parse source.1 source.2 readScript) =
      .ok circularFiles := by
  have hfirst : SourceFile.parse "a.scss" "/** @class A\n@extends B\n@foo */" readScript = _ :=
    parse_sheet _ [(" @class A\n@extends B\n@foo ", 1)] (by decide +kernel) (by decide +kernel)
  have hsecond : SourceFile.parse "b.scss" "/** @class B\n@extends A */" readScript = _ :=
    parse_sheet _ [(" @class B\n@extends A ", 1)] (by decide +kernel) (by decide +kernel)
  rw [circularSources, List.mapM_cons, List.mapM_cons, List.mapM_nil]
  dsimp only
  rw [hfirst, hsecond]
  rfl

/-- Warnings are errors and the collector of the reference is not empty, but a circle of parents is what
the run fails with, whatever reads the scripts. -/
theorem circle_precedes_warnings :
    strictSettings.validate = .ok () ∧ strictSettings.rules = .ok strictRules ∧
      strictSettings.warningsAreErrors = true ∧
      (∃ result ws, Sequential.run strictSettings strictRules circularFiles = .ok (result, ws) ∧
        ws.collected.length = 1) ∧
      ∀ readScript : ScriptReader,
        circularSources.mapM (fun source => SourceFile.parse source.1 source.2 readScript) =
          .ok circularFiles ∧
        ¬ ∃ n, documentSources strictSettings circularSources readScript = .error (.warnings n) := by
  have hrun : (Sequential.run strictSettings strictRules circularFiles).map
      (fun r => (r.1.map fun _ => (), r.2.collected.length)) =
        .ok (.error (.circularInheritance ["A", "B", "A"]), 1) := by decide +kernel
  obtain ⟨result, ws, hrun, hending, hlength⟩ := Sequential.run_of_ending hrun
  refine ⟨valid_strictSettings, rules_strictSettings, rfl, ⟨result, ws, hrun, hlength⟩,
    fun readScript => ?_⟩
  have hparse := parse_circularSources readScript
  refine ⟨hparse, ?_⟩
  rintro ⟨n, hn⟩
  have heq := documentSources_eq_outcome valid_strictSettings rules_strictSettings hparse
  rw [hrun] at heq
  cases result with
  | error e =>
    obtain rfl := Except.error.inj hending
    cases heq.symm.trans hn
  | ok registry => cases hending

end ApiDoc
