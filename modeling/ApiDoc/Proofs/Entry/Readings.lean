/-
The comments of a source as they are read.

Every comment makes one entry, from its tags and from what the code after it says.  A member of the entry
is made by the whole comment, by a part of a class comment, or it was found in the code
(`exists_reading_of_extract`).
-/
import ApiDoc.Entry.Extract

namespace ApiDoc

/-- The members that an entry brings. -/
def Entry.members (e : Entry) : List Member :=
  match e.entity with
  | .ofClass c => c.members
  | .ofMember m => [m]

namespace Entry
open Code

/-- A comment as it is read, with the code after it and what that says. -/
structure Reading where
  tags : List Tag
  node : Option Node
  code : CodeRecord
  file : FileRef

namespace Reading

def detected (d : Reading) : Comment.Detected :=
  Comment.detect d.tags (if d.code.isPresent then some d.code.kind else none)

/-- What the comment says, read as one. -/
def record (d : Reading) : DocRecord := (Comment.interpret d.tags d.detected d.file).1

/-- What the configs and constructors say that the comment documents as a class comment. -/
def parts (d : Reading) : List DocRecord :=
  (Comment.cutGroups none d.tags).2.map fun g => (Comment.interpret g.tags ⟨g.kind, true⟩ d.file).1

def entry (d : Reading) : Entry := (build d.tags d.detected d.code d.file).1

/-- The code record is what the code after the comment says, sections known from before. -/
def Classified (ns : Namespaces) (d : Reading) : Prop := ∃ hints, d.code = classify ns hints d.node

/-- How a member comes about in the entry of a comment. -/
inductive Brings (d : Reading) : Member → Prop where
  | whole : Brings d (mergeMember d.record d.code d.file)
  | part {doc : DocRecord} (hdoc : doc ∈ d.parts) : Brings d (mergeMember doc {} d.file)
  | found {m : Member} (hm : m ∈ d.code.members) : Brings d (locate d.file m)

theorem brings_mergeClass {d : Reading} (doc : DocRecord) :
    ∀ m ∈ (mergeClass doc d.code d.file).members, d.Brings m := by
  intro m hm
  obtain ⟨old, hold, rfl⟩ := List.mem_map.1 hm
  unfold relevantCode at hold
  split at hold
  · exact .found hold
  · exact absurd hold List.not_mem_nil

theorem brings_addGroups {d : Reading} {groups : List Comment.TagGroup}
    (hgroups : ∀ g ∈ groups, (Comment.interpret g.tags ⟨g.kind, true⟩ d.file).1 ∈ d.parts) {c : ClassDoc}
    (h : ∀ m ∈ c.members, d.Brings m) : ∀ m ∈ (addGroups d.file c groups).1.members, d.Brings m := by
  induction groups generalizing c with
  | nil => exact h
  | cons g groups ih =>
    refine ih (fun g' hg' => hgroups g' (List.mem_cons_of_mem g hg')) ?_
    split
    · exact h
    · intro m hm
      rcases List.mem_append.1 hm with hold | hlast
      · exact h m (List.mem_filter.1 hold).1
      · rw [List.mem_singleton.1 hlast]
        exact .part (hgroups g List.mem_cons_self)

/-- All members of an entry come from its comment, from a part of it, or from the code after it. -/
theorem brings_entry (d : Reading) : ∀ m ∈ d.entry.members, d.Brings m := by
  unfold entry build
  split
  · exact brings_addGroups (fun g hg => List.mem_map_of_mem hg) (brings_mergeClass _)
  · intro m hm
    unfold merge members at hm
    dsimp only at hm
    split at hm
    · next hclass =>
      split at hclass
      · cases hclass
        exact brings_mergeClass _ m hm
      · exact absurd hclass (by simp)
    · next hmember =>
      split at hmember
      · exact absurd hmember (by simp)
      · cases hmember
        rw [List.mem_singleton.1 hm]
        exact .whole

end Reading

/-- The comments in a row as they are read, up to the first one that cannot be. -/
def readingsFrom (ns : Namespaces) (kind : SourceKind) (filename : String) (hints : SectionHints) :
    List SourceDoc → List Reading
  | [] => []
  | doc :: docs =>
    match Comment.parse kind doc.comment with
    | .error _ => []
    | .ok parsed =>
      let code := classify ns hints doc.code
      { tags := parsed.tags, node := doc.code, code, file := { filename, line := doc.line } }
        :: readingsFrom ns kind filename (hints ++ code.hints) docs

/-- The comments of a source as they are read. -/
def readings (ns : Namespaces) (source : SourceFile) : List Reading :=
  readingsFrom ns source.kind source.filename [] source.docs

theorem readingsFrom_cons {kind : SourceKind} {doc : SourceDoc} {parsed : Comment.Parsed}
    (h : Comment.parse kind doc.comment = .ok parsed) (ns : Namespaces) (filename : String)
    (hints : SectionHints) (docs : List SourceDoc) :
    readingsFrom ns kind filename hints (doc :: docs) =
      { tags := parsed.tags, node := doc.code, code := classify ns hints doc.code
        file := { filename, line := doc.line } } ::
      readingsFrom ns kind filename (hints ++ (classify ns hints doc.code).hints) docs := by
  rw [readingsFrom, h]

/-- Every comment that is read makes one entry. -/
theorem entries_eq_readingsFrom {ns : Namespaces} {kind : SourceKind} {filename : String}
    {docs : List SourceDoc} {hints : SectionHints} {entries : List Entry} {warnings : List Warning}
    (h : extractDocs ns kind filename hints docs = .ok (entries, warnings)) :
    entries = (readingsFrom ns kind filename hints docs).map Reading.entry := by
  induction docs generalizing hints entries warnings with
  | nil =>
    cases h
    rfl
  | cons doc docs ih =>
    unfold extractDocs at h
    split at h
    · cases h
    · next parsed hparsed =>
      dsimp only at h
      split at h
      · cases h
      · next rest hrest =>
        cases h
        rw [readingsFrom_cons hparsed, ih hrest]
        rfl

theorem classified_readingsFrom (ns : Namespaces) (kind : SourceKind) (filename : String)
    (hints : SectionHints) (docs : List SourceDoc) :
    ∀ d ∈ readingsFrom ns kind filename hints docs, d.Classified ns := by
  induction docs generalizing hints with
  | nil => exact fun _ hd => absurd hd List.not_mem_nil
  | cons doc docs ih =>
    intro d hd
    unfold readingsFrom at hd
    split at hd
    · exact absurd hd List.not_mem_nil
    · rcases List.mem_cons.1 hd with rfl | hd
      · exact ⟨hints, rfl⟩
      · exact ih _ d hd

/-- Where a member of an entry of a source comes from. -/
theorem exists_reading_of_extract {ns : Namespaces} {source : SourceFile} {entries : List Entry}
    {warnings : List Warning} (h : extract ns source = .ok (entries, warnings)) {e : Entry}
    (he : e ∈ entries) {m : Member} (hm : m ∈ e.members) :
    ∃ d ∈ readings ns source, d.Classified ns ∧ d.Brings m := by
  rw [entries_eq_readingsFrom h] at he
  obtain ⟨d, hd, rfl⟩ := List.mem_map.1 he
  exact ⟨d, hd, classified_readingsFrom ns _ _ _ _ d hd, d.brings_entry m hm⟩

end Entry
end ApiDoc
