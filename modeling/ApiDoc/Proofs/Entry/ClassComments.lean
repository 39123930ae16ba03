/-
The members of a class comment.

A class comment is cut into the tags of the class and groups of tags, each opened by a config or by a
constructor, and each group that is not ignored documents one member.  Such a member takes the place of all
members of its name that were found in the code, and no group removes what another one documents.  So the
entry of the comment has the remaining members of the code, followed by the documented ones
(`members_of_class_comment`).
-/
import ApiDoc.Proofs.Code.Origins
import ApiDoc.Proofs.Comment.Configs
import ApiDoc.Proofs.Entry.Readings

namespace ApiDoc

namespace Comment

/-- The tags are cut into those of the class and into groups.  Nothing of the class opens a group, and each
group is opened by its first tag and ends where the next tag opens one. -/
structure IsCut (tags lead : List Tag) (groups : List TagGroup) : Prop where
  whole : lead ++ groups.flatMap TagGroup.tags = tags
  lead_kind : ∀ t ∈ lead, t.kind ≠ .config ∧ t.kind ≠ .constructorDef
  group : ∀ earlier g later, groups = earlier ++ g :: later →
    GroupAt (lead ++ earlier.flatMap TagGroup.tags) g (later.flatMap TagGroup.tags)

theorem isCut_cutGroups (tags : List Tag) :
    IsCut tags (cutGroups none tags).1 (cutGroups none tags).2 := by
  refine ⟨flatMap_tags_cutGroups none tags, fun t ht => ?_, fun earlier g later h => ?_⟩
  · have hnot := not_opens_of_mem_lead ht
    exact ⟨fun hk => hnot (.inr ⟨hk, by simp⟩), fun hk => hnot (.inl hk)⟩
  · exact @groupAt_of_split [] tags earlier later g h

theorem kind_withValueFields (r : DocRecord) (tags : List Tag) (kind : TagKind) (file : FileRef) :
    (withValueFields r tags kind file).1.kind = r.kind := by
  unfold withValueFields
  dsimp only
  split
  · rfl
  · rfl

theorem kind_interpret (tags : List Tag) (detected : Detected) (file : FileRef) :
    (interpret tags detected file).1.kind = detected.kind := by
  show (withKindFields _ tags file).1.kind = _
  unfold withKindFields
  split
  · rfl
  · rfl
  · rfl
  · rfl
  · exact kind_withValueFields _ tags _ file
  · exact kind_withValueFields _ tags _ file
  · exact kind_withValueFields _ tags _ file

end Comment

namespace Entry
open Code Comment

/-- Whether both are named and differ. -/
def isNamedOtherwise (doc code : Option String) : Bool :=
  match doc, code with
  | some name, some codeName => codeName != name
  | _, _ => false

/-- The member that a group documents, if it is not ignored. -/
def documentedMember? (file : FileRef) (g : TagGroup) : Option Member :=
  let doc := (interpret g.tags ⟨g.kind, true⟩ file).1
  if doc.isIgnored then none else some (mergeMember doc {} file)

/-- What a comment documents by itself is not marked as found in code. -/
theorem inferred_kind_mergeMember (doc : DocRecord) (file : FileRef) :
    (mergeMember doc {} file).inferred.kind = false := by
  have hcode : relevantCode doc {} = {} := ite_self _
  unfold mergeMember
  rw [hcode]
  exact Bool.and_false _

/-- Whether a member was found in code and has the name of one of the others. -/
def isReplacedIn (documented : List Member) (m : Member) : Bool :=
  m.inferred.kind && (documented.map Member.name).contains m.name

theorem isReplacedIn_cons (d : Member) (documented : List Member) (m : Member) :
    isReplacedIn (d :: documented) m = (isReplacedBy d.name m || isReplacedIn documented m) := by
  unfold isReplacedIn isReplacedBy
  rw [List.map_cons, List.contains_cons, Bool.and_or_distrib_left]

/-- The class with documented members in place of those of the same names that were found in code. -/
def withDocumented (c : ClassDoc) (documented : List Member) : ClassDoc :=
  { c with members := (c.members.filter fun m => !isReplacedIn documented m) ++ documented }

theorem withDocumented_nil (c : ClassDoc) : withDocumented c [] = c := by
  have hall : c.members.filter (fun m => !isReplacedIn [] m) = c.members :=
    List.filter_eq_self.2 fun m _ => by simp [isReplacedIn]
  rw [withDocumented, hall, List.append_nil]

/-- What one group documents is not removed by what later ones document. -/
theorem withDocumented_cons (c : ClassDoc) {m : Member} (h : m.inferred.kind = false)
    (documented : List Member) :
    withDocumented c (m :: documented) = withDocumented (addDocumented c m) documented := by
  have hkept : (!isReplacedIn documented m) = true := by rw [isReplacedIn, h]; rfl
  have hlast : [m].filter (fun o => !isReplacedIn documented o) = [m] :=
    List.filter_eq_self.2 (List.forall_mem_singleton.2 hkept)
  unfold withDocumented addDocumented
  dsimp only
  rw [List.filter_append, List.filter_filter, hlast, List.append_assoc, List.singleton_append]
  congr 2
  refine List.filter_congr fun o _ => ?_
  rw [isReplacedIn_cons, Bool.not_or, Bool.and_comm]

/-- Groups that are added one after the other are added as a whole. -/
theorem addGroups_eq (file : FileRef) (c : ClassDoc) (groups : List TagGroup) :
    addGroups file c groups =
      (withDocumented c (groups.filterMap (documentedMember? file)),
        groups.flatMap fun g => (interpret g.tags ⟨g.kind, true⟩ file).2) := by
  induction groups generalizing c with
  | nil => rw [addGroups, List.filterMap_nil, withDocumented_nil, List.flatMap_nil]
  | cons g groups ih =>
    rw [addGroups, List.flatMap_cons, ih]
    refine Prod.ext ?_ rfl
    dsimp only
    cases hignored : (interpret g.tags ⟨g.kind, true⟩ file).1.isIgnored with
    | true =>
      have hmember : documentedMember? file g = none := by rw [documentedMember?, hignored, if_pos rfl]
      rw [List.filterMap_cons_none hmember, if_pos rfl]
    | false =>
      have hmember : documentedMember? file g =
          some (mergeMember (interpret g.tags ⟨g.kind, true⟩ file).1 {} file) := by
        rw [documentedMember?, hignored, if_neg Bool.false_ne_true]
      rw [List.filterMap_cons_some hmember, if_neg Bool.false_ne_true,
        withDocumented_cons c (inferred_kind_mergeMember _ file)]

namespace Reading
variable (d : Reading)

/-- The tags of a class comment that are about the class itself. -/
def classTags : List Tag := (cutGroups none d.tags).1

/-- The configs and constructors that a class comment documents. -/
def groups : List TagGroup := (cutGroups none d.tags).2

/-- What a class comment says about the class. -/
def classRecord : DocRecord := (interpret d.classTags d.detected d.file).1

/-- The members in the code after a class comment, unless it is the code of another class. -/
def found : List Member :=
  if isNamedOtherwise d.classRecord.name d.code.name then [] else d.code.members.map (locate d.file)

/-- The members that a class comment documents. -/
def documented : List Member := d.groups.filterMap (documentedMember? d.file)

/-- The members in the code that a class comment does not document. -/
def undocumented : List Member :=
  d.found.filter fun m => !(d.documented.map Member.name).contains m.name

variable {d}

/-- A class is documented by a comment in front of its code, and by name if both have one. -/
theorem isSameEntity_classRecord (h : d.detected.kind = .classDef) :
    isSameEntity d.classRecord d.code =
      (d.code.isPresent && !isNamedOtherwise d.classRecord.name d.code.name) := by
  have hkind : (d.classRecord.kind == .classDef) = true := by
    rw [classRecord, kind_interpret, h]
    rfl
  unfold isSameEntity isNamedOtherwise
  cases d.classRecord.name with
  | none => rfl
  | some name =>
    dsimp only
    rw [if_pos hkind]
    cases d.code.name with
    | none => rfl
    | some codeName => exact congrArg _ (Bool.not_not _).symm

/-- The members of a class before those of its comment are added. -/
theorem members_mergeClass {ns : Namespaces} (hcode : d.Classified ns) (h : d.detected.kind = .classDef) :
    (mergeClass d.classRecord d.code d.file).members = d.found := by
  show (relevantCode d.classRecord d.code).members.map (locate d.file) = _
  rw [relevantCode, isSameEntity_classRecord h, found]
  cases hother : isNamedOtherwise d.classRecord.name d.code.name with
  | true => rw [Bool.not_true, Bool.and_false, if_neg Bool.false_ne_true, if_pos rfl, List.map_nil]
  | false =>
    rw [Bool.not_false, Bool.and_true, if_neg Bool.false_ne_true]
    split
    · rfl
    · next habsent =>
      have hnone : d.code.members = [] := by
        refine List.eq_nil_iff_forall_not_mem.2 fun m hm => habsent ?_
        obtain ⟨hints, hcode⟩ := hcode
        rw [hcode] at hm ⊢
        exact isPresent_classify hm
      rw [hnone, List.map_nil]

theorem inferred_kind_of_found {ns : Namespaces} (hcode : d.Classified ns) {m : Member} (h : m ∈ d.found) :
    m.inferred.kind = true := by
  obtain ⟨hints, hcode⟩ := hcode
  unfold found at h
  split at h
  · exact absurd h List.not_mem_nil
  · obtain ⟨old, hold, rfl⟩ := List.mem_map.1 h
    rw [hcode] at hold
    obtain ⟨node, -, horigin⟩ := origin_classify ns hints d.node old hold
    exact horigin.inferred_kind

/-- A member in the code gives way to every member of its name in the comment. -/
theorem filter_found {ns : Namespaces} (hcode : d.Classified ns) :
    d.found.filter (fun m => !isReplacedIn d.documented m) = d.undocumented := by
  refine List.filter_congr fun m hm => ?_
  rw [isReplacedIn, inferred_kind_of_found hcode hm, Bool.true_and]

/-- The whole entry of a class comment, with its warnings. -/
theorem build_eq {ns : Namespaces} (hcode : d.Classified ns) (h : d.detected.kind = .classDef) :
    build d.tags d.detected d.code d.file =
      ({ entity := .ofClass { mergeClass d.classRecord d.code d.file with
          members := d.undocumented ++ d.documented }
         memberOf := d.classRecord.memberOf
         isIgnored := d.classRecord.isIgnored },
        (interpret d.classTags d.detected d.file).2 ++
          d.groups.flatMap fun g => (interpret g.tags ⟨g.kind, true⟩ d.file).2) := by
  have hkind : (d.detected.kind == .classDef) = true := by
    rw [h]
    rfl
  have hclass : addGroups d.file (mergeClass d.classRecord d.code d.file) d.groups =
      ({ mergeClass d.classRecord d.code d.file with members := d.undocumented ++ d.documented },
        d.groups.flatMap fun g => (interpret g.tags ⟨g.kind, true⟩ d.file).2) := by
    rw [addGroups_eq, withDocumented, members_mergeClass hcode h]
    show (({ mergeClass d.classRecord d.code d.file with
      members := d.found.filter (fun m => !isReplacedIn d.documented m) ++ d.documented } : ClassDoc), _) = _
    rw [filter_found hcode]
  rw [build, if_pos hkind]
  show (({ entity := .ofClass (addGroups d.file (mergeClass d.classRecord d.code d.file) d.groups).1
           memberOf := d.classRecord.memberOf
           isIgnored := d.classRecord.isIgnored } : Entry),
    (interpret d.classTags d.detected d.file).2 ++
      (addGroups d.file (mergeClass d.classRecord d.code d.file) d.groups).2) = _
  rw [hclass]

end Reading

/-- Of the members in the code, those remain that no group of the comment documents, then come the members
of the groups.  Every tag is read in one group. -/
theorem members_of_class_comment {ns : Namespaces} {source : SourceFile} {entries : List Entry}
    {warnings : List Warning} (h : extract ns source = .ok (entries, warnings)) :
    entries = (readings ns source).map Reading.entry ∧
      ∀ d ∈ readings ns source, d.detected.kind = .classDef →
        IsCut d.tags d.classTags d.groups ∧
        build d.tags d.detected d.code d.file =
          ({ entity := .ofClass { mergeClass d.classRecord d.code d.file with
              members := d.undocumented ++ d.documented }
             memberOf := d.classRecord.memberOf
             isIgnored := d.classRecord.isIgnored },
            (interpret d.classTags d.detected d.file).2 ++
              d.groups.flatMap fun g => (interpret g.tags ⟨g.kind, true⟩ d.file).2) :=
  ⟨entries_eq_readingsFrom h, fun d hd hkind => ⟨isCut_cutGroups d.tags,
    Reading.build_eq (classified_readingsFrom ns _ _ _ _ d hd) hkind⟩⟩

/-! A class comment with two configs, one of them ignored, and a constructor.  It stands in front of an
object with members of their names. -/

def boxCode : Node :=
  .assign "Box" (.object
    [⟨"depth", .literal .number "1" "1", 10, 9, false, none⟩,
     ⟨"width", .literal .number "2" "2", 20, 10, false, none⟩,
     ⟨"height", .literal .number "3" "3", 30, 11, false, none⟩] "")

def boxDoc : SourceDoc :=
  { comment := "* @class Box\n* @cfg \x7bNumber\x7d width\n* @cfg depth\n* @ignore\n* @constructor"
    code := some boxCode, line := 1 }

def boxSource : SourceFile := { filename := "box.js", kind := .script, docs := [boxDoc] }

def boxReading : Reading :=
  { tags := [{ kind := .doc }, { kind := .classDef, name := some "Box" },
      { kind := .config, name := some "width", type := some "Number" },
      { kind := .config, name := some "depth" }, { kind := .skipped }, { kind := .constructorDef }]
    node := some boxCode, code := classify {} [] (some boxCode), file := ⟨"box.js", 1⟩ }

theorem parse_boxDoc :
    ∃ parsed, Comment.parse .script boxDoc.comment = .ok parsed ∧ parsed.tags = boxReading.tags := by
  have htags : (Comment.parse .script boxDoc.comment).toOption.map Parsed.tags = some boxReading.tags := by
    decide +kernel
  cases hparse : Comment.parse .script boxDoc.comment with
  | error e =>
    rw [hparse] at htags
    cases htags
  | ok parsed =>
    rw [hparse] at htags
    exact ⟨parsed, rfl, Option.some.inj htags⟩

/-- The object's `depth` remains, and its `width` does not. -/
theorem members_of_boxSource :
    ∃ entries warnings, extract {} boxSource = .ok (entries, warnings) ∧
      boxReading ∈ readings {} boxSource ∧ boxReading.detected.kind = .classDef ∧
      entries.map (fun e => e.members.map Member.name) = [["depth", "height", "width", "constructor"]] := by
  obtain ⟨parsed, hparse, htags⟩ := parse_boxDoc
  have hreadings : readings {} boxSource = [boxReading] := by
    refine (readingsFrom_cons hparse {} "box.js" [] []).trans ?_
    rw [htags]
    rfl
  obtain ⟨entries, warnings, hextract⟩ :
      ∃ entries warnings, extract {} boxSource = .ok (entries, warnings) := by
    unfold extract boxSource extractDocs
    rw [hparse]
    exact ⟨_, _, rfl⟩
  have hkind : boxReading.detected.kind = .classDef := by decide +kernel
  have hmem : boxReading ∈ readings {} boxSource := hreadings ▸ List.mem_singleton_self _
  obtain ⟨hentries, hclass⟩ := members_of_class_comment hextract
  obtain ⟨-, hbuild⟩ := hclass boxReading hmem hkind
  have hmembers : boxReading.entry.members = boxReading.undocumented ++ boxReading.documented :=
    congrArg (fun r => r.1.members) hbuild
  have hnames : (boxReading.undocumented ++ boxReading.documented).map Member.name =
      ["depth", "height", "width", "constructor"] := by decide +kernel
  refine ⟨entries, warnings, hextract, hmem, hkind, ?_⟩
  rw [hentries, hreadings, List.map_singleton, List.map_singleton, hmembers, hnames]

end Entry
end ApiDoc
