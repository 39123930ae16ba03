/-
Which members are reported as members without a class.

A member that is for the global class is reported when it gets there: at once, when the class comes, or
at the end, and until then it waits.  So what is reported and who waits add up to the members that came
(`Moves`), step by step, and in the end nobody waits.  Only if the global class is left out, and no
other class has its name, these members are dropped, and none of them is reported
(`global_members_reported`).
-/
import ApiDoc.Proofs.Grouping.Origins

namespace ApiDoc
namespace Grouping

/-- The member of an entry, if the entry counts and is for the global class: it says so, or it names no
class and is `outside`, with no class entry before it in its file. -/
def strayOf? (outside : Bool) (e : Entry) : Option Member :=
  match e.entity with
  | .ofClass _ => none
  | .ofMember m =>
    if e.isIgnored || m.name.isEmpty then none
    else if e.memberOf = some globalName ∨ e.memberOf = none ∧ outside = true then some m
    else none

def straysFrom : Bool → List Entry → List Member
  | _, [] => []
  | outside, e :: rest => (strayOf? outside e).toList ++ straysFrom (outside && !isClassEntry e) rest

/-- All members that are for the global class. -/
def strays (files : Files) : List Member := files.flatMap fun f => straysFrom true f.2

/-- The warnings that are given while files are grouped. -/
def warningsOfFiles (files : Files) : List Warning :=
  (reportEach (fun (g : Grouping) f => g.addFile f.1 f.2) {} files).2

/-- The global class is left out, and no class entry that counts has its name. -/
def LeavesOutGlobal (files : Files) : Prop :=
  globalName ∈ leftOutNames files ∧ ¬ Known (classEntries files) globalName

def globalWarning (m : Member) : Warning :=
  { kind := .global
    message := "Global " ++ m.kind.word ++ ": " ++ m.name
    file := m.files.head? }

def reported (ws : List Warning) : List Warning := ws.filter fun w => w.kind == .global

/-- The members that wait for the global class. -/
def pending (g : Grouping) : List Member := (g.waiting.lookup globalName).getD []

theorem globalWarnings_eq (target : String) (ms : List Member) :
    globalWarnings target ms = if target = globalName then ms.map globalWarning else [] := by
  unfold globalWarnings
  by_cases h : target = globalName
  · rw [if_pos (beq_iff_eq.2 h), if_pos h]
    rfl
  · rw [if_neg fun heq => h (beq_iff_eq.1 heq), if_neg h]

theorem reported_append (ws ws' : List Warning) :
    reported (ws ++ ws') = reported ws ++ reported ws' := List.filter_append ..

theorem reported_map_globalWarning (ms : List Member) :
    reported (ms.map globalWarning) = ms.map globalWarning := by
  refine List.filter_eq_self.2 fun w hw => ?_
  obtain ⟨m, -, rfl⟩ := List.mem_map.1 hw
  rfl

theorem reported_globalWarnings (target : String) (ms : List Member) :
    reported (globalWarnings target ms) =
      if target = globalName then ms.map globalWarning else [] := by
  rw [globalWarnings_eq]
  split
  · exact reported_map_globalWarning ms
  · rfl

theorem lookup_enqueue (target name : String) (m : Member) (w : List (String × List Member)) :
    (enqueue target m w).lookup name =
      if name = target then some ((w.lookup name).getD [] ++ [m]) else w.lookup name := by
  induction w with
  | nil => rw [enqueue, lookup_cons_if]; rfl
  | cons first rest ih =>
    obtain ⟨other, ms⟩ := first
    rw [enqueue]
    by_cases hother : other = target
    · subst hother
      rw [if_pos (beq_self_eq_true other), lookup_cons_if, lookup_cons_if]
      split
      · rfl
      · rfl
    · rw [if_neg fun h => hother (beq_iff_eq.1 h), lookup_cons_if, lookup_cons_if, ih]
      by_cases hname : name = other
      · rw [if_pos hname, if_pos hname, if_neg fun h => hother (hname.symm.trans h)]
      · rw [if_neg hname, if_neg hname]

theorem lookup_filter_ne (name other : String) (w : List (String × List Member)) :
    (w.filter fun p => p.1 != other).lookup name = if name = other then none else w.lookup name := by
  induction w with
  | nil => simp
  | cons first rest ih =>
    rw [List.filter_cons, lookup_cons_if]
    by_cases hfirst : first.1 = other
    · rw [if_neg (by simpa using hfirst), ih, hfirst]
      by_cases hname : name = other
      · rw [if_pos hname, if_pos hname]
      · rw [if_neg hname, if_neg hname, if_neg hname]
    · rw [if_pos (bne_iff_ne.2 hfirst), lookup_cons_if, ih]
      by_cases hname : name = first.1
      · rw [if_pos hname, if_pos hname, if_neg fun h => hfirst (hname.symm.trans h)]
      · rw [if_neg hname, if_neg hname]

/-! ### Steps -/

/-- From one grouping to the next, the members that waited for the global class and those that are new
are reported or wait, each once. -/
def Moves (g g' : Grouping) (ws : List Warning) (new : List Member) : Prop :=
  (reported ws ++ (pending g').map globalWarning).Perm ((pending g ++ new).map globalWarning)

theorem moves_of_same {g g' : Grouping} {ws : List Warning} (hpending : pending g' = pending g)
    (hws : reported ws = []) : Moves g g' ws [] := by
  rw [Moves, hpending, hws, List.append_nil, List.nil_append]

theorem moves_silently {g g' : Grouping} (hpending : pending g' = pending g) : Moves g g' [] [] :=
  moves_of_same hpending rfl

theorem Moves.trans {a b c : Grouping} {ws ws' : List Warning} {new new' : List Member}
    (h : Moves a b ws new) (h' : Moves b c ws' new') : Moves a c (ws ++ ws') (new ++ new') := by
  unfold Moves at h h' ⊢
  rw [reported_append, List.append_assoc, ← List.append_assoc (pending a), List.map_append]
  refine (h'.append_left _).trans ?_
  rw [List.map_append, ← List.append_assoc]
  exact h.append_right _

theorem moves_reportEach {α : Type} {step : Grouping → α → Grouping × List Warning}
    {new : α → List Member} (h : ∀ g x, Moves g (step g x).1 (step g x).2 (new x)) (g : Grouping)
    (xs : List α) : Moves g (reportEach step g xs).1 (reportEach step g xs).2 (xs.flatMap new) := by
  induction xs generalizing g with
  | nil => exact moves_silently rfl
  | cons x xs ih => exact (h g x).trans (ih (step g x).1)

/-- A member that names the class is reported if the class is there, and else it waits. -/
theorem moves_assign (g : Grouping) (target : String) (m : Member) :
    Moves g (g.assign target m).1 (g.assign target m).2
      (if target = globalName then [m] else []) := by
  unfold assign
  cases g.find? target with
  | some i =>
    dsimp only
    rw [Moves, reported_globalWarnings]
    by_cases htarget : target = globalName
    · rw [if_pos htarget, if_pos htarget, List.map_append]
      exact List.perm_append_comm
    · rw [if_neg htarget, if_neg htarget, List.append_nil]
      exact List.Perm.refl _
  | none =>
    have hpending : pending { g with waiting := enqueue target m g.waiting } =
        pending g ++ if target = globalName then [m] else [] := by
      rw [pending, lookup_enqueue]
      by_cases htarget : target = globalName
      · rw [if_pos htarget.symm, if_pos htarget]
        rfl
      · rw [if_neg (Ne.symm htarget), if_neg htarget, List.append_nil]
        rfl
    dsimp only
    rw [Moves, hpending]
    exact List.Perm.refl _

/-- When the class comes, those that waited for it are reported. -/
theorem moves_adopt (i : Nat) (g : Grouping) (name : String) :
    Moves g (adopt i g name).1 (adopt i g name).2 [] := by
  unfold adopt
  split
  · cases hname : g.waiting.lookup name with
    | none => exact moves_silently rfl
    | some ms =>
      dsimp only
      rw [Moves, reported_globalWarnings, List.append_nil]
      show (_ ++ (((g.waiting.filter fun p => p.1 != name).lookup globalName).getD []).map _).Perm
        (((g.waiting.lookup globalName).getD []).map _)
      rw [lookup_filter_ne]
      by_cases hglobal : name = globalName
      · rw [if_pos hglobal, if_pos hglobal.symm, ← hglobal, hname]
        exact List.Perm.of_eq (List.append_nil _)
      · rw [if_neg hglobal, if_neg (Ne.symm hglobal)]
        exact List.Perm.refl _
  · exact moves_silently rfl

/-- A class entry brings nobody who is for the global class by name: the members that it holds itself
are never reported. -/
theorem moves_addNamed (g : Grouping) (c : ClassDoc) :
    Moves g (g.addNamed c).1.1 (g.addNamed c).2 [] := by
  have hplaced : pending ((g.place c).1.register c.answers (g.place c).2) = pending g := by
    unfold place
    split
    · rfl
    · rfl
  have hadopted := moves_reportEach (moves_adopt (g.place c).2)
    ((g.place c).1.register c.answers (g.place c).2) c.answers
  rw [List.flatMap_eq_nil_iff.2 fun _ _ => rfl] at hadopted
  exact (moves_silently hplaced).trans hadopted

theorem moves_addClass (g : Grouping) (filename : String) (c : ClassDoc) (isIgnored : Bool) :
    Moves g (g.addClass filename c isIgnored).1.1 (g.addClass filename c isIgnored).2 [] ∧
      (g.addClass filename c isIgnored).1.2 ≠ .outside := by
  unfold addClass
  split
  · exact ⟨moves_of_same rfl rfl, Place.noConfusion⟩
  · split
    · exact ⟨moves_silently rfl, Place.noConfusion⟩
    · exact ⟨moves_addNamed g _, Place.noConfusion⟩

theorem moves_addMember (g : Grouping) {place : Place} {outside : Bool}
    (hplace : place = .outside ↔ outside = true) (memberOf : Option String) (m : Member) :
    Moves g (g.addMember place memberOf m).1 (g.addMember place memberOf m).2
      (if memberOf = some globalName ∨ memberOf = none ∧ outside = true then [m] else []) := by
  unfold addMember
  cases memberOf with
  | some target => simpa using moves_assign g target m
  | none =>
    cases place with
    | outside => simpa [← hplace] using moves_assign g globalName m
    | inClass i =>
      have hmoves : Moves g (g.addMembersAt i [m]) [] [] := moves_silently rfl
      simpa [← hplace] using hmoves
    | leftOut =>
      have hmoves : Moves g g [] [] := moves_silently rfl
      simpa [← hplace] using hmoves

/-- What one entry does, `outside` saying that no class entry comes before it in its file. -/
theorem moves_addEntry (filename : String) (g : Grouping) {place : Place} {outside : Bool}
    (hplace : place = .outside ↔ outside = true) (e : Entry) :
    Moves g (addEntry filename (g, place) e).1.1 (addEntry filename (g, place) e).2
        (strayOf? outside e).toList ∧
      ((addEntry filename (g, place) e).1.2 = .outside ↔ (outside && !isClassEntry e) = true) := by
  obtain ⟨entity, memberOf, isIgnored⟩ := e
  cases entity with
  | ofClass c =>
    obtain ⟨hmoves, hinside⟩ := moves_addClass g filename c isIgnored
    refine ⟨hmoves, fun h => absurd h hinside, fun h => ?_⟩
    rw [isClassEntry, Bool.not_true, Bool.and_false] at h
    cases h
  | ofMember m =>
    have hstays : (addEntry filename (g, place) ⟨.ofMember m, memberOf, isIgnored⟩).1.2 = place := by
      unfold addEntry
      dsimp only
      split
      · rfl
      · split
        · rfl
        · rfl
    refine ⟨?_, ?_⟩
    · unfold addEntry strayOf?
      dsimp only
      cases isIgnored with
      | true => exact moves_silently rfl
      | false =>
        cases m.name.isEmpty with
        | true => exact moves_of_same rfl rfl
        | false =>
          have hmoves := moves_addMember g hplace memberOf m
          simp only [Bool.false_or, Bool.false_eq_true, if_false]
          split
          · next hstray =>
            rw [if_pos hstray] at hmoves
            exact hmoves
          · next hother =>
            rw [if_neg hother] at hmoves
            exact hmoves
    · rw [hstays, hplace, isClassEntry, Bool.not_false, Bool.and_true]

theorem moves_addEntries (filename : String) (entries : List Entry) (g : Grouping) {place : Place}
    {outside : Bool} (hplace : place = .outside ↔ outside = true) :
    Moves g (reportEach (addEntry filename) (g, place) entries).1.1
      (reportEach (addEntry filename) (g, place) entries).2 (straysFrom outside entries) := by
  induction entries generalizing g place outside with
  | nil => exact moves_silently rfl
  | cons e entries ih =>
    obtain ⟨hmoves, hnext⟩ := moves_addEntry filename g hplace e
    exact hmoves.trans (ih _ hnext)

theorem moves_addFile (g : Grouping) (filename : String) (entries : List Entry) :
    Moves g (g.addFile filename entries).1 (g.addFile filename entries).2 (straysFrom true entries) :=
  moves_addEntries filename entries g (iff_of_true rfl rfl)

theorem moves_ofFiles (files : Files) :
    Moves {} (ofFiles files) (warningsOfFiles files) (strays files) := by
  unfold ofFiles warningsOfFiles strays
  refine moves_reportEach ?_ {} files
  intro g f
  exact moves_addFile g f.1 f.2

/-! ### Who is for the global class -/

theorem strayOf?_sublist (filename : String) {before : List Entry} {outside : Bool}
    (h : outside = true → currentName? filename before = some globalName) (e : Entry) :
    (strayOf? outside e).toList.Sublist (chargedTo (charges filename before e) globalName) := by
  obtain ⟨entity, memberOf, isIgnored⟩ := e
  cases entity with
  | ofClass c => exact List.nil_sublist _
  | ofMember m =>
    unfold strayOf? charges
    dsimp only
    split
    · exact List.nil_sublist _
    · split
      · next hstray =>
        have hname : (memberOf <|> currentName? filename before) = some globalName := by
          rcases hstray with hsaid | ⟨hnone, houtside⟩
          · rw [hsaid]
            rfl
          · rw [hnone, h houtside]
            rfl
        rw [hname]
        exact List.Sublist.refl _
      · exact List.nil_sublist _

/-- Members that are for the global class are charged to its name. -/
theorem straysFrom_sublist (filename : String) (entries : List Entry) {before : List Entry}
    {outside : Bool} (h : outside = true → currentName? filename before = some globalName) :
    (straysFrom outside entries).Sublist
      (chargedTo (chargesAfter filename before entries) globalName) := by
  induction entries generalizing before outside with
  | nil => exact List.nil_sublist _
  | cons e entries ih =>
    rw [straysFrom, chargesAfter, chargedTo_append]
    refine (strayOf?_sublist filename h e).append (ih fun hnext => ?_)
    obtain ⟨houtside, hmember⟩ := Bool.and_eq_true_iff.1 hnext
    rw [currentName?_append, if_neg (by simpa using hmember)]
    exact h houtside

theorem strays_sublist (files : Files) :
    (strays files).Sublist (chargedTo (ledger files) globalName) := by
  induction files with
  | nil => exact List.nil_sublist _
  | cons f files ih =>
    rw [strays, List.flatMap_cons, ledger, List.flatMap_cons, chargedTo_append]
    exact (straysFrom_sublist f.1 f.2 fun _ => rfl).append ih

theorem pending_ofFiles (files : Files) :
    pending (ofFiles files) =
      if (roster files).find? globalName = none then chargedTo (ledger files) globalName else [] := by
  rw [pending, (follows_ofFiles files).waiting, lookup_waitingFor]
  by_cases hnone : (roster files).find? globalName = none
  · by_cases hmem : globalName ∈ (ledger files).map Prod.fst
    · rw [if_pos ⟨hmem, hnone⟩, if_pos hnone]
      rfl
    · rw [if_neg fun h => hmem h.1, if_pos hnone, chargedTo_eq_nil hmem]
      rfl
  · rw [if_neg fun h => hnone h.2, if_neg hnone]
    rfl

/-- While files are grouped, members are reported only if there is a global class, and then all of
them. -/
theorem reported_ofFiles (files : Files) :
    (reported (warningsOfFiles files)).Perm
      (if (roster files).find? globalName = none then [] else (strays files).map globalWarning) ∧
    ((roster files).find? globalName = none →
      (pending (ofFiles files)).Perm (strays files)) := by
  have hmoves := moves_ofFiles files
  have hstart : pending {} = [] := rfl
  rw [Moves, hstart, List.nil_append, pending_ofFiles] at hmoves
  rw [pending_ofFiles]
  by_cases hnone : (roster files).find? globalName = none
  · rw [if_pos hnone] at hmoves ⊢
    rw [if_pos hnone]
    -- Everybody who is charged to the name waits, so nobody is left to be reported.
    have hlength := hmoves.length_eq
    have hle := (strays_sublist files).length_le
    rw [List.length_append, List.length_map, List.length_map] at hlength
    have hempty : reported (warningsOfFiles files) = [] := List.length_eq_zero_iff.1 (by omega)
    have hall : strays files = chargedTo (ledger files) globalName :=
      (strays_sublist files).eq_of_length (by omega)
    rw [hempty, hall]
    exact ⟨List.Perm.refl _, fun _ => List.Perm.refl _⟩
  · rw [if_neg hnone, List.map_nil, List.append_nil] at hmoves
    rw [if_neg hnone]
    exact ⟨hmoves, fun h => absurd h hnone⟩

/-! ### The end -/

/-- Members that wait for the global class are dropped in the end. -/
def drops (g : Grouping) : Bool := (g.find? globalName).isNone && g.ignored.contains globalName

theorem reported_settle (g : Grouping) (w : String × List Member) :
    reported (g.settle w).2 =
      if w.1 = globalName ∧ g.drops = false then w.2.map globalWarning else [] := by
  obtain ⟨name, ms⟩ := w
  by_cases hglobal : name = globalName
  · subst hglobal
    unfold settle drops
    dsimp only
    cases g.find? globalName with
    | some i =>
      dsimp only
      rw [reported_globalWarnings, if_pos rfl, if_pos ⟨rfl, rfl⟩]
    | none =>
      dsimp only
      cases g.ignored.contains globalName with
      | true => rfl
      | false =>
        rw [if_neg Bool.false_ne_true, reported_globalWarnings, if_pos rfl, if_pos ⟨rfl, rfl⟩]
  · rw [if_neg fun h => hglobal h.1]
    unfold settle
    dsimp only
    split
    · rw [reported_globalWarnings, if_neg hglobal]
    · split
      · rfl
      · rw [reported_globalWarnings, if_neg hglobal]

/-- Settling who waits for another class changes nothing about the global one. -/
theorem drops_settle (g : Grouping) {w : String × List Member} (hw : w.1 ≠ globalName) :
    (g.settle w).1.drops = g.drops := by
  unfold settle
  dsimp only
  split
  · rfl
  · split
    · rfl
    · have hfind : (g.names ++ [(w.1, g.classes.length)]).lookup globalName =
          g.names.lookup globalName := by
        rw [List.lookup_append, lookup_cons_if, if_neg (Ne.symm hw), List.lookup_nil, Option.or_none]
      unfold drops find?
      dsimp only
      rw [hfind]

theorem reported_settleEach (ws : List (String × List Member)) (hkeys : (ws.map Prod.fst).Nodup)
    (g : Grouping) :
    reported (reportEach settle g ws).2 =
      if g.drops then [] else ((ws.lookup globalName).getD []).map globalWarning := by
  induction ws generalizing g with
  | nil =>
    rw [List.lookup_nil]
    split
    · rfl
    · rfl
  | cons w ws ih =>
    obtain ⟨hfresh, hkeys⟩ := List.nodup_cons.1 hkeys
    show reported ((g.settle w).2 ++ (reportEach settle (g.settle w).1 ws).2) = _
    rw [reported_append, reported_settle, ih hkeys, lookup_cons_if]
    by_cases hw : w.1 = globalName
    · -- Nobody else waits for the class.
      rw [hw] at hfresh
      rw [lookup_eq_none_of_not_mem hfresh, if_pos hw.symm]
      cases g.drops with
      | true => simp [hw]
      | false => simp [hw]
    · rw [drops_settle g hw, if_neg fun h => hw h.1, if_neg (Ne.symm hw), List.nil_append]

theorem not_known_global_iff {files : Files} :
    ¬ Known (classEntries files) globalName ↔ (roster files).find? globalName = none := by
  rw [known_classEntries, Bool.not_eq_true, Option.isSome_eq_false_iff, Option.isNone_iff_eq_none]

theorem drops_ofFiles_iff (files : Files) :
    (ofFiles files).drops = true ↔ LeavesOutGlobal files := by
  have hfollows := follows_ofFiles files
  rw [drops, hfollows.find?, hfollows.ignored, Bool.and_eq_true, Option.isNone_iff_eq_none,
    List.contains_iff_mem, LeavesOutGlobal, not_known_global_iff, and_comm]

theorem reported_settleAll (files : Files) :
    reported (ofFiles files).settleAll.2 =
      if (ofFiles files).drops then [] else (pending (ofFiles files)).map globalWarning := by
  have hkeys : ((ofFiles files).waiting.map Prod.fst).Nodup := by
    rw [(follows_ofFiles files).waiting, waitingFor, List.map_map]
    exact (List.map_id _).symm ▸ (nodup_distinct _).filter _
  exact reported_settleEach _ hkeys { ofFiles files with waiting := [] }

/-- Grouping and settling together report the members for the global class, each once, unless that is
left out. -/
theorem reported_all (files : Files) :
    (¬ LeavesOutGlobal files →
      (reported (warningsOfFiles files ++ (ofFiles files).settleAll.2)).Perm
        ((strays files).map globalWarning)) ∧
    (LeavesOutGlobal files →
      reported (warningsOfFiles files ++ (ofFiles files).settleAll.2) = []) := by
  obtain ⟨hgrouped, hwaiting⟩ := reported_ofFiles files
  rw [reported_append, reported_settleAll]
  refine ⟨fun hkept => ?_, fun hleft => ?_⟩
  · rw [if_neg fun h => hkept ((drops_ofFiles_iff files).1 h)]
    by_cases hnone : (roster files).find? globalName = none
    · rw [if_pos hnone, List.perm_nil] at hgrouped
      rw [hgrouped]
      exact (hwaiting hnone).map _
    · rw [if_neg hnone] at hgrouped
      rw [pending_ofFiles, if_neg hnone, List.map_nil, List.append_nil]
      exact hgrouped
  · rw [if_pos (not_known_global_iff.1 hleft.2), List.perm_nil] at hgrouped
    rw [if_pos ((drops_ofFiles_iff files).2 hleft), hgrouped]
    rfl

/-- A member for the global class is in a class of that name in the end. -/
theorem stray_settled {files : Files} (hkept : ¬ LeavesOutGlobal files) {m : Member}
    (hm : m ∈ strays files) :
    ∃ c ∈ (ofFiles files).settleAll.1.classes, globalName ∈ c.answers ∧ m ∈ c.members := by
  obtain ⟨⟨name, m'⟩, hp, rfl⟩ := List.mem_map.1 ((strays_sublist files).subset hm)
  obtain ⟨hledger, hname⟩ := List.mem_filter.1 hp
  obtain rfl : name = globalName := eq_of_beq hname
  have hagrees := (agrees_settleAll files).1
  have hknown : (fullRoster files).find? globalName ≠ none := by
    rw [Ne, find?_fullRoster_eq_none (List.mem_map_of_mem hledger), ← not_known_global_iff]
    exact fun h => hkept ⟨h.2, h.1⟩
  obtain ⟨i, hi⟩ := Option.ne_none_iff_exists'.1 hknown
  obtain ⟨c, hc, hanswers⟩ := answering_iff.1 hagrees.answering globalName i hi
  refine ⟨c, List.mem_of_getElem? hc, hanswers, (hagrees.landed i c hc).mem_iff.2 ?_⟩
  exact List.mem_map.2 ⟨(globalName, m'), List.mem_filter.2 ⟨hledger, by simp [hi]⟩, rfl⟩

theorem not_mem_answers_of_leavesOutGlobal {files : Files} (hleft : LeavesOutGlobal files) {c : ClassDoc}
    (hc : c ∈ (ofFiles files).settleAll.1.classes) : globalName ∉ c.answers := by
  intro hname
  obtain ⟨i, hi⟩ := List.getElem?_of_mem hc
  rcases settled_cases hi with hmade | ⟨own, hown, rfl⟩
  · obtain ⟨e, he, hmem⟩ := (hmade.answers globalName).1 hname
    exact hleft.2 ⟨e, (Roster.mem_entriesAt.1 he).1, hmem⟩
  · obtain rfl : globalName = own := List.mem_singleton.1 hname
    exact (mem_madeNames.1 hown).2.1 hleft.1

/-- A collector in which they are on keeps all warnings about global members. -/
theorem reported_filter_isOn {rules : List WarningRule}
    (hon : ∀ filename, Warnings.isOn rules .global filename = true) (ws : List Warning) :
    reported (ws.filter fun w => Warnings.isOn rules w.kind (Warnings.filenameOf w)) =
      reported ws := by
  rw [reported, List.filter_filter]
  refine List.filter_congr fun w _ => ?_
  by_cases hkind : w.kind = .global
  · rw [hkind, hon, Bool.and_true]
  · rw [beq_eq_false_iff_ne.2 hkind, Bool.false_and]

/-- Where warnings about global members are on, grouping files and settling who waits report each member
for the global class once, and no other member, and the member gets to a class of that name.  Only if
that class is left out, and no class entry that counts has its name, nobody is reported, and no class
has the name. -/
theorem global_members_reported (files : Files) {ws : Warnings}
    (hon : ∀ filename, Warnings.isOn ws.rules .global filename = true) :
    ∃ new, ((ws.addAll (warningsOfFiles files)).addAll (ofFiles files).settleAll.2).collected =
        ws.collected ++ new ∧
      (¬ LeavesOutGlobal files → (reported new).Perm ((strays files).map globalWarning) ∧
        ∀ m ∈ strays files, ∃ c ∈ (ofFiles files).settleAll.1.classes,
          globalName ∈ c.answers ∧ m ∈ c.members) ∧
      (LeavesOutGlobal files → reported new = [] ∧
        ∀ c ∈ (ofFiles files).settleAll.1.classes, globalName ∉ c.answers) := by
  obtain ⟨hall, hnone⟩ := reported_all files
  refine ⟨(warningsOfFiles files ++ (ofFiles files).settleAll.2).filter
    fun w => Warnings.isOn ws.rules w.kind (Warnings.filenameOf w), ?_, ?_, ?_⟩
  · rw [Warnings.collected_addAll, Warnings.collected_addAll, Warnings.rules_addAll,
      List.append_assoc, List.filter_append]
  · intro hkept
    rw [reported_filter_isOn hon]
    exact ⟨hall hkept, fun m hm => stray_settled hkept hm⟩
  · intro hleft
    rw [reported_filter_isOn hon]
    exact ⟨hnone hleft, fun c hc => not_mem_answers_of_leavesOutGlobal hleft hc⟩

/-- A collector for warnings about global members. -/
def globalsOnly : Warnings := { rules := [⟨some .global, true, none⟩] }

theorem isOn_globalsOnly (filename : String) :
    Warnings.isOn globalsOnly.rules .global filename = true := rfl

def method (name : String) : Entry := { entity := .ofMember (Member.ofName .method name) }

/-- A member before the global class and one behind it, and one in another file. -/
def aroundGlobal : Files :=
  [("a.js", [method "first", { entity := .ofClass { name := globalName } }, method "second"]),
    ("b.js", [method "third"])]

theorem global_members_around :
    (∀ filename, Warnings.isOn globalsOnly.rules .global filename = true) ∧
    ¬ LeavesOutGlobal aroundGlobal ∧
    (reported ((globalsOnly.addAll (warningsOfFiles aroundGlobal)).addAll
        (ofFiles aroundGlobal).settleAll.2).collected).Perm
      ([Member.ofName .method "first", Member.ofName .method "third"].map globalWarning) := by
  have hkept : ¬ LeavesOutGlobal aroundGlobal := fun h => absurd h.1 (by decide)
  obtain ⟨new, hnew, hall, -⟩ := global_members_reported aroundGlobal isOn_globalsOnly
  refine ⟨isOn_globalsOnly, hkept, ?_⟩
  rw [hnew]
  exact (hall hkept).1

/-- A member without a class, and a global class that is left out. -/
def besidesGlobal : Files :=
  [("a.js", [method "first"]),
    ("b.js", [{ entity := .ofClass { name := globalName }, isIgnored := true }])]

theorem dropped_unreported :
    (∀ filename, Warnings.isOn globalsOnly.rules .global filename = true) ∧
    strays besidesGlobal = [Member.ofName .method "first"] ∧
    ((globalsOnly.addAll (warningsOfFiles besidesGlobal)).addAll
      (ofFiles besidesGlobal).settleAll.2).collected = [] := by
  refine ⟨isOn_globalsOnly, ?_, ?_⟩
  · rfl
  · rfl

end Grouping
end ApiDoc
