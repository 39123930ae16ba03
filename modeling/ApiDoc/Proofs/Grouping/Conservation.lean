/-
No member is lost, none comes twice, and none goes astray.

In the end the members that still wait get classes, and then every class holds exactly the members
that are charged to its names (`members_conserved`).
-/
import ApiDoc.Proofs.Grouping.Folding
import ApiDoc.Proofs.Grouping.Run

namespace ApiDoc
namespace Grouping

/-- The class that is made for members that still wait for a name in the end. -/
def madeClass (l : List (String × Member)) (name : String) : ClassDoc :=
  { (bare name).addMembers (chargedTo l name) with
    files := filesWith (bare name) (chargedTo l name) }

section
variable {g : Grouping} {t : Roster} {l : List (String × Member)} {leftOut : List String}

theorem Roster.find?_add_name {t : Roster} {name : String} (hn : t.find? name = none) :
    (t.add (bare name)).find? = Function.update t.find? name (some t.heads.length) := by
  funext n
  rw [Roster.find?_add]
  show (t.find? n).or (if n ∈ [name] then some ((t.find? name).getD t.heads.length) else none) = _
  rw [hn]
  show (t.find? n).or (if n ∈ [name] then some t.heads.length else none) = _
  by_cases h : n = name
  · rw [h, hn, Function.update_self, if_pos (List.mem_singleton_self name)]
    rfl
  · rw [Function.update_of_ne h, if_neg (by simpa using h), Option.or_none]

/-- What waits for a name that no class has gets a class of that name. -/
theorem Agrees.makeClass (h : Agrees g t l leftOut) (ht : t.Valid) {name : String}
    (hn : t.find? name = none) {f : ClassDoc → ClassDoc}
    (hf : ∀ c, (f c).members = c.members ++ chargedTo l name)
    (hanswers : ∀ c, (f c).answers = c.answers) :
    Agrees
      { g with
        classes := (g.classes ++ [bare name]).modify g.classes.length f
        names := g.names ++ [(name, g.classes.length)] }
      (t.add (bare name)) l leftOut := by
  have hmap := map_modify_of_same hanswers (g.classes ++ [bare name]) g.classes.length
  refine ⟨?_, ?_, ?_, ?_, h.ignored⟩
  · show g.names ++ _ = t.names ++ [(name, (t.find? name).getD t.heads.length)]
    rw [hn, h.names, h.length]
    rfl
  · refine ((map_name_of_map_answers hmap).trans List.map_append).trans ?_
    rw [h.heads, Roster.add]
    show t.heads ++ [name] = if (t.find? name).isSome then t.heads else t.heads ++ [name]
    rw [hn]
    rfl
  · refine (h.answering.append fun n i hi => ?_).congr hmap
    have hcases := Roster.find?_add_cases hi
    rwa [show t.find? (bare name).name = none from hn, Option.getD_none, ← h.length] at hcases
  · have hempty : Landed (g.classes ++ [bare name]) (landedAt t.find? l) := by
      refine h.landed.append ?_ fun _ _ => rfl
      rw [h.landedAt_length ht]
      rfl
    refine hempty.modify hf ?_ ?_
    · rw [Roster.find?_add_name hn, h.length]
      exact landedAt_update_self hn l _
    · intro k hk
      rw [Roster.find?_add_name hn]
      exact landedAt_update_of_ne hn l (h.length ▸ hk)

theorem Agrees.settle (h : Agrees g t l leftOut) (ht : t.Valid) {name : String}
    (hn : t.find? name = none) :
    Agrees (g.settle (name, chargedTo l name)).1
        (t.addAll (if leftOut.contains name then [] else [bare name])) l leftOut ∧
      (g.settle (name, chargedTo l name)).1.waiting = g.waiting ∧
      (g.settle (name, chargedTo l name)).1.classes =
        g.classes ++ (if leftOut.contains name then [] else [name]).map (madeClass l) := by
  rw [Grouping.settle, h.find?, hn]
  dsimp only
  by_cases hleft : leftOut.contains name = true
  · rw [if_pos (h.ignored ▸ hleft), if_pos hleft, if_pos hleft]
    exact ⟨h, rfl, (List.append_nil _).symm⟩
  · rw [if_neg (h.ignored ▸ hleft), if_neg hleft, if_neg hleft]
    exact ⟨h.makeClass ht hn (by intro c; rfl) (by intro c; rfl), rfl,
      modify_concat_length g.classes (bare name) _⟩

/-- What waits is settled one name after the other. -/
theorem Agrees.settleNames (names : List String) (h : Agrees g t l leftOut) (ht : t.Valid)
    (hn : ∀ name ∈ names, t.find? name = none) (hdistinct : names.Nodup) :
    Agrees (reportEach Grouping.settle g (names.map fun name => (name, chargedTo l name))).1
        (t.addAll ((names.filter fun name => !leftOut.contains name).map bare))
        l leftOut ∧
      (reportEach Grouping.settle g (names.map fun name => (name, chargedTo l name))).1.waiting =
        g.waiting ∧
      (reportEach Grouping.settle g (names.map fun name => (name, chargedTo l name))).1.classes =
        g.classes ++ (names.filter fun name => !leftOut.contains name).map (madeClass l) := by
  induction names generalizing g t with
  | nil => exact ⟨h, rfl, (List.append_nil _).symm⟩
  | cons name names ih =>
    obtain ⟨hfresh, hdistinct⟩ := List.nodup_cons.1 hdistinct
    have hname := hn name List.mem_cons_self
    obtain ⟨hone, hwaiting, hclasses⟩ := h.settle ht hname
    have hrest : ∀ n ∈ names,
        (t.addAll (if leftOut.contains name then [] else [bare name])).find? n = none := by
      intro n hmem
      have hnone := hn n (List.mem_cons_of_mem name hmem)
      have hne : n ≠ name := fun heq => hfresh (heq ▸ hmem)
      split
      · exact hnone
      · show (t.add (bare name)).find? n = none
        rw [Roster.find?_add_name hname, Function.update_of_ne hne]
        exact hnone
    obtain ⟨hall, hkept, hmade⟩ := ih hone (ht.addAll _) hrest hdistinct
    rw [← Roster.addAll_append] at hall
    rw [hclasses, List.append_assoc, ← List.map_append] at hmade
    refine ⟨?_, hkept.trans hwaiting, hmade.trans ?_⟩
    · rw [List.filter_cons]
      by_cases hleft : leftOut.contains name = true
      · rw [if_pos hleft] at hall
        rw [hleft]
        exact hall
      · rw [if_neg hleft] at hall
        rw [if_pos (by simpa using hleft)]
        exact hall
    · rw [List.filter_cons]
      cases leftOut.contains name with
      | false => rfl
      | true => rfl

end

/-- Names that members wait for in the end get classes, behind those of the class entries, unless they
are left out. -/
theorem settled_all (files : Files) :
    Agrees (ofFiles files).settleAll.1 (fullRoster files) (ledger files) (leftOutNames files) ∧
      (ofFiles files).settleAll.1.waiting = [] ∧
      (ofFiles files).settleAll.1.classes =
        (ofFiles files).classes ++ (madeNames files).map (madeClass (ledger files)) := by
  have h := follows_ofFiles files
  have hstart : Agrees { ofFiles files with waiting := [] } (roster files) (ledger files)
      (leftOutNames files) := ⟨h.names, h.heads, h.answering, h.landed, h.ignored⟩
  have hsettled := hstart.settleNames
    ((distinct ((ledger files).map Prod.fst)).filter fun name => ((roster files).find? name).isNone)
    (Roster.valid_empty.addAll _) (fun name hname => (mem_waitingNames.1 hname).2)
    ((nodup_distinct _).filter _)
  rw [List.filter_filter] at hsettled
  rw [settleAll, h.waiting]
  exact hsettled

theorem agrees_settleAll (files : Files) :
    Agrees (ofFiles files).settleAll.1 (fullRoster files) (ledger files) (leftOutNames files) ∧
      (ofFiles files).settleAll.1.waiting = [] :=
  ⟨(settled_all files).1, (settled_all files).2.1⟩

theorem classes_settleAll (files : Files) :
    (ofFiles files).settleAll.1.classes =
      (ofFiles files).classes ++ (madeNames files).map (madeClass (ledger files)) :=
  (settled_all files).2.2

theorem find?_addAll_bare_eq_none {t : Roster} {names : List String} {name : String} :
    (t.addAll (names.map bare)).find? name = none ↔ t.find? name = none ∧ name ∉ names := by
  induction names generalizing t with
  | nil => simp [Roster.addAll]
  | cons n names ih =>
    show ((t.add (bare n)).addAll (names.map bare)).find? name = none ↔ _
    rw [ih, Roster.find?_add, Option.or_eq_none_iff]
    have hanswers : (bare n).answers = [n] := rfl
    rw [hanswers]
    by_cases hname : name = n
    · simp [hname]
    · simp [hname]

theorem heads_addAll_bare {t : Roster} {names : List String} (hn : ∀ name ∈ names, t.find? name = none)
    (hdistinct : names.Nodup) : (t.addAll (names.map bare)).heads = t.heads ++ names := by
  induction names generalizing t with
  | nil => exact (List.append_nil _).symm
  | cons name names ih =>
    obtain ⟨hfresh, hdistinct⟩ := List.nodup_cons.1 hdistinct
    have hname := hn name List.mem_cons_self
    have hrest : ∀ n ∈ names, (t.add (bare name)).find? n = none := by
      intro n hmem
      have hne : n ≠ name := fun heq => hfresh (heq ▸ hmem)
      rw [Roster.find?_add_name hname, Function.update_of_ne hne]
      exact hn n (List.mem_cons_of_mem name hmem)
    have hone : (t.add (bare name)).heads = t.heads ++ [name] := by
      show (if (t.find? name).isSome then t.heads else t.heads ++ [name]) = _
      rw [hname]
      rfl
    show ((t.add (bare name)).addAll (names.map bare)).heads = _
    rw [ih hrest hdistinct, hone, List.append_assoc]
    rfl

theorem mem_madeNames {files : Files} {name : String} :
    name ∈ madeNames files ↔ name ∈ (ledger files).map Prod.fst ∧
      name ∉ leftOutNames files ∧ (roster files).find? name = none := by
  rw [madeNames, List.mem_filter, mem_distinct]
  simp

theorem heads_fullRoster (files : Files) :
    (fullRoster files).heads = (roster files).heads ++ madeNames files :=
  heads_addAll_bare (fun _ hname => (mem_madeNames.1 hname).2.2) ((nodup_distinct _).filter _)

theorem valid_fullRoster (files : Files) : (fullRoster files).Valid :=
  (Roster.valid_empty.addAll _).addAll _

/-- Members have no class in the end only if theirs was left out and never came. -/
theorem find?_fullRoster_eq_none {files : Files} {name : String}
    (h : name ∈ (ledger files).map Prod.fst) :
    (fullRoster files).find? name = none ↔
      (roster files).find? name = none ∧ name ∈ leftOutNames files := by
  rw [fullRoster, find?_addAll_bare_eq_none, mem_madeNames]
  constructor
  · rintro ⟨hnone, hmade⟩
    refine ⟨hnone, ?_⟩
    by_contra hleft
    exact hmade ⟨h, hleft, hnone⟩
  · rintro ⟨hnone, hleft⟩
    exact ⟨hnone, fun hmade => hmade.2.1 hleft⟩

/-- A name that no class entry has stands for a class that has it as its own name, if for any. -/
theorem head_of_find?_fullRoster {files : Files} {name : String} {i : Nat}
    (hi : (fullRoster files).find? name = some i) (hnone : (roster files).find? name = none) :
    (fullRoster files).heads[i]? = some name := by
  have hmade : name ∈ madeNames files := by
    by_contra hmade
    have h := find?_addAll_bare_eq_none.2 ⟨hnone, hmade⟩
    rw [fullRoster, h] at hi
    exact absurd hi (by simp)
  have hhead : name ∈ (fullRoster files).heads := by
    rw [heads_fullRoster]
    exact List.mem_append_right _ hmade
  obtain ⟨k, hk⟩ := List.getElem?_of_mem hhead
  have hown := (valid_fullRoster files).own k name hk
  rw [hi] at hown
  rw [Option.some.inj hown]
  exact hk

theorem answersTo_of_mem {c : ClassDoc} {name : String} (h : name ∈ c.answers) :
    c.answersTo name = true := by
  rcases List.mem_cons.1 h with rfl | h
  · simp [ClassDoc.answersTo]
  · simp [ClassDoc.answersTo, h]

/-- The classes together have all members whose names stand for classes. -/
theorem Landed.members_perm {classes : List ClassDoc} {land : String → Option Nat}
    {l : List (String × Member)} (h : Landed classes (landedAt land l))
    (hlt : ∀ name i, land name = some i → i < classes.length) :
    (classes.flatMap ClassDoc.members).Perm
      ((l.filter fun p => (land p.1).isSome).map Prod.snd) := by
  have hbuckets := flatMap_perm_range classes ClassDoc.members (landedAt land l) h
  have hall : (l.filter fun p => (land p.1).any fun i => decide (i < classes.length)) =
      l.filter fun p => (land p.1).isSome := by
    refine List.filter_congr fun p _ => ?_
    cases hp : land p.1 with
    | none => rfl
    | some i => simpa using hlt p.1 i hp
  have hsorted := range_flatMap_filter_perm l (fun p => land p.1) (fun p => [p.2]) classes.length
  rw [hall, ← List.map_eq_flatMap] at hsorted
  have hblocks : landedAt land l = fun i =>
      (l.filter fun p => land p.1 == some i).flatMap fun p => [p.2] := by
    funext i
    exact List.map_eq_flatMap
  rw [← hblocks] at hsorted
  exact hbuckets.trans hsorted

/-- Grouping files and settling what waits leaves nothing waiting.  The classes are those of the class
entries and then one for each name that members are for and no class has, unless it is left out.
Every class holds, in some order, exactly the members that are charged to the names which stand for
it, and it answers to those names; a name that no class entry has stands for a class made under it.
Members are missing only where their class was left out and never came.  Folding classes that share
names moves the members of each class, in their order, into one class that answers to its name. -/
theorem members_conserved (files : Files) :
    let done := (ofFiles files).settleAll.1
    let home := (fullRoster files).find?
    let kept := (Unified.ofClasses done.classes).1.classes
    done.waiting = [] ∧
      done.classes.map ClassDoc.name = (roster files).heads ++ madeNames files ∧
      (∀ (i : Nat) (c : ClassDoc), done.classes[i]? = some c →
        c.members.Perm (((ledger files).filter fun p => home p.1 == some i).map Prod.snd)) ∧
      (∀ name i, home name = some i → ∃ c, done.classes[i]? = some c ∧ c.answersTo name = true ∧
        ((roster files).find? name = none → c.name = name)) ∧
      (∀ p ∈ ledger files, home p.1 = none ↔
        (roster files).find? p.1 = none ∧ p.1 ∈ leftOutNames files) ∧
      (done.classes.flatMap ClassDoc.members).Perm
        (((ledger files).filter fun p => (home p.1).isSome).map Prod.snd) ∧
      (kept.flatMap ClassDoc.members).Perm (done.classes.flatMap ClassDoc.members) ∧
      ∃ placed : List (ClassDoc × Nat), placed.map Prod.fst = done.classes ∧
        (∀ (k : Nat) (c : ClassDoc), kept[k]? = some c →
          c.members = (placed.filter fun p => p.2 == k).flatMap fun p => p.1.members) ∧
        ∀ p ∈ placed, ∃ c, kept[p.2]? = some c ∧ c.answersTo p.1.name = true := by
  intro done home kept
  obtain ⟨hagrees, hwaiting⟩ := agrees_settleAll files
  obtain ⟨placed, hplaced, hkept⟩ := Unified.ofClasses_holds done.classes
  refine ⟨hwaiting, hagrees.heads.trans (heads_fullRoster files), hagrees.landed, ?_, ?_, ?_, ?_,
    placed, hplaced, hkept.members, ?_⟩
  · intro name i hi
    obtain ⟨c, hc, hmem⟩ := answering_iff.1 hagrees.answering name i hi
    refine ⟨c, hc, answersTo_of_mem hmem, fun hnone => ?_⟩
    have hhead := head_of_find?_fullRoster hi hnone
    rw [← hagrees.heads, List.getElem?_map, hc] at hhead
    exact Option.some.inj hhead
  · intro p hp
    exact find?_fullRoster_eq_none (List.mem_map_of_mem hp)
  · refine hagrees.landed.members_perm fun name i hi => ?_
    rw [hagrees.length]
    exact (valid_fullRoster files).lt name i hi
  · rw [← hplaced]
    exact hkept.members_perm
  · intro p hp
    obtain ⟨c, hc, hmem⟩ := hkept.answering p hp
    exact ⟨c, hc, answersTo_of_mem hmem⟩

end Grouping
end ApiDoc
