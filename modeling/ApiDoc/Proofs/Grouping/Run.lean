/-
Grouping keeps the account.

After any number of entries the classes hold the members that are charged to their names, and the
members that wait are those whose names have no class (`Follows`).  A member comes to its class in four
ways: with a class entry, straight into a class that is known, from among those that wait when the
class comes, and at the end.
-/
import ApiDoc.Proofs.Grouping.Account

namespace ApiDoc
namespace Grouping

/-- Every class holds the members that it should have, in some order. -/
def Landed (classes : List ClassDoc) (want : Nat → List Member) : Prop :=
  ∀ (i : Nat) (c : ClassDoc), classes[i]? = some c → c.members.Perm (want i)

theorem Landed.modify {classes : List ClassDoc} {want want' : Nat → List Member}
    (h : Landed classes want) {i : Nat} {f : ClassDoc → ClassDoc} {ms : List Member}
    (hf : ∀ c, (f c).members = c.members ++ ms) (hi : (want' i).Perm (want i ++ ms))
    (hk : ∀ k, k ≠ i → want' k = want k) : Landed (classes.modify i f) want' := by
  intro k c hc
  rw [List.getElem?_modify] at hc
  obtain ⟨old, hold, rfl⟩ := Option.map_eq_some_iff.1 hc
  by_cases hik : i = k
  · subst hik
    rw [if_pos rfl, hf]
    exact ((h i old hold).append_right ms).trans hi.symm
  · rw [if_neg hik, hk k (Ne.symm hik)]
    exact h k old hold

theorem Landed.append {classes : List ClassDoc} {want want' : Nat → List Member}
    (h : Landed classes want) {c : ClassDoc} (hc : c.members.Perm (want' classes.length))
    (hk : ∀ k, k < classes.length → want' k = want k) : Landed (classes ++ [c]) want' := by
  intro k c' hc'
  rcases getElem?_concat_cases hc' with hold | ⟨rfl, rfl⟩
  · rw [hk k (List.getElem?_eq_some_iff.1 hold).1]
    exact h k c' hold
  · exact hc

theorem Landed.congr {classes : List ClassDoc} {want want' : Nat → List Member}
    (h : Landed classes want) (hw : ∀ k, (want' k).Perm (want k)) : Landed classes want' :=
  fun i c hc => (h i c hc).trans (hw i).symm

/-- The classes answer to the names that stand for them. -/
def Answering (classes : List ClassDoc) (find? : String → Option Nat) : Prop :=
  ∀ name i, find? name = some i → ∃ names, (classes.map ClassDoc.answers)[i]? = some names ∧
    name ∈ names

theorem Answering.congr {classes classes' : List ClassDoc} {find? : String → Option Nat}
    (h : Answering classes find?)
    (hc : classes'.map ClassDoc.answers = classes.map ClassDoc.answers) :
    Answering classes' find? := by
  rw [Answering, hc]
  exact h

theorem answering_iff {classes : List ClassDoc} {find? : String → Option Nat} :
    Answering classes find? ↔
      ∀ name i, find? name = some i → ∃ c, classes[i]? = some c ∧ name ∈ c.answers := by
  unfold Answering
  constructor
  · intro h name i hi
    obtain ⟨names, hnames, hmem⟩ := h name i hi
    rw [List.getElem?_map] at hnames
    obtain ⟨c, hc, rfl⟩ := Option.map_eq_some_iff.1 hnames
    exact ⟨c, hc, hmem⟩
  · intro h name i hi
    obtain ⟨c, hc, hmem⟩ := h name i hi
    exact ⟨c.answers, by rw [List.getElem?_map, hc]; rfl, hmem⟩

/-- A class that takes another one in answers to the names of both. -/
theorem Answering.merge {classes : List ClassDoc} {find? find?' : String → Option Nat} {c : ClassDoc}
    {i : Nat} (h : Answering classes find?) (hi : find? c.name = some i)
    (hnew : ∀ name k, find?' name = some k → find? name = some k ∨ name ∈ c.answers ∧ k = i) :
    Answering (classes.modify i fun old => old.merge c) find?' := by
  rw [answering_iff] at h ⊢
  intro name k hk
  have hold : ∃ old, classes[k]? = some old ∧
      (name ∈ old.answers ∨ i = k ∧ name ∈ c.alternateNames) := by
    rcases hnew name k hk with hk | ⟨hmem, rfl⟩
    · obtain ⟨old, hold, hname⟩ := h name k hk
      exact ⟨old, hold, Or.inl hname⟩
    · obtain ⟨old, hold, hown⟩ := h c.name k hi
      refine ⟨old, hold, ?_⟩
      rcases List.mem_cons.1 hmem with rfl | halternate
      · exact Or.inl hown
      · exact Or.inr ⟨rfl, halternate⟩
  obtain ⟨old, hold, hname⟩ := hold
  rw [List.getElem?_modify, hold]
  by_cases hik : i = k
  · exact ⟨old.merge c, by simp [hik], ClassDoc.mem_answers_merge.2 (hname.imp_right And.right)⟩
  · exact ⟨old, by simp [hik], hname.resolve_right fun hnew => hik hnew.1⟩

theorem Answering.append {classes : List ClassDoc} {find? find?' : String → Option Nat} {c : ClassDoc}
    (h : Answering classes find?)
    (hnew : ∀ name k, find?' name = some k →
      find? name = some k ∨ name ∈ c.answers ∧ k = classes.length) :
    Answering (classes ++ [c]) find?' := by
  rw [answering_iff] at h ⊢
  intro name k hk
  rcases hnew name k hk with hk | ⟨hmem, rfl⟩
  · obtain ⟨old, hold, hname⟩ := h name k hk
    refine ⟨old, ?_, hname⟩
    rw [List.getElem?_append_left (List.getElem?_eq_some_iff.1 hold).1, hold]
  · exact ⟨c, List.getElem?_concat_length, hmem⟩

/-- The grouping `g` is what the account says: its names and classes are those of the roster, and every
class holds what is charged to its names. -/
structure Agrees (g : Grouping) (t : Roster) (l : List (String × Member)) (leftOut : List String) :
    Prop where
  names : g.names = t.names
  heads : g.classes.map ClassDoc.name = t.heads
  answering : Answering g.classes t.find?
  landed : Landed g.classes (landedAt t.find? l)
  ignored : g.ignored = leftOut

/-- Besides, the members without a class wait. -/
structure Follows (g : Grouping) (t : Roster) (l : List (String × Member)) (leftOut : List String) :
    Prop extends Agrees g t l leftOut where
  waiting : g.waiting = waitingFor t.find? l

section
variable {g : Grouping} {t : Roster} {l : List (String × Member)} {leftOut : List String}

theorem Agrees.find? (h : Agrees g t l leftOut) (name : String) : g.find? name = t.find? name := by
  rw [Grouping.find?, h.names]
  rfl

theorem Agrees.length (h : Agrees g t l leftOut) : g.classes.length = t.heads.length := by
  rw [← h.heads, List.length_map]

theorem Agrees.landedAt_length (h : Agrees g t l leftOut) (ht : t.Valid) :
    landedAt t.find? l g.classes.length = [] := by
  refine landedAt_eq_nil (fun name hname => ?_) l
  have := ht.lt name _ hname
  rw [h.length] at this
  exact Nat.lt_irrefl _ this

theorem Follows.addMembersAt (h : Follows g t l leftOut) {name : String} {i : Nat}
    (hi : t.find? name = some i) (m : Member) :
    Follows (g.addMembersAt i [m]) t (l ++ [(name, m)]) leftOut := by
  have hcharged := landedAt_append_of_some hi l [m]
  have hheads := map_modify_of_same (g := ClassDoc.name) (f := fun c => c.addMembers [m])
    (fun _ => rfl) g.classes i
  have hanswers := map_modify_of_same (g := ClassDoc.answers) (f := fun c => c.addMembers [m])
    (fun _ => rfl) g.classes i
  refine ⟨⟨h.names, hheads.trans h.heads, ?_, ?_, h.ignored⟩, ?_⟩
  · exact h.answering.congr hanswers
  · have hmembers : ∀ c : ClassDoc, (c.addMembers [m]).members = c.members ++ [m] := fun _ => rfl
    refine h.landed.modify hmembers ?_ ?_
    · exact List.Perm.of_eq ((hcharged i).trans (by rw [if_pos rfl]))
    · intro k hk
      exact (hcharged k).trans (by rw [if_neg hk, List.append_nil])
  · exact h.waiting.trans (waitingFor_append_of_some hi l [m]).symm

theorem Follows.enqueue (h : Follows g t l leftOut) {name : String} (hn : t.find? name = none)
    (m : Member) :
    Follows { g with waiting := ApiDoc.enqueue name m g.waiting } t (l ++ [(name, m)]) leftOut := by
  refine ⟨⟨h.names, h.heads, h.answering, ?_, h.ignored⟩, ?_⟩
  · refine h.landed.congr fun k => ?_
    rw [landedAt_append]
    have hnone := landedAt_map_pair t.find? name [m] k
    rw [hn, if_neg (by simp)] at hnone
    rw [show landedAt t.find? [(name, m)] k = [] from hnone, List.append_nil]
  · rw [← enqueue_waitingFor hn, ← h.waiting]

theorem Follows.assign (h : Follows g t l leftOut) (name : String) (m : Member) :
    Follows (g.assign name m).1 t (l ++ [(name, m)]) leftOut := by
  rw [Grouping.assign, h.find?]
  cases hn : t.find? name with
  | some i => exact h.addMembersAt hn m
  | none => exact h.enqueue hn m

end

/-- A name without a class gets the class at `i`: the members that wait for the name move. -/
theorem adopt_waiting_landed {g : Grouping} {i : Nat} {name : String} {land : String → Option Nat}
    {extra : Nat → List Member} {l : List (String × Member)}
    (hi : g.find? name = some i) (hnone : land name = none)
    (hl : Landed g.classes fun k => extra k ++ landedAt land l k)
    (hw : g.waiting = waitingFor land l) :
    Landed (adopt i g name).1.classes
        (fun k => extra k ++ landedAt (Function.update land name (some i)) l k) ∧
      (adopt i g name).1.waiting = waitingFor (Function.update land name (some i)) l := by
  have hmoved : (extra i ++ landedAt (Function.update land name (some i)) l i).Perm
      ((extra i ++ landedAt land l i) ++ chargedTo l name) := by
    rw [List.append_assoc]
    exact (landedAt_update_self hnone l i).append_left (extra i)
  have hstayed : ∀ k, k ≠ i →
      extra k ++ landedAt (Function.update land name (some i)) l k =
        extra k ++ landedAt land l k := by
    intro k hk
    rw [landedAt_update_of_ne hnone l hk]
  unfold adopt
  rw [if_pos (by simpa using hi), hw, lookup_waitingFor, waitingFor_update]
  by_cases hmem : name ∈ l.map Prod.fst
  · rw [if_pos ⟨hmem, hnone⟩]
    exact ⟨hl.modify (fun _ => rfl) hmoved hstayed, rfl⟩
  · -- Nothing is charged to the name, so nothing waits for it either.
    rw [if_neg fun h => hmem h.1]
    refine ⟨hl.congr fun k => ?_, ?_⟩
    · by_cases hk : k = i
      · rw [chargedTo_eq_nil hmem, List.append_nil] at hmoved
        exact hk ▸ hmoved
      · rw [hstayed k hk]
    · refine hw.trans (List.filter_eq_self.2 fun w hwait => ?_).symm
      obtain ⟨n, hn, rfl⟩ := List.mem_map.1 hwait
      have hne : n ≠ name := fun h => hmem (h ▸ (mem_waitingNames.1 hn).1)
      simpa using hne

/-- One name gets its class, if the class at `i` is its class: the members that wait for it move. -/
theorem adopt_landed {g : Grouping} {i : Nat} {name : String} {land : String → Option Nat}
    {extra : Nat → List Member} {l : List (String × Member)}
    (hland : land name = none ∨ land name = g.find? name)
    (hl : Landed g.classes fun k => extra k ++ landedAt land l k)
    (hw : g.waiting = waitingFor land l) :
    ∃ land' : String → Option Nat,
      (∀ n, land' n = if n = name ∧ g.find? n = some i then some i else land n) ∧
      Landed (adopt i g name).1.classes (fun k => extra k ++ landedAt land' l k) ∧
      (adopt i g name).1.waiting = waitingFor land' l := by
  by_cases hi : g.find? name = some i
  · refine ⟨Function.update land name (some i), ?_, ?_⟩
    · intro n
      by_cases hn : n = name
      · rw [hn, Function.update_self, if_pos ⟨rfl, hi⟩]
      · rw [Function.update_of_ne hn, if_neg fun h => hn h.1]
    · rcases hland with hnone | hsome
      · exact adopt_waiting_landed hi hnone hl hw
      · -- The name had the class before, so nobody waits for it.
        rw [hi] at hsome
        have hsame : Function.update land name (some i) = land := by
          rw [← hsome, Function.update_eq_self]
        unfold adopt
        rw [if_pos (by simpa using hi), hsame, hw, lookup_waitingFor,
          if_neg (by rw [hsome]; simp)]
        exact ⟨hl, hw⟩
  · unfold adopt
    rw [if_neg (by simpa using hi)]
    refine ⟨land, ?_, hl, hw⟩
    intro n
    rw [if_neg]
    rintro ⟨rfl, h⟩
    exact hi h

theorem adopt_frame (i : Nat) (g : Grouping) (name : String) :
    (adopt i g name).1.names = g.names ∧ (adopt i g name).1.ignored = g.ignored ∧
      (adopt i g name).1.classes.map ClassDoc.answers = g.classes.map ClassDoc.answers := by
  unfold adopt
  split
  · split
    · next ms _ =>
      exact ⟨rfl, rfl, map_modify_of_same (f := fun c => c.addMembers ms) (fun _ => rfl) g.classes i⟩
    · exact ⟨rfl, rfl, rfl⟩
  · exact ⟨rfl, rfl, rfl⟩

theorem adoptAll_frame (i : Nat) (names : List String) (g : Grouping) :
    (reportEach (adopt i) g names).1.names = g.names ∧
      (reportEach (adopt i) g names).1.ignored = g.ignored ∧
      (reportEach (adopt i) g names).1.classes.map ClassDoc.answers =
        g.classes.map ClassDoc.answers := by
  induction names generalizing g with
  | nil => exact ⟨rfl, rfl, rfl⟩
  | cons name names ih =>
    obtain ⟨hnames, hignored, hanswers⟩ := adopt_frame i g name
    obtain ⟨hnames', hignored', hanswers'⟩ := ih (adopt i g name).1
    exact ⟨hnames'.trans hnames, hignored'.trans hignored, hanswers'.trans hanswers⟩

theorem map_name_of_map_answers {classes classes' : List ClassDoc}
    (h : classes'.map ClassDoc.answers = classes.map ClassDoc.answers) :
    classes'.map ClassDoc.name = classes.map ClassDoc.name := by
  have hhead : ∀ cs : List ClassDoc,
      cs.map ClassDoc.name = (cs.map ClassDoc.answers).map fun names => names.headD "" := by
    intro cs
    rw [List.map_map]
    rfl
  rw [hhead, hhead, h]

/-- All names of a class get it, and the members that wait for them move. -/
theorem adoptAll_landed {i : Nat} (names : List String) {g : Grouping}
    {land : String → Option Nat} {extra : Nat → List Member} {l : List (String × Member)}
    (hland : ∀ n, land n = none ∨ land n = g.find? n)
    (hl : Landed g.classes fun k => extra k ++ landedAt land l k)
    (hw : g.waiting = waitingFor land l) :
    ∃ land' : String → Option Nat,
      (∀ n, land' n = if n ∈ names ∧ g.find? n = some i then some i else land n) ∧
      Landed (reportEach (adopt i) g names).1.classes (fun k => extra k ++ landedAt land' l k) ∧
      (reportEach (adopt i) g names).1.waiting = waitingFor land' l := by
  induction names generalizing g land with
  | nil => exact ⟨land, fun n => by simp, hl, hw⟩
  | cons name names ih =>
    obtain ⟨land₁, hland₁, hl₁, hw₁⟩ := adopt_landed (hland name) hl hw
    have hfind : (adopt i g name).1.find? = g.find? := by
      funext n
      rw [Grouping.find?, (adopt_frame i g name).1]
      rfl
    have hstill : ∀ n, land₁ n = none ∨ land₁ n = (adopt i g name).1.find? n := by
      intro n
      rw [hland₁, hfind]
      by_cases hn : n = name ∧ g.find? n = some i
      · rw [if_pos hn]
        exact Or.inr hn.2.symm
      · rw [if_neg hn]
        exact hland n
    obtain ⟨land', hland', hl', hw'⟩ := ih hstill hl₁ hw₁
    refine ⟨land', fun n => ?_, hl', hw'⟩
    rw [hland', hland₁, hfind]
    by_cases hi : g.find? n = some i
    · by_cases hn : n = name
      · subst hn
        simp [hi]
      · simp [hi, hn]
    · simp [hi]

section
variable {g : Grouping} {t : Roster} {l : List (String × Member)} {leftOut : List String}

theorem Follows.place_frame (h : Follows g t l leftOut) (c : ClassDoc) :
    (g.place c).2 = (t.find? c.name).getD t.heads.length ∧
      (g.place c).1.names = g.names ∧ (g.place c).1.waiting = g.waiting ∧
      (g.place c).1.ignored = g.ignored ∧
      (g.place c).1.classes.map ClassDoc.name = (t.add c).heads := by
  unfold Grouping.place Roster.add
  rw [h.find?]
  cases hc : t.find? c.name with
  | some i =>
    refine ⟨rfl, rfl, rfl, rfl, ?_⟩
    exact (map_modify_of_same (f := fun old => old.merge c) (fun _ => rfl) g.classes i).trans h.heads
  | none =>
    refine ⟨h.length, rfl, rfl, rfl, ?_⟩
    rw [List.map_append, h.heads]
    rfl

theorem Follows.place_answering (h : Follows g t l leftOut) (c : ClassDoc) :
    Answering (g.place c).1.classes (t.add c).find? := by
  have hnew : ∀ name k, (t.add c).find? name = some k → t.find? name = some k ∨
      name ∈ c.answers ∧ k = (t.find? c.name).getD t.heads.length :=
    fun _ _ => Roster.find?_add_cases
  unfold Grouping.place
  rw [h.find?]
  cases hc : t.find? c.name with
  | some i =>
    rw [hc, Option.getD_some] at hnew
    exact h.answering.merge hc hnew
  | none =>
    rw [hc, Option.getD_none, ← h.length] at hnew
    exact h.answering.append hnew

/-- The class at the place of a class entry gets its members, before any that wait. -/
theorem Follows.place_landed (h : Follows g t l leftOut) (ht : t.Valid) (c : ClassDoc) :
    Landed (g.place c).1.classes fun k =>
      (if k = (g.place c).2 then c.members else []) ++ landedAt t.find? l k := by
  unfold Grouping.place
  rw [h.find?]
  cases hc : t.find? c.name with
  | some i =>
    refine h.landed.modify (f := fun old => old.merge c) (fun _ => rfl) ?_ ?_
    · show ((if i = i then c.members else []) ++ landedAt t.find? l i).Perm _
      rw [if_pos rfl]
      exact List.perm_append_comm
    · intro k hk
      show (if k = i then c.members else []) ++ landedAt t.find? l k = _
      rw [if_neg hk, List.nil_append]
  | none =>
    refine h.landed.append ?_ ?_
    · show c.members.Perm ((if _ = _ then c.members else []) ++ landedAt t.find? l _)
      rw [if_pos rfl, h.landedAt_length ht, List.append_nil]
    · intro k hk
      show (if k = g.classes.length then c.members else []) ++ landedAt t.find? l k = _
      rw [if_neg (Nat.ne_of_lt hk), List.nil_append]

/-- A class entry brings its members to the class of its name. -/
theorem Follows.addNamed (h : Follows g t l leftOut) (ht : t.Valid) (c : ClassDoc) :
    Follows (g.addNamed c).1.1 (t.add c) (l ++ c.members.map fun m => (c.name, m)) leftOut ∧
      ∃ i, (g.addNamed c).1.2 = .inClass i ∧ (t.add c).find? c.name = some i := by
  obtain ⟨hplace, hnames, hwaiting, hignored, hheads⟩ := h.place_frame c
  have hlanded := h.place_landed ht c
  have hanswering := h.place_answering c
  have hself := t.find?_add_self c
  rw [← hplace] at hself
  have hregistered : ((g.place c).1.register c.answers (g.place c).2).find? = (t.add c).find? := by
    funext name
    rw [Grouping.find?, register, hnames, h.names, hplace]
    rfl
  have hland : ∀ n, t.find? n = none ∨
      t.find? n = ((g.place c).1.register c.answers (g.place c).2).find? n := by
    intro n
    rw [hregistered]
    cases hn : t.find? n with
    | none => exact Or.inl rfl
    | some k => exact Or.inr (Roster.find?_add_of_some hn c).symm
  obtain ⟨land, hland', hl, hw⟩ := adoptAll_landed (i := (g.place c).2) c.answers hland hlanded
    (hwaiting.trans h.waiting)
  obtain ⟨hnames', hignored', hanswers⟩ := adoptAll_frame (g.place c).2 c.answers
    ((g.place c).1.register c.answers (g.place c).2)
  have hdone : land = (t.add c).find? := by
    funext n
    rw [hland', hregistered, Roster.find?_add, ← hplace]
    cases hn : t.find? n with
    | some k =>
      rw [Option.some_or]
      split
      · next hi => exact hi.2.symm
      · rfl
    | none => simp
  subst hdone
  refine ⟨⟨⟨?_, (map_name_of_map_answers hanswers).trans hheads, ?_, ?_, ?_⟩, ?_⟩, (g.place c).2,
    rfl, hself⟩
  · refine hnames'.trans ?_
    rw [register, hnames, h.names, hplace]
    rfl
  · exact hanswering.congr hanswers
  · refine hl.congr fun k => ?_
    rw [landedAt_append_of_some hself]
    exact List.perm_append_comm
  · exact hignored'.trans (hignored.trans h.ignored)
  · exact hw.trans (waitingFor_append_of_some hself l c.members).symm

/-- Members that name no class go to the class that is current in their file. -/
def Fits (t : Roster) (current : Option String) : Place → Prop
  | .outside => current = some globalName
  | .inClass i => ∃ name, current = some name ∧ t.find? name = some i
  | .leftOut => current = none

theorem Follows.addMember (h : Follows g t l leftOut) {current : Option String} {place : Place}
    (hp : Fits t current place) (memberOf : Option String) (m : Member) :
    Follows (g.addMember place memberOf m).1 t
      (l ++ (memberOf <|> current).toList.map fun name => (name, m)) leftOut := by
  cases memberOf with
  | some target => exact h.assign target m
  | none =>
    cases place with
    | outside =>
      obtain rfl : current = some globalName := hp
      exact h.assign globalName m
    | inClass i =>
      obtain ⟨name, rfl, hi⟩ := hp
      exact h.addMembersAt hi m
    | leftOut =>
      obtain rfl : current = none := hp
      show Follows g t (l ++ []) leftOut
      rw [List.append_nil]
      exact h

theorem currentName?_append (filename : String) (before : List Entry) (e : Entry) :
    currentName? filename (before ++ [e]) =
      if isClassEntry e then (namedClass? filename e).map ClassDoc.name
      else currentName? filename before := by
  rw [currentName?, List.reverse_append, List.reverse_singleton, List.singleton_append,
    List.find?_cons]
  cases isClassEntry e with
  | true => rfl
  | false => rfl

/-- What a class entry does: it adds a class, or it leaves one out. -/
theorem addEntry_ofClass (filename : String) (s : Grouping × Place) (c : ClassDoc)
    (memberOf : Option String) (isIgnored : Bool) :
    (addEntry filename s ⟨.ofClass c, memberOf, isIgnored⟩).1 =
      match namedClass? filename ⟨.ofClass c, memberOf, isIgnored⟩ with
      | some c => (s.1.addNamed c).1
      | none =>
        ({ s.1 with ignored :=
            s.1.ignored ++ (leftOutName? filename ⟨.ofClass c, memberOf, isIgnored⟩).toList },
          .leftOut) := by
  show (s.1.addClass filename c isIgnored).1 = _
  have hnil : ({ s.1 with ignored := s.1.ignored ++ [] } : Grouping) = s.1 := by
    rw [List.append_nil]
  have hnamed : namedClass? filename ⟨.ofClass c, memberOf, isIgnored⟩ =
      if isIgnored then none else (nameOf? c filename).map fun name => { c with name } := rfl
  have hleft : leftOutName? filename ⟨.ofClass c, memberOf, isIgnored⟩ =
      if isIgnored then nameOf? c filename else none := rfl
  rw [Grouping.addClass, hnamed, hleft]
  cases nameOf? c filename with
  | none =>
    cases isIgnored with
    | false => exact congrArg (fun g => (g, Place.leftOut)) hnil.symm
    | true => exact congrArg (fun g => (g, Place.leftOut)) hnil.symm
  | some name =>
    cases isIgnored with
    | false => rfl
    | true => rfl

theorem leftOutName?_of_namedClass? {filename : String} {e : Entry} {c : ClassDoc}
    (h : namedClass? filename e = some c) : leftOutName? filename e = none := by
  obtain ⟨entity, memberOf, isIgnored⟩ := e
  cases entity with
  | ofMember m => rfl
  | ofClass c' =>
    cases isIgnored with
    | false => rfl
    | true => exact absurd h (by simp [namedClass?])

theorem Follows.addClassEntry (h : Follows g t l leftOut) (ht : t.Valid) (filename : String)
    (before : List Entry) (place : Place) (c : ClassDoc) (memberOf : Option String)
    (isIgnored : Bool) :
    Follows (Grouping.addEntry filename (g, place) ⟨.ofClass c, memberOf, isIgnored⟩).1.1
        (t.addAll (namedClass? filename ⟨.ofClass c, memberOf, isIgnored⟩).toList)
        (l ++ charges filename before ⟨.ofClass c, memberOf, isIgnored⟩)
        (leftOut ++ (leftOutName? filename ⟨.ofClass c, memberOf, isIgnored⟩).toList) ∧
      Fits (t.addAll (namedClass? filename ⟨.ofClass c, memberOf, isIgnored⟩).toList)
        ((namedClass? filename ⟨.ofClass c, memberOf, isIgnored⟩).map ClassDoc.name)
        (Grouping.addEntry filename (g, place) ⟨.ofClass c, memberOf, isIgnored⟩).1.2 := by
  rw [addEntry_ofClass, charges]
  cases hc : namedClass? filename ⟨.ofClass c, memberOf, isIgnored⟩ with
  | some c =>
    obtain ⟨hadded, i, hi, hfind⟩ := h.addNamed ht c
    refine ⟨?_, ?_⟩
    · rw [leftOutName?_of_namedClass? hc, Option.toList_none, List.append_nil leftOut]
      exact hadded
    · show Fits (t.add c) (some c.name) (g.addNamed c).1.2
      rw [hi]
      exact ⟨c.name, rfl, hfind⟩
  | none =>
    refine ⟨⟨⟨h.names, h.heads, h.answering, ?_, ?_⟩, ?_⟩, rfl⟩
    · rw [List.append_nil]
      exact h.landed
    · show g.ignored ++ _ = _
      rw [h.ignored]
    · rw [List.append_nil]
      exact h.waiting

theorem Follows.addMemberEntry (h : Follows g t l leftOut) {filename : String}
    {before : List Entry} {place : Place} (hp : Fits t (currentName? filename before) place)
    (m : Member) (memberOf : Option String) (isIgnored : Bool) :
    Follows (Grouping.addEntry filename (g, place) ⟨.ofMember m, memberOf, isIgnored⟩).1.1 t
        (l ++ charges filename before ⟨.ofMember m, memberOf, isIgnored⟩) leftOut ∧
      (Grouping.addEntry filename (g, place) ⟨.ofMember m, memberOf, isIgnored⟩).1.2 = place := by
  have hunchanged : Follows g t (l ++ []) leftOut := by
    rw [List.append_nil]
    exact h
  rw [Grouping.addEntry, charges]
  cases isIgnored with
  | true => exact ⟨hunchanged, rfl⟩
  | false =>
    cases hempty : m.name.isEmpty with
    | true =>
      simp only [hempty]
      exact ⟨hunchanged, rfl⟩
    | false =>
      simp only [hempty]
      exact ⟨h.addMember hp memberOf m, rfl⟩

theorem Follows.addEntry {place : Place} (h : Follows g t l leftOut) (ht : t.Valid)
    {filename : String} {before : List Entry} (hp : Fits t (currentName? filename before) place)
    (e : Entry) :
    Follows (Grouping.addEntry filename (g, place) e).1.1
        (t.addAll (namedClass? filename e).toList) (l ++ charges filename before e)
        (leftOut ++ (leftOutName? filename e).toList) ∧
      Fits (t.addAll (namedClass? filename e).toList) (currentName? filename (before ++ [e]))
        (Grouping.addEntry filename (g, place) e).1.2 := by
  rw [currentName?_append]
  obtain ⟨entity, memberOf, isIgnored⟩ := e
  cases entity with
  | ofClass c => exact h.addClassEntry ht filename before place c memberOf isIgnored
  | ofMember m =>
    obtain ⟨hadded, hplace⟩ := h.addMemberEntry hp m memberOf isIgnored
    refine ⟨?_, ?_⟩
    · show Follows _ t _ (leftOut ++ [])
      rw [List.append_nil]
      exact hadded
    · rw [hplace]
      exact hp

theorem filterMap_cons_toList {α β : Type} (f : α → Option β) (x : α) (xs : List α) :
    (x :: xs).filterMap f = (f x).toList ++ xs.filterMap f := by
  rw [List.filterMap_cons]
  cases f x with
  | none => rfl
  | some y => rfl

theorem Follows.addEntries {filename : String} (entries : List Entry) {place : Place}
    (h : Follows g t l leftOut) (ht : t.Valid) {before : List Entry}
    (hp : Fits t (currentName? filename before) place) :
    Follows (reportEach (Grouping.addEntry filename) (g, place) entries).1.1
      (t.addAll (entries.filterMap (namedClass? filename)))
      (l ++ chargesAfter filename before entries)
      (leftOut ++ entries.filterMap (leftOutName? filename)) := by
  induction entries generalizing g t l leftOut place before with
  | nil =>
    show Follows g t (l ++ []) (leftOut ++ [])
    rw [List.append_nil, List.append_nil]
    exact h
  | cons e entries ih =>
    obtain ⟨hone, hfits⟩ := h.addEntry ht hp e
    have hrest := ih hone (ht.addAll _) hfits
    rw [filterMap_cons_toList, filterMap_cons_toList, Roster.addAll_append, chargesAfter,
      ← List.append_assoc, ← List.append_assoc]
    exact hrest

theorem Follows.addFile (h : Follows g t l leftOut) (ht : t.Valid) (filename : String)
    (entries : List Entry) :
    Follows (g.addFile filename entries).1
      (t.addAll (entries.filterMap (namedClass? filename)))
      (l ++ chargesAfter filename [] entries)
      (leftOut ++ entries.filterMap (leftOutName? filename)) := by
  have hfits : Fits t (currentName? filename []) .outside := rfl
  exact h.addEntries entries ht hfits

theorem Follows.addFiles (files : Files) (h : Follows g t l leftOut) (ht : t.Valid) :
    Follows (reportEach (fun g f => g.addFile f.1 f.2) g files).1
      (t.addAll (files.flatMap fun f => f.2.filterMap (namedClass? f.1)))
      (l ++ ledger files) (leftOut ++ leftOutNames files) := by
  induction files generalizing g t l leftOut with
  | nil =>
    show Follows g t (l ++ []) (leftOut ++ [])
    rw [List.append_nil, List.append_nil]
    exact h
  | cons f files ih =>
    have hrest := ih (h.addFile ht f.1 f.2) (ht.addAll _)
    rw [List.flatMap_cons, Roster.addAll_append, ledger, leftOutNames, List.flatMap_cons,
      List.flatMap_cons, ← List.append_assoc, ← List.append_assoc]
    exact hrest

end

/-- Grouping files gives what the account of the files says. -/
theorem follows_ofFiles (files : Files) :
    Follows (ofFiles files) (roster files) (ledger files) (leftOutNames files) := by
  have hempty : Follows {} {} [] [] :=
    ⟨⟨rfl, rfl, fun _ _ h => absurd h (by simp [Roster.find?]), fun _ _ h => by simp at h, rfl⟩, rfl⟩
  exact hempty.addFiles files Roster.valid_empty

end Grouping
end ApiDoc
