/-
The events of a method, followed along its calls.

A call leads to the last method of the class that has the called name, and a method whose events are
listed leads nowhere.  The walk keeps one set of names that were visited on whatever way, so it must be
seen that a method which is passed over loses nothing: what can be reached from it was reached from the
first visit, or does not need the visited name (`Arrives.bar`).  So the walk collects what the methods at
the ends of all chains of calls report (`mem_eventsOfCalls`).
-/
import ApiDoc.Completion.Fires
import Mathlib.Data.List.Forall2

namespace ApiDoc
namespace Fires

/-- The method is the last one among the members that has this name. -/
def LastNamed (members : List Member) (name : String) (k : Member) : Prop :=
  ∃ before after, members = before ++ k :: after ∧ k.kind = .method ∧ k.name = name ∧
    ∀ m ∈ after, m.kind = .method → m.name ≠ name

/-- A chain of calls that starts with one of these names arrives at the method.  None of the names in
the chain is barred, and the methods before the last one do not list their events. -/
inductive Arrives (members : List Member) (barred : List String) : List String → Member → Prop
  | call {calls : List String} {name : String} {k : Member} : name ∈ calls → name ∉ barred →
      LastNamed members name k → Arrives members barred calls k
  | through {calls : List String} {name : String} {m k : Member} : name ∈ calls → name ∉ barred →
      LastNamed members name m → m.hasExplicitFires = false →
      Arrives members barred m.body.calls k → Arrives members barred calls k

theorem methodNamed?_eq_some_iff {members : List Member} {name : String} {k : Member} :
    methodNamed? (members.filter (·.kind == .method)) name = some k ↔ LastNamed members name k := by
  rw [methodNamed?, ← List.filter_reverse, List.find?_filter, List.find?_eq_some_iff_append]
  constructor
  · rintro ⟨hk, after, before, hsplit, hafter⟩
    rw [decide_eq_true_eq, beq_iff_eq, beq_iff_eq] at hk
    refine ⟨before.reverse, after.reverse, ?_, hk.1, hk.2, fun m hm hkind hname => ?_⟩
    · rw [← List.reverse_reverse members, hsplit]
      simp
    · have hnot := hafter m (List.mem_reverse.1 hm)
      simp [hkind, hname] at hnot
  · rintro ⟨before, after, rfl, hkind, hname, hafter⟩
    refine ⟨by simp [hkind, hname], after.reverse, before.reverse, by simp, fun m hm => ?_⟩
    simpa [imp_iff_not_or] using hafter m (List.mem_reverse.1 hm)

section

variable {members : List Member} {barred calls : List String} {k : Member}

theorem Arrives.mono {barred' calls' : List String} (h : Arrives members barred calls k)
    (hbarred : barred' ⊆ barred) (hcalls : calls ⊆ calls') : Arrives members barred' calls' k := by
  induction h generalizing calls' with
  | call hname hfree hlast => exact .call (hcalls hname) (fun hmem => hfree (hbarred hmem)) hlast
  | through hname hfree hlast hopen _ ih =>
    exact .through (hcalls hname) (fun hmem => hfree (hbarred hmem)) hlast hopen
      (ih (List.Subset.refl _))

theorem not_arrives_nil : ¬ Arrives members barred [] k := by
  rintro (⟨hname, -, -⟩ | ⟨hname, -, -, -, -⟩)
  · cases hname
  · cases hname

/-- A chain starts with one of the calls. -/
theorem arrives_append {more : List String} :
    Arrives members barred (calls ++ more) k ↔
      Arrives members barred calls k ∨ Arrives members barred more k := by
  constructor
  · rintro (⟨hname, hfree, hlast⟩ | ⟨hname, hfree, hlast, hopen, h⟩)
    · rcases List.mem_append.1 hname with hname | hname
      · exact .inl (.call hname hfree hlast)
      · exact .inr (.call hname hfree hlast)
    · rcases List.mem_append.1 hname with hname | hname
      · exact .inl (.through hname hfree hlast hopen h)
      · exact .inr (.through hname hfree hlast hopen h)
  · rintro (h | h)
    · exact h.mono (List.Subset.refl _) (List.subset_append_left _ _)
    · exact h.mono (List.Subset.refl _) (List.subset_append_right _ _)

/-- A call that is barred, or that names no method, leads nowhere. -/
theorem arrives_cons_of_blocked {name : String}
    (h : name ∈ barred ∨ ∀ m, ¬ LastNamed members name m) :
    Arrives members barred (name :: calls) k ↔ Arrives members barred calls k := by
  rw [← List.singleton_append, arrives_append, or_iff_right]
  have hblocked : ∀ {m : Member}, name ∉ barred → ¬ LastNamed members name m :=
    fun hfree hlast => h.elim hfree fun hnone => hnone _ hlast
  rintro (⟨hname, hfree, hlast⟩ | ⟨hname, hfree, hlast, -, -⟩)
  · obtain rfl := List.mem_singleton.1 hname
    exact hblocked hfree hlast
  · obtain rfl := List.mem_singleton.1 hname
    exact hblocked hfree hlast

theorem LastNamed.unique {name : String} {m : Member} (h : LastNamed members name m)
    (h' : LastNamed members name k) : m = k := by
  rw [← methodNamed?_eq_some_iff] at h h'
  exact Option.some.inj (h.symm.trans h')

/-- From a method one arrives where the calls lead that are followed from it. -/
theorem arrives_nextCalls {m : Member} :
    Arrives members barred (nextCalls m) k ↔
      m.hasExplicitFires = false ∧ Arrives members barred m.body.calls k := by
  unfold nextCalls
  cases m.hasExplicitFires with
  | true => simpa using not_arrives_nil
  | false => simp

/-- Once the calls of a visited method are pending, its name can be barred. -/
theorem Arrives.bar {name : String} {m : Member} (hm : LastNamed members name m)
    (h : Arrives members barred calls k) :
    k = m ∨ Arrives members (name :: barred) (nextCalls m ++ calls) k := by
  induction h with
  | @call calls called k hname hfree hlast =>
    by_cases hsame : called = name
    · exact .inl (hlast.unique (hsame ▸ hm))
    · have hfree' : called ∉ name :: barred := by simp [hsame, hfree]
      exact .inr (.call (List.mem_append_right _ hname) hfree' hlast)
  | @through calls called m' k hname hfree hlast hopen _ ih =>
    refine ih.imp_right fun hk => ?_
    rw [arrives_append] at hk ⊢
    rcases hk with hk | hk
    · exact .inl hk
    · by_cases hsame : called = name
      · -- The chain comes back to the visited method and goes on from there.
        obtain rfl := hlast.unique (hsame ▸ hm)
        exact .inl (arrives_nextCalls.2 ⟨hopen, hk⟩)
      · have hfree' : called ∉ name :: barred := by simp [hsame, hfree]
        exact .inr (.through hname hfree' hlast hopen hk)

/-- A visit to a method stands for it and for all that is reached from it. -/
theorem arrives_cons_iff {name : String} {m : Member} (hfree : name ∉ barred)
    (hm : LastNamed members name m) :
    Arrives members barred (name :: calls) k ↔
      k = m ∨ Arrives members (name :: barred) (nextCalls m ++ calls) k := by
  constructor
  · intro h
    refine (h.bar hm).imp_right fun hk => ?_
    rw [arrives_append, arrives_cons_of_blocked (.inl List.mem_cons_self)] at hk
    exact arrives_append.2 hk
  · rintro (rfl | hk)
    · exact .call List.mem_cons_self hfree hm
    · rcases arrives_append.1 (hk.mono (List.subset_cons_self _ _) (List.Subset.refl _)) with hk | hk
      · obtain ⟨hopen, hk⟩ := arrives_nextCalls.1 hk
        exact .through List.mem_cons_self hfree hm hopen hk
      · exact hk.mono (List.Subset.refl _) (List.subset_cons_self _ _)

end

/-- The walk collects what the methods report at which the calls arrive. -/
theorem mem_eventsOfCalls {members : List Member} {calls visited : List String} {event : String} :
    event ∈ eventsOfCalls (members.filter (·.kind == .method)) calls visited ↔
      ∃ k, Arrives members visited calls k ∧ event ∈ ownEvents k := by
  generalize hmethods : members.filter (·.kind == .method) = methods
  fun_induction eventsOfCalls methods calls visited with
  | case1 => simp [not_arrives_nil]
  | case2 name rest visited hvisited ih =>
    have hblocked : name ∈ visited := by simpa using hvisited
    rw [ih]
    simp only [arrives_cons_of_blocked (.inl hblocked)]
  | case3 name rest visited hvisited hnone ih =>
    have hblocked : ∀ m, ¬ LastNamed members name m := by
      intro m hm
      rw [← methodNamed?_eq_some_iff, hmethods, hnone] at hm
      cases hm
    rw [ih]
    simp only [arrives_cons_of_blocked (.inr hblocked)]
  | case4 name rest visited hvisited m hsome hlt ih =>
    have hfree : name ∉ visited := by simpa using hvisited
    have hm : LastNamed members name m := by
      rwa [← methodNamed?_eq_some_iff, hmethods]
    rw [List.mem_append, ih]
    simp only [arrives_cons_iff hfree hm, or_and_right, exists_or, exists_eq_left]

/-- The method fires the event: in its own body, or a method reports it at which its calls arrive, not
coming by its own name. -/
def FiredBy (members : List Member) (m : Member) (event : String) : Prop :=
  event ∈ m.body.fires ∨
    ∃ k, Arrives members [m.name] m.body.calls k ∧
      event ∈ if k.hasExplicitFires then k.fires else k.body.fires

theorem nodup_eventsOf (methods : List Member) (m : Member) : (eventsOf methods m).Nodup :=
  nodup_distinct _

theorem mem_eventsOf {members : List Member} {m : Member} (h : m.hasExplicitFires = false)
    {event : String} :
    event ∈ eventsOf (members.filter (·.kind == .method)) m ↔ FiredBy members m event := by
  rw [eventsOf, mem_distinct, List.mem_append, mem_eventsOfCalls]
  simp only [ownEvents, nextCalls, h, Bool.false_eq_true, if_false, FiredBy]

/-- What the pass makes of a member.  The events that a method fires are listed once each; a method that
lists events by itself, one that fires none, and any other member stay as they are. -/
inductive Tells (members : List Member) (m : Member) : Member → Prop
  | filled (events : List String) : m.kind = .method → m.hasExplicitFires = false →
      events ≠ [] → events.Nodup → (∀ event, event ∈ events ↔ FiredBy members m event) →
      Tells members m { m with fires := events, inferred := { m.inferred with fires := true } }
  | silent : m.kind = .method → m.hasExplicitFires = false →
      (∀ event, ¬ FiredBy members m event) → Tells members m m
  | kept : (m.kind = .method → m.hasExplicitFires = true) → Tells members m m

theorem tells_withFires (members : List Member) (m : Member) :
    Tells members m (m.withFires (members.filter (·.kind == .method))) := by
  unfold Member.withFires
  by_cases hwalked : m.kind = .method ∧ m.hasExplicitFires = false
  · obtain ⟨hkind, hopen⟩ := hwalked
    rw [if_pos (by simp [hkind, hopen])]
    by_cases hnil : eventsOf (members.filter (·.kind == .method)) m = []
    · rw [if_pos (by simpa using hnil)]
      refine .silent hkind hopen fun event hfired => ?_
      rw [← mem_eventsOf hopen, hnil] at hfired
      cases hfired
    · rw [if_neg (by simpa using hnil)]
      exact .filled _ hkind hopen hnil (nodup_eventsOf _ m) fun _ => mem_eventsOf hopen
  · rw [if_neg (by simpa using hwalked)]
    exact .kept fun hkind => by simpa [hkind] using hwalked

/-- The pass leaves a class as it is but for its members, and of each member, in their order, what the
chains of calls in the class tell. -/
theorem withFires_tells (c : ClassDoc) :
    c.withFires = { c with members := c.withFires.members } ∧
      List.Forall₂ (Tells c.members) c.members c.withFires.members := by
  refine ⟨rfl, ?_⟩
  rw [ClassDoc.withFires, List.forall₂_map_right_iff, List.forall₂_same]
  exact fun m _ => tells_withFires c.members m

end Fires
end ApiDoc
