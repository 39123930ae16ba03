/-
The paths through the body of a function, and the check that they all return the object itself.

A path takes either side of a branch, runs a loop for any number of rounds and leaves a loop, or the
round it is in, where the code says `break` or `continue`.  The check counts a row of statements as
returning if one of them does.  That is right for a path that is not led around that statement, and only
a jump in the body of a `do` loop leads around it: a path through a body that passes the check returns
the object itself, or it has taken such a jump and falls off the end (`path_of_returnsThis`).
-/
import ApiDoc.Code.Body
import ApiDoc.Comment.Scan

namespace ApiDoc
namespace Code

/-! ### Paths -/

/-- How a path through a statement ends. -/
inductive Ending where
  | done
  | broken
  | continued
  | returned (value : Option Node)

def Ending.isJump : Ending → Bool
  | .broken | .continued => true
  | _ => false

/-- The text starts with this word. -/
def startsWithWord (word text : String) : Bool :=
  match Comment.dropText? word.toList text.toList with
  | some rest => !Comment.startsName rest
  | none => false

/-- How a statement ends that is known by its text alone.  The words are reserved, so no expression
starts with them. -/
def endingOfText (text : String) : Ending :=
  if startsWithWord "break" text then .broken
  else if startsWithWord "continue" text then .continued
  else .done

/-- The paths through a part of a body, each with its ending and with whether it jumps out of a round
of a `do` loop on its way. -/
abbrev Paths : Type := Bool → Ending → Prop

/-- The path that does nothing of note. -/
def straight (e : Ending) : Paths := fun left e' => left = false ∧ e' = e

/-- The paths from the start of a round of a loop on.  A round that is done or continued is followed by
the test, which may end the loop or start another round. -/
inductive Rounds (isDoWhile : Bool) (body : Paths) : Paths
  | last {left : Bool} : body left .done → Rounds isDoWhile body left .done
  | lastContinued {left : Bool} : body left .continued →
      Rounds isDoWhile body (left || isDoWhile) .done
  | broken {left : Bool} : body left .broken → Rounds isDoWhile body (left || isDoWhile) .done
  | returned {left : Bool} {value : Option Node} : body left (.returned value) →
      Rounds isDoWhile body left (.returned value)
  | next {left left' : Bool} {e : Ending} : body left .done → Rounds isDoWhile body left' e →
      Rounds isDoWhile body (left || left') e
  | nextContinued {left left' : Bool} {e : Ending} : body left .continued →
      Rounds isDoWhile body left' e → Rounds isDoWhile body (left || isDoWhile || left') e

mutual

/-- The paths through a statement.  Of the loops only a `do` loop is sure to start a round, and an
expression is always done. -/
def paths : Node → Paths
  | .returned value => straight (.returned value)
  | .branch _ consequent alternate => fun left e =>
    paths consequent left e ∨ alternatePaths alternate left e
  | .block body => rowPaths body
  | .loop isDoWhile _ body => fun left e =>
    Rounds isDoWhile (paths body) left e ∨ isDoWhile = false ∧ straight .done left e
  | .other raw _ => straight (endingOfText raw)
  | _ => straight .done

def alternatePaths : Option Node → Paths
  | none => straight .done
  | some n => paths n

/-- The paths through statements in a row. -/
def rowPaths : List Node → Paths
  | [] => straight .done
  | n :: ns => fun left e =>
    (paths n left e ∧ e ≠ .done) ∨
      ∃ before after, left = (before || after) ∧ paths n before .done ∧ rowPaths ns after e

end

mutual

/-- Whether a statement holds a jump that no loop of its own catches. -/
def hasStrayJump : Node → Bool
  | .branch _ consequent alternate => hasStrayJump consequent || alternateHasStrayJump alternate
  | .block body => rowHasStrayJump body
  | .other raw _ => (endingOfText raw).isJump
  | _ => false

def alternateHasStrayJump : Option Node → Bool
  | none => false
  | some n => hasStrayJump n

def rowHasStrayJump : List Node → Bool
  | [] => false
  | n :: ns => hasStrayJump n || rowHasStrayJump ns

end

/-! ### Statements by cases -/

/-- Neither a statement that can end a path nor one that holds others. -/
def isExpression : Node → Bool
  | .returned _ | .branch .. | .block _ | .loop .. | .other .. => false
  | _ => true

/-- Induction over statements: over the sides of a branch, the statements of a block and the body of a
loop, but not into expressions. -/
@[elab_as_elim]
theorem statement_induction {motive : Node → Prop}
    (returned : ∀ value, motive (.returned value))
    (branch : ∀ test consequent alternate, motive consequent → (∀ n ∈ alternate, motive n) →
      motive (.branch test consequent alternate))
    (block : ∀ body, (∀ n ∈ body, motive n) → motive (.block body))
    (loop : ∀ isDoWhile header body, motive body → motive (.loop isDoWhile header body))
    (other : ∀ raw children, motive (.other raw children))
    (expression : ∀ n, isExpression n = true → motive n) (n : Node) : motive n := by
  induction hsize : sizeOf n using Nat.strongRecOn generalizing n with
  | ind size ih =>
    have hchild : ∀ c ∈ n.children, motive c :=
      fun c hc => ih _ (hsize ▸ Node.sizeOf_lt_of_mem_children hc) c rfl
    cases n with
    | returned value => exact returned value
    | branch test consequent alternate =>
      refine branch _ _ _ (hchild _ (by simp [Node.children])) fun a ha => hchild a ?_
      simp [Node.children, Option.mem_def.1 ha]
    | block body => exact block body hchild
    | loop isDoWhile header body => exact loop _ _ _ (hchild _ (by simp [Node.children]))
    | other raw children => exact other raw children
    | _ => exact expression _ rfl

theorem paths_of_isExpression {n : Node} (h : isExpression n = true) : paths n = straight .done := by
  cases n with
  | returned | branch | block | loop | other => cases h
  | _ => rfl

theorem alternatePaths_iff {o : Option Node} {left : Bool} {e : Ending} :
    alternatePaths o left e ↔ (∃ n ∈ o, paths n left e) ∨ o = none ∧ straight .done left e := by
  cases o <;> simp [alternatePaths]

theorem alternateHasStrayJump_eq_false {o : Option Node} :
    alternateHasStrayJump o = false ↔ ∀ n ∈ o, hasStrayJump n = false := by
  cases o <;> simp [alternateHasStrayJump]

theorem rowHasStrayJump_eq_any (ns : List Node) : rowHasStrayJump ns = ns.any hasStrayJump := by
  induction ns with
  | nil => rfl
  | cons n ns ih => rw [rowHasStrayJump, ih, List.any_cons]

theorem someReturnsThis_eq_any (ns : List Node) : someReturnsThis ns = ns.any alwaysReturnsThis := by
  induction ns with
  | nil => rfl
  | cons n ns ih => rw [someReturnsThis, ih, List.any_cons]

/-! ### Where paths end -/

theorem endingOfText_ne_returned (text : String) (value : Option Node) :
    endingOfText text ≠ .returned value := by
  unfold endingOfText
  split
  · exact Ending.noConfusion
  · split <;> exact Ending.noConfusion

/-- A path through a row that is not done ends in one of its statements. -/
theorem exists_of_rowPaths {ns : List Node} {left : Bool} {e : Ending} (h : rowPaths ns left e)
    (he : e ≠ .done) : ∃ n ∈ ns, ∃ l, paths n l e := by
  induction ns generalizing left with
  | nil => exact absurd h.2 he
  | cons n ns ih =>
    rcases h with ⟨h, -⟩ | ⟨_, _, -, -, h⟩
    · exact ⟨n, List.mem_cons_self, _, h⟩
    · obtain ⟨m, hm, hpath⟩ := ih h
      exact ⟨m, List.mem_cons_of_mem n hm, hpath⟩

/-- A path to the end of a row has come through each of its statements. -/
theorem forall_of_rowPaths_done {ns : List Node} {left : Bool} (h : rowPaths ns left .done) :
    ∀ n ∈ ns, ∃ l, paths n l .done ∧ (l = true → left = true) := by
  induction ns generalizing left with
  | nil => simp
  | cons n ns ih =>
    rcases h with ⟨-, hne⟩ | ⟨before, after, rfl, hn, hns⟩
    · exact absurd rfl hne
    · refine List.forall_mem_cons.2 ⟨⟨before, hn, fun hl => by rw [hl, Bool.true_or]⟩, fun m hm => ?_⟩
      obtain ⟨l, hpath, hl⟩ := ih hns m hm
      exact ⟨l, hpath, fun hleft => by rw [hl hleft, Bool.or_true]⟩

/-- A loop is left at its end or by returning from a round. -/
theorem rounds_cases {isDoWhile left : Bool} {body : Paths} {e : Ending}
    (h : Rounds isDoWhile body left e) :
    e = .done ∨ ∃ value l, e = .returned value ∧ body l (.returned value) := by
  induction h with
  | last | lastContinued | broken => exact .inl rfl
  | returned h => exact .inr ⟨_, _, rfl, h⟩
  | next _ _ ih | nextContinued _ _ ih => exact ih

/-- A path ends with a jump only where no loop catches it. -/
theorem isJump_of_paths {n : Node} {left : Bool} {e : Ending} (hstray : hasStrayJump n = false)
    (h : paths n left e) : e.isJump = false := by
  induction n using statement_induction generalizing left with
  | returned value =>
    obtain ⟨-, rfl⟩ := h
    rfl
  | branch _ consequent alternate ihc iha =>
    obtain ⟨hc, ha⟩ := Bool.or_eq_false_iff.1 hstray
    rcases h with h | h
    · exact ihc hc h
    · obtain ⟨n, hn, h⟩ | ⟨-, -, rfl⟩ := alternatePaths_iff.1 h
      · exact iha n hn (alternateHasStrayJump_eq_false.1 ha n hn) h
      · rfl
  | block body ih =>
    by_cases hdone : e = .done
    · rw [hdone]
      rfl
    · obtain ⟨n, hn, l, hpath⟩ := exists_of_rowPaths h hdone
      change rowHasStrayJump body = false at hstray
      rw [rowHasStrayJump_eq_any, List.any_eq_false] at hstray
      exact ih n hn (Bool.eq_false_iff.2 (hstray n hn)) hpath
  | loop =>
    rcases h with h | ⟨-, -, rfl⟩
    · obtain rfl | ⟨_, _, rfl, -⟩ := rounds_cases h <;> rfl
    · rfl
  | other =>
    obtain ⟨-, rfl⟩ := h
    exact hstray
  | expression n hn =>
    rw [paths_of_isExpression hn] at h
    obtain ⟨-, rfl⟩ := h
    rfl

theorem returnsOther_children {n c : Node} (h : returnsOther n = false) (hn : isExpression n = false)
    (hreturned : ∀ value, n ≠ .returned value) (hc : c ∈ n.children) : returnsOther c = false := by
  rw [returnsOther] at h
  · simp only [List.any_eq_false] at h
    exact Bool.eq_false_iff.2 (h ⟨c, hc⟩ (List.mem_attach _ _))
  · rintro _ _ _ rfl
    cases hn
  · exact hreturned none
  · exact fun value => hreturned (some value)

/-- Where nothing else is returned, a path that returns returns the object itself. -/
theorem eq_this_of_paths {n : Node} {left : Bool} {value : Option Node}
    (hother : returnsOther n = false) (h : paths n left (.returned value)) : value = some .this := by
  induction n using statement_induction generalizing left with
  | returned v =>
    obtain ⟨-, heq⟩ := h
    obtain rfl := Ending.returned.inj heq
    rw [returnsOther.eq_def] at hother
    cases value with
    | none => cases hother
    | some v =>
      cases v with
      | this => rfl
      | _ => cases hother
  | branch test consequent alternate ihc iha =>
    have hchild := fun c => @returnsOther_children _ c hother rfl fun _ => Node.noConfusion
    rcases h with h | h
    · exact ihc (hchild _ (by simp [Node.children])) h
    · obtain ⟨n, hn, h⟩ | ⟨-, -, heq⟩ := alternatePaths_iff.1 h
      · exact iha n hn (hchild n (by simp [Node.children, Option.mem_def.1 hn])) h
      · cases heq
  | block body ih =>
    have hchild := fun c => @returnsOther_children _ c hother rfl fun _ => Node.noConfusion
    obtain ⟨n, hn, l, hpath⟩ := exists_of_rowPaths h Ending.noConfusion
    exact ih n hn (hchild n hn) hpath
  | loop isDoWhile header body ih =>
    have hchild := fun c => @returnsOther_children _ c hother rfl fun _ => Node.noConfusion
    rcases h with h | ⟨-, -, heq⟩
    · obtain heq | ⟨v, l, heq, hpath⟩ := rounds_cases h
      · cases heq
      · obtain rfl := Ending.returned.inj heq
        exact ih (hchild _ (by simp [Node.children])) hpath
    · cases heq
  | other raw children => exact absurd h.2.symm (endingOfText_ne_returned raw value)
  | expression n hn =>
    rw [paths_of_isExpression hn] at h
    cases h.2

/-- A statement that always returns is done on no path but one that jumps in a `do` loop. -/
theorem left_of_paths_done {n : Node} {left : Bool} (hreturns : alwaysReturnsThis n = true)
    (h : paths n left .done) : left = true := by
  induction n using statement_induction generalizing left with
  | returned value => cases h.2
  | branch test consequent alternate ihc iha =>
    obtain ⟨hc, ha⟩ := Bool.and_eq_true_iff.1 hreturns
    rcases h with h | h
    · exact ihc hc h
    · cases alternate with
      | none => cases ha
      | some n => exact iha n rfl ha h
  | block body ih =>
    change someReturnsThis body = true at hreturns
    rw [someReturnsThis_eq_any, List.any_eq_true] at hreturns
    obtain ⟨n, hn, hreturns⟩ := hreturns
    obtain ⟨l, hpath, hl⟩ := forall_of_rowPaths_done h n hn
    exact hl (ih n hn hreturns hpath)
  | loop isDoWhile header body ih =>
    obtain ⟨rfl, hbody⟩ := Bool.and_eq_true_iff.1 hreturns
    rcases h with h | ⟨hwhile, -⟩
    · cases h with
      | last h => exact ih hbody h
      | lastContinued | broken => exact Bool.or_true _
      | next h => rw [ih hbody h, Bool.true_or]
      | nextContinued => rw [Bool.or_true, Bool.true_or]
    · cases hwhile
  | other raw children => cases hreturns
  | expression n hn =>
    cases n with
    | returned | branch | block | loop | other => cases hn
    | _ => cases hreturns

/-- A path through a body that passes the check returns the object itself, or it has jumped out of a
round of a `do` loop and falls off the end. -/
theorem path_of_returnsThis {body : List Node} (hjumps : body.any hasStrayJump = false)
    (hreturns : returnsThis body = true) {left : Bool} {e : Ending} (h : rowPaths body left e) :
    e = .returned (some .this) ∨ left = true ∧ e = .done := by
  obtain ⟨hother, hsome⟩ := Bool.and_eq_true_iff.1 hreturns
  rw [Bool.not_eq_true', List.any_eq_false] at hother
  rw [someReturnsThis_eq_any, List.any_eq_true] at hsome
  rw [List.any_eq_false] at hjumps
  by_cases hdone : e = .done
  · subst hdone
    obtain ⟨n, hn, hn'⟩ := hsome
    obtain ⟨l, hpath, hl⟩ := forall_of_rowPaths_done h n hn
    exact .inr ⟨hl (left_of_paths_done hn' hpath), rfl⟩
  · obtain ⟨n, hn, l, hpath⟩ := exists_of_rowPaths h hdone
    have hjump := isJump_of_paths (Bool.eq_false_iff.2 (hjumps n hn)) hpath
    cases e with
    | done => exact absurd rfl hdone
    | broken | continued => cases hjump
    | returned value =>
      rw [eq_this_of_paths (Bool.eq_false_iff.2 (hother n hn)) hpath]
      exact .inl rfl

/-- A loop that returns in each round, unless it is left before. -/
def searchLoop : List Node :=
  [.loop true [.ident "more"]
    (.block [.branch (.ident "found") (.other "break;" []) none, .returned (some .this)])]

theorem returnsThis_searchLoop : returnsThis searchLoop = true := by decide +kernel

theorem hasStrayJump_searchLoop : searchLoop.any hasStrayJump = false := rfl

theorem path_of_searchLoop :
    searchLoop.any hasStrayJump = false ∧ returnsThis searchLoop = true ∧
      rowPaths searchLoop false (.returned (some .this)) ∧
      (Ending.returned (some .this) = .returned (some .this) ∨
        false = true ∧ Ending.returned (some .this) = .done) := by
  have hround : paths (.block [.branch (.ident "found") (.other "break;" []) none,
      .returned (some .this)]) false (.returned (some .this)) :=
    .inr ⟨false, false, rfl, .inr ⟨rfl, rfl⟩, .inl ⟨⟨rfl, rfl⟩, Ending.noConfusion⟩⟩
  have hpath : rowPaths searchLoop false (.returned (some .this)) :=
    .inl ⟨.inl (.returned hround), Ending.noConfusion⟩
  exact ⟨hasStrayJump_searchLoop, returnsThis_searchLoop, hpath,
    path_of_returnsThis hasStrayJump_searchLoop returnsThis_searchLoop hpath⟩

/-- The loop passes the check, and the path that leaves it falls off the end. -/
theorem searchLoop_falls_off : searchLoop.any hasStrayJump = false ∧ returnsThis searchLoop = true ∧
    ∃ left, rowPaths searchLoop left .done := by
  have hround : paths (.block [.branch (.ident "found") (.other "break;" []) none,
      .returned (some .this)]) false .broken :=
    .inl ⟨.inl ⟨rfl, rfl⟩, Ending.noConfusion⟩
  refine ⟨hasStrayJump_searchLoop, returnsThis_searchLoop, true, .inr ⟨true, false, rfl, ?_, rfl, rfl⟩⟩
  exact .inl (.broken hround)

end Code
end ApiDoc
