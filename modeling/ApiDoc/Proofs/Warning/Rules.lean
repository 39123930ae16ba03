/-
Rules for warnings, as they are written and as they decide.

A rule is written as its sign, the word for its kind and, behind a colon, the text that the names of
files must contain.  Rules are written in a row with commas between them and white space wherever it
does not matter, and reading such a row gives the rules back.  Of all rules about a warning the last one
decides, so one more rule changes nothing but what it is about (`written_rules_decide`).
-/
import ApiDoc.Proofs.Text.Trimmed
import ApiDoc.Warning
import Mathlib.Data.List.Forall2

namespace ApiDoc

open Text

theorem Text.containsText_eq_true_iff {part cs : List Char} :
    containsText part cs = true ↔ part <:+: cs := by
  induction cs with
  | nil => rw [containsText, List.isEmpty_iff, List.infix_nil]
  | cons c cs ih =>
    rw [containsText, Bool.or_eq_true, List.isPrefixOf_iff_prefix, ih, List.infix_cons_iff]

namespace WarningRule

/-! ### Written rules -/

def kindWord (r : WarningRule) : String :=
  match r.kind with
  | none => "all"
  | some k => k.word

def pathText (r : WarningRule) : List Char :=
  match r.path with
  | none => []
  | some p => ':' :: p.toList

def written (r : WarningRule) : List Char :=
  (if r.isOn then '+' else '-') :: (r.kindWord.toList ++ r.pathText)

/-- The path of the rule, if it has one, can be told from what is written around it. -/
def HasPlainPath (r : WarningRule) : Prop :=
  ∀ p ∈ r.path, p.toList ≠ [] ∧ trim p.toList = p.toList ∧ ',' ∉ p.toList

instance (r : WarningRule) : Decidable r.HasPlainPath :=
  inferInstanceAs (Decidable (∀ p ∈ r.path, _ ∧ _ ∧ _))

/-- The text is that of the rule, with any white space around it. -/
def WrittenAs (r : WarningRule) (piece : List Char) : Prop :=
  ∃ before after, (∀ c ∈ before, isBlank c = true) ∧ (∀ c ∈ after, isBlank c = true) ∧
    piece = before ++ (r.written ++ after)

theorem kindWord_plain (r : WarningRule) :
    ∀ c ∈ r.kindWord.toList, c ≠ ':' ∧ c ≠ ',' ∧ isBlank c = false := by
  have hall : r.kindWord.toList.all (fun c => c != ':' && (c != ',' && !isBlank c)) = true := by
    unfold kindWord
    cases r.kind with
    | none => decide
    | some k => cases k <;> decide
  intro c hc
  simpa using List.all_eq_true.1 hall c hc

theorem kindWord_ne_nil (r : WarningRule) : r.kindWord.toList ≠ [] := by
  unfold kindWord
  cases r.kind with
  | none => decide
  | some k => cases k <;> decide

theorem trim_kindWord (r : WarningRule) : trim r.kindWord.toList = r.kindWord.toList :=
  trim_eq_self_iff.2
    ⟨fun c hc => (r.kindWord_plain c (List.mem_of_head? hc)).2.2,
      fun c hc => (r.kindWord_plain c (List.mem_of_getLast? hc)).2.2⟩

theorem cutSign_written (r : WarningRule) :
    cutSign r.written = (r.isOn, r.kindWord.toList ++ r.pathText) := by
  unfold written
  cases r.isOn with
  | true => rfl
  | false => rfl

theorem comma_not_mem_written {r : WarningRule} (h : r.HasPlainPath) : ',' ∉ r.written := by
  have hword : ',' ∉ r.kindWord.toList := fun hc => (r.kindWord_plain ',' hc).2.1 rfl
  have hpath : ',' ∉ r.pathText := by
    unfold pathText
    cases hp : r.path with
    | none => exact List.not_mem_nil
    | some p =>
      rw [List.mem_cons, not_or]
      exact ⟨by decide, (h p hp).2.2⟩
  have hsign : ',' ≠ if r.isOn then '+' else '-' := by
    split
    · decide
    · decide
  rw [written, List.mem_cons, List.mem_append, not_or, not_or]
  exact ⟨hsign, hword, hpath⟩

theorem trim_written {r : WarningRule} (h : r.HasPlainPath) : trim r.written = r.written := by
  refine trim_eq_self_iff.2 ⟨fun c hc => ?_, fun c hc => ?_⟩
  · have hsign : c = if r.isOn then '+' else '-' := (Option.some.inj hc).symm
    rw [hsign]
    split
    · rfl
    · rfl
  · -- The last character is one of the path, or else of the kind, so it is not blank.
    have hbody : r.kindWord.toList ++ r.pathText ≠ [] :=
      List.append_ne_nil_of_left_ne_nil r.kindWord_ne_nil _
    rw [written, List.getLast?_cons_of_ne_nil hbody] at hc
    unfold pathText at hc
    cases hp : r.path with
    | none =>
      rw [hp, List.append_nil] at hc
      exact (r.kindWord_plain c (List.mem_of_getLast? hc)).2.2
    | some p =>
      obtain ⟨hne, htrim, -⟩ := h p hp
      rw [hp, List.getLast?_append_of_ne_nil _ (List.cons_ne_nil ':' _),
        List.getLast?_cons_of_ne_nil hne] at hc
      exact isBlank_of_getLast_trim htrim c hc

/-! ### Reading what is written -/

theorem parse_written {r : WarningRule} (h : r.HasPlainPath) :
    parse (String.ofList r.written) = .ok r := by
  have hcolon : ':' ∉ r.kindWord.toList := fun hc => (r.kindWord_plain ':' hc).1 rfl
  -- The word is read as the kind: `all` if there is none.
  have hkind : (r.kind = none ∧ (r.kindWord == "all") = true) ∨ ∃ k, r.kind = some k ∧
      (r.kindWord == "all") = false ∧ WarningKind.ofWord? r.kindWord = some k := by
    unfold kindWord
    cases r.kind with
    | none => exact Or.inl ⟨rfl, rfl⟩
    | some k => exact Or.inr ⟨k, rfl, by cases k <;> rfl, WarningKind.ofWord?_word k⟩
  have htrim := r.trim_kindWord
  unfold parse
  rw [String.toList_ofList, trim_written h, cutSign_written]
  dsimp only
  cases hp : r.path with
  | none =>
    rw [show r.pathText = [] by rw [pathText, hp], List.append_nil, cutFirst?_of_not_mem hcolon]
    simp only [htrim, String.ofList_toList, Option.filter_none, Option.map_none]
    rcases hkind with ⟨hnone, hall⟩ | ⟨k, hsome, hall, hword⟩
    · rw [if_pos hall, ← hnone, ← hp]
    · rw [hall, if_neg Bool.false_ne_true, hword, ← hp]
      dsimp only
      rw [← hsome]
  | some p =>
    obtain ⟨hne, htrimmed, -⟩ := h p hp
    rw [show r.pathText = ':' :: p.toList by rw [pathText, hp], cutFirst?_append hcolon]
    have hpath : (some p.toList).filter (fun q => !q.isEmpty) = some p.toList := by
      rw [Option.filter_some, List.isEmpty_eq_false_iff.2 hne]
      rfl
    simp only [htrim, htrimmed, hpath, Option.map_some, String.ofList_toList]
    rcases hkind with ⟨hnone, hall⟩ | ⟨k, hsome, hall, hword⟩
    · rw [if_pos hall, ← hnone, ← hp]
    · rw [hall, if_neg Bool.false_ne_true, hword, ← hp]
      dsimp only
      rw [← hsome]

theorem WrittenAs.trim {r : WarningRule} {piece : List Char} (h : r.WrittenAs piece)
    (hr : r.HasPlainPath) : Text.trim piece = r.written := by
  obtain ⟨before, after, hbefore, hafter, rfl⟩ := h
  rw [trim_blanks_append hbefore, trim_append_blanks hafter, trim_written hr]

theorem WrittenAs.comma_not_mem {r : WarningRule} {piece : List Char} (h : r.WrittenAs piece)
    (hr : r.HasPlainPath) : ',' ∉ piece := by
  obtain ⟨before, after, hbefore, hafter, rfl⟩ := h
  have hcomma : isBlank ',' ≠ true := by decide
  rw [List.mem_append, List.mem_append, not_or, not_or]
  exact ⟨fun hc => hcomma (hbefore _ hc), comma_not_mem_written hr, fun hc => hcomma (hafter _ hc)⟩

/-- The pieces of a row of written rules are told apart by the commas, and each is its rule. -/
theorem pieces_written {rules : List WarningRule} {pieces : List (List Char)}
    (h : List.Forall₂ WrittenAs rules pieces) (hplain : ∀ r ∈ rules, r.HasPlainPath) :
    (∀ piece ∈ pieces, ',' ∉ piece) ∧ pieces.map trim = rules.map written := by
  induction h with
  | nil => exact ⟨fun _ hmem => absurd hmem List.not_mem_nil, rfl⟩
  | @cons r piece rules pieces hpiece _ ih =>
    obtain ⟨hcommas, htrim⟩ := ih fun r hr => hplain r (List.mem_cons_of_mem _ hr)
    have hr := hplain r List.mem_cons_self
    refine ⟨fun p hp => ?_, ?_⟩
    · rcases List.mem_cons.1 hp with rfl | hp
      · exact hpiece.comma_not_mem hr
      · exact hcommas p hp
    · rw [List.map_cons, List.map_cons, hpiece.trim hr, htrim]

theorem mapM_parse_written {rules : List WarningRule} (h : ∀ r ∈ rules, r.HasPlainPath) :
    (rules.map written).mapM (fun p => parse (String.ofList p)) = .ok rules := by
  induction rules with
  | nil => rfl
  | cons r rules ih =>
    rw [List.map_cons, List.mapM_cons, parse_written (h r List.mem_cons_self),
      ih fun r hr => h r (List.mem_cons_of_mem _ hr)]
    rfl

/-- A row of written rules is read back. -/
theorem parseList_written {rules : List WarningRule} {pieces : List (List Char)}
    (h : List.Forall₂ WrittenAs rules pieces) (hplain : ∀ r ∈ rules, r.HasPlainPath) :
    parseList (String.ofList (joinWith [','] pieces)) = .ok rules := by
  obtain ⟨hcommas, htrim⟩ := pieces_written h hplain
  have hne : ∀ p ∈ rules.map written, (!p.isEmpty) = true := by
    intro p hp
    obtain ⟨r, -, rfl⟩ := List.mem_map.1 hp
    rfl
  have hpieces : (((joinWith [','] pieces).splitOn ',').map trim).filter (fun p => !p.isEmpty) =
      rules.map written := by
    cases pieces with
    | nil =>
      rw [← htrim]
      rfl
    | cons piece pieces =>
      rw [joinWith, List.splitOn_intercalate ',' hcommas (List.cons_ne_nil piece pieces), htrim,
        List.filter_eq_self.2 hne]
  rw [parseList, String.toList_ofList, hpieces, mapM_parse_written hplain]

/-! ### What rules decide -/

/-- The rule is about warnings of this kind in a file of this name. -/
def Concerns (r : WarningRule) (kind : WarningKind) (filename : String) : Prop :=
  (∀ k ∈ r.kind, k = kind) ∧ ∀ p ∈ r.path, p.toList <:+: filename.toList

theorem isFor_iff_concerns {r : WarningRule} {kind : WarningKind} {filename : String} :
    r.isFor kind filename = true ↔ r.Concerns kind filename := by
  rw [isFor, Bool.and_eq_true]
  refine and_congr ?_ ?_
  · cases r.kind with
    | none => simp
    | some k => simp
  · cases r.path with
    | none => simp
    | some p => simp [containsText_eq_true_iff]

instance (r : WarningRule) (kind : WarningKind) (filename : String) :
    Decidable (r.Concerns kind filename) := decidable_of_iff _ isFor_iff_concerns

end WarningRule

namespace Warnings

open WarningRule

section
variable {rules : List WarningRule} {kind : WarningKind} {filename : String}

/-- A rule decides if it is about the warning and none behind it is. -/
theorem isOn_of_last {earlier later : List WarningRule} {r : WarningRule}
    (hr : r.Concerns kind filename) (hlater : ∀ l ∈ later, ¬ l.Concerns kind filename) :
    isOn (earlier ++ r :: later) kind filename = r.isOn := by
  have hnone : later.reverse.find? (fun l => l.isFor kind filename) = none := by
    refine List.find?_eq_none.2 fun l hl hfor => hlater l (List.mem_reverse.1 hl) ?_
    exact isFor_iff_concerns.1 hfor
  have hfound : (r :: earlier.reverse).find? (fun l => l.isFor kind filename) = some r :=
    List.find?_cons_of_pos (isFor_iff_concerns.2 hr)
  rw [isOn, List.reverse_append, List.reverse_cons, List.append_assoc, List.find?_append, hnone,
    Option.none_or, List.singleton_append, hfound]

theorem isOn_of_none (h : ∀ r ∈ rules, ¬ r.Concerns kind filename) :
    isOn rules kind filename = kind.isOnByDefault := by
  have hnone : rules.reverse.find? (fun r => r.isFor kind filename) = none :=
    List.find?_eq_none.2 fun r hr hfor =>
      h r (List.mem_reverse.1 hr) (isFor_iff_concerns.1 hfor)
  rw [isOn, hnone]

/-- One more rule makes no difference for what it is not about. -/
theorem isOn_append_of_not_concerns {r : WarningRule} (h : ¬ r.Concerns kind filename) :
    isOn (rules ++ [r]) kind filename = isOn rules kind filename := by
  have hpassed : (r :: rules.reverse).find? (fun l => l.isFor kind filename) =
      rules.reverse.find? fun l => l.isFor kind filename :=
    List.find?_cons_of_neg fun hfor => h (isFor_iff_concerns.1 hfor)
  rw [isOn, List.reverse_append, List.reverse_singleton, List.singleton_append, hpassed, isOn]

end

/-- Rules that are written in a row, with commas between them and any white space around each, are read
back.  In every collector the last rule about a warning decides whether it is let through, and without
any it depends on the kind alone.  One more rule decides what it is about and changes nothing else. -/
theorem written_rules_decide {rules : List WarningRule} {pieces : List (List Char)}
    (hpieces : List.Forall₂ WrittenAs rules pieces) (hplain : ∀ r ∈ rules, r.HasPlainPath) :
    parseList (String.ofList (joinWith [','] pieces)) = .ok rules ∧
      ∀ (ws : Warnings) (kind : WarningKind) (filename : String),
        (∀ earlier r later, ws.rules = earlier ++ r :: later → r.Concerns kind filename →
          (∀ l ∈ later, ¬ l.Concerns kind filename) → isOn ws.rules kind filename = r.isOn) ∧
        ((∀ r ∈ ws.rules, ¬ r.Concerns kind filename) →
          isOn ws.rules kind filename = kind.isOnByDefault) ∧
        ∀ r : WarningRule,
          (r.Concerns kind filename → isOn (ws.addRule r).rules kind filename = r.isOn) ∧
          (¬ r.Concerns kind filename →
            isOn (ws.addRule r).rules kind filename = isOn ws.rules kind filename) := by
  refine ⟨parseList_written hpieces hplain, fun ws kind filename => ⟨?_, isOn_of_none, fun r => ?_⟩⟩
  · intro earlier r later hrules hr hlater
    rw [hrules]
    exact isOn_of_last hr hlater
  · exact ⟨fun hr => isOn_of_last hr fun l hl => absurd hl List.not_mem_nil,
      isOn_append_of_not_concerns⟩

/-- Rules about overlapping warnings, one of them with a colon and a blank in its path. -/
def pathRules : List WarningRule :=
  [{ kind := none, isOn := true, path := some "C:/my app" },
   { kind := some .global, isOn := false, path := some "lib" }, { kind := some .tag, isOn := true }]

theorem written_rules_decide_paths :
    List.Forall₂ WrittenAs pathRules
        [" +all:C:/my app\t".toList, "-global:lib".toList, "\n+tag ".toList] ∧
      (∀ r ∈ pathRules, r.HasPlainPath) ∧
      parseList " +all:C:/my app\t,-global:lib,\n+tag " = .ok pathRules ∧
      isOn pathRules .global "C:/my app/lib/a.js" = false ∧
      isOn pathRules .undocumented "C:/my app/lib/a.js" = true ∧
      isOn pathRules .undocumented "b.js" = false ∧
      isOn (pathRules ++ [{ kind := some .tag, isOn := false, path := some "lib" }]) .tag "b.js" =
        true := by
  have hblank : ∀ {c : Char}, isBlank c = true → ∀ d ∈ [c], isBlank d = true :=
    fun hc => List.forall_mem_singleton.2 hc
  have hpieces : List.Forall₂ WrittenAs pathRules
      [" +all:C:/my app\t".toList, "-global:lib".toList, "\n+tag ".toList] :=
    .cons ⟨[' '], ['\t'], hblank rfl, hblank rfl, rfl⟩ (.cons ⟨[], [], by simp, by simp, rfl⟩
      (.cons ⟨['\n'], [' '], hblank rfl, hblank rfl, rfl⟩ .nil))
  have hplain : ∀ r ∈ pathRules, r.HasPlainPath := by decide
  obtain ⟨hread, hdecides⟩ := written_rules_decide hpieces hplain
  obtain ⟨hlast, -, -⟩ := hdecides { rules := pathRules } .global "C:/my app/lib/a.js"
  obtain ⟨hfirst, -, -⟩ := hdecides { rules := pathRules } .undocumented "C:/my app/lib/a.js"
  obtain ⟨-, hnone, -⟩ := hdecides { rules := pathRules } .undocumented "b.js"
  obtain ⟨htag, -, happend⟩ := hdecides { rules := pathRules } .tag "b.js"
  refine ⟨hpieces, hplain, hread, hlast (pathRules.take 1) _ _ rfl (by decide) (by decide),
    hfirst [] _ _ rfl (by decide) (by decide), hnone (by decide), ?_⟩
  exact ((happend _).2 (by decide)).trans (htag (pathRules.take 2) _ _ rfl (by decide) (by decide))

end Warnings
end ApiDoc
