/-
White space, and texts without white space around them.
-/
import ApiDoc.Text.Basic
import Mathlib.Data.List.DropRight
import Mathlib.Data.List.TakeWhile

namespace ApiDoc
namespace Text

def blankCodes : List Nat :=
  [0x09, 0x0A, 0x0B, 0x0C, 0x0D, 0x20, 0x85, 0xA0, 0x1680, 0x2000, 0x2001, 0x2002, 0x2003, 0x2004,
    0x2005, 0x2006, 0x2007, 0x2008, 0x2009, 0x200A, 0x2028, 0x2029, 0x202F, 0x205F, 0x3000]

theorem mem_blankCodes {c : Char} (h : isBlank c = true) : c.toNat ∈ blankCodes := by
  simp only [isBlank, inRanges, blankRanges, List.any_cons, List.any_nil, Bool.or_false,
    Bool.or_eq_true, Bool.and_eq_true, decide_eq_true_eq] at h
  simp only [blankCodes, List.mem_cons, List.not_mem_nil, or_false]
  omega

/-- No blank is in a class of characters that has none of the listed ones. -/
theorem eq_false_of_isBlank {inClass : Char → Bool}
    (h : ∀ n ∈ blankCodes, inClass (Char.ofNat n) = false) {c : Char} (hc : isBlank c = true) :
    inClass c = false := by
  rw [← Char.ofNat_toNat c]
  exact h c.toNat (mem_blankCodes hc)

theorem trimStart_append {blanks : List Char} (h : ∀ c ∈ blanks, isBlank c = true)
    (cs : List Char) : trimStart (blanks ++ cs) = trimStart cs :=
  List.dropWhile_append_of_pos h

theorem trim_blanks_append {blanks : List Char} (h : ∀ c ∈ blanks, isBlank c = true)
    (cs : List Char) : trim (blanks ++ cs) = trim cs := by
  rw [trim, trimStart_append h, trim]

theorem trim_append_blanks {blanks : List Char} (h : ∀ c ∈ blanks, isBlank c = true)
    (cs : List Char) : trim (cs ++ blanks) = trim cs := by
  have hend : ∀ ds : List Char, trimEnd (ds ++ blanks) = trimEnd ds := by
    intro ds
    rw [trimEnd, List.reverse_append,
      List.dropWhile_append_of_pos fun c hc => h c (List.mem_reverse.1 hc), trimEnd]
  have hstart : trimStart (cs ++ blanks) = trimStart cs ++ blanks ∨
      trimStart (cs ++ blanks) = trimStart blanks ∧ trimStart cs = [] := by
    rw [trimStart, trimStart, trimStart, List.dropWhile_append]
    cases hcs : cs.dropWhile isBlank with
    | nil => exact .inr ⟨rfl, rfl⟩
    | cons c rest => exact .inl rfl
  rw [trim, trim]
  rcases hstart with hstart | ⟨hstart, hnil⟩
  · rw [hstart, hend]
  · have hblanks : trimStart blanks = [] := List.dropWhile_eq_nil_iff.2 h
    rw [hstart, hblanks, hnil]

/-- A trimmed text does not start with a blank. -/
theorem isBlank_of_head_trim {cs : List Char} (h : trim cs = cs) :
    ∀ c ∈ cs.head?, isBlank c = false := by
  intro c hc
  have hprefix : trim cs <+: trimStart cs := List.rdropWhile_prefix isBlank (trimStart cs)
  obtain ⟨rest, rfl⟩ := List.head?_eq_some_iff.1 hc
  rw [h] at hprefix
  obtain ⟨after, hafter⟩ := hprefix
  rw [← Bool.not_eq_true]
  intro hblank
  have hshorter : (trimStart (c :: rest)).length ≤ rest.length := by
    rw [trimStart, List.dropWhile_cons_of_pos hblank]
    exact (List.dropWhile_suffix isBlank).length_le
  have hlonger := congrArg List.length hafter
  rw [List.length_append, List.length_cons] at hlonger
  omega

theorem isBlank_of_getLast_trim {cs : List Char} (h : trim cs = cs) :
    ∀ c ∈ cs.getLast?, isBlank c = false := by
  intro c hc
  have hend : List.rdropWhile isBlank (trimStart cs) = cs := h
  have hne : List.rdropWhile isBlank (trimStart cs) ≠ [] := by
    rw [hend]
    rintro rfl
    cases hc
  have hlast := List.rdropWhile_last_not isBlank (trimStart cs) hne
  rw [← Bool.not_eq_true]
  rwa [List.getLast_congr hne (hend ▸ hne) hend,
    Option.some.inj ((List.getLast?_eq_some_getLast (hend ▸ hne)).symm.trans hc)] at hlast

/-- A text is trimmed if it neither starts nor ends with a blank. -/
theorem trim_eq_self_iff {cs : List Char} :
    trim cs = cs ↔
      (∀ c ∈ cs.head?, isBlank c = false) ∧ ∀ c ∈ cs.getLast?, isBlank c = false := by
  refine ⟨fun h => ⟨isBlank_of_head_trim h, isBlank_of_getLast_trim h⟩, fun ⟨hhead, hlast⟩ => ?_⟩
  cases cs with
  | nil => rfl
  | cons c cs =>
    have hstart : trimStart (c :: cs) = c :: cs :=
      List.dropWhile_cons_of_neg (Bool.eq_false_iff.1 (hhead c rfl))
    rw [trim, hstart]
    exact List.rdropWhile_eq_self_iff.2 fun hne =>
      Bool.eq_false_iff.1 (hlast _ (List.getLast?_eq_some_getLast hne))

theorem trimEnd_append_blanks (cs : List Char) :
    ∃ blanks, cs = trimEnd cs ++ blanks ∧ ∀ c ∈ blanks, isBlank c = true := by
  refine ⟨(cs.reverse.takeWhile isBlank).reverse, ?_, fun c hc => ?_⟩
  · rw [trimEnd, ← List.reverse_append, List.takeWhile_append_dropWhile, List.reverse_reverse]
  · exact List.mem_takeWhile_imp (List.mem_reverse.1 hc)

theorem trim_trimEnd (cs : List Char) : trim (trimEnd cs) = trim cs := by
  obtain ⟨blanks, hcs, hblanks⟩ := trimEnd_append_blanks cs
  rw [← trim_append_blanks hblanks (trimEnd cs), ← hcs]

/-- White space behind a text with something in front that is trimmed and not empty. -/
theorem trim_append {front : List Char} (h : trim front = front) (hne : front ≠ [])
    (cs : List Char) : trim (front ++ cs) = front ++ trimEnd cs := by
  obtain ⟨c, rest, rfl⟩ := List.exists_cons_of_ne_nil hne
  have hsolid := Bool.eq_false_iff.1 (isBlank_of_head_trim h c rfl)
  have hstart : trimStart (c :: rest ++ cs) = c :: rest ++ cs := List.dropWhile_cons_of_neg hsolid
  have hend : trimEnd (c :: rest) = c :: rest := by
    rwa [trim, trimStart, List.dropWhile_cons_of_neg hsolid] at h
  have hkept : (c :: rest).reverse.dropWhile isBlank = (c :: rest).reverse := by
    rw [← List.reverse_inj, List.reverse_reverse]
    exact hend
  rw [trim, hstart, trimEnd, List.reverse_append, List.dropWhile_append, hkept, trimEnd]
  cases cs.reverse.dropWhile isBlank with
  | nil => simp
  | cons d ds => simp

theorem length_trim_le (cs : List Char) : (trim cs).length ≤ cs.length :=
  Nat.le_trans (length_trimEnd_le _) (List.dropWhile_suffix isBlank).length_le

end Text
end ApiDoc
