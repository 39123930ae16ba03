/-
Cutting and joining of texts.

Scanning works on `List Char`, records hold `String`.  Positions that leave the library are byte
offsets of the UTF-8 form, so `byteLength` is the one measure of a text here.
-/
import ApiDoc.Text.CharClass

namespace ApiDoc
namespace Text

/-- The number of bytes that the characters take in UTF-8. -/
def byteLength : List Char → Nat
  | [] => 0
  | c :: cs => c.utf8Size + byteLength cs

@[simp] theorem byteLength_nil : byteLength [] = 0 := rfl

@[simp] theorem byteLength_cons (c : Char) (cs : List Char) :
    byteLength (c :: cs) = c.utf8Size + byteLength cs := rfl

@[simp] theorem byteLength_append (a b : List Char) :
    byteLength (a ++ b) = byteLength a + byteLength b := by
  induction a with
  | nil => simp
  | cons c a ih =>
    rw [List.cons_append, byteLength_cons, byteLength_cons, ih]
    omega

theorem byteLength_of_narrow {cs : List Char} (h : ∀ c ∈ cs, c.utf8Size = 1) :
    byteLength cs = cs.length := by
  induction cs with
  | nil => rfl
  | cons c cs ih =>
    rw [byteLength_cons, List.length_cons, h c List.mem_cons_self, Nat.add_comm,
      ih fun d hd => h d (List.mem_cons_of_mem c hd)]

/-! ### The front of a list -/

section
variable {α : Type} {p : α → Bool}

/-- If the rest starts with no element of the kind, the front alone decides how many there are. -/
theorem takeWhile_append_of_head {b : List α} (hb : ∀ x ∈ b.head?, p x = false) (a : List α) :
    (a ++ b).takeWhile p = a.takeWhile p := by
  induction a with
  | nil =>
    cases b with
    | nil => rfl
    | cons x b => exact List.takeWhile_cons_of_neg (Bool.eq_false_iff.1 (hb x rfl))
  | cons x a ih => rw [List.cons_append, List.takeWhile_cons, List.takeWhile_cons, ih]

theorem dropWhile_append_of_head {b : List α} (hb : ∀ x ∈ b.head?, p x = false) (a : List α) :
    (a ++ b).dropWhile p = a.dropWhile p ++ b := by
  have hsplit := @List.takeWhile_append_dropWhile _ p (a ++ b)
  rw [takeWhile_append_of_head hb] at hsplit
  refine List.append_cancel_left (hsplit.trans ?_)
  rw [← List.append_assoc, List.takeWhile_append_dropWhile]

theorem takeWhile_append_cons {x : α} (hx : p x = false) (a b : List α) :
    (a ++ x :: b).takeWhile p = a.takeWhile p :=
  takeWhile_append_of_head (fun _ hy => Option.some.inj hy ▸ hx) a

theorem takeWhile_append_stop {a b : List α} (ha : ∀ x ∈ a, p x = true)
    (hb : ∀ x ∈ b.head?, p x = false) : (a ++ b).takeWhile p = a := by
  have hstop : b.takeWhile p = [] := takeWhile_append_of_head hb []
  rw [List.takeWhile_append_of_pos ha, hstop, List.append_nil]

theorem dropWhile_append_stop {a b : List α} (ha : ∀ x ∈ a, p x = true)
    (hb : ∀ x ∈ b.head?, p x = false) : (a ++ b).dropWhile p = b := by
  have hsplit := @List.takeWhile_append_dropWhile _ p (a ++ b)
  rw [takeWhile_append_stop ha hb] at hsplit
  exact List.append_cancel_left hsplit

end

/-- The first characters that fill exactly `n` bytes, and the rest.  There is no answer if a
character straddles that point. -/
def cutAtByte? : Nat → List Char → Option (List Char × List Char)
  | 0, cs => some ([], cs)
  | _ + 1, [] => none
  | n + 1, c :: cs =>
    if c.utf8Size ≤ n + 1 then
      (cutAtByte? (n + 1 - c.utf8Size) cs).map fun p => (c :: p.1, p.2)
    else none

theorem append_of_cutAtByte? {n : Nat} {cs a b : List Char}
    (h : cutAtByte? n cs = some (a, b)) : a ++ b = cs := by
  induction cs generalizing n a b with
  | nil =>
    cases n with
    | zero => simp [cutAtByte?] at h; simp [h.1, h.2]
    | succ n => simp [cutAtByte?] at h
  | cons c cs ih =>
    cases n with
    | zero => simp [cutAtByte?] at h; simp [h.1, h.2]
    | succ n =>
      simp only [cutAtByte?] at h
      split at h
      · obtain ⟨p, hp, heq⟩ := Option.map_eq_some_iff.1 h
        obtain ⟨p1, p2⟩ := p
        simp only [Prod.mk.injEq] at heq
        obtain ⟨rfl, rfl⟩ := heq
        simp [ih hp]
      · simp at h

theorem byteLength_of_cutAtByte? {n : Nat} {cs a b : List Char} (h : cutAtByte? n cs = some (a, b)) :
    byteLength a = n := by
  induction cs generalizing n a b with
  | nil =>
    cases n with
    | zero =>
      cases h
      rfl
    | succ n => cases h
  | cons c cs ih =>
    cases n with
    | zero =>
      cases h
      rfl
    | succ n =>
      rw [cutAtByte?, Option.ite_none_right_eq_some] at h
      obtain ⟨hc, h⟩ := h
      obtain ⟨p, hp, heq⟩ := Option.map_eq_some_iff.1 h
      cases heq
      rw [byteLength_cons, ih hp]
      omega

/-- Where a text is cut between characters, the bytes in front of the cut are counted. -/
theorem cutAtByte?_append (a b : List Char) : cutAtByte? (byteLength a) (a ++ b) = some (a, b) := by
  induction a with
  | nil => cases b <;> rfl
  | cons c a ih =>
    have hpos := c.utf8Size_pos
    obtain ⟨n, hn⟩ := Nat.exists_eq_add_of_lt hpos
    have hsum : byteLength (c :: a) = (n + byteLength a) + 1 := by
      rw [byteLength_cons]
      omega
    have hrest : n + byteLength a + 1 - c.utf8Size = byteLength a := by omega
    rw [hsum, List.cons_append, cutAtByte?, if_pos (by omega), hrest, ih]
    rfl

theorem cutAtByte?_eq_some_iff {n : Nat} {cs a b : List Char} :
    cutAtByte? n cs = some (a, b) ↔ cs = a ++ b ∧ byteLength a = n := by
  constructor
  · exact fun h => ⟨(append_of_cutAtByte? h).symm, byteLength_of_cutAtByte? h⟩
  · rintro ⟨rfl, rfl⟩
    exact cutAtByte?_append a b

def trimStart (cs : List Char) : List Char := cs.dropWhile isBlank

def trimEnd (cs : List Char) : List Char := (cs.reverse.dropWhile isBlank).reverse

def trim (cs : List Char) : List Char := trimEnd (trimStart cs)

def trimString (s : String) : String := String.ofList (trim s.toList)

/-- Whether a text holds nothing but white space. -/
def isBlankText (cs : List Char) : Bool := cs.all isBlank

def dropLastReturn (cs : List Char) : List Char :=
  if cs.getLast? == some '\r' then cs.dropLast else cs

/-- The lines of a text.  A line ends with a newline, of which a carriage return before it is
part; what follows the last newline is a line only if there is something. -/
def lines (cs : List Char) : List (List Char) :=
  let pieces := cs.splitOn '\n'
  let closed := pieces.dropLast.map dropLastReturn
  match pieces.getLast? with
  | some [] => closed
  | some last => closed ++ [last]
  | none => closed

def joinWith (separator : List Char) (pieces : List (List Char)) : List Char :=
  separator.intercalate pieces

def cutFirst? (d : Char) : List Char → Option (List Char × List Char)
  | [] => none
  | c :: cs => if c == d then some ([], cs) else (cutFirst? d cs).map fun p => (c :: p.1, p.2)

def cutLast? (d : Char) (cs : List Char) : Option (List Char × List Char) :=
  (cutFirst? d cs.reverse).map fun p => (p.2.reverse, p.1.reverse)

theorem cutFirst?_append {d : Char} {a : List Char} (h : d ∉ a) (b : List Char) :
    cutFirst? d (a ++ d :: b) = some (a, b) := by
  induction a with
  | nil => simp [cutFirst?]
  | cons c a ih =>
    rw [List.mem_cons, not_or] at h
    rw [List.cons_append, cutFirst?, if_neg (by simpa using Ne.symm h.1), ih h.2]
    rfl

theorem cutFirst?_of_not_mem {d : Char} {cs : List Char} (h : d ∉ cs) : cutFirst? d cs = none := by
  induction cs with
  | nil => rfl
  | cons c cs ih =>
    rw [List.mem_cons, not_or] at h
    rw [cutFirst?, if_neg (by simpa using Ne.symm h.1), ih h.2]
    rfl

theorem cutLast?_append {d : Char} {b : List Char} (h : d ∉ b) (a : List Char) :
    cutLast? d (a ++ d :: b) = some (a, b) := by
  have hreverse : (a ++ d :: b).reverse = b.reverse ++ d :: a.reverse := by simp
  rw [cutLast?, hreverse, cutFirst?_append (by simpa using h)]
  simp

theorem eq_append_of_cutFirst? {d : Char} {cs a b : List Char} (h : cutFirst? d cs = some (a, b)) :
    d ∉ a ∧ cs = a ++ d :: b := by
  induction cs generalizing a with
  | nil => cases h
  | cons c cs ih =>
    rw [cutFirst?] at h
    by_cases hc : c = d
    · rw [if_pos (beq_iff_eq.2 hc)] at h
      cases h
      exact ⟨List.not_mem_nil, by rw [hc, List.nil_append]⟩
    · rw [if_neg (fun heq => hc (eq_of_beq heq))] at h
      obtain ⟨p, hp, heq⟩ := Option.map_eq_some_iff.1 h
      cases heq
      obtain ⟨hmem, hcs⟩ := ih hp
      refine ⟨?_, congrArg (c :: ·) hcs⟩
      rw [List.mem_cons, not_or]
      exact ⟨fun heq => hc heq.symm, hmem⟩

theorem cutLast?_eq_some_iff {d : Char} {cs a b : List Char} :
    cutLast? d cs = some (a, b) ↔ cs = a ++ d :: b ∧ d ∉ b := by
  constructor
  · intro h
    obtain ⟨p, hp, heq⟩ := Option.map_eq_some_iff.1 h
    cases heq
    obtain ⟨hmem, hcs⟩ := eq_append_of_cutFirst? hp
    refine ⟨?_, fun hb => hmem (List.mem_reverse.1 hb)⟩
    rw [← List.reverse_reverse cs, hcs]
    simp
  · rintro ⟨rfl, hb⟩
    exact cutLast?_append hb a

theorem length_fst_cutLast? {d : Char} {cs : List Char} {p : List Char × List Char}
    (h : cutLast? d cs = some p) : p.1.length < cs.length := by
  obtain ⟨rfl, -⟩ := cutLast?_eq_some_iff.1 h
  rw [List.length_append, List.length_cons]
  omega

theorem length_trimEnd_le (cs : List Char) : (trimEnd cs).length ≤ cs.length := by
  have h := (@List.dropWhile_suffix _ cs.reverse isBlank).length_le
  simpa [trimEnd] using h

def cutText? (part : List Char) : List Char → Option (List Char × List Char)
  | [] => (part.isPrefixOf? []).map fun rest => ([], rest)
  | c :: cs =>
    match part.isPrefixOf? (c :: cs) with
    | some rest => some ([], rest)
    | none => (cutText? part cs).map fun p => (c :: p.1, p.2)

theorem eq_append_of_isPrefixOf? {part cs rest : List Char} (h : part.isPrefixOf? cs = some rest) :
    cs = part ++ rest := by
  induction part generalizing cs with
  | nil => exact Option.some.inj h
  | cons p part ih =>
    cases cs with
    | nil => cases h
    | cons c cs =>
      change (if p == c then part.isPrefixOf? cs else none) = some rest at h
      rw [Option.ite_none_right_eq_some] at h
      obtain ⟨hpc, h⟩ := h
      rw [ih h, eq_of_beq hpc]
      rfl

theorem length_of_isPrefixOf? {part cs rest : List Char} (h : part.isPrefixOf? cs = some rest) :
    cs.length = part.length + rest.length := by
  rw [eq_append_of_isPrefixOf? h, List.length_append]

/-- A cut leaves out the part that was looked for. -/
theorem length_of_cutText? {part cs : List Char} {p : List Char × List Char}
    (h : cutText? part cs = some p) : cs.length = p.1.length + part.length + p.2.length := by
  induction cs generalizing p with
  | nil =>
    obtain ⟨rest, hr, rfl⟩ := Option.map_eq_some_iff.1 h
    have := length_of_isPrefixOf? hr
    simp only [List.length_nil] at this ⊢
    omega
  | cons c cs ih =>
    simp only [cutText?] at h
    split at h
    · next rest hr =>
      have := length_of_isPrefixOf? hr
      cases h
      simpa using this
    · obtain ⟨q, hq, rfl⟩ := Option.map_eq_some_iff.1 h
      simp only [List.length_cons, ih hq]
      omega

def containsText (part : List Char) : List Char → Bool
  | [] => part.isEmpty
  | c :: cs => part.isPrefixOf (c :: cs) || containsText part cs

def dropEnding? (ending text : String) : Option String :=
  (ending.toList.reverse.isPrefixOf? text.toList.reverse).map fun r => String.ofList r.reverse

def hasEnding (ending text : String) : Bool := (dropEnding? ending text).isSome

def parentName? (name : String) : Option String :=
  (cutLast? '.' name.toList).map fun p => String.ofList p.1

def lastSegment (name : String) : String :=
  match cutLast? '.' name.toList with
  | some p => String.ofList p.2
  | none => name

theorem parentName?_eq_some_iff {name parent : String} :
    parentName? name = some parent ↔
      ∃ segment, name.toList = parent.toList ++ '.' :: segment ∧ '.' ∉ segment := by
  rw [parentName?, Option.map_eq_some_iff]
  constructor
  · rintro ⟨p, hp, rfl⟩
    rw [String.toList_ofList]
    exact ⟨p.2, cutLast?_eq_some_iff.1 hp⟩
  · rintro ⟨segment, hname⟩
    exact ⟨(parent.toList, segment), cutLast?_eq_some_iff.2 hname, String.ofList_toList⟩

/-- A name is that of its parent, a dot and the last segment. -/
theorem eq_append_lastSegment {name parent : String} (h : parentName? name = some parent) :
    name = parent ++ "." ++ lastSegment name := by
  obtain ⟨segment, hname, hsegment⟩ := parentName?_eq_some_iff.1 h
  have hlast : lastSegment name = String.ofList segment := by
    rw [lastSegment, cutLast?_eq_some_iff.2 ⟨hname, hsegment⟩]
  rw [hlast, ← String.toList_inj, String.toList_append, String.toList_append, List.append_assoc,
    String.toList_ofList, String.toList_ofList]
  exact hname

def firstSegment (name : String) : String :=
  String.ofList (name.toList.takeWhile (· != '.'))

def joinStrings (separator : String) (pieces : List String) : String :=
  String.intercalate separator pieces

end Text
end ApiDoc
