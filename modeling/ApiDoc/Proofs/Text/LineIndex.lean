/-
Numbers of lines by byte offsets.

An index of a text holds the places in bytes at which its lines start, in their order, and the line of an
offset is looked up by halving.  It is one more than the newlines in front of the offset
(`line_counts_newlines`), so it agrees with the counts that are kept while a text is read.  Places and
numbers of lines have 32 bits.
-/
import Mathlib.Algebra.Group.Nat.Defs
import Mathlib.Data.List.Basic
import ApiDoc.Proofs.Stylesheet.BlockComments
import ApiDoc.Script.Cursor

namespace ApiDoc
namespace Text

/-! ### The bytes of a text -/

/-- The bytes of a text in UTF-8. -/
def bytes (text : List Char) : List UInt8 := text.flatMap String.utf8EncodeChar

def newline : UInt8 := 10

/-- How many newlines there are among the bytes in front of an offset. -/
def newlinesBefore (text : List Char) (offset : Nat) : Nat := ((bytes text).take offset).count newline

theorem bytes_append (a b : List Char) : bytes (a ++ b) = bytes a ++ bytes b := List.flatMap_append

theorem length_bytes (text : List Char) : (bytes text).length = byteLength text := by
  induction text with
  | nil => rfl
  | cons c text ih =>
    rw [bytes, List.flatMap_cons, List.length_append, String.length_utf8EncodeChar, byteLength_cons, ← ih]
    rfl

theorem ofNat_ne_newline {n : Nat} (h : 128 ≤ n) (hn : n < 256) : UInt8.ofNat n ≠ newline := by
  intro heq
  have htoNat := congrArg UInt8.toNat heq
  rw [UInt8.toNat_ofNat', Nat.mod_eq_of_lt hn, show newline.toNat = 10 from rfl] at htoNat
  omega

/-- The bytes of wider characters start at 128. -/
theorem newline_not_mem_utf8EncodeChar {c : Char} (h : 127 < c.val.toNat) :
    newline ∉ String.utf8EncodeChar c := by
  have hbyte : ∀ n, 128 ≤ n → n < 256 → newline ≠ UInt8.ofNat n :=
    fun n hle hlt => Ne.symm (ofNat_ne_newline hle hlt)
  fun_cases String.utf8EncodeChar c with
  | case1 v hv => exact absurd h (Nat.not_lt.2 hv)
  | case2 v h1 h2 =>
    simp only [List.mem_cons, List.not_mem_nil, or_false, not_or]
    exact ⟨hbyte _ (by omega) (by omega), hbyte _ (by omega) (by omega)⟩
  | case3 v h1 h2 h3 =>
    simp only [List.mem_cons, List.not_mem_nil, or_false, not_or]
    exact ⟨hbyte _ (by omega) (by omega), hbyte _ (by omega) (by omega), hbyte _ (by omega) (by omega)⟩
  | case4 v h1 h2 h3 =>
    simp only [List.mem_cons, List.not_mem_nil, or_false, not_or]
    exact ⟨hbyte _ (by omega) (by omega), hbyte _ (by omega) (by omega), hbyte _ (by omega) (by omega),
      hbyte _ (by omega) (by omega)⟩

/-- A newline is a byte, and no other character has that byte. -/
theorem count_newline_utf8EncodeChar (c : Char) :
    (String.utf8EncodeChar c).count newline = if c = '\n' then 1 else 0 := by
  by_cases hwide : 127 < c.val.toNat
  · have hc : c ≠ '\n' := by
      rintro rfl
      exact absurd hwide (by decide)
    rw [if_neg hc, List.count_eq_zero]
    exact newline_not_mem_utf8EncodeChar hwide
  · have hvalue : UInt8.ofNat c.val.toNat = newline ↔ c = '\n' := by
      rw [← UInt8.toNat_inj, UInt8.toNat_ofNat', Nat.mod_eq_of_lt (by omega), ← Char.toNat_inj]
      rfl
    rw [String.utf8EncodeChar, if_pos (Nat.le_of_not_lt hwide), List.count_singleton]
    simp only [beq_iff_eq, hvalue]

theorem count_newline_bytes (text : List Char) : (bytes text).count newline = text.count '\n' := by
  induction text with
  | nil => rfl
  | cons c text ih =>
    rw [bytes, List.flatMap_cons, List.count_append, count_newline_utf8EncodeChar, List.count_cons, ← ih,
      Nat.add_comm]
    simp only [beq_iff_eq]
    rfl

/-- Between two characters the newlines among the bytes are those among the characters. -/
theorem newlinesBefore_append (front rest : List Char) :
    newlinesBefore (front ++ rest) (byteLength front) = front.count '\n' := by
  rw [newlinesBefore, bytes_append, ← length_bytes, List.take_left, count_newline_bytes]

/-! ### Looking up in a row -/

namespace LineIndex

/-- Where a number stands in a row, or where it could be put in. -/
inductive Slot where
  | found (i : Nat)
  | missing (i : Nat)
  deriving DecidableEq, Repr

/-- Halves the row of `size` places from `base` on until one of them is left. -/
def narrow (row : Array UInt32) (x : UInt32) (base size : Nat) (h : base + size ≤ row.size) : Nat :=
  if hsize : 1 < size then
    if x < row[base + size / 2] then narrow row x base (size - size / 2) (by omega)
    else narrow row x (base + size / 2) (size - size / 2) (by omega)
  else base
termination_by size

theorem narrow_lt (row : Array UInt32) (x : UInt32) {base size : Nat} (h : base + size ≤ row.size)
    (hsize : 0 < size) : narrow row x base size h < row.size := by
  fun_induction narrow row x base size h with
  | case1 base size h hlarge hlt ih => exact ih (by omega)
  | case2 base size h hlarge hlt ih => exact ih (by omega)
  | case3 base size h hsmall => omega

/-- The slot of a number, told by the number at a place next to it. -/
def slotAt (row : Array UInt32) (x : UInt32) (i : Nat) (hi : i < row.size) : Slot :=
  if row[i] = x then .found i
  else if row[i] < x then .missing (i + 1)
  else .missing i

def search (row : Array UInt32) (x : UInt32) : Slot :=
  if h : 0 < row.size then
    slotAt row x (narrow row x 0 row.size (Nat.le_of_eq (Nat.zero_add _))) (narrow_lt row x _ h)
  else .missing 0

/-- What is asked of a search in a row that is in order.  Nothing else about it matters for the lines. -/
inductive Answers (row : Array UInt32) (x : UInt32) : Slot → Prop
  | found {i : Nat} (h : i < row.size) : row[i] = x → Answers row x (.found i)
  | missing {i : Nat} : i ≤ row.size → (∀ j (h : j < row.size), j < i → row[j] < x) →
      (∀ j (h : j < row.size), i ≤ j → x < row[j]) → Answers row x (.missing i)

/-- A row in which each number is above those before it. -/
def Rises (row : Array UInt32) : Prop := ∀ i j (hij : i < j) (hj : j < row.size), row[i] < row[j]

theorem Rises.le {row : Array UInt32} (h : Rises row) {i j : Nat} (hij : i ≤ j) (hj : j < row.size) :
    row[i].toNat ≤ row[j].toNat := by
  rcases Nat.lt_or_eq_of_le hij with hij | rfl
  · exact Nat.le_of_lt (UInt32.lt_iff_toNat_lt.1 (h i j hij hj))
  · exact Nat.le_refl _

section
variable {row : Array UInt32} {x : UInt32}

/-- All behind the place that is left is above `x`, and what stands there is not, unless it is the first. -/
theorem narrow_spec (hrises : Rises row) {base size : Nat} (h : base + size ≤ row.size)
    (hsize : 0 < size) (hlow : ∀ hbase : base < row.size, base ≠ 0 → row[base] ≤ x)
    (hhigh : ∀ j (hj : j < row.size), base + size ≤ j → x < row[j]) :
    (∀ hi : narrow row x base size h < row.size, narrow row x base size h ≠ 0 →
        row[narrow row x base size h] ≤ x) ∧
      ∀ j (hj : j < row.size), narrow row x base size h < j → x < row[j] := by
  fun_induction narrow row x base size h with
  | case1 base size h hlarge hlt ih =>
    -- The number in the middle is above `x`, and so are all behind it.
    refine ih (by omega) hlow fun j hj hle => ?_
    have hmono := hrises.le (show base + size / 2 ≤ j by omega) hj
    rw [UInt32.lt_iff_toNat_lt] at hlt ⊢
    omega
  | case2 base size h hlarge hlt ih =>
    refine ih (by omega) (fun _ _ => UInt32.not_lt.1 hlt) fun j hj hle => hhigh j hj (by omega)
  | case3 base size h hsmall =>
    exact ⟨hlow, fun j hj hlt => hhigh j hj (by omega)⟩

theorem answers_slotAt (hrises : Rises row) {i : Nat} (hi : i < row.size)
    (hlow : i ≠ 0 → row[i] ≤ x) (hhigh : ∀ j (hj : j < row.size), i < j → x < row[j]) :
    Answers row x (slotAt row x i hi) := by
  rw [slotAt]
  split
  · next heq => exact .found hi heq
  · next hne =>
    split
    · next hlt =>
      refine .missing hi (fun j hj hji => ?_) (fun j hj hij => hhigh j hj hij)
      have hle := hrises.le (Nat.le_of_lt_succ hji) hi
      rw [UInt32.lt_iff_toNat_lt] at hlt ⊢
      omega
    · next hge =>
      -- Only the first number of the row can be the one that is left and still be above `x`.
      have habove : x < row[i] := by
        have hnat : row[i].toNat ≠ x.toNat := fun heq => hne (UInt32.toNat_inj.1 heq)
        rw [UInt32.lt_iff_toNat_lt] at hge ⊢
        omega
      have hfirst : i = 0 := by
        by_contra hpos
        exact absurd habove (UInt32.not_lt.2 (hlow hpos))
      subst hfirst
      refine .missing (Nat.zero_le _) (fun j _ hj => absurd hj (Nat.not_lt_zero j)) fun j hj hij => ?_
      have hle := hrises.le hij hj
      rw [UInt32.lt_iff_toNat_lt] at habove ⊢
      omega

theorem answers_search (hrises : Rises row) : Answers row x (search row x) := by
  rw [search]
  split
  · next h =>
    obtain ⟨hlow, hhigh⟩ := narrow_spec (x := x) hrises (Nat.le_of_eq (Nat.zero_add _)) h
      (fun _ hbase => absurd rfl hbase) (fun j hj hle => by omega)
    exact answers_slotAt hrises _ (hlow _) hhigh
  · next h =>
    exact .missing (Nat.zero_le _) (fun j _ hj => absurd hj (Nat.not_lt_zero j))
      (fun j hj _ => absurd (Nat.zero_lt_of_lt hj) h)

/-- If the first `k` numbers of a row are not above `x` and the others are, there are `k` such numbers. -/
theorem countP_le_of_cut {k : Nat} (hk : k ≤ row.size)
    (hlow : ∀ j (hj : j < row.size), j < k → row[j] ≤ x)
    (hhigh : ∀ j (hj : j < row.size), k ≤ j → x < row[j]) : row.toList.countP (· ≤ x) = k := by
  have hlength : row.toList.length = row.size := Array.length_toList
  have htake : (row.toList.take k).countP (· ≤ x) = (row.toList.take k).length := by
    refine List.countP_eq_length.2 fun a ha => ?_
    obtain ⟨j, hj, rfl⟩ := List.mem_take_iff_getElem.1 ha
    exact decide_eq_true (hlow j (by omega) (by omega))
  have hdrop : (row.toList.drop k).countP (· ≤ x) = 0 := by
    refine List.countP_eq_zero.2 fun a ha => ?_
    obtain ⟨j, hj, rfl⟩ := List.mem_drop_iff_getElem.1 ha
    rw [decide_eq_true_eq, UInt32.not_le]
    exact hhigh (k + j) (by omega) (Nat.le_add_right k j)
  rw [← List.take_append_drop k row.toList, List.countP_append, htake, hdrop, List.length_take]
  omega

theorem countP_of_found (hrises : Rises row) {i : Nat} (hi : i < row.size) :
    row.toList.countP (· ≤ row[i]) = i + 1 :=
  countP_le_of_cut hi
    (fun _ _ hji => UInt32.le_iff_toNat_le.2 (hrises.le (Nat.le_of_lt_succ hji) hi))
    (fun j hj hij => hrises i j hij hj)

end

end LineIndex

/-! ### The index -/

/-- The places right behind the newlines of a row of bytes, the first of which has the place `place`. -/
def startsFrom (place : Nat) : List UInt8 → List UInt32
  | [] => []
  | b :: bs =>
    if b = newline then .ofNat (place + 1) :: startsFrom (place + 1) bs
    else startsFrom (place + 1) bs

/-- Where the lines of a text start. -/
structure LineIndex where
  starts : Array UInt32
  deriving Repr

theorem take_sub_of_lt {place n : Nat} (h : place < n) (b : UInt8) (bs : List UInt8) :
    (b :: bs).take (n - place) = b :: bs.take (n - (place + 1)) := by
  have hstep : n - place = n - (place + 1) + 1 := by omega
  rw [hstep, List.take_succ_cons]

theorem take_sub_of_le {place n : Nat} (h : n ≤ place) (bs : List UInt8) : bs.take (n - place) = [] := by
  rw [Nat.sub_eq_zero_of_le h, List.take_zero]

section
variable {place : Nat} {bs : List UInt8}

theorem lt_of_mem_startsFrom (hsize : place + bs.length < 2 ^ 32) {start : UInt32}
    (h : start ∈ startsFrom place bs) : place < start.toNat := by
  fun_induction startsFrom place bs with
  | case1 => cases h
  | case2 place bs ih =>
    rw [List.length_cons] at hsize
    rcases List.mem_cons.1 h with rfl | h
    · rw [UInt32.toNat_ofNat_of_lt' (show place + 1 < 2 ^ 32 by omega)]
      exact Nat.lt_succ_self place
    · have hlt := ih (by omega) h
      omega
  | case3 place b bs hb ih =>
    rw [List.length_cons] at hsize
    have hlt := ih (by omega) h
    omega

/-- The lines start one behind the other. -/
theorem pairwise_startsFrom (hsize : place + bs.length < 2 ^ 32) :
    (startsFrom place bs).Pairwise (· < ·) := by
  fun_induction startsFrom place bs with
  | case1 => exact .nil
  | case2 place bs ih =>
    rw [List.length_cons] at hsize
    refine .cons (fun start hstart => ?_) (ih (by omega))
    rw [UInt32.lt_iff_toNat_lt, UInt32.toNat_ofNat_of_lt' (show place + 1 < 2 ^ 32 by omega)]
    exact lt_of_mem_startsFrom (by omega) hstart
  | case3 place b bs hb ih =>
    rw [List.length_cons] at hsize
    exact ih (by omega)

/-- Up to a place as many lines start as there are newlines in front of it. -/
theorem countP_startsFrom (hsize : place + bs.length < 2 ^ 32) (x : UInt32) :
    (startsFrom place bs).countP (· ≤ x) = (bs.take (x.toNat - place)).count newline := by
  fun_induction startsFrom place bs with
  | case1 => rw [List.take_nil, List.countP_nil, List.count_nil]
  | case2 place bs ih =>
    rw [List.length_cons] at hsize
    have hrest := ih (by omega)
    have hstart : (UInt32.ofNat (place + 1)).toNat = place + 1 :=
      UInt32.toNat_ofNat_of_lt' (show place + 1 < 2 ^ 32 by omega)
    by_cases hlt : place < x.toNat
    · rw [take_sub_of_lt hlt, List.count_cons_self, ← hrest, List.countP_cons_of_pos]
      rw [decide_eq_true_eq, UInt32.le_iff_toNat_le]
      omega
    · have hle := Nat.le_of_not_lt hlt
      rw [take_sub_of_le hle, List.countP_cons_of_neg, hrest, take_sub_of_le (Nat.le_succ_of_le hle)]
      rw [decide_eq_true_eq, UInt32.le_iff_toNat_le]
      omega
  | case3 place b bs hb ih =>
    rw [List.length_cons] at hsize
    rw [ih (by omega)]
    by_cases hlt : place < x.toNat
    · rw [take_sub_of_lt hlt, List.count_cons_of_ne hb]
    · have hle := Nat.le_of_not_lt hlt
      rw [take_sub_of_le hle, take_sub_of_le (Nat.le_succ_of_le hle)]

end

namespace LineIndex

def ofText (text : List Char) : LineIndex := { starts := (0 :: startsFrom 0 (bytes text)).toArray }

/-- The line of an offset, the first line being 1: an offset at which no line starts belongs to the line
before the place where it could be put in. -/
def line (index : LineIndex) (offset : UInt32) : UInt32 :=
  let i := match search index.starts offset with
    | .found i => i
    | .missing i => i - 1
  .ofNat i + 1

theorem rises_ofText {text : List Char} (hsize : byteLength text < 2 ^ 32) :
    Rises (ofText text).starts := by
  rw [← length_bytes, ← Nat.zero_add (bytes text).length] at hsize
  have hpairwise : (0 :: startsFrom 0 (bytes text)).Pairwise (· < ·) :=
    .cons (fun start hstart => UInt32.lt_iff_toNat_lt.2 (lt_of_mem_startsFrom hsize hstart))
      (pairwise_startsFrom hsize)
  exact fun i j hij hj => List.pairwise_iff_getElem.1 hpairwise i j (Nat.lt_trans hij hj) hj hij

/-- The line of an offset is the number of the lines that start up to there, whatever is found. -/
theorem line_eq_countP {index : LineIndex} (hrises : Rises index.starts) {offset : UInt32}
    (hpos : 0 < index.starts.size) (hfirst : index.starts[0] ≤ offset) :
    index.line offset = .ofNat (index.starts.toList.countP (· ≤ offset)) := by
  rw [line]
  have hanswer := answers_search (x := offset) hrises
  generalize search index.starts offset = slot at hanswer
  cases hanswer with
  | @found i hi hvalue =>
    subst hvalue
    rw [countP_of_found hrises hi, UInt32.ofNat_add]
    rfl
  | @missing i hi hlow hhigh =>
    have hcount := countP_le_of_cut hi (fun j hj hji => UInt32.le_of_lt (hlow j hj hji)) hhigh
    cases i with
    -- Nothing is put in before the start of the first line.
    | zero => exact absurd hfirst (UInt32.not_le.2 (hhigh 0 hpos (Nat.le_refl 0)))
    | succ i =>
      rw [hcount, UInt32.ofNat_add]
      rfl

theorem line_ofText {text : List Char} (hsize : byteLength text < 2 ^ 32) (offset : UInt32) :
    (ofText text).line offset = .ofNat (newlinesBefore text offset.toNat) + 1 := by
  have hplaces : 0 + (bytes text).length < 2 ^ 32 := by
    rw [length_bytes, Nat.zero_add]
    exact hsize
  have hpos : 0 < (ofText text).starts.size := Nat.succ_pos _
  have hfirst : (ofText text).starts[0] ≤ offset := UInt32.zero_le
  rw [line_eq_countP (rises_ofText hsize) hpos hfirst]
  show UInt32.ofNat ((0 :: startsFrom 0 (bytes text)).countP (· ≤ offset)) = _
  rw [List.countP_cons_of_pos (by simp), countP_startsFrom hplaces, UInt32.ofNat_add]
  rfl

end LineIndex

end Text

/-! ### Lines counted on the way -/

namespace Script
namespace Cursor

open Text

theorem offset_forward (n : Nat) (c : Cursor) :
    (c.forward n).offset = c.offset + byteLength (c.rest.take n) := by
  induction n generalizing c with
  | zero => rfl
  | succ n ih =>
    obtain ⟨rest, left, offset, line⟩ := c
    rw [forward, ih]
    cases rest with
    | nil => rw [next, List.take_nil, List.take_nil]
    | cons ch rest => rw [next, List.take_succ_cons, byteLength_cons, Nat.add_assoc]

theorem line_forward (n : Nat) (c : Cursor) :
    (c.forward n).line = c.line + (c.rest.take n).count '\n' := by
  induction n generalizing c with
  | zero => rfl
  | succ n ih =>
    obtain ⟨rest, left, offset, line⟩ := c
    rw [forward, ih]
    cases rest with
    | nil => rw [next, List.take_nil, List.take_nil]
    | cons ch rest =>
      show (if ch == '\n' then line + 1 else line) + (rest.take n).count '\n' =
        line + ((ch :: rest).take (n + 1)).count '\n'
      rw [List.take_succ_cons, List.count_cons]
      split
      · omega
      · omega

end Cursor
end Script

namespace Text

theorem length_le_byteLength (cs : List Char) : cs.length ≤ byteLength cs := by
  induction cs with
  | nil => exact Nat.le_refl 0
  | cons c cs ih =>
    have hpos := c.utf8Size_pos
    rw [List.length_cons, byteLength_cons]
    omega

namespace LineIndex

/-- A number of a line is exact but behind the last newline of a text that has nothing else and is as long
as can be: the line there has a number of more than 32 bits. -/
theorem toNat_line_ofText {text : List Char} (hsize : byteLength text < 2 ^ 32)
    (htext : text ≠ List.replicate (2 ^ 32 - 1) '\n') (offset : UInt32) :
    ((ofText text).line offset).toNat = newlinesBefore text offset.toNat + 1 := by
  have hbefore : newlinesBefore text offset.toNat ≤ text.count '\n' := by
    rw [← count_newline_bytes]
    exact (List.take_sublist _ _).count_le newline
  have hlength := length_le_byteLength text
  have hcount := @List.count_le_length _ _ '\n' text
  have hfits : newlinesBefore text offset.toNat + 1 < 2 ^ 32 := by
    by_contra hlarge
    have hall : text.count '\n' = text.length := by omega
    exact htext (List.eq_replicate_iff.2
      ⟨by omega, fun c hc => (List.count_eq_length.1 hall c hc).symm⟩)
  rw [line_ofText hsize, ← UInt32.ofNat_one, ← UInt32.ofNat_add]
  exact UInt32.toNat_ofNat_of_lt' hfits

/-- Between two characters the line is one more than the newlines among those in front. -/
theorem line_at_place {text : List Char} (hsize : byteLength text < 2 ^ 32) (n : Nat) :
    (ofText text).line (.ofNat (byteLength (text.take n))) = .ofNat (1 + (text.take n).count '\n') := by
  have hplace : byteLength (text.take n) ≤ byteLength text := by
    have hsplit := congrArg byteLength (List.take_append_drop n text)
    rw [byteLength_append] at hsplit
    omega
  have hcount := newlinesBefore_append (text.take n) (text.drop n)
  rw [List.take_append_drop] at hcount
  rw [line_ofText hsize, UInt32.toNat_ofNat_of_lt' (Nat.lt_of_le_of_lt hplace hsize), hcount,
    Nat.add_comm, UInt32.ofNat_add]
  rfl

end LineIndex
end Text

open Text Stylesheet

/-- In every text of fewer than `2 ^ 32` bytes the line of an offset is one more than the newlines among the
bytes in front of it, as a number of 32 bits, and so it is as a number where such a number has enough bits.
The lines that are counted while a script is read, and those given to the comments of a style sheet, are the
lines of their offsets. -/
theorem line_counts_newlines (text : String) (hsize : byteLength text.toList < 2 ^ 32) :
    (∀ offset : UInt32, (LineIndex.ofText text.toList).line offset =
        .ofNat (newlinesBefore text.toList offset.toNat) + 1) ∧
      (text.toList ≠ List.replicate (2 ^ 32 - 1) '\n' → ∀ offset : UInt32,
        ((LineIndex.ofText text.toList).line offset).toNat =
          newlinesBefore text.toList offset.toNat + 1) ∧
      (∀ n, (LineIndex.ofText text.toList).line
            (.ofNat ((Script.Cursor.start text.toList).forward n).offset) =
          .ofNat ((Script.Cursor.start text.toList).forward n).line) ∧
      (docs text).map (fun d => UInt32.ofNat d.line) =
        (comments docOpener text.toList 0).map fun b =>
          (LineIndex.ofText text.toList).line (.ofNat (byteLength (text.toList.take b.start))) := by
  refine ⟨LineIndex.line_ofText hsize, LineIndex.toNat_line_ofText hsize, fun n => ?_, ?_⟩
  · rw [Script.Cursor.offset_forward, Script.Cursor.line_forward]
    show (LineIndex.ofText text.toList).line (.ofNat (0 + byteLength (text.toList.take n))) = _
    rw [Nat.zero_add, LineIndex.line_at_place hsize]
    rfl
  · have hdocs : docs text = (comments docOpener text.toList 0).map (recordAt text.toList) :=
      docsFrom_drop text.toList 0
    rw [hdocs, List.map_map]
    refine List.map_congr_left fun b _ => ?_
    rw [LineIndex.line_at_place hsize]
    rfl

/-- The first comment has a character of two bytes, and an empty line stands before the second one. -/
def twoComments : String := "/** \u00e9 */\n$a: 1;\n\n/** B. */\n"

theorem lines_of_twoComments :
    byteLength twoComments.toList < 2 ^ 32 ∧
      twoComments.toList ≠ List.replicate (2 ^ 32 - 1) '\n' ∧
      (LineIndex.ofText twoComments.toList).line 5 = 1 ∧
      ((LineIndex.ofText twoComments.toList).line 28).toNat = 5 ∧
      ((comments docOpener twoComments.toList 0).map fun b =>
        (LineIndex.ofText twoComments.toList).line
          (.ofNat (byteLength (twoComments.toList.take b.start)))) = [1, 4] := by
  have hsize : byteLength twoComments.toList < 2 ^ 32 := by decide +kernel
  have hslash : '/' ∈ twoComments.toList := by decide +kernel
  have htext : twoComments.toList ≠ List.replicate (2 ^ 32 - 1) '\n' := fun heq =>
    absurd (List.eq_of_mem_replicate (heq ▸ hslash)) (by decide)
  obtain ⟨hline, hexact, -, hdocs⟩ := line_counts_newlines twoComments hsize
  refine ⟨hsize, htext, ?_, ?_, ?_⟩
  · rw [hline 5]
    decide +kernel
  · rw [hexact htext 28]
    decide +kernel
  · rw [← hdocs]
    decide +kernel

end ApiDoc
