/-
Reading by places.

The readers of a comment take what is left of its text.  A program that reads a text in memory holds the
whole of it and its place, counted in bytes of the UTF-8 form, and moves the place by the widths of what
it has read.  Such a reader goes wrong where it looks at the text from inside a character.  Here are the
moves that are needed, each with what it does at a place between two characters.
-/
import ApiDoc.Comment.DefaultValue

namespace ApiDoc
namespace Comment
namespace Bytes

open Text

/-- A reader that holds a text and its place in it as a number of bytes.  It has no answer if it cuts a
character, and none if it goes on for ever. -/
abbrev PlaceReader := ReaderT (List Char) (StateT Nat Option)

namespace PlaceReader

variable {α β σ : Type}

theorem bind_run (r : PlaceReader α) (g : α → PlaceReader β) (text : List Char) (place : Nat) :
    (r >>= g) text place = (r text place).bind fun p => g p.1 text p.2 := rfl

/-- What can go wrong without the place. -/
def ofOption (a? : Option α) : PlaceReader α := fun _ place => a?.map fun a => (a, place)

/-- A reader that calls itself, so many times at most. -/
def inRounds (body : (σ → PlaceReader α) → σ → PlaceReader α) : Nat → σ → PlaceReader α
  | 0, _ => failure
  | n + 1, s => body (inRounds body n) s

/-- A reader that calls itself.  One call for each character of the text and one for its end are enough
for a reader that goes on each time; if they are not, there is no answer. -/
def repeated (body : (σ → PlaceReader α) → σ → PlaceReader α) (s : σ) : PlaceReader α := do
  inRounds body ((← read).length + 1) s

/-- What stands before the place, and what is left there. -/
def around : PlaceReader (List Char × List Char) := fun text place =>
  (cutAtByte? place text).map fun p => (p, place)

def next? : PlaceReader (Option Char) := do
  return (← around).2.head?

def second? : PlaceReader (Option Char) := do
  return (← around).2.tail.head?

def previous? : PlaceReader (Option Char) := do
  return (← around).1.getLast?

/-- The text between two places. -/
def between (start stop : Nat) : PlaceReader (List Char) := fun text place =>
  (cutAtByte? stop text).bind fun p => (cutAtByte? start p.1).map fun q => (q.2, place)

def forward (bytes : Nat) : PlaceReader Unit := modify (· + bytes)

def backward (bytes : Nat) : PlaceReader Unit := modify (· - bytes)

/-- Goes back to an earlier place. -/
def returnTo (earlier : Nat) : PlaceReader Unit := modify (min earlier)

/-- Goes on, but not over the end of the text. -/
def advance (bytes : Nat) : PlaceReader Unit := fun text place =>
  some ((), min (place + bytes) (byteLength text))

def readChar : PlaceReader (Option Char) := do
  match ← next? with
  | some c => do
    forward c.utf8Size
    return some c
  | none => return none

def startsWith (part : List Char) : PlaceReader Bool := do
  return part.isPrefixOf (← around).2

def accept (part : List Char) : PlaceReader Bool := do
  if ← startsWith part then
    forward (byteLength part)
    return true
  else return false

def passBlanks : PlaceReader Unit :=
  repeated (fun again _ => do
    let c? ← next?
    if c? = some ' ' ∨ c? = some '\t' then
      forward 1
      again ()
    else return) ()

def passWhile (p : Char → Bool) : PlaceReader Unit :=
  repeated (fun again _ => do
    if (← next?).any p then
      let _ ← readChar
      again ()
    else return) ()

/-- The text that such a reader goes over. -/
def spanned (r : PlaceReader Unit) : PlaceReader (List Char) := do
  let start ← get
  r
  between start (← get)

def textWhile (p : Char → Bool) : PlaceReader (List Char) := spanned (passWhile p)

/-- A word of such characters, if there is one. -/
def word? (p : Char → Bool) : PlaceReader (Option (List Char)) := do
  let word ← textWhile p
  return if word.isEmpty then none else some word

def passSegments : PlaceReader Unit :=
  repeated (fun again _ => do
    if (← next?) = some '.' ∧ (← second?).any isNameChar then
      forward 1
      let _ ← word? isNameChar
      again ()
    else return) ()

def dottedName? : PlaceReader (Option (List Char)) := do
  let start ← get
  match ← word? isNameChar with
  | none => return none
  | some _ => do
    passSegments
    return some (← between start (← get))

/-- Goes on behind the brace that closes the block, or to the end of the line; `inner` braces are open in
the block.  The answer is the place where the content ends. -/
def passBraces (inner : Nat) : PlaceReader Nat :=
  repeated (fun again inner => do
    match ← readChar with
    | none => get
    | some c =>
      if c = '{' then again (inner + 1)
      else if c = '}' then
        if inner = 0 then return (← get) - 1 else again (inner - 1)
      else if c = '\n' then
        backward 1
        get
      else again inner) inner

def bracedText? : PlaceReader (Option (List Char)) := do
  if (← next?) = some '{' then
    let start ← get
    let _ ← readChar
    let stop ← passBraces 0
    return some (← between (start + 1) stop)
  else return none

/-! ### Places between characters -/

/-- The place in a text at which `cs` is left of it. -/
def placeOf (text cs : List Char) : Nat := byteLength text - byteLength cs

theorem placeOf_self (text : List Char) : placeOf text text = 0 := Nat.sub_self _

theorem byteLength_le_of_suffix {cs text : List Char} (h : cs <:+ text) :
    byteLength cs ≤ byteLength text := by
  obtain ⟨front, rfl⟩ := h
  rw [byteLength_append]
  exact Nat.le_add_left _ _

theorem placeOf_append {text a cs : List Char} (h : a ++ cs <:+ text) :
    placeOf text (a ++ cs) + byteLength a = placeOf text cs := by
  have hle := byteLength_le_of_suffix h
  rw [byteLength_append] at hle
  rw [placeOf, placeOf, byteLength_append]
  omega

theorem placeOf_append_right (a cs : List Char) : placeOf (a ++ cs) cs = byteLength a := by
  rw [placeOf, byteLength_append, Nat.add_sub_cancel_right]

theorem placeOf_cons {text cs : List Char} {c : Char} (h : c :: cs <:+ text) :
    placeOf text (c :: cs) + c.utf8Size = placeOf text cs := by
  have hplace := placeOf_append (a := [c]) h
  rwa [byteLength_cons, byteLength_nil, Nat.add_zero] at hplace

theorem cutAtByte?_placeOf {text front cs : List Char} (h : front ++ cs = text) :
    cutAtByte? (placeOf text cs) text = some (front, cs) := by
  subst h
  have hplace : placeOf (front ++ cs) cs = byteLength front := by
    rw [placeOf, byteLength_append, Nat.add_sub_cancel_right]
  rw [hplace, cutAtByte?_append]

theorem suffix_of_cons {text cs : List Char} {c : Char} (h : c :: cs <:+ text) : cs <:+ text :=
  (List.suffix_cons c cs).trans h

/-! ### What a reader does

`Left place cs` says that `cs` is left of the text at a place, however places are counted. -/

/-- Where `cs` is left of the text, `r` has an answer, and it and the place it stops at are as `Post`
says. -/
structure Runs (Left : Nat → List Char → Prop) (text : List Char) (r : PlaceReader α) (cs : List Char)
    (Post : α → Nat → Prop) : Prop where
  run : ∀ {place : Nat}, Left place cs → ∃ a place', r text place = some (a, place') ∧ Post a place'

/-- The answer is the first part of `p`, and the second part is left where `r` stops. -/
abbrev Goes (Left : Nat → List Char → Prop) (text : List Char) (r : PlaceReader α) (cs : List Char)
    (p : α × List Char) : Prop :=
  Runs Left text r cs fun a place => a = p.1 ∧ Left place p.2

namespace Runs

variable {Left : Nat → List Char → Prop} {text : List Char} {r : PlaceReader α} {cs : List Char}
  {p : α × List Char} {Post : α → Nat → Prop}

theorem pure (a : α) (cs : List Char) : Goes Left text (pure a) cs (a, cs) where
  run h := ⟨a, _, rfl, rfl, h⟩

/-- An answer is given without a look at the text. -/
theorem answer {a : α} (h : ∀ place, Post a place) : Runs Left text (Pure.pure a) cs Post where
  run {place} _ := ⟨a, place, rfl, h place⟩

theorem bind {g : α → PlaceReader β} {Post : β → Nat → Prop} (hr : Goes Left text r cs p)
    (hg : Runs Left text (g p.1) p.2 Post) : Runs Left text (r >>= g) cs Post where
  run h := by
    obtain ⟨a, place, hrun, rfl, hplace⟩ := hr.run h
    obtain ⟨b, place', hrun', hpost⟩ := hg.run hplace
    refine ⟨b, place', ?_, hpost⟩
    rw [bind_run, hrun]
    exact hrun'

/-- Where a reader stops does not matter if nothing is read after it. -/
theorem bind_answer {a : α} {g : α → PlaceReader β} {b : β} {Post : β → Nat → Prop}
    (hr : Runs Left text r cs fun a' _ => a' = a) (hg : g a = Pure.pure b)
    (h : ∀ place, Post b place) : Runs Left text (r >>= g) cs Post where
  run hplace := by
    obtain ⟨a, place, hrun, rfl⟩ := hr.run hplace
    refine ⟨b, place, ?_, h place⟩
    rw [bind_run, hrun, Option.bind_some, hg]
    rfl

theorem of_pos {c : Prop} [Decidable c] {s : PlaceReader α} (h : c) (hr : Runs Left text r cs Post) :
    Runs Left text (if c then r else s) cs Post := by
  rwa [if_pos h]

theorem of_neg {c : Prop} [Decidable c] {s : PlaceReader α} (h : ¬ c)
    (hs : Runs Left text s cs Post) : Runs Left text (if c then r else s) cs Post := by
  rwa [if_neg h]

/-- Two ways on the same condition. -/
theorem ite {c : Prop} [Decidable c] {s : PlaceReader α} {q : α × List Char}
    (hr : c → Goes Left text r cs p) (hs : ¬ c → Goes Left text s cs q) :
    Goes Left text (if c then r else s) cs (if c then p else q) := by
  by_cases h : c
  · rw [if_pos h, if_pos h]
    exact hr h
  · rw [if_neg h, if_neg h]
    exact hs h

section Repeated

variable {body : (σ → PlaceReader α) → σ → PlaceReader α}

/-- A reader that calls itself does what each of its calls does, if the calls that a call makes have less
of the text left.  `state` is what a call is told of `i`, and `Pre` holds at every call. -/
theorem repeated_keeping {ι : Type} (state : ι → σ) (Pre : ι → List Char → Prop)
    (Post : ι → List Char → α → Nat → Prop)
    (hLeft : ∀ place cs, Left place cs → cs.length ≤ text.length)
    (h : ∀ (again : σ → PlaceReader α) (i : ι) (cs : List Char),
      (∀ i' cs', Pre i' cs' → cs'.length < cs.length →
        Runs Left text (again (state i')) cs' (Post i' cs')) →
      Pre i cs → Runs Left text (body again (state i)) cs (Post i cs))
    {i : ι} {cs : List Char} (hpre : Pre i cs) :
    Runs Left text (repeated body (state i)) cs (Post i cs) where
  run hplace := by
    have hrounds : ∀ n i cs, Pre i cs → cs.length < n →
        Runs Left text (inRounds body n (state i)) cs (Post i cs) := by
      intro n
      induction n with
      | zero => exact fun i cs _ hn => absurd hn (Nat.not_lt_zero _)
      | succ n ih =>
        exact fun i cs hpre hn => h _ i cs
          (fun i' cs' hpre' hlt => ih i' cs' hpre' (Nat.lt_of_lt_of_le hlt (Nat.le_of_lt_succ hn))) hpre
    exact (hrounds _ i cs hpre (Nat.lt_succ_of_le (hLeft _ _ hplace))).run hplace

/-- The same law where all that is known of a call is what it is told. -/
theorem repeated (Post : σ → List Char → α → Nat → Prop)
    (hLeft : ∀ place cs, Left place cs → cs.length ≤ text.length)
    (h : ∀ (again : σ → PlaceReader α) (s : σ) (cs : List Char),
      (∀ s' cs', cs'.length < cs.length → Runs Left text (again s') cs' (Post s' cs')) →
        Runs Left text (body again s) cs (Post s cs)) (s : σ) (cs : List Char) :
    Runs Left text (repeated body s) cs (Post s cs) :=
  repeated_keeping id (fun _ _ => True) Post hLeft
    (fun again s cs ih _ => h again s cs fun s' cs' hlt => ih s' cs' trivial hlt) trivial

end Repeated

end Runs

/-! ### Places in bytes -/

def InBytes (text : List Char) (place : Nat) (cs : List Char) : Prop :=
  cs <:+ text ∧ place = placeOf text cs

abbrev Reads (text : List Char) (r : PlaceReader α) (cs : List Char) (p : α × List Char) : Prop :=
  Goes (InBytes text) text r cs p

variable {text : List Char}

theorem length_le_of_inBytes (place : Nat) (cs : List Char) (h : InBytes text place cs) :
    cs.length ≤ text.length :=
  h.1.length_le

theorem reads_of_run {r : PlaceReader α} {cs : List Char} {p : α × List Char} (hleft : p.2 <:+ text)
    (hrun : r text (placeOf text cs) = some (p.1, placeOf text p.2)) : Reads text r cs p where
  run h := ⟨p.1, placeOf text p.2, h.2 ▸ hrun, rfl, hleft, rfl⟩

/-- What a reader does needs to be known at places of the text only. -/
theorem reads_of_suffix {r : PlaceReader α} {cs : List Char} {p : α × List Char}
    (h : cs <:+ text → Reads text r cs p) : Reads text r cs p where
  run hplace := (h hplace.1).run hplace

/-- The law of readers that call themselves, for places in bytes. -/
theorem reads_repeated {body : (σ → PlaceReader α) → σ → PlaceReader α}
    {p : σ → List Char → α × List Char}
    (h : ∀ (again : σ → PlaceReader α) (s : σ) (cs : List Char),
      (∀ s' cs', cs'.length < cs.length → Reads text (again s') cs' (p s' cs')) →
        Reads text (body again s) cs (p s cs)) (s : σ) (cs : List Char) :
    Reads text (repeated body s) cs (p s cs) :=
  .repeated _ length_le_of_inBytes h s cs

theorem reads_get (cs : List Char) : Reads text get cs (placeOf text cs, cs) :=
  reads_of_suffix fun h => reads_of_run h rfl

theorem reads_around (cs : List Char) : Reads text around cs ((frontOf text cs, cs), cs) := by
  refine reads_of_suffix fun h => reads_of_run h ?_
  obtain ⟨front, rfl⟩ := h
  rw [around, cutAtByte?_placeOf rfl, frontOf_append]
  rfl

theorem reads_between {start stop : List Char} (hstop : stop <:+ start) (hstart : start <:+ text)
    (cs : List Char) :
    Reads text (between (placeOf text start) (placeOf text stop)) cs (frontOf start stop, cs) := by
  refine reads_of_suffix fun hcs => reads_of_run hcs ?_
  obtain ⟨a, rfl⟩ := hstop
  obtain ⟨front, hfront⟩ := hstart
  have hcut : cutAtByte? (placeOf text stop) text = some (front ++ a, stop) :=
    cutAtByte?_placeOf (by rw [List.append_assoc, hfront])
  have hplace : placeOf text (a ++ stop) = placeOf (front ++ a) a := by
    rw [← hfront, placeOf, placeOf]
    simp only [byteLength_append]
    omega
  rw [between, hcut, Option.bind_some, hplace, cutAtByte?_placeOf rfl, frontOf_append]
  rfl

theorem reads_content {a tail : List Char} (h : a ++ tail <:+ text) (cs : List Char) :
    Reads text (between (placeOf text (a ++ tail)) (placeOf text (a ++ tail) + byteLength a)) cs
      (a, cs) := by
  have hbetween := reads_between (List.suffix_append a tail) h cs
  rwa [frontOf_append, ← placeOf_append h] at hbetween

/-- What a reader goes over is the text in front of where it leaves off. -/
theorem reads_spanned {r : PlaceReader Unit} {cs rest : List Char} (hr : Reads text r cs ((), rest))
    (hrest : rest <:+ cs) : Reads text (spanned r) cs (frontOf cs rest, rest) :=
  reads_of_suffix fun h =>
    (reads_get cs).bind (hr.bind ((reads_get rest).bind (reads_between hrest h rest)))

theorem reads_next? (cs : List Char) : Reads text next? cs (cs.head?, cs) :=
  (reads_around cs).bind (.pure _ cs)

theorem reads_second? (cs : List Char) : Reads text second? cs (cs.tail.head?, cs) :=
  (reads_around cs).bind (.pure _ cs)

theorem reads_previous? (cs : List Char) :
    Reads text previous? cs ((frontOf text cs).getLast?, cs) :=
  (reads_around cs).bind (.pure _ cs)

theorem reads_startsWith (part cs : List Char) :
    Reads text (startsWith part) cs (part.isPrefixOf cs, cs) :=
  (reads_around cs).bind (.pure _ cs)

/-- The place is moved over the text in front of it by as many bytes as the text has. -/
theorem reads_forward (a cs : List Char) :
    Reads text (forward (byteLength a)) (a ++ cs) ((), cs) :=
  reads_of_suffix fun h => reads_of_run ((List.suffix_append a cs).trans h)
    (congrArg (fun place => some ((), place)) (placeOf_append h))

theorem reads_forward_cons {n : Nat} {c : Char} (h : c.utf8Size = n) (cs : List Char) :
    Reads text (forward n) (c :: cs) ((), cs) := by
  have hmove := @reads_forward text [c] cs
  rwa [byteLength_cons, byteLength_nil, Nat.add_zero, h] at hmove

theorem reads_advance (a cs : List Char) :
    Reads text (advance (byteLength a)) (a ++ cs) ((), cs) := by
  refine reads_of_suffix fun h => reads_of_run ((List.suffix_append a cs).trans h) ?_
  have hle : placeOf text cs ≤ byteLength text := Nat.sub_le _ _
  rw [advance, placeOf_append h, Nat.min_eq_left hle]

theorem reads_returnTo {earlier cs : List Char} (hcs : cs <:+ earlier) (h : earlier <:+ text) :
    Reads text (returnTo (placeOf text earlier)) cs ((), earlier) := by
  obtain ⟨a, rfl⟩ := hcs
  refine reads_of_run h ?_
  have hle : placeOf text (a ++ cs) ≤ placeOf text cs := by
    rw [← placeOf_append h]
    exact Nat.le_add_right _ _
  exact congrArg (fun place => some ((), place)) (Nat.min_eq_left hle)

theorem reads_readChar_nil : Reads text readChar [] (none, []) :=
  (reads_next? []).bind (.pure none [])

theorem reads_readChar_cons (c : Char) (cs : List Char) :
    Reads text readChar (c :: cs) (some c, cs) :=
  (reads_next? (c :: cs)).bind ((reads_forward_cons rfl cs).bind (.pure (some c) cs))

theorem reads_accept_append (part cs : List Char) :
    Reads text (accept part) (part ++ cs) (true, cs) :=
  (reads_startsWith part (part ++ cs)).bind
    (.of_pos (List.isPrefixOf_iff_prefix.2 (List.prefix_append part cs))
      ((reads_forward part cs).bind (.pure true cs)))

theorem reads_accept_of_absent {part cs : List Char} (h : ¬ part <+: cs) :
    Reads text (accept part) cs (false, cs) :=
  (reads_startsWith part cs).bind
    (.of_neg (fun hprefix => h (List.isPrefixOf_iff_prefix.1 hprefix)) (.pure false cs))

theorem reads_accept_char (d : Char) (cs : List Char) :
    Reads text (accept [d]) cs (cs.head? == some d, skipChar d cs) := by
  cases cs with
  | nil => exact reads_accept_of_absent (by simp)
  | cons c cs =>
    by_cases hc : c = d
    · subst hc
      rw [skipChar, if_pos (beq_self_eq_true c), List.head?_cons, beq_self_eq_true]
      exact reads_accept_append [c] cs
    · rw [skipChar, if_neg (by simpa using hc), List.head?_cons, beq_eq_false_iff_ne.2 (by simpa using hc)]
      exact reads_accept_of_absent (by simpa using Ne.symm hc)

theorem reads_passBlanks (cs : List Char) : Reads text passBlanks cs ((), skipBlanks cs) := by
  refine reads_repeated (p := fun _ cs => ((), skipBlanks cs)) (fun again _ cs ih => ?_) () cs
  refine (reads_next? cs).bind ?_
  cases cs with
  | nil => exact .of_neg (by simp) (.pure () [])
  | cons c cs =>
    by_cases hc : c = ' ' ∨ c = '\t'
    · have hskip : skipBlanks (c :: cs) = skipBlanks cs :=
        List.dropWhile_cons_of_pos (by simpa using hc)
      have hwidth : c.utf8Size = 1 := by
        rcases hc with rfl | rfl
        · rfl
        · rfl
      rw [hskip]
      exact .of_pos (by simpa using hc)
        ((reads_forward_cons hwidth cs).bind (ih () cs (Nat.lt_succ_self _)))
    · have hskip : skipBlanks (c :: cs) = c :: cs := List.dropWhile_cons_of_neg (by simpa using hc)
      rw [hskip]
      exact .of_neg (by simpa using hc) (.pure () (c :: cs))

theorem reads_passWhile (p : Char → Bool) (cs : List Char) :
    Reads text (passWhile p) cs ((), cs.dropWhile p) := by
  refine reads_repeated (p := fun _ cs => ((), cs.dropWhile p)) (fun again _ cs ih => ?_) () cs
  refine (reads_next? cs).bind ?_
  cases cs with
  | nil => exact .of_neg (by simp) (.pure () [])
  | cons c cs =>
    by_cases hc : p c = true
    · rw [List.dropWhile_cons_of_pos hc]
      exact .of_pos hc ((reads_readChar_cons c cs).bind (ih () cs (Nat.lt_succ_self _)))
    · rw [List.dropWhile_cons_of_neg hc]
      exact .of_neg hc (.pure () (c :: cs))

theorem frontOf_dropWhile (p : Char → Bool) (cs : List Char) :
    frontOf cs (cs.dropWhile p) = cs.takeWhile p := by
  have hsplit := frontOf_append (cs.takeWhile p) (cs.dropWhile p)
  rwa [List.takeWhile_append_dropWhile] at hsplit

theorem dropWhile_of_isEmpty_takeWhile {p : Char → Bool} {cs : List Char}
    (h : (cs.takeWhile p).isEmpty = true) : cs.dropWhile p = cs := by
  have hsplit := @List.takeWhile_append_dropWhile _ p cs
  rwa [List.isEmpty_iff.1 h, List.nil_append] at hsplit

theorem reads_textWhile (p : Char → Bool) (cs : List Char) :
    Reads text (textWhile p) cs (cs.takeWhile p, cs.dropWhile p) :=
  frontOf_dropWhile p cs ▸ reads_spanned (reads_passWhile p cs) (List.dropWhile_suffix p)

theorem reads_word? (p : Char → Bool) (cs : List Char) :
    Reads text (word? p) cs
      (if (cs.takeWhile p).isEmpty then none else some (cs.takeWhile p), cs.dropWhile p) :=
  (reads_textWhile p cs).bind (.pure _ _)

/-! ### Dotted names -/

theorem takeChain_dropWhile (cs : List Char) :
    (takeChain (cs.dropWhile isNameChar)).2 = (takeChain cs).2 := by
  induction cs with
  | nil => rfl
  | cons c cs ih =>
    by_cases hc : isNameChar c = true
    · rw [List.dropWhile_cons_of_pos hc, ih, takeChain, if_pos (by rw [hc, Bool.true_or])]
    · rw [List.dropWhile_cons_of_neg hc]

theorem startsName_eq (cs : List Char) : startsName cs = cs.head?.any isNameChar := by
  cases cs with
  | nil => rfl
  | cons c cs => rfl

theorem takeChain_dot {cs : List Char} (h : startsName cs = true) :
    (takeChain ('.' :: cs)).2 = (takeChain cs).2 := by
  rw [takeChain, h]
  rfl

theorem takeChain_of_not {c : Char} {cs : List Char} (hc : isNameChar c = false)
    (hdot : ¬ (c = '.' ∧ startsName cs = true)) : takeChain (c :: cs) = ([], c :: cs) := by
  rw [takeChain, if_neg]
  rw [hc, Bool.false_or, Bool.and_eq_true, beq_iff_eq]
  exact hdot

/-- Where the segments end that follow a first one. -/
def behindSegments (cs : List Char) : List Char :=
  if startsName cs then cs else (takeChain cs).2

theorem behindSegments_dropWhile (cs : List Char) :
    behindSegments (cs.dropWhile isNameChar) = (takeChain cs).2 := by
  have hhead := List.head?_dropWhile_not isNameChar cs
  rw [behindSegments, startsName_eq, if_neg, takeChain_dropWhile]
  cases hrest : cs.dropWhile isNameChar with
  | nil => simp
  | cons c rest =>
    rw [hrest] at hhead
    simpa using hhead

theorem behindSegments_dot {cs : List Char} (h : startsName cs = true) :
    behindSegments ('.' :: cs) = behindSegments (cs.dropWhile isNameChar) := by
  rw [behindSegments_dropWhile, ← takeChain_dot h]
  rfl

theorem behindSegments_of_not {c : Char} {cs : List Char} (h : ¬ (c = '.' ∧ startsName cs = true)) :
    behindSegments (c :: cs) = c :: cs := by
  by_cases hc : isNameChar c = true
  · exact if_pos hc
  · exact (if_neg hc).trans (congrArg Prod.snd (takeChain_of_not (by simpa using hc) h))

theorem reads_passSegments (cs : List Char) : Reads text passSegments cs ((), behindSegments cs) := by
  refine reads_repeated (p := fun _ cs => ((), behindSegments cs)) (fun again _ cs ih => ?_) () cs
  refine (reads_next? cs).bind ((reads_second? cs).bind ?_)
  cases cs with
  | nil => exact .of_neg (by simp) (.pure () [])
  | cons c cs =>
    have hsecond : cs.head?.any isNameChar = startsName cs := (startsName_eq cs).symm
    by_cases hdot : c = '.' ∧ startsName cs = true
    · obtain ⟨rfl, hstarts⟩ := hdot
      have hlength := Nat.lt_succ_of_le (List.dropWhile_suffix (l := cs) isNameChar).length_le
      have hwidth : '.'.utf8Size = 1 := rfl
      rw [behindSegments_dot hstarts]
      exact .of_pos ⟨rfl, hsecond.trans hstarts⟩ ((reads_forward_cons hwidth cs).bind
        ((reads_word? isNameChar cs).bind (ih () _ hlength)))
    · rw [behindSegments_of_not hdot]
      refine .of_neg (fun h => hdot ⟨?_, hsecond.symm.trans h.2⟩) (.pure () (c :: cs))
      exact Option.some.inj h.1

/-- What is read if it is there. -/
def orStay (r? : Option (α × List Char)) (cs : List Char) : Option α × List Char :=
  match r? with
  | some r => (some r.1, r.2)
  | none => (none, cs)

theorem isEmpty_takeWhile_isNameChar (cs : List Char) :
    (cs.takeWhile isNameChar).isEmpty = !startsName cs := by
  cases cs with
  | nil => rfl
  | cons c cs =>
    show _ = !isNameChar c
    cases hc : isNameChar c with
    | false => rw [List.takeWhile_cons_of_neg (by simp [hc])]; rfl
    | true => rw [List.takeWhile_cons_of_pos hc]; rfl

theorem frontOf_takeChain (cs : List Char) : frontOf cs (takeChain cs).2 = (takeChain cs).1 := by
  have hsplit := frontOf_append (takeChain cs).1 (takeChain cs).2
  rwa [takeChain_append] at hsplit

theorem reads_dottedName? (cs : List Char) : Reads text dottedName? cs (orStay (chain? cs) cs) := by
  refine reads_of_suffix fun h => (reads_get cs).bind ((reads_word? isNameChar cs).bind ?_)
  rw [isEmpty_takeWhile_isNameChar, chain?]
  cases hstarts : startsName cs with
  | false =>
    show Reads text (pure none) (cs.dropWhile isNameChar) (none, cs)
    rw [dropWhile_of_isEmpty_takeWhile (by rw [isEmpty_takeWhile_isNameChar, hstarts]; rfl)]
    exact .pure none cs
  | true =>
    refine (reads_passSegments _).bind ?_
    rw [behindSegments_dropWhile]
    refine (reads_get _).bind ((reads_between (takeChain_suffix cs) h _).bind ?_)
    rw [frontOf_takeChain]
    exact .pure _ _

/-! ### Braces -/

theorem exists_takeBraces_append (depth : Nat) (cs : List Char) :
    ∃ tail, cs = (takeBraces depth cs).1 ++ tail := by
  fun_induction takeBraces depth cs with
  | case1 => exact ⟨[], rfl⟩
  | case2 _ cs => exact ⟨'\n' :: cs, rfl⟩
  | case3 cs => exact ⟨'}' :: cs, rfl⟩
  | case4 cs depth r ih =>
    obtain ⟨tail, htail⟩ := ih
    exact ⟨tail, congrArg ('}' :: ·) htail⟩
  | case5 depth cs r ih =>
    obtain ⟨tail, htail⟩ := ih
    exact ⟨tail, congrArg ('{' :: ·) htail⟩
  | case6 depth c cs _ _ _ r ih =>
    obtain ⟨tail, htail⟩ := ih
    exact ⟨tail, congrArg (c :: ·) htail⟩

/-- The place behind a character of one byte, less one, is the place in front of it. -/
theorem placeOf_cons_sub_one {cs : List Char} {c : Char} (hc : c.utf8Size = 1)
    (h : c :: cs <:+ text) : placeOf text cs - 1 = placeOf text (c :: cs) := by
  rw [← placeOf_cons h, hc, Nat.add_sub_cancel]

theorem reads_backward_cons {c : Char} {cs : List Char} (hc : c.utf8Size = 1)
    (h : c :: cs <:+ text) : Reads text (backward 1) cs ((), c :: cs) :=
  reads_of_run h (congrArg (fun place => some ((), place)) (placeOf_cons_sub_one hc h))

theorem placeOf_cons_add {c : Char} {a cs : List Char} (h : c :: cs <:+ text) :
    placeOf text (c :: cs) + byteLength (c :: a) = placeOf text cs + byteLength a := by
  rw [byteLength_cons, ← Nat.add_assoc, placeOf_cons h]

/-- The content of a block ends where the answer says. -/
theorem reads_passBraces (inner : Nat) (cs : List Char) :
    Reads text (passBraces inner) cs
      (placeOf text cs + byteLength (takeBraces inner cs).1, (takeBraces inner cs).2) := by
  refine reads_repeated
    (p := fun inner cs =>
      (placeOf text cs + byteLength (takeBraces inner cs).1, (takeBraces inner cs).2))
    (fun again inner cs ih => reads_of_suffix fun h => ?_) inner cs
  fun_cases takeBraces inner cs with
  | case1 => exact reads_readChar_nil.bind (reads_get [])
  | case2 inner cs =>
    refine (reads_readChar_cons '\n' cs).bind ?_
    exact .of_neg (by decide) (.of_neg (by decide) (.of_pos rfl
      ((reads_backward_cons rfl h).bind (reads_get _))))
  | case3 cs =>
    refine (reads_readChar_cons '}' cs).bind ?_
    refine .of_neg (by decide) (.of_pos rfl (.of_pos rfl ((reads_get cs).bind ?_)))
    rw [placeOf_cons_sub_one rfl h]
    exact .pure _ cs
  | case4 cs inner r =>
    rw [placeOf_cons_add h]
    refine (reads_readChar_cons '}' cs).bind ?_
    exact .of_neg (by decide) (.of_pos rfl (.of_neg (Nat.succ_ne_zero inner)
      (ih inner cs (Nat.lt_succ_self _))))
  | case5 inner cs r =>
    rw [placeOf_cons_add h]
    refine (reads_readChar_cons '{' cs).bind ?_
    exact .of_pos rfl (ih (inner + 1) cs (Nat.lt_succ_self _))
  | case6 inner c cs hline hclose hopen r =>
    rw [placeOf_cons_add h]
    refine (reads_readChar_cons c cs).bind ?_
    exact .of_neg hopen (.of_neg hclose (.of_neg hline (ih inner cs (Nat.lt_succ_self _))))

theorem braces?_of_ne {c : Char} {cs : List Char} (hc : c ≠ '{') : braces? (c :: cs) = none := by
  unfold braces?
  split
  · next heq => exact absurd (List.cons.inj heq).1 hc
  · rfl

theorem reads_bracedText? (cs : List Char) : Reads text bracedText? cs (orStay (braces? cs) cs) := by
  refine reads_of_suffix fun h => ?_
  cases cs with
  | nil => exact (reads_next? []).bind (.of_neg (by simp) (.pure none []))
  | cons c cs =>
    refine (reads_next? (c :: cs)).bind ?_
    by_cases hc : c = '{'
    · subst hc
      obtain ⟨tail, htail⟩ := exists_takeBraces_append 0 cs
      have hcontent := reads_content (htail ▸ suffix_of_cons h) (takeBraces 0 cs).2
      rw [← htail] at hcontent
      have hstart : placeOf text ('{' :: cs) + 1 = placeOf text cs := placeOf_cons h
      refine .of_pos rfl ((reads_get _).bind ((reads_readChar_cons '{' cs).bind
        ((reads_passBraces 0 cs).bind ?_)))
      show Reads text (between (placeOf text ('{' :: cs) + 1) _ >>= _) _ _
      rw [hstart]
      exact hcontent.bind (.pure _ _)
    · rw [braces?_of_ne hc]
      exact .of_neg (by simpa using hc) (.pure none (c :: cs))

end PlaceReader
end Bytes
end Comment
end ApiDoc
