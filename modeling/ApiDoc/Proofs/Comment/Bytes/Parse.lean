/-
Comments are read to their end.

Read by places, the plain text of a comment gives the tags that it is cut into, whatever is left open in
it and wherever it ends (`ofPlain?_eq`).  What can fall inside a character is an indentation alone: it is
measured in bytes on the first line that is not blank, and the white space of another line may have
wider characters.  `parse_completes_iff` says which comments are read; `wideIndent_not_read` is one that
is not.
-/
import ApiDoc.Proofs.Comment.Bytes.Segments

namespace ApiDoc
namespace Comment

open Text

/-! ### Indentations -/

/-- No character of the text straddles the point behind its first `n` bytes. -/
def CutsAt (n : Nat) (cs : List Char) : Prop := ∃ front, front <+: cs ∧ byteLength front = n

theorem isSome_cutAtByte?_iff {n : Nat} {cs : List Char} :
    (cutAtByte? n cs).isSome = true ↔ CutsAt n cs := by
  rw [Option.isSome_iff_exists]
  constructor
  · rintro ⟨p, hp⟩
    obtain ⟨rfl, hn⟩ := cutAtByte?_eq_some_iff.1 hp
    exact ⟨p.1, List.prefix_append p.1 p.2, hn⟩
  · rintro ⟨front, ⟨rest, rfl⟩, rfl⟩
    exact ⟨(front, rest), cutAtByte?_append front rest⟩

/-- A comment is starred, or what is taken off each of its lines ends between two characters. -/
def IndentsCut (comment : List Char) : Prop :=
  isStarred (lines comment) = true ∨
    ∀ line ∈ lines comment, CutsAt (min (blankBytes line) (commonIndent (lines comment))) line

theorem isSome_mapM_iff {α β : Type} {f : α → Option β} {l : List α} :
    (l.mapM f).isSome = true ↔ ∀ a ∈ l, (f a).isSome = true := by
  induction l with
  | nil => simp
  | cons a l ih =>
    rw [List.forall_mem_cons, ← ih, List.mapM_cons]
    cases hfirst : f a with
    | none => simp
    | some b =>
      cases hrest : l.mapM f with
      | none => simp
      | some bs => simp

theorem isSome_stripIndent?_iff {indent : Nat} {line : List Char} :
    (stripIndent? indent line).isSome = true ↔ CutsAt (min (blankBytes line) indent) line := by
  rw [stripIndent?, Option.isSome_map, isSome_cutAtByte?_iff]

theorem isSome_undecorate?_iff (comment : List Char) :
    (undecorate? comment).isSome = true ↔ IndentsCut comment := by
  unfold IndentsCut undecorate?
  cases hstars : isStarred (lines comment) with
  | true => simp [hstars]
  | false => simp [hstars, isSome_mapM_iff, isSome_stripIndent?_iff]

namespace Bytes

/-! ### The whole reading -/

/-- The tags of a plain text, read by places. -/
def ofPlain? (source : SourceKind) (text : List Char) : Option Parsed :=
  (PlaceReader.segments source 0 text 0).map fun p => { tags := p.1.tags, unknown := p.1.unknown }

/-- The tags of a comment, read by places. -/
def parse? (source : SourceKind) (comment : String) : Option Parsed :=
  (undecorate? comment.toList).bind (ofPlain? source)

theorem ofPlain?_eq (source : SourceKind) (text : List Char) :
    ofPlain? source text = some (ofPlain source text) := by
  have hreads := PlaceReader.reads_segments source (List.suffix_refl text) (List.suffix_refl text)
  obtain ⟨_, place, hrun, rfl, -⟩ := hreads.run ⟨List.suffix_refl text, rfl⟩
  rw [PlaceReader.placeOf_self] at hrun
  rw [ofPlain?, hrun, PlaceReader.segmentsFrom, PlaceReader.frontOf_self]
  rfl

theorem parse?_eq (source : SourceKind) (comment : String) :
    parse? source comment = (parse source comment).toOption := by
  rw [parse?, parse]
  cases undecorate? comment.toList with
  | none => rfl
  | some text => exact ofPlain?_eq source text

end Bytes

/-- Read by places in bytes, every plain text gives the tags it is cut into, without a cut inside a
character and to the end.  So a comment is read if and only if it is starred or what is taken off each
of its lines ends between two characters, and otherwise it is refused for its indentation. -/
theorem parse_completes_iff (source : SourceKind) :
    (∀ text, Bytes.ofPlain? source text = some (ofPlain source text)) ∧
      ∀ comment, Bytes.parse? source comment = (parse source comment).toOption ∧
        ((∃ parsed, parse source comment = .ok parsed) ↔ IndentsCut comment.toList) ∧
        (¬ IndentsCut comment.toList → parse source comment = .error .brokenIndent) := by
  refine ⟨Bytes.ofPlain?_eq source, fun comment => ⟨Bytes.parse?_eq source comment, ?_⟩⟩
  rw [← isSome_undecorate?_iff, parse]
  cases undecorate? comment.toList with
  | none => simp
  | some text => simp

/-- The first line is indented by a space, and the next one by a wider one. -/
theorem wideIndent_not_read : ¬ ∃ parsed, parse .script "\n x\n\u00a0" = .ok parsed := by
  have hbroken : undecorate? "\n x\n\u00a0".toList = none := by decide +kernel
  rintro ⟨parsed, hparsed⟩
  rw [parse, hbroken] at hparsed
  cases hparsed

end Comment
end ApiDoc
