import MoSyntax.Proofs.Lexing.Joined

/-!
What stands before and behind a piece. The pieces behind one are those of the text that is left there,
so a lexeme is read in front of just that text.
-/
namespace MoSyntax

namespace Piece

theorem split_behind {text : Text} {first second : List Piece} (pieces : split text = first ++ second) :
    split (second.flatMap Piece.text) = second := by
  induction first generalizing text with
  | nil =>
    have whole := split_flatMap text
    rw [pieces, List.nil_append] at whole
    rw [whole, pieces, List.nil_append]
  | cons piece first ih =>
    cases text with
    | nil => simp [split, splitUpTo] at pieces
    | cons c rest =>
      rw [split_cons, List.cons_append] at pieces
      exact ih (List.cons.inj pieces).2

theorem stands_behind {text : Text} {first second : List Piece} {lexeme : Lexeme}
    (pieces : split text = first ++ .lexeme lexeme :: second) :
    lexeme.Stands (second.flatMap Piece.text) := by
  have behind := split_behind pieces
  cases left : (Piece.lexeme lexeme :: second).flatMap Piece.text with
  | nil =>
    rw [left] at behind
    cases behind
  | cons c rest =>
    rw [left, split_cons] at behind
    obtain ⟨piece, others⟩ := List.cons.inj behind
    rw [← others, split_flatMap]
    exact stands_of_read piece

end Piece

namespace PlacedPiece

theorem mem_placeAll_iff {start : Nat} {pieces : List Piece} {placed : PlacedPiece} :
    placed ∈ placeAll start pieces ↔ ∃ first second, pieces = first ++ placed.piece :: second ∧
      placed.start = start + Text.byteSize (first.flatMap Piece.text) := by
  constructor
  · intro member
    induction pieces generalizing start with
    | nil => simp [placeAll] at member
    | cons piece pieces ih =>
      rcases List.mem_cons.1 member with rfl | member
      · exact ⟨[], pieces, rfl, rfl⟩
      · obtain ⟨first, second, rfl, place⟩ := ih member
        refine ⟨piece :: first, second, rfl, ?_⟩
        rw [place, List.flatMap_cons, Text.byteSize_append, Nat.add_assoc]
  · rintro ⟨first, second, rfl, place⟩
    rw [placeAll_append, ← place]
    exact List.mem_append_right _ List.mem_cons_self

theorem stands_of_mem {start : Nat} {text : Text} {placed : PlacedPiece} {lexeme : Lexeme}
    (member : placed ∈ placeAll start (Piece.split text)) (piece : placed.piece = .lexeme lexeme) :
    ∃ rest, lexeme.Stands rest := by
  obtain ⟨first, second, pieces, _⟩ := mem_placeAll_iff.1 member
  rw [piece] at pieces
  exact ⟨_, Piece.stands_behind pieces⟩

theorem stop_eq {start : Nat} {placed : PlacedPiece} {first : List Piece}
    (place : placed.start = start + Text.byteSize (first.flatMap Piece.text)) :
    placed.span.stop =
      start + Text.byteSize ((first ++ [placed.piece]).flatMap Piece.text) := by
  show placed.start + Text.byteSize placed.piece.text = _
  rw [place, List.flatMap_append, List.flatMap_singleton, Text.byteSize_append, Nat.add_assoc]

theorem stop_le_of_mem_placeAll {start : Nat} {pieces : List Piece} {placed : PlacedPiece}
    (member : placed ∈ placeAll start pieces) :
    placed.span.stop ≤ start + Text.byteSize (pieces.flatMap Piece.text) := by
  obtain ⟨first, second, rfl, place⟩ := mem_placeAll_iff.1 member
  rw [stop_eq place]
  simp only [List.flatMap_append, List.flatMap_cons, List.flatMap_nil, List.append_nil,
    Text.byteSize_append]
  omega

theorem eq_of_start {text : Text} {placed other : PlacedPiece}
    (member : placed ∈ placeAll 0 (Piece.split text))
    (among : other ∈ placeAll 0 (Piece.split text)) (same : placed.start = other.start) :
    placed = other := by
  obtain ⟨first, second, pieces, place⟩ := mem_placeAll_iff.1 member
  obtain ⟨front, back, parts, offset⟩ := mem_placeAll_iff.1 among
  have rest {first second : List Piece} (pieces : Piece.split text = first ++ second) :
      Text.dropBytes? (Text.byteSize (first.flatMap Piece.text)) text =
        some (second.flatMap Piece.text) := by
    have whole := Piece.split_flatMap text
    rw [pieces, List.flatMap_append] at whole
    conv => lhs; rw [← whole]
    exact Text.dropBytes?_append _ _
  have left := rest pieces
  rw [← Nat.zero_add (Text.byteSize _), ← place, same, offset, Nat.zero_add, rest parts] at left
  have behind := Piece.split_behind pieces
  rw [← Option.some.inj left, Piece.split_behind parts] at behind
  cases placed
  cases other
  simp_all

theorem ne_nil_of_mem {start : Nat} {text : Text} {placed : PlacedPiece}
    (member : placed ∈ placeAll start (Piece.split text)) : placed.piece.text ≠ [] := by
  obtain ⟨first, second, pieces, _⟩ := mem_placeAll_iff.1 member
  exact Piece.ne_nil_of_mem_splitUpTo _ _ _ (pieces ▸ List.mem_append_right _ List.mem_cons_self)

end PlacedPiece

end MoSyntax
