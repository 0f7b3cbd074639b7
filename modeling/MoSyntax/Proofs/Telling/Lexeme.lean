import Mathlib.Data.List.Nodup
import MoSyntax.Proofs.Lexing.Layout
import MoSyntax.Proofs.Lexing.Units
import MoSyntax.Proofs.Printing.Lexing

/-!
The reports of the lexer are distinct. Those of two pieces lie in their own pieces, and of one piece
only a string has more than one: that it is not closed, and its escapes one after the other.
-/
namespace MoSyntax

namespace StringUnit

theorem within_of_mem_badEscapes {units : List StringUnit} {offset : Nat} {bad : Span × Char}
    (member : bad ∈ badEscapes offset units) :
    offset ≤ bad.1.start ∧ bad.1.start < bad.1.stop ∧
      bad.1.stop ≤ offset + Text.byteSize (textOf units) := by
  rw [badEscapes_eq] at member
  obtain ⟨placed, inside, found⟩ := List.mem_filterMap.1 member
  obtain ⟨c, _, rfl⟩ := Option.map_eq_some_iff.1 found
  exact within_of_mem_placeAll inside

theorem badEscapes_ordered (offset : Nat) (units : List StringUnit) :
    (badEscapes offset units).Pairwise fun first second => first.1.stop ≤ second.1.start := by
  rw [badEscapes_eq]
  refine (placeAll_ordered offset units).filterMap _ fun first second before _ left _ right => ?_
  obtain ⟨_, _, rfl⟩ := Option.map_eq_some_iff.1 left
  obtain ⟨_, _, rfl⟩ := Option.map_eq_some_iff.1 right
  exact before

end StringUnit

namespace PlacedPiece

theorem told_of_mem_reports {placed : PlacedPiece} (some : placed.piece.text ≠ [])
    {report : Diagnostic} (member : report ∈ placed.reports) :
    report.secondary = [] ∧ report.position = ⟨0, 0⟩ ∧ placed.span.start ≤ report.span.start ∧
      report.span.start < placed.span.stop := by
  have solid : placed.span.start < placed.span.stop :=
    Nat.lt_add_of_pos_right (Text.byteSize_pos some)
  cases flaw_of_mem_reports member with
  | character | number | unclosed => exact ⟨rfl, rfl, Nat.le_refl _, solid⟩
  | @escape closed units bad piece found =>
    obtain ⟨after, within, stop⟩ := StringUnit.within_of_mem_badEscapes found
    have size : placed.start + 1 + Text.byteSize (StringUnit.textOf units) ≤ placed.span.stop := by
      have quote : '"'.utf8Size = 1 := rfl
      show _ ≤ placed.start + Text.byteSize placed.piece.text
      rw [piece]
      simp only [Piece.text, Lexeme.text, Text.byteSize_append, Text.byteSize_cons, quote]
      omega
    refine ⟨rfl, rfl, ?_, ?_⟩
    · show placed.start ≤ bad.1.start
      omega
    · show bad.1.start < placed.span.stop
      omega

theorem reports_nodup (placed : PlacedPiece) : placed.reports.Nodup := by
  unfold reports
  split
  · exact List.nodup_singleton _
  · split
    · exact .nil
    · exact List.nodup_singleton _
  · rename_i closed units _
    have escapes : ((StringUnit.badEscapes (placed.start + 1) units).map fun bad =>
        invalidEscape bad.1 bad.2).Nodup := by
      refine List.pairwise_map.2 ((StringUnit.badEscapes_ordered _ units).imp_of_mem ?_)
      intro first second member _ before same
      have solid := (StringUnit.within_of_mem_badEscapes member).2.1
      have here : first.1 = second.1 := congrArg Diagnostic.span same
      rw [← here] at before
      omega
    refine List.nodup_append.2 ⟨?_, escapes, fun unclosed here escape there same => ?_⟩
    · cases closed with
      | true => exact .nil
      | false => exact List.nodup_singleton _
    · cases closed with
      | true => cases here
      | false =>
        obtain rfl := List.mem_singleton.1 here
        obtain ⟨bad, _, rfl⟩ := List.mem_map.1 there
        have faults : Fault.unterminatedString = .invalidEscape := congrArg Diagnostic.fault same
        cases faults
  · exact .nil

end PlacedPiece

theorem reportsFrom_nodup (before text : Text) :
    (reportsFrom (Text.byteSize before) text).Nodup := by
  refine List.nodup_flatMap.2 ⟨fun placed _ => placed.reports_nodup, ?_⟩
  refine (PlacedPiece.pairwise_placeAll _ (Piece.split text)).imp_of_mem ?_
  intro first second here there apart report told again
  have some {placed : PlacedPiece}
      (inside : placed ∈ PlacedPiece.placeAll (Text.byteSize before) (Piece.split text)) :
      placed.piece.text ≠ [] :=
    Piece.ne_nil_of_mem_splitUpTo _ _ _ (PlacedPiece.exists_of_mem_placeAll before inside).1
  obtain ⟨_, _, _, within⟩ := PlacedPiece.told_of_mem_reports (some here) told
  obtain ⟨_, _, after, _⟩ := PlacedPiece.told_of_mem_reports (some there) again
  omega

end MoSyntax
