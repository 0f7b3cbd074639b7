import MoSyntax.Proofs.Lexing.Account
import MoSyntax.Proofs.Lexing.Lines
import MoSyntax.Proofs.Lexing.Neighbours
import MoSyntax.Proofs.Telling.Lexeme

/-!
Lexing may start anew. Reading keeps nothing from one piece to the next, so from any character on the
rest of a text is read as if it stood alone; and from a place between two pieces on it is read as it
is when the whole text is.
-/
namespace MoSyntax

/-- A token that has come to stand so many bytes further behind, in the lines of a whole text. -/
def Token.resettle (table : LineTable) (bytes : Nat) (token : Token) : Token :=
  { token.relocate (bytes + ·) with position := table.position (bytes + token.span.start) }

/-- A diagnostic that has come to stand so many bytes further behind, in the lines of a whole text. -/
def Diagnostic.resettle (table : LineTable) (bytes : Nat) (diagnostic : Diagnostic) : Diagnostic :=
  { diagnostic.relocate (bytes + ·) with
    position := table.position (bytes + diagnostic.span.start) }

def Lexed.diagnosticsFrom (source : Text) (offset : Nat) : List Diagnostic :=
  ((Bag.ofSource source).reportAll (ofTextFrom source offset).reports).items

/-! Behind some text. -/

theorem PlacedPiece.token?_resettle (table other : LineTable) (bytes start : Nat) (piece : Piece) :
    token? table ⟨bytes + start, piece⟩ =
      (token? other ⟨start, piece⟩).map (Token.resettle table bytes) := by
  cases piece with
  | blanks | invalid => rfl
  | lexeme lexeme =>
    rw [token?, token?, span_add bytes start (.lexeme lexeme)]
    rfl

theorem tokensFrom_resettle (table other : LineTable) (bytes : Nat) (text : Text) :
    tokensFrom table bytes text =
      (tokensFrom other 0 text).map (Token.resettle table bytes) := by
  have moved := PlacedPiece.placeAll_add bytes 0 (Piece.split text)
  rw [Nat.add_zero] at moved
  rw [tokensFrom, moved, List.filterMap_map, tokensFrom, List.map_filterMap]
  exact congrArg (List.filterMap · _)
    (funext fun placed => PlacedPiece.token?_resettle table other bytes _ _)

namespace Lexed

theorem diagnosticsFrom_append (before rest : Text) :
    diagnosticsFrom (before ++ rest) (Text.byteSize before) =
      (reportsFrom (Text.byteSize before) rest).map (Bag.ofSource (before ++ rest)).place := by
  rw [diagnosticsFrom, Bag.items_reportAll, ofTextFrom_append]
  rfl

theorem tokens_behind (before rest : Text) :
    (ofTextFrom (before ++ rest) (Text.byteSize before)).tokens =
      (ofText rest).tokens.map
        (Token.resettle (.ofText (before ++ rest)) (Text.byteSize before)) := by
  rw [ofTextFrom_append, ofText_tokens, List.map_append, Text.byteSize_append]
  exact congrArg (· ++ _) (tokensFrom_resettle _ (.ofText rest) _ rest)

theorem diagnostics_behind (before rest : Text) :
    diagnosticsFrom (before ++ rest) (Text.byteSize before) =
      (diagnostics rest).map
        (Diagnostic.resettle (.ofText (before ++ rest)) (Text.byteSize before)) := by
  have moved := reportsFrom_add (Text.byteSize before) 0 rest
  rw [Nat.add_zero] at moved
  rw [diagnosticsFrom_append, moved, diagnostics_eq, List.map_map, List.map_map]
  rfl

end Lexed

/-! Between two pieces. -/

/-- The offset lies between two pieces of a text, or at one of its ends. -/
def Piece.Seam (text : Text) (offset : Nat) : Prop :=
  ∃ first second, split text = first ++ second ∧ offset = Text.byteSize (first.flatMap Piece.text)

theorem PlacedPiece.seams_of_mem {text : Text} {placed : PlacedPiece}
    (member : placed ∈ placeAll 0 (Piece.split text)) :
    Piece.Seam text placed.span.start ∧ Piece.Seam text placed.span.stop := by
  obtain ⟨first, second, pieces, place⟩ := mem_placeAll_iff.1 member
  have stop := stop_eq place
  rw [Nat.zero_add] at place stop
  exact ⟨⟨first, _, pieces, place⟩, _, second, pieces.trans (List.append_cons ..), stop⟩

theorem Lexed.seams_of_mem_tokens {source : Text} {token : Token}
    (member : token ∈ (ofText source).tokens) :
    Piece.Seam source token.span.start ∧ Piece.Seam source token.span.stop := by
  rw [ofText_tokens, List.mem_append, List.mem_singleton] at member
  rcases member with written | rfl
  · obtain ⟨placed, inside, found⟩ := List.mem_filterMap.1 written
    obtain ⟨lexeme, _, rfl⟩ := PlacedPiece.token?_eq_some found
    exact PlacedPiece.seams_of_mem inside
  · have ended : Piece.Seam source (Text.byteSize source) :=
      ⟨Piece.split source, [], (List.append_nil _).symm, by rw [Piece.split_flatMap]⟩
    exact ⟨ended, ended⟩

/-- What begins inside of its piece is found again from a seam on, if it begins there or later. -/
theorem PlacedPiece.filter_placeAll {α : Type} (make : PlacedPiece → List α) (place : α → Nat)
    {first second : List Piece}
    (inside : ∀ placed ∈ placeAll 0 (first ++ second), ∀ made ∈ make placed,
      placed.span.start ≤ place made ∧ place made < placed.span.stop) :
    ((placeAll 0 (first ++ second)).flatMap make).filter
        (Text.byteSize (first.flatMap Piece.text) ≤ place ·) =
      (placeAll (Text.byteSize (first.flatMap Piece.text)) second).flatMap make := by
  rw [placeAll_append, Nat.zero_add] at inside ⊢
  rw [List.flatMap_append, List.filter_append]
  have before : ((placeAll 0 first).flatMap make).filter
      (Text.byteSize (first.flatMap Piece.text) ≤ place ·) = [] := by
    refine List.filter_eq_nil_iff.2 fun made member => ?_
    obtain ⟨placed, here, among⟩ := List.mem_flatMap.1 member
    have stop := stop_le_of_mem_placeAll here
    have less := (inside placed (List.mem_append_left _ here) made among).2
    simp only [decide_eq_true_eq]
    omega
  have behind : ∀ made ∈ (placeAll (Text.byteSize (first.flatMap Piece.text)) second).flatMap make,
      decide (Text.byteSize (first.flatMap Piece.text) ≤ place made) = true := by
    intro made member
    obtain ⟨placed, there, among⟩ := List.mem_flatMap.1 member
    have start := start_le_of_mem_placeAll there
    have least := (inside placed (List.mem_append_right _ there) made among).1
    exact decide_eq_true (Nat.le_trans start least)
  rw [before, List.filter_eq_self.2 behind, List.nil_append]

namespace Piece.Seam

variable {source : Text} {offset : Nat}

/-- From a seam on, the rest is read as it is in the whole. -/
theorem reads (seam : Seam source offset) (table : LineTable) :
    ∃ before rest, source = before ++ rest ∧ offset = Text.byteSize before ∧
      tokensFrom table offset rest =
        (tokensFrom table 0 source).filter (offset ≤ ·.span.start) ∧
      reportsFrom offset rest = (reportsFrom 0 source).filter (offset ≤ ·.span.start) := by
  obtain ⟨first, second, pieces, rfl⟩ := seam
  have whole := split_flatMap source
  rw [pieces, List.flatMap_append] at whole
  have solid : ∀ placed ∈ PlacedPiece.placeAll 0 (first ++ second), placed.piece.text ≠ [] :=
    fun placed member => PlacedPiece.ne_nil_of_mem (pieces ▸ member)
  refine ⟨_, _, whole.symm, rfl, ?_, ?_⟩
  · rw [tokensFrom, tokensFrom, split_behind pieces, pieces, List.filterMap_eq_flatMap_toList,
      List.filterMap_eq_flatMap_toList]
    refine (PlacedPiece.filter_placeAll _ (fun token : Token => token.span.start)
      fun placed member token found => ?_).symm
    obtain ⟨lexeme, _, rfl⟩ := PlacedPiece.token?_eq_some (Option.mem_toList.1 found)
    exact ⟨Nat.le_refl _, Nat.lt_add_of_pos_right (Text.byteSize_pos (solid placed member))⟩
  · rw [reportsFrom, reportsFrom, split_behind pieces, pieces]
    refine (PlacedPiece.filter_placeAll _ (fun report : Diagnostic => report.span.start)
      fun placed member report told => ?_).symm
    exact (PlacedPiece.told_of_mem_reports (solid placed member) told).2.2

theorem tokens (seam : Seam source offset) :
    (Lexed.ofTextFrom source offset).tokens =
      (Lexed.ofText source).tokens.filter (offset ≤ ·.span.start) := by
  obtain ⟨before, rest, rfl, rfl, tokens, _⟩ := seam.reads (.ofText source)
  have ended : ∀ token ∈ [Token.endOfFile (Text.byteSize (before ++ rest))
      ((LineTable.ofText (before ++ rest)).position (Text.byteSize (before ++ rest)))],
      decide (Text.byteSize before ≤ token.span.start) = true := by
    intro token member
    obtain rfl := List.mem_singleton.1 member
    refine decide_eq_true ?_
    show Text.byteSize before ≤ Text.byteSize (before ++ rest)
    rw [Text.byteSize_append]
    exact Nat.le_add_right _ _
  rw [Lexed.ofText_tokens, List.filter_append, List.filter_eq_self.2 ended, Lexed.ofTextFrom_append]
  exact congrArg (· ++ _) tokens

theorem diagnostics (seam : Seam source offset) :
    Lexed.diagnosticsFrom source offset =
      (Lexed.diagnostics source).filter (offset ≤ ·.span.start) := by
  obtain ⟨before, rest, rfl, rfl, _, reports⟩ := seam.reads (.ofText source)
  rw [Lexed.diagnosticsFrom_append, Lexed.diagnostics_eq, List.filter_map, reports]
  rfl

end Piece.Seam

/-- Lexing is restartable. From a character on, a source has the tokens and diagnostics of what is
left of it, moved behind what stands before and placed in the lines of the whole. From the start or
the end of a token on, it has those tokens and diagnostics of the source that start there or later. -/
theorem Lexed.ofTextFrom_restarts (source : Text) :
    (∀ before rest, source = before ++ rest →
      (ofTextFrom source (Text.byteSize before)).tokens =
          (ofText rest).tokens.map (Token.resettle (.ofText source) (Text.byteSize before)) ∧
        diagnosticsFrom source (Text.byteSize before) =
          (diagnostics rest).map
            (Diagnostic.resettle (.ofText source) (Text.byteSize before))) ∧
      ∀ token ∈ (ofText source).tokens, ∀ offset ∈ [token.span.start, token.span.stop],
        (ofTextFrom source offset).tokens =
            (ofText source).tokens.filter (offset ≤ ·.span.start) ∧
          diagnosticsFrom source offset =
            (diagnostics source).filter (offset ≤ ·.span.start) := by
  refine ⟨?_, fun token member offset place => ?_⟩
  · rintro before rest rfl
    exact ⟨tokens_behind before rest, diagnostics_behind before rest⟩
  · obtain ⟨start, stop⟩ := seams_of_mem_tokens member
    have seam : Piece.Seam source offset := by
      simp only [List.mem_cons, List.not_mem_nil, or_false] at place
      rcases place with rfl | rfl
      · exact start
      · exact stop
    exact ⟨seam.tokens, seam.diagnostics⟩

/-- A start inside of a string that is not closed, where its end is read as something else; and a
start at the end of that string, behind its own diagnostics. -/
theorem Lexed.ofTextFrom_restarts_in_string :
    ("é \"a\\q\n日 x".toList = "é \"a".toList ++ "\\q\n日 x".toList ∧
      (ofTextFrom "é \"a\\q\n日 x".toList 5).tokens =
        (ofText "\\q\n日 x".toList).tokens.map
          (Token.resettle (.ofText "é \"a\\q\n日 x".toList) 5)) ∧
      ∃ token ∈ (ofText "é \"a\\q\n日 x".toList).tokens, 7 ∈ [token.span.start, token.span.stop] ∧
        diagnosticsFrom "é \"a\\q\n日 x".toList 7 =
          (diagnostics "é \"a\\q\n日 x".toList).filter (7 ≤ ·.span.start) ∧
        (diagnosticsFrom "é \"a\\q\n日 x".toList 7).map (·.span) = [⟨8, 11⟩] := by
  obtain ⟨behind, between⟩ := ofTextFrom_restarts "é \"a\\q\n日 x".toList
  have whole : "é \"a\\q\n日 x".toList = "é \"a".toList ++ "\\q\n日 x".toList := by decide
  have string : ∃ token ∈ (ofText "é \"a\\q\n日 x".toList).tokens,
      7 ∈ [token.span.start, token.span.stop] := by decide +kernel
  obtain ⟨token, member, stop⟩ := string
  exact ⟨⟨whole, (behind _ _ whole).1⟩, token, member, stop, (between token member 7 stop).2,
    by decide +kernel⟩

end MoSyntax
