import MoSyntax.Proofs.Lexing.Neighbours

/-!
Where comments and strings that are not closed end. They read up to the first carriage return or line
feed. That is the end of their line, unless it is a carriage return without a line feed: this is no
line break but an invalid character, and behind it the same line is read on.
-/
namespace MoSyntax

/-- A carriage return begins there that no line feed follows. -/
def Text.LoneCarriage (text : Text) (offset : Nat) : Prop :=
  ∃ before behind, text = before ++ '\r' :: behind ∧ offset = byteSize before ∧
    behind.head? ≠ some '\n'

theorem Text.LoneCarriage.behind {before rest : Text}
    (lone : Text.LoneCarriage (before ++ rest) (byteSize before)) :
    ∃ more, rest = '\r' :: more ∧ more.head? ≠ some '\n' := by
  obtain ⟨front, more, whole, place, alone⟩ := lone
  have left := dropBytes?_append before rest
  rw [whole, place, dropBytes?_append] at left
  exact ⟨more, (Option.some.inj left).symm, alone⟩

namespace Lexed

/-- The source ends there, or a line break starts. -/
def LineEnds (source : Text) (offset : Nat) : Prop :=
  offset = Text.byteSize source ∨
    ∃ feed ∈ (ofText source).tokens, feed.kind = .lineBreak ∧ feed.span.start = offset

instance (source : Text) (offset : Nat) : Decidable (LineEnds source offset) :=
  inferInstanceAs (Decidable (_ ∨ _))

/-- The token is a comment, or it is reported as a string that is not closed. -/
def RunsOn (source : Text) (token : Token) : Prop :=
  token.kind = .comment ∨ ∃ report ∈ (ofText source).reports,
    report.fault = .unterminatedString ∧ report.span = token.span

instance (source : Text) (token : Token) : Decidable (RunsOn source token) :=
  inferInstanceAs (Decidable (_ ∨ _))

end Lexed

/-! One piece and what is behind it. -/

/-- What only the end of the line ends holds none and is followed by one. -/
theorem Lexeme.Stands.runsOn {lexeme : Lexeme} {rest : Text} (stands : lexeme.Stands rest)
    (runsOn : lexeme.runsOn) : (∀ c ∈ lexeme.text, endsLine c = false) ∧ LineEnd rest := by
  cases stands with
  | comment inside ends =>
    refine ⟨?_, ends⟩
    simpa [Lexeme.text, endsLine] using inside
  | unclosed inside ends =>
    refine ⟨?_, ends⟩
    simpa [Lexeme.text, endsLine] using inside.line
  | feed | carriage | closed | word | whole | fraction | operator | punctuation => cases runsOn

namespace Piece

theorem split_carriage {more : Text} (alone : more.head? ≠ some '\n') :
    split ('\r' :: more) = .invalid '\r' :: split more := by
  rw [split_cons, read_of_none (by decide) (Lexeme.read?_carriage alone)]

/-- At the end of a line there is nothing, or a line break, or a carriage return on its own. -/
theorem split_lineEnd {rest : Text} (ends : LineEnd rest) :
    rest = [] ∨ (∃ feed pieces, split rest = .lexeme (.lineBreak feed) :: pieces) ∨
      ∃ more, rest = '\r' :: more ∧ more.head? ≠ some '\n' := by
  cases rest with
  | nil => exact .inl rfl
  | cons c more =>
    have line : c = '\n' ∨ c = '\r' :=
      Decidable.or_iff_not_imp_left.2 (by simpa [endsLine] using ends c rfl)
    rcases line with rfl | rfl
    · refine .inr (.inl ⟨['\n'], split more, ?_⟩)
      rw [split_cons]
      rfl
    · by_cases feed : more.head? = some '\n'
      · obtain ⟨others, rfl⟩ := List.head?_eq_some_iff.1 feed
        refine .inr (.inl ⟨['\r', '\n'], split others, ?_⟩)
        rw [split_cons]
        rfl
      · exact .inr (.inr ⟨more, rfl, feed⟩)

end Piece

namespace PlacedPiece

theorem exists_behind {source : Text} {placed : PlacedPiece} {lexeme : Lexeme}
    (member : placed ∈ placeAll 0 (Piece.split source)) (piece : placed.piece = .lexeme lexeme) :
    ∃ before rest, source = before ++ rest ∧ placed.span.stop = Text.byteSize before ∧
      lexeme.Stands rest ∧ ∀ next pieces, Piece.split rest = next :: pieces →
        ⟨placed.span.stop, next⟩ ∈ placeAll 0 (Piece.split source) := by
  obtain ⟨first, second, pieces, place⟩ := mem_placeAll_iff.1 member
  have further := pieces.trans (List.append_cons ..)
  have whole := Piece.split_flatMap source
  rw [further, List.flatMap_append] at whole
  have stop := stop_eq place
  refine ⟨_, _, whole.symm, stop.trans (Nat.zero_add _), ?_, fun next others behind => ?_⟩
  · rw [piece] at pieces
    exact Piece.stands_behind pieces
  · rw [Piece.split_behind further] at behind
    exact mem_placeAll_iff.2 ⟨_, others, behind ▸ further, stop⟩

end PlacedPiece

namespace Lexed

variable {source : Text} {offset : Nat}

theorem exists_lineBreak_iff :
    (∃ feed ∈ (ofText source).tokens, feed.kind = .lineBreak ∧ feed.span.start = offset) ↔
      ∃ feed, ⟨offset, .lexeme (.lineBreak feed)⟩ ∈
        PlacedPiece.placeAll 0 (Piece.split source) := by
  constructor
  · rintro ⟨token, member, kind, rfl⟩
    have written : token.kind ≠ .endOfFile := by simp [kind]
    obtain ⟨placed, inside, lexeme, piece, rfl⟩ := exists_placed_of_mem member written
    obtain ⟨feed, rfl⟩ := Lexeme.kind_eq_lineBreak kind
    exact ⟨feed, piece ▸ inside⟩
  · rintro ⟨feed, inside⟩
    rw [ofText_tokens]
    exact ⟨_, List.mem_append_left _ (List.mem_filterMap.2 ⟨_, inside, rfl⟩), rfl, rfl⟩

/-- A carriage return on its own is reported if a piece begins there. It ends no line. -/
theorem not_lineEnds_of_carriage
    (inside : ⟨offset, .invalid '\r'⟩ ∈ PlacedPiece.placeAll 0 (Piece.split source)) :
    ¬ LineEnds source offset ∧
      PlacedPiece.invalidCharacter ⟨offset, offset + 1⟩ '\r' ∈ (ofText source).reports := by
  constructor
  · rintro (last | feed)
    · have stop := PlacedPiece.stop_le_of_mem_placeAll inside
      rw [Piece.split_flatMap, ← last] at stop
      change offset + 1 ≤ 0 + offset at stop
      omega
    · obtain ⟨feed, among⟩ := exists_lineBreak_iff.1 feed
      cases congrArg PlacedPiece.piece (PlacedPiece.eq_of_start inside among rfl)
  · rw [ofText_reports]
    exact List.mem_flatMap.2 ⟨_, inside, List.mem_singleton.2 rfl⟩

/-- What only the end of the line ends is followed by it, or by a carriage return on its own. -/
theorem runsOn_piece {placed : PlacedPiece} {lexeme : Lexeme}
    (member : placed ∈ PlacedPiece.placeAll 0 (Piece.split source))
    (piece : placed.piece = .lexeme lexeme) (runsOn : lexeme.runsOn) :
    (LineEnds source placed.span.stop ↔ ¬ source.LoneCarriage placed.span.stop) ∧
      (source.LoneCarriage placed.span.stop →
        PlacedPiece.invalidCharacter ⟨placed.span.stop, placed.span.stop + 1⟩ '\r' ∈
          (ofText source).reports) := by
  obtain ⟨before, rest, rfl, stop, stands, next⟩ := PlacedPiece.exists_behind member piece
  have invalid (lone : Text.LoneCarriage (before ++ rest) placed.span.stop) :
      ⟨placed.span.stop, .invalid '\r'⟩ ∈ PlacedPiece.placeAll 0 (Piece.split (before ++ rest)) := by
    rw [stop] at lone
    obtain ⟨more, rfl, alone⟩ := lone.behind
    exact next _ _ (Piece.split_carriage alone)
  refine ⟨⟨fun ends lone => (not_lineEnds_of_carriage (invalid lone)).1 ends, fun other => ?_⟩,
    fun lone => (not_lineEnds_of_carriage (invalid lone)).2⟩
  rcases Piece.split_lineEnd (stands.runsOn runsOn).2 with rfl | ⟨feed, pieces, first⟩ | carriage
  · exact .inl (by rw [stop, List.append_nil])
  · exact .inr (exists_lineBreak_iff.2 ⟨feed, next _ _ first⟩)
  · obtain ⟨more, rfl, alone⟩ := carriage
    exact absurd ⟨before, more, rfl, stop, alone⟩ other

theorem exists_unclosed_piece {report : Diagnostic} (told : report ∈ (ofText source).reports)
    (fault : report.fault = .unterminatedString) :
    ∃ placed ∈ PlacedPiece.placeAll 0 (Piece.split source), ∃ units,
      placed.piece = .lexeme (.string false units) ∧ report.span = placed.span := by
  rw [ofText_reports] at told
  obtain ⟨placed, inside, told⟩ := List.mem_flatMap.1 told
  cases PlacedPiece.flaw_of_mem_reports told with
  | unclosed piece => exact ⟨placed, inside, _, piece, rfl⟩
  | character | number | escape => cases fault

/-- A comment, and a string that is reported as not closed, is a piece that only the end of the line
ends. -/
theorem RunsOn.exists_piece {token : Token} (runsOn : RunsOn source token)
    (member : token ∈ (ofText source).tokens) :
    ∃ placed ∈ PlacedPiece.placeAll 0 (Piece.split source), ∃ lexeme,
      placed.piece = .lexeme lexeme ∧ lexeme.runsOn ∧ token.span = placed.span ∧
        token.lexeme = lexeme.text := by
  rw [ofText_tokens] at member
  rcases List.mem_append.1 member with written | last
  · obtain ⟨placed, inside, found⟩ := List.mem_filterMap.1 written
    obtain ⟨lexeme, shown, rfl⟩ := PlacedPiece.token?_eq_some found
    refine ⟨placed, inside, lexeme, shown, ?_, rfl, rfl⟩
    rcases runsOn with comment | ⟨report, told, fault, same⟩
    · obtain ⟨text, rfl⟩ := Lexeme.kind_eq_comment comment
      rfl
    · obtain ⟨other, among, units, string, span⟩ := exists_unclosed_piece told fault
      have start : other.start = placed.start := congrArg Span.start (span.symm.trans same)
      obtain rfl := PlacedPiece.eq_of_start among inside start
      obtain rfl := Piece.lexeme.inj (shown.symm.trans string)
      rfl
  · obtain rfl := List.mem_singleton.1 last
    rcases runsOn with comment | ⟨report, told, fault, same⟩
    · cases comment
    · -- the token at the end is empty, and no piece is
      obtain ⟨placed, inside, units, string, span⟩ := exists_unclosed_piece told fault
      have size := Text.byteSize_pos (PlacedPiece.ne_nil_of_mem inside)
      have empty : placed.span.start = placed.span.stop := by
        rw [← span, same]
        rfl
      change placed.start = placed.start + Text.byteSize placed.piece.text at empty
      omega

/-- Comments and strings that are not closed stay on their line. Where one ends, the source ends or a
line break starts, just if there is no carriage return without a line feed; and if there is one, it is
reported as a character that has no place there. -/
theorem runsOn_ends (source : Text) (token : Token) (member : token ∈ (ofText source).tokens)
    (runsOn : RunsOn source token) :
    ('\n' ∉ token.lexeme ∧ '\r' ∉ token.lexeme) ∧
      (LineEnds source token.span.stop ↔ ¬ source.LoneCarriage token.span.stop) ∧
      (source.LoneCarriage token.span.stop →
        PlacedPiece.invalidCharacter ⟨token.span.stop, token.span.stop + 1⟩ '\r' ∈
          (ofText source).reports) := by
  obtain ⟨placed, inside, lexeme, piece, endless, span, text⟩ := runsOn.exists_piece member
  obtain ⟨_, _, _, _, stands, _⟩ := PlacedPiece.exists_behind inside piece
  have line := (stands.runsOn endless).1
  rw [text, span]
  exact ⟨⟨fun feed => absurd (line _ feed) (by decide), fun feed => absurd (line _ feed) (by decide)⟩,
    runsOn_piece inside piece endless⟩

/-- In front of a carriage return with its line feed, a string that is not closed ends its line. -/
theorem runsOn_ends_string :
    ∃ token ∈ (ofText "\"é\\\r\nx".toList).tokens,
      RunsOn "\"é\\\r\nx".toList token ∧ LineEnds "\"é\\\r\nx".toList token.span.stop ∧
        ¬ Text.LoneCarriage "\"é\\\r\nx".toList token.span.stop := by
  have string : ∃ token ∈ (ofText "\"é\\\r\nx".toList).tokens,
      RunsOn "\"é\\\r\nx".toList token ∧ LineEnds "\"é\\\r\nx".toList token.span.stop := by
    decide +kernel
  obtain ⟨token, member, runsOn, ends⟩ := string
  exact ⟨token, member, runsOn, ends, (runsOn_ends _ token member runsOn).2.1.1 ends⟩

/-- A carriage return on its own ends a comment and a string, but not their line. -/
theorem exists_runsOn_not_lineEnds :
    (∃ token ∈ (ofText "// a\rb".toList).tokens, token.kind = .comment ∧
        ¬ LineEnds "// a\rb".toList token.span.stop) ∧
      ∃ token ∈ (ofText "\"c\rd".toList).tokens, token.kind = .string ['c'] ∧
        RunsOn "\"c\rd".toList token ∧ ¬ LineEnds "\"c\rd".toList token.span.stop := by
  decide +kernel

end Lexed

end MoSyntax
