import MoSyntax.Token.Lexed
import MoSyntax.Token.Partition

/-!
Where tokens lie. They stand in source order, none of them is empty and no two overlap, and each
covers just the characters that it was read from.
-/
namespace MoSyntax

theorem Text.byteSize_pos {text : Text} (some : text ≠ []) : 0 < byteSize text := by
  cases text with
  | nil => exact absurd rfl some
  | cons c text =>
    have size := c.utf8Size_pos
    rw [byteSize_cons]
    omega

theorem Span.slice?_append (span : Span) (before middle after : Text)
    (start : span.start = Text.byteSize before)
    (stop : span.stop = span.start + Text.byteSize middle) :
    span.slice? (before ++ (middle ++ after)) = some middle := by
  simp [slice?, size?, stop, start]

/-- Tokens in source order. -/
structure Ordered (tokens : List Token) : Prop where
  solid : ∀ token ∈ tokens, token.span.start < token.span.stop
  apart : tokens.Pairwise fun first second => first.span.stop ≤ second.span.start

theorem Ordered.sublist {some all : List Token} (ordered : Ordered all) (sublist : some.Sublist all) :
    Ordered some :=
  ⟨fun token member => ordered.solid token (sublist.subset member), ordered.apart.sublist sublist⟩

namespace Piece

theorem ne_nil_of_mem_splitUpTo (count : Nat) (text : Text) :
    ∀ piece ∈ splitUpTo count text, piece.text ≠ [] := by
  induction count generalizing text with
  | zero => simp [splitUpTo]
  | succ count ih =>
    cases text with
    | nil => simp [splitUpTo]
    | cons c rest =>
      simp only [splitUpTo, List.mem_cons]
      rintro piece (rfl | member)
      · exact read_ne_nil c rest
      · exact ih _ piece member

end Piece

namespace PlacedPiece

theorem exists_of_mem_placeAll (before : Text) {pieces : List Piece} {placed : PlacedPiece}
    (member : placed ∈ placeAll (Text.byteSize before) pieces) :
    placed.piece ∈ pieces ∧ ∃ front back, placed.start = Text.byteSize front ∧
      before ++ pieces.flatMap Piece.text = front ++ (placed.piece.text ++ back) := by
  induction pieces generalizing before with
  | nil => simp [placeAll] at member
  | cons piece pieces ih =>
    rw [placeAll, List.mem_cons, ← Text.byteSize_append] at member
    rcases member with rfl | member
    · exact ⟨List.mem_cons_self, before, _, rfl, by rw [List.flatMap_cons]⟩
    · obtain ⟨inside, front, back, start, whole⟩ := ih _ member
      refine ⟨List.mem_cons_of_mem _ inside, front, back, start, ?_⟩
      rw [List.flatMap_cons, ← List.append_assoc, whole]

theorem start_le_of_mem_placeAll {start : Nat} {pieces : List Piece} {placed : PlacedPiece}
    (member : placed ∈ placeAll start pieces) : start ≤ placed.start := by
  induction pieces generalizing start with
  | nil => simp [placeAll] at member
  | cons piece pieces ih =>
    rcases List.mem_cons.1 member with rfl | member
    · exact Nat.le_refl _
    · exact Nat.le_trans (Nat.le_add_right _ _) (ih member)

theorem pairwise_placeAll (start : Nat) (pieces : List Piece) :
    (placeAll start pieces).Pairwise fun first second => first.span.stop ≤ second.span.start := by
  induction pieces generalizing start with
  | nil => exact .nil
  | cons piece pieces ih =>
    exact .cons (fun placed member => start_le_of_mem_placeAll member) (ih _)

theorem token?_eq_some {table : LineTable} {placed : PlacedPiece} {token : Token}
    (found : placed.token? table = some token) :
    ∃ lexeme, placed.piece = .lexeme lexeme ∧
      token = ⟨lexeme.kind, lexeme.text, placed.span, table.position placed.start⟩ := by
  unfold token? at found
  split at found
  · rename_i lexeme piece
    exact ⟨lexeme, piece, (Option.some.inj found).symm⟩
  · simp at found

/-- What can be wrong with a piece, and what is reported then. -/
inductive Flaw (placed : PlacedPiece) : Diagnostic → Prop
  | character {c : Char} (piece : placed.piece = .invalid c) :
      Flaw placed (invalidCharacter placed.span c)
  | number {fractional : Bool} {text : Text} {error : NumberError}
      (piece : placed.piece = .lexeme (.number fractional text))
      (unread : NumberLiteral.read text = .error error) :
      Flaw placed (invalidNumber placed.span error)
  | unclosed {units : List StringUnit} (piece : placed.piece = .lexeme (.string false units)) :
      Flaw placed (unterminatedString placed.span)
  | escape {closed : Bool} {units : List StringUnit} {bad : Span × Char}
      (piece : placed.piece = .lexeme (.string closed units))
      (found : bad ∈ StringUnit.badEscapes (placed.start + 1) units) :
      Flaw placed (invalidEscape bad.1 bad.2)

theorem flaw_of_mem_reports {placed : PlacedPiece} {report : Diagnostic}
    (member : report ∈ placed.reports) : placed.Flaw report := by
  unfold reports at member
  split at member
  · rename_i c piece
    obtain rfl := List.mem_singleton.1 member
    exact .character piece
  · rename_i piece
    split at member
    · cases member
    · rename_i error unread
      obtain rfl := List.mem_singleton.1 member
      exact .number piece unread
  · rename_i closed units piece
    rcases List.mem_append.1 member with unclosed | escape
    · cases closed with
      | true => cases unclosed
      | false =>
        obtain rfl := List.mem_singleton.1 unclosed
        exact .unclosed piece
    · obtain ⟨bad, found, rfl⟩ := List.mem_map.1 escape
      exact .escape piece found
  · cases member

end PlacedPiece

namespace Lexeme

theorem kind_ne_endOfFile (lexeme : Lexeme) : lexeme.kind ≠ .endOfFile := by
  cases lexeme <;> simp [kind]
  split <;> simp

theorem kind_word (text : Text) :
    (∃ keyword, (word text).kind = .keyword keyword) ∨ (word text).kind = .identifier text := by
  rw [kind]
  split
  · exact .inl ⟨_, rfl⟩
  · exact .inr rfl

theorem kind_eq_comment {lexeme : Lexeme} (kind : lexeme.kind = .comment) :
    ∃ text, lexeme = .comment text := by
  cases lexeme with
  | comment text => exact ⟨text, rfl⟩
  | word text => rcases kind_word text with ⟨_, word⟩ | word <;> cases word.symm.trans kind
  | number | string | lineBreak | operator | punctuation => cases kind

theorem kind_eq_lineBreak {lexeme : Lexeme} (kind : lexeme.kind = .lineBreak) :
    ∃ text, lexeme = .lineBreak text := by
  cases lexeme with
  | lineBreak text => exact ⟨text, rfl⟩
  | word text => rcases kind_word text with ⟨_, word⟩ | word <;> cases word.symm.trans kind
  | number | string | comment | operator | punctuation => cases kind

theorem kind_eq_string {lexeme : Lexeme} {value : Text} (kind : lexeme.kind = .string value) :
    ∃ closed units, lexeme = .string closed units ∧ value = StringUnit.valueOf units := by
  cases lexeme with
  | string closed units => exact ⟨closed, units, rfl, (TokenKind.string.inj kind).symm⟩
  | word text => rcases kind_word text with ⟨_, word⟩ | word <;> cases word.symm.trans kind
  | number | comment | lineBreak | operator | punctuation => cases kind

theorem kind_eq_number {lexeme : Lexeme} {literal : NumberLiteral}
    (kind : lexeme.kind = .number literal) :
    ∃ fractional text, lexeme = .number fractional text ∧ literal = numberOf fractional text := by
  cases lexeme with
  | number fractional text => exact ⟨fractional, text, rfl, (TokenKind.number.inj kind).symm⟩
  | word text => rcases kind_word text with ⟨_, word⟩ | word <;> cases word.symm.trans kind
  | string | comment | lineBreak | operator | punctuation => cases kind

end Lexeme

namespace Lexed

def written (text : Text) : List Token :=
  (PlacedPiece.placeAll 0 (Piece.split text)).filterMap (·.token? (.ofText text))

theorem ofText_tokens (text : Text) :
    (ofText text).tokens =
      written text ++ [.endOfFile (Text.byteSize text)
        ((LineTable.ofText text).position (Text.byteSize text))] := by
  simp [ofText, ofTextFrom, Text.dropBytes?, written]

theorem exists_of_mem_written {text : Text} {token : Token} (member : token ∈ written text) :
    ∃ (lexeme : Lexeme) (front back : Text), token.kind = lexeme.kind ∧ token.lexeme = lexeme.text ∧
      lexeme.text ≠ [] ∧ token.span.start = Text.byteSize front ∧
      token.span.stop = token.span.start + Text.byteSize lexeme.text ∧
      text = front ++ (lexeme.text ++ back) := by
  obtain ⟨placed, inside, found⟩ := List.mem_filterMap.1 member
  obtain ⟨lexeme, piece, rfl⟩ := PlacedPiece.token?_eq_some found
  obtain ⟨among, front, back, start, whole⟩ :=
    PlacedPiece.exists_of_mem_placeAll [] inside
  have some := Piece.ne_nil_of_mem_splitUpTo _ _ _ among
  rw [List.nil_append, Piece.split_flatMap] at whole
  simp only [piece, Piece.text] at some whole
  refine ⟨lexeme, front, back, rfl, rfl, some, start, ?_, whole⟩
  simp [PlacedPiece.span, piece, Piece.text]

theorem written_ordered (text : Text) : Ordered (written text) where
  solid := by
    intro token member
    obtain ⟨lexeme, _, _, _, _, some, _, stop, _⟩ := exists_of_mem_written member
    have size := Text.byteSize_pos some
    omega
  apart := by
    refine List.Pairwise.filterMap _ ?_ (PlacedPiece.pairwise_placeAll 0 (Piece.split text))
    intro first second before one left two right
    obtain ⟨_, _, rfl⟩ := PlacedPiece.token?_eq_some left
    obtain ⟨_, _, rfl⟩ := PlacedPiece.token?_eq_some right
    exact before

theorem stop_le_of_mem_written {text : Text} {token : Token} (member : token ∈ written text) :
    token.span.stop ≤ Text.byteSize text := by
  obtain ⟨lexeme, front, back, _, _, _, start, stop, whole⟩ := exists_of_mem_written member
  have size := congrArg Text.byteSize whole
  simp only [Text.byteSize_append] at size
  omega

theorem kind_ne_endOfFile_of_mem_written {text : Text} {token : Token}
    (member : token ∈ written text) : token.kind ≠ .endOfFile := by
  obtain ⟨lexeme, _, _, kind, _⟩ := exists_of_mem_written member
  rw [kind]
  exact lexeme.kind_ne_endOfFile

theorem exists_placed_of_mem {text : Text} {token : Token} (member : token ∈ (ofText text).tokens)
    (written : token.kind ≠ .endOfFile) :
    ∃ placed ∈ PlacedPiece.placeAll 0 (Piece.split text), ∃ lexeme,
      placed.piece = .lexeme lexeme ∧ token =
        ⟨lexeme.kind, lexeme.text, placed.span, (LineTable.ofText text).position placed.start⟩ := by
  rw [ofText_tokens] at member
  rcases List.mem_append.1 member with inside | last
  · obtain ⟨placed, among, found⟩ := List.mem_filterMap.1 inside
    exact ⟨placed, among, PlacedPiece.token?_eq_some found⟩
  · obtain rfl := List.mem_singleton.1 last
    exact absurd rfl written

theorem slice?_of_mem {text : Text} {token : Token} (member : token ∈ (ofText text).tokens) :
    token.span.slice? text = some token.lexeme := by
  rw [ofText_tokens, List.mem_append, List.mem_singleton] at member
  rcases member with member | rfl
  · obtain ⟨lexeme, front, back, _, same, _, start, stop, whole⟩ := exists_of_mem_written member
    rw [same, whole]
    exact Span.slice?_append _ front lexeme.text back start stop
  · simpa [Token.endOfFile] using
      Span.slice?_append (.empty (Text.byteSize text)) text [] [] rfl rfl

end Lexed

end MoSyntax
