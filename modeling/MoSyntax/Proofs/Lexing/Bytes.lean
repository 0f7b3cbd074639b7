import MoSyntax.Proofs.Lexing.Neighbours

/-!
A restored text byte by byte. It is as long as its source and has the same tokens in the same bytes;
every byte that belongs to none of them is a space, so a wide character that is not shown leaves as
many spaces as it has bytes.
-/
namespace MoSyntax

namespace Text

def bytes (text : Text) : List UInt8 := text.flatMap String.utf8EncodeChar

theorem bytes_append (first second : Text) : (first ++ second).bytes = first.bytes ++ second.bytes :=
  List.flatMap_append

theorem length_bytes (text : Text) : text.bytes.length = byteSize text := by
  induction text with
  | nil => rfl
  | cons c text ih =>
    rw [bytes, List.flatMap_cons, List.length_append, String.length_utf8EncodeChar, byteSize_cons,
      ← ih, bytes]

theorem bytes_spaces (size : Nat) : (spaces size).bytes = List.replicate size 0x20 := by
  induction size with
  | zero => rfl
  | succ size ih => exact congrArg (0x20 :: ·) ih

theorem exists_inside {front middle back before behind : Text} {c : Char}
    (whole : front ++ (middle ++ back) = before ++ c :: behind)
    (after : byteSize front ≤ byteSize before)
    (within : byteSize before < byteSize front + byteSize middle) :
    ∃ inner rest, before = front ++ inner ∧ middle = inner ++ c :: rest := by
  obtain ⟨inner, rfl, left⟩ : ∃ inner, before = front ++ inner ∧
      middle ++ back = inner ++ c :: behind := by
    rcases List.append_eq_append_iff.1 whole with ⟨inner, rfl, left⟩ | ⟨more, rfl, left⟩
    · exact ⟨inner, rfl, left⟩
    · cases more with
      | nil => exact ⟨[], by simp, left.symm⟩
      | cons d more =>
        have size := d.utf8Size_pos
        simp only [byteSize_append, byteSize_cons] at after
        omega
  rw [byteSize_append] at within
  rcases List.append_eq_append_iff.1 left with ⟨more, rfl, _⟩ | ⟨more, rfl, last⟩
  · rw [byteSize_append] at within
    omega
  · cases more with
    | nil =>
      rw [List.append_nil] at within
      omega
    | cons d more =>
      obtain ⟨rfl, _⟩ := List.cons.inj last
      exact ⟨inner, more, rfl, rfl⟩

end Text

/-- The offset is that of a byte that the span covers. -/
def Span.Holds (span : Span) (offset : Nat) : Prop := span.start ≤ offset ∧ offset < span.stop

def Token.shown (token : Token) : Bool := !token.isComment && !token.isEndOfFile

/-- What is left out at an offset: a comment, or a character that is reported as invalid. -/
def Lexed.LeavesOut (lexed : Lexed) (offset : Nat) : Prop :=
  (∃ token ∈ lexed.tokens, token.isComment ∧ token.span.Holds offset) ∨
    ∃ report ∈ lexed.reports, report.fault = .invalidCharacter ∧ report.span.Holds offset

/-- The text is laid out as the source. -/
structure Restores (source text : Text) : Prop where
  size : text.bytes.length = source.bytes.length
  kept : ∀ token ∈ (Lexed.ofText source).tokens, token.shown →
    token.span.slice? text = some token.lexeme ∧ token.span.slice? source = some token.lexeme
  spaces : ∀ offset < source.bytes.length,
    (∀ token ∈ (Lexed.ofText source).tokens, token.shown → ¬ token.span.Holds offset) →
      text.bytes[offset]? = some 0x20
  wide : ∀ before c behind, source = before ++ c :: behind →
    (Lexed.ofText source).LeavesOut (Text.byteSize before) →
      Span.slice? ⟨Text.byteSize before, Text.byteSize before + c.utf8Size⟩ text =
        some (List.replicate c.utf8Size ' ')

namespace PlacedPiece

theorem exists_holds {start offset : Nat} {pieces : List Piece} (least : start ≤ offset)
    (within : offset < start + Text.byteSize (pieces.flatMap Piece.text)) :
    ∃ placed ∈ placeAll start pieces, placed.span.Holds offset := by
  induction pieces generalizing start with
  | nil => exact absurd within (Nat.not_lt.2 least)
  | cons piece pieces ih =>
    by_cases here : offset < start + Text.byteSize piece.text
    · exact ⟨_, List.mem_cons_self, least, here⟩
    · rw [List.flatMap_cons, Text.byteSize_append, ← Nat.add_assoc] at within
      obtain ⟨placed, member, holds⟩ := ih (Nat.not_lt.1 here) within
      exact ⟨placed, List.mem_cons_of_mem _ member, holds⟩

variable {source : Text} {placed : PlacedPiece}

theorem exists_veiled (member : placed ∈ placeAll 0 (Piece.split source)) :
    ∃ front back, restored source = front ++ (placed.piece.veiled ++ back) ∧
      placed.start = Text.byteSize front := by
  obtain ⟨first, second, pieces, place⟩ := mem_placeAll_iff.1 member
  refine ⟨first.flatMap Piece.veiled, second.flatMap Piece.veiled, ?_, ?_⟩
  · rw [restored_eq, pieces, List.flatMap_append, List.flatMap_cons]
  · rw [place, Nat.zero_add, Piece.byteSize_flatMap_veiled]

theorem byte_of_hidden (member : placed ∈ placeAll 0 (Piece.split source))
    (hidden : placed.piece.shown = false) {offset : Nat} (holds : placed.span.Holds offset) :
    (restored source).bytes[offset]? = some 0x20 := by
  obtain ⟨front, back, whole, start⟩ := exists_veiled member
  obtain ⟨after, within⟩ := holds
  change placed.start ≤ offset at after
  change offset < placed.start + Text.byteSize placed.piece.text at within
  have inside : offset - Text.byteSize front < Text.byteSize placed.piece.text := by omega
  rw [whole, Text.bytes_append, Text.bytes_append, Piece.veiled, hidden, if_neg Bool.false_ne_true,
    Text.bytes_spaces, List.getElem?_append_right (by rw [Text.length_bytes]; omega),
    Text.length_bytes, List.getElem?_append_left (by simpa using inside),
    List.getElem?_replicate_of_lt inside]

theorem slice?_of_hidden (member : placed ∈ placeAll 0 (Piece.split source))
    (hidden : placed.piece.shown = false) {before behind : Text} {c : Char}
    (split : source = before ++ c :: behind) (holds : placed.span.Holds (Text.byteSize before)) :
    Span.slice? ⟨Text.byteSize before, Text.byteSize before + c.utf8Size⟩ (restored source) =
      some (Text.spaces c.utf8Size) := by
  obtain ⟨_, first, second, place, pieces⟩ := exists_of_mem_placeAll [] member
  rw [List.nil_append, Piece.split_flatMap, split] at pieces
  obtain ⟨front, back, whole, start⟩ := exists_veiled member
  obtain ⟨after, within⟩ := holds
  change placed.start ≤ _ at after
  change _ < placed.start + Text.byteSize placed.piece.text at within
  rw [place] at after within
  obtain ⟨inner, rest, rfl, text⟩ := Text.exists_inside pieces.symm after within
  have veil : placed.piece.veiled = Text.spaces (Text.byteSize inner) ++
      (Text.spaces c.utf8Size ++ Text.spaces (Text.byteSize rest)) := by
    rw [Piece.veiled, hidden, if_neg Bool.false_ne_true, text, Text.byteSize_append,
      Text.byteSize_cons, Text.spaces_add, Text.spaces_add]
  rw [whole, veil, List.append_assoc, List.append_assoc, ← List.append_assoc front]
  refine Span.slice?_append _ _ _ _ ?_ ?_
  · rw [Text.byteSize_append, Text.byteSize_append, Text.byteSize_spaces, ← start, place]
  · rw [Text.byteSize_spaces]

end PlacedPiece

theorem Lexed.exists_piece_of_shown {source : Text} {token : Token}
    (member : token ∈ (ofText source).tokens) (shown : token.shown) :
    ∃ placed ∈ PlacedPiece.placeAll 0 (Piece.split source), placed.piece.shown ∧
      token.lexeme = placed.piece.text ∧ token.span = placed.span := by
  obtain ⟨visible, written⟩ := Bool.and_eq_true_iff.1 shown
  have other : token.kind ≠ .endOfFile := by simpa [Token.isEndOfFile] using written
  obtain ⟨placed, among, lexeme, piece, rfl⟩ := exists_placed_of_mem member other
  rw [Lexeme.isComment_eq, Bool.not_not, ← piece] at visible
  exact ⟨placed, among, visible, by rw [piece]; rfl, rfl⟩

theorem Lexed.exists_token_of_shown {source : Text} {placed : PlacedPiece}
    (member : placed ∈ PlacedPiece.placeAll 0 (Piece.split source)) (shown : placed.piece.shown) :
    ∃ token ∈ (ofText source).tokens, token.shown ∧ token.span = placed.span := by
  obtain ⟨lexeme, piece⟩ := Piece.exists_of_shown shown
  let token : Token :=
    ⟨lexeme.kind, lexeme.text, placed.span, (LineTable.ofText source).position placed.start⟩
  have inside : token ∈ written source :=
    List.mem_filterMap.2 ⟨placed, member, by rw [PlacedPiece.token?, piece]⟩
  refine ⟨token, ?_, ?_, rfl⟩
  · rw [ofText_tokens]
    exact List.mem_append_left _ inside
  · have other := kind_ne_endOfFile_of_mem_written inside
    rw [Token.shown, Lexeme.isComment_eq, ← piece, shown]
    simpa [Token.isEndOfFile] using other

theorem Lexed.LeavesOut.exists_piece {source : Text} {offset : Nat}
    (out : (ofText source).LeavesOut offset) :
    ∃ placed ∈ PlacedPiece.placeAll 0 (Piece.split source), placed.piece.shown = false ∧
      placed.span.Holds offset := by
  rcases out with ⟨token, member, comment, holds⟩ | ⟨report, told, fault, holds⟩
  · have other : token.kind ≠ .endOfFile := by
      intro last
      simp [Token.isComment, last] at comment
    obtain ⟨placed, among, lexeme, piece, rfl⟩ := exists_placed_of_mem member other
    rw [Lexeme.isComment_eq, ← piece, Bool.not_eq_true'] at comment
    exact ⟨placed, among, comment, holds⟩
  · rw [ofText_reports] at told
    obtain ⟨placed, among, told⟩ := List.mem_flatMap.1 told
    cases PlacedPiece.flaw_of_mem_reports told with
    | character piece => exact ⟨placed, among, by rw [piece]; rfl, holds⟩
    | number | unclosed | escape => cases fault

/-- A text is restored byte for byte: every token but comments stands in it where it stood, and every
other byte is a space. -/
theorem restored_layout (source : Text) : Restores source (restored source) := by
  constructor
  case size => rw [Text.length_bytes, Text.length_bytes, byteSize_restored]
  case kept =>
    intro token member shown
    obtain ⟨placed, among, visible, lexeme, span⟩ := Lexed.exists_piece_of_shown member shown
    obtain ⟨front, back, whole, start⟩ := PlacedPiece.exists_veiled among
    refine ⟨?_, Lexed.slice?_of_mem member⟩
    rw [Piece.veiled, if_pos visible] at whole
    rw [whole, lexeme, span]
    exact Span.slice?_append _ _ _ _ start rfl
  case spaces =>
    intro offset within free
    rw [Text.length_bytes] at within
    have inside : offset < 0 + Text.byteSize ((Piece.split source).flatMap Piece.text) := by
      rwa [Piece.split_flatMap, Nat.zero_add]
    obtain ⟨placed, among, holds⟩ := PlacedPiece.exists_holds (Nat.zero_le _) inside
    cases shown : placed.piece.shown with
    | false => exact PlacedPiece.byte_of_hidden among shown holds
    | true =>
      obtain ⟨token, member, visible, span⟩ := Lexed.exists_token_of_shown among shown
      exact absurd (span ▸ holds) (free token member visible)
  case wide =>
    intro before c behind split out
    obtain ⟨placed, among, hidden, holds⟩ := out.exists_piece
    exact PlacedPiece.slice?_of_hidden among hidden split holds

example : restored "a// é\n€ \"日\"".toList = "a     \n    \"日\"".toList := by
  decide +kernel

end MoSyntax
