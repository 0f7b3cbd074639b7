import MoSyntax.Proofs.Lexing.Gap
import MoSyntax.Parse
import MoSyntax.Proofs.Lexing.Layout

/-!
A text restored from its tokens is the text with spaces for its blanks, its comments and its invalid
characters, byte for byte. Where all strings are closed, the tokens that are left are read from it
again at the same places.
-/
namespace MoSyntax

def Text.spaces (size : Nat) : Text := List.replicate size ' '

theorem Text.byteSize_spaces (size : Nat) : byteSize (spaces size) = size := by
  induction size with
  | zero => rfl
  | succ size ih =>
    rw [spaces, List.replicate_succ, byteSize_cons, ← spaces, ih, Nat.add_comm]
    rfl

def Text.filled (size : Nat) (text : Text) : Text := text ++ Token.padding size text

theorem Text.spaces_add (first second : Nat) :
    spaces (first + second) = spaces first ++ spaces second :=
  List.replicate_append_replicate.symm

namespace Piece

theorem split_induction {holds : Text → Prop} (nil : holds [])
    (cons : ∀ c rest, holds (read c rest).2 → holds (c :: rest)) (text : Text) : holds text := by
  induction length : text.length using Nat.strongRecOn generalizing text with
  | _ length ih =>
    cases text with
    | nil => exact nil
    | cons c rest =>
      have shorter := length_read_le c rest
      exact cons c rest (ih _ (by simp at length; omega) _ rfl)

/-- The piece gives a token that the grammar sees. -/
def shown : Piece → Bool
  | .lexeme (.comment _) => false
  | .lexeme _ => true
  | _ => false

/-- The text of a token, and spaces for everything else. -/
def veiled (piece : Piece) : Text :=
  if piece.shown then piece.text else Text.spaces (Text.byteSize piece.text)

end Piece

theorem Lexeme.isComment_eq (lexeme : Lexeme) (span : Span) (position : Position) :
    Token.isComment ⟨lexeme.kind, lexeme.text, span, position⟩ = !(Piece.lexeme lexeme).shown := by
  cases lexeme with
  | word text =>
    simp only [Token.isComment, kind, Piece.shown]
    split <;> rfl
  | number | string | comment | lineBreak | operator | punctuation => rfl

namespace PlacedPiece

/-- The tokens that the grammar sees of some pieces. -/
def shownTokens (table : LineTable) (start : Nat) (pieces : List Piece) : List Token :=
  ((placeAll start pieces).filterMap (·.token? table)).filter (!·.isComment)

theorem shownTokens_hidden {piece : Piece} (hidden : piece.shown = false) (table : LineTable)
    (start : Nat) (pieces : List Piece) :
    shownTokens table start (piece :: pieces) =
      shownTokens table (start + Text.byteSize piece.text) pieces := by
  cases piece with
  | blanks text => rfl
  | invalid c => rfl
  | lexeme lexeme =>
    have comment := lexeme.isComment_eq ⟨start, start + Text.byteSize lexeme.text⟩
      (table.position start)
    simp [shownTokens, placeAll, token?, span, Piece.text, comment, hidden]

theorem shownTokens_lexeme {lexeme : Lexeme} (shown : (Piece.lexeme lexeme).shown)
    (table : LineTable) (start : Nat) (pieces : List Piece) :
    shownTokens table start (.lexeme lexeme :: pieces) =
      ⟨lexeme.kind, lexeme.text, ⟨start, start + Text.byteSize lexeme.text⟩,
        table.position start⟩ ::
        shownTokens table (start + Text.byteSize lexeme.text) pieces := by
  have comment := lexeme.isComment_eq ⟨start, start + Text.byteSize lexeme.text⟩
    (table.position start)
  simp [shownTokens, placeAll, token?, span, Piece.text, comment, shown]

/-- The tokens are put behind what has been restored so far, and the rest is filled with spaces. -/
theorem restore_shownTokens (table : LineTable) (pieces : List Piece) {start : Nat} {text : Text}
    (within : Text.byteSize text ≤ start) :
    Text.filled (start + Text.byteSize (pieces.flatMap Piece.text))
        ((shownTokens table start pieces).foldl Token.append text) =
      text ++ (Text.spaces (start - Text.byteSize text) ++ pieces.flatMap Piece.veiled) := by
  induction pieces generalizing start text with
  | nil => simp [shownTokens, placeAll, Text.filled, Token.padding, Text.spaces]
  | cons piece pieces ih =>
    rw [List.flatMap_cons, List.flatMap_cons, Text.byteSize_append, ← Nat.add_assoc]
    cases shown : piece.shown with
    | false =>
      have further : Text.byteSize text ≤ start + Text.byteSize piece.text := by omega
      have gap : start + Text.byteSize piece.text - Text.byteSize text =
          start - Text.byteSize text + Text.byteSize piece.text := by omega
      rw [shownTokens_hidden shown, ih further, gap, Text.spaces_add, Piece.veiled, shown,
        List.append_assoc]
      rfl
    | true =>
      cases piece with
      | blanks text => simp [Piece.shown] at shown
      | invalid c => simp [Piece.shown] at shown
      | lexeme lexeme =>
        have size : Text.byteSize (text ++ Text.spaces (start - Text.byteSize text) ++ lexeme.text) =
            start + Text.byteSize lexeme.text := by
          rw [Text.byteSize_append, Text.byteSize_append, Text.byteSize_spaces]
          omega
        have none : Text.spaces (start + Text.byteSize lexeme.text -
            (start + Text.byteSize lexeme.text)) = [] := by rw [Nat.sub_self]; rfl
        have appended := ih (Nat.le_of_eq size)
        rw [size, none, List.nil_append] at appended
        rw [shownTokens_lexeme shown, List.foldl_cons, Piece.veiled, if_pos shown]
        simpa [Token.append, Token.padding, Text.spaces, Piece.text] using appended

end PlacedPiece

theorem restored_eq (source : Text) : restored source = (Piece.split source).flatMap Piece.veiled := by
  have empty : Text.byteSize [] ≤ 0 := Nat.le_refl 0
  have whole := PlacedPiece.restore_shownTokens (.ofText source) (Piece.split source) empty
  rw [Piece.split_flatMap, Nat.zero_add] at whole
  have shown : (Lexed.ofText source).tokens.filter
      (fun token => !token.isComment && !token.isEndOfFile) =
        PlacedPiece.shownTokens (.ofText source) 0 (Piece.split source) := by
    have ended : (Token.endOfFile (Text.byteSize source)
        ((LineTable.ofText source).position (Text.byteSize source))).isEndOfFile := rfl
    rw [Lexed.ofText_tokens, List.filter_append, List.filter_cons_of_neg (by simp [ended]),
      List.filter_nil, List.append_nil]
    refine List.filter_congr fun token member => ?_
    have other := Lexed.kind_ne_endOfFile_of_mem_written member
    simp [Token.isEndOfFile, other]
  rw [restored, Token.restore, shown]
  exact whole

/-! Reading the restored text. -/

namespace Piece

theorem read_of_stands {lexeme : Lexeme} {rest : Text} (stands : lexeme.Stands rest) :
    ∃ c more, lexeme.text ++ rest = c :: more ∧ read c more = (.lexeme lexeme, rest) := by
  have found := stands.read?
  have some := Lexeme.read?_ne_nil found
  obtain ⟨c, text, shape⟩ := List.exists_cons_of_ne_nil some
  rw [shape, List.cons_append] at found
  have shown : isBlank c = false := by
    rw [Bool.eq_false_iff]
    intro blank
    rw [Lexeme.read?_of_isBlank blank] at found
    simp at found
  exact ⟨c, text ++ rest, by rw [shape, List.cons_append], by simp [read, shown, found]⟩

end Piece

theorem tokensFrom_cons (table : LineTable) (start : Nat) (c : Char) (rest : Text) :
    tokensFrom table start (c :: rest) =
      (PlacedPiece.token? table ⟨start, (Piece.read c rest).1⟩).toList ++
        tokensFrom table (start + Text.byteSize (Piece.read c rest).1.text)
          (Piece.read c rest).2 := by
  rw [tokensFrom, Piece.split_cons, PlacedPiece.placeAll, List.filterMap_cons, tokensFrom]
  split
  · rename_i none
    rw [none]
    rfl
  · rename_i some
    rw [some]
    rfl

theorem tokensFrom_lexeme {lexeme : Lexeme} {rest : Text} (stands : lexeme.Stands rest)
    (table : LineTable) (start : Nat) :
    tokensFrom table start (lexeme.text ++ rest) =
      ⟨lexeme.kind, lexeme.text, ⟨start, start + Text.byteSize lexeme.text⟩, table.position start⟩ ::
        tokensFrom table (start + Text.byteSize lexeme.text) rest := by
  obtain ⟨c, more, whole, first⟩ := Piece.read_of_stands stands
  rw [whole, tokensFrom_cons, first]
  rfl

theorem tokensFrom_blank {c : Char} (blank : isBlank c) (table : LineTable) (start : Nat)
    (rest : Text) :
    tokensFrom table start (c :: rest) = tokensFrom table (start + c.utf8Size) rest := by
  have read {c : Char} (blank : isBlank c) (rest : Text) : Piece.read c rest =
      (.blanks (c :: rest.takeWhile isBlank), rest.dropWhile isBlank) := by simp [Piece.read, blank]
  rw [tokensFrom_cons, read blank]
  cases rest with
  | nil => rfl
  | cons d rest =>
    by_cases another : isBlank d
    · rw [tokensFrom_cons _ _ d, read another, List.takeWhile_cons_of_pos another,
        List.dropWhile_cons_of_pos another]
      simp [Piece.text, PlacedPiece.token?, Nat.add_assoc]
    · rw [List.takeWhile_cons_of_neg another, List.dropWhile_cons_of_neg another]
      rfl

theorem tokensFrom_spaces (table : LineTable) (start size : Nat) (rest : Text) :
    tokensFrom table start (Text.spaces size ++ rest) = tokensFrom table (start + size) rest := by
  induction size generalizing start with
  | zero => rfl
  | succ size ih =>
    have blank : isBlank ' ' = true := rfl
    rw [Text.spaces, List.replicate_succ, List.cons_append, tokensFrom_blank blank, ← Text.spaces,
      ih, Nat.add_assoc, Nat.add_comm size]
    rfl

/-- All that is written of a token but its line and column. -/
def Token.mark (token : Token) : TokenKind × Text × Span := (token.kind, token.lexeme, token.span)

namespace Piece

/-- The piece is a string without its closing quote. -/
def unclosed : Piece → Bool
  | .lexeme (.string false _) => true
  | _ => false

theorem veiled_ne_nil {piece : Piece} (some : piece.text ≠ []) (hidden : piece.shown = false) :
    ∃ more, piece.veiled = ' ' :: more := by
  have size := Text.byteSize_pos some
  obtain ⟨less, same⟩ : ∃ less, Text.byteSize piece.text = less + 1 :=
    ⟨Text.byteSize piece.text - 1, by omega⟩
  exact ⟨Text.spaces less, by simp [veiled, hidden, same, Text.spaces, List.replicate_succ]⟩

/-- The restored text has a gap where it first differs from the text. -/
theorem veils_split (text : Text) : Veils ' ' text ((split text).flatMap veiled) := by
  induction text using split_induction with
  | nil => exact .nil
  | cons c rest ih =>
    rw [split_cons, List.flatMap_cons]
    cases shown : (read c rest).1.shown with
    | false =>
      obtain ⟨more, gap⟩ := veiled_ne_nil (read_ne_nil c rest) shown
      rw [gap]
      exact .gap
    | true =>
      rw [← read_append c rest, veiled, if_pos shown]
      exact ih.append _

theorem exists_of_shown {piece : Piece} (shown : piece.shown) : ∃ lexeme, piece = .lexeme lexeme := by
  cases piece with
  | blanks text => simp [Piece.shown] at shown
  | invalid c => simp [Piece.shown] at shown
  | lexeme lexeme => exact ⟨lexeme, rfl⟩

theorem stands_of_read {c : Char} {rest : Text} {lexeme : Lexeme}
    (piece : (read c rest).1 = .lexeme lexeme) : lexeme.Stands (read c rest).2 := by
  rw [read] at piece ⊢
  split
  · rename_i blank
    rw [if_pos blank] at piece
    simp at piece
  · rename_i shown
    rw [if_neg shown] at piece
    split
    · rename_i found more read
      rw [read] at piece
      exact Piece.lexeme.inj piece ▸ Lexeme.stands_of_read? read
    · rename_i none
      rw [none] at piece
      simp at piece

theorem runsOn_eq_false {lexeme : Lexeme} (shown : (Piece.lexeme lexeme).shown)
    (closed : (Piece.lexeme lexeme).unclosed = false) : lexeme.runsOn = false := by
  cases lexeme with
  | comment => simp [Piece.shown] at shown
  | string ends =>
    cases ends with
    | false => simp [unclosed] at closed
    | true => rfl
  | word | number | lineBreak | operator | punctuation => rfl

/-- Where all strings are closed, what the grammar sees is read again. -/
theorem tokensFrom_veiled (text : Text) (closed : ∀ piece ∈ split text, piece.unclosed = false)
    (table table' : LineTable) (start : Nat) :
    (tokensFrom table start ((split text).flatMap veiled)).map Token.mark =
      (PlacedPiece.shownTokens table' start (split text)).map Token.mark := by
  induction text using split_induction generalizing start with
  | nil => rfl
  | cons c rest ih =>
    rw [split_cons] at closed ⊢
    obtain ⟨first, others⟩ := List.forall_mem_cons.1 closed
    rw [List.flatMap_cons]
    cases shown : (read c rest).1.shown with
    | false =>
      rw [veiled, shown, PlacedPiece.shownTokens_hidden shown]
      exact (congrArg (List.map Token.mark) (tokensFrom_spaces _ _ _ _)).trans (ih others _)
    | true =>
      obtain ⟨lexeme, piece⟩ := exists_of_shown shown
      rw [piece] at shown first
      -- The next character is the old one or a blank, and a blank ends every lexeme that is shown.
      have stands := (stands_of_read piece).veil (veils_split _) (.inl rfl) fun runsOn =>
        absurd runsOn (by simp [runsOn_eq_false shown first])
      rw [piece, veiled, if_pos shown, PlacedPiece.shownTokens_lexeme shown,
        show (Piece.lexeme lexeme).text = lexeme.text from rfl, tokensFrom_lexeme stands,
        List.map_cons, List.map_cons, ih others]
      rfl

theorem byteSize_veiled (piece : Piece) : Text.byteSize piece.veiled = Text.byteSize piece.text := by
  rw [veiled]
  split
  · rfl
  · exact Text.byteSize_spaces _

theorem byteSize_flatMap_veiled (pieces : List Piece) :
    Text.byteSize (pieces.flatMap veiled) = Text.byteSize (pieces.flatMap text) := by
  induction pieces with
  | nil => rfl
  | cons piece pieces ih =>
    rw [List.flatMap_cons, List.flatMap_cons, Text.byteSize_append, Text.byteSize_append,
      byteSize_veiled, ih]

end Piece

theorem byteSize_restored (source : Text) :
    Text.byteSize (restored source) = Text.byteSize source := by
  rw [restored_eq, Piece.byteSize_flatMap_veiled, Piece.split_flatMap]

theorem PlacedPiece.exists_placed {piece : Piece} {pieces : List Piece} (member : piece ∈ pieces)
    (start : Nat) : ∃ placed ∈ placeAll start pieces, placed.piece = piece := by
  induction pieces generalizing start with
  | nil => simp at member
  | cons first pieces ih =>
    rcases List.mem_cons.1 member with rfl | member
    · exact ⟨_, List.mem_cons_self, rfl⟩
    · obtain ⟨placed, inside, same⟩ := ih member (start + Text.byteSize first.text)
      exact ⟨placed, List.mem_cons_of_mem _ inside, same⟩

theorem Lexed.ofText_reports (text : Text) : (ofText text).reports = reportsFrom 0 text := by
  simp [ofText, ofTextFrom, Text.dropBytes?, reportsFrom]

theorem closed_of_reports {source : Text}
    (closed : ∀ report ∈ (Lexed.ofText source).reports, report.fault ≠ .unterminatedString) :
    ∀ piece ∈ Piece.split source, piece.unclosed = false := by
  intro piece member
  obtain ⟨placed, inside, rfl⟩ := PlacedPiece.exists_placed member 0
  rw [Bool.eq_false_iff]
  intro unclosed
  have told : PlacedPiece.unterminatedString placed.span ∈ placed.reports := by
    unfold Piece.unclosed at unclosed
    split at unclosed
    · rename_i units piece
      simp [PlacedPiece.reports, piece]
    · simp at unclosed
  have reported : PlacedPiece.unterminatedString placed.span ∈ (Lexed.ofText source).reports := by
    rw [Lexed.ofText_reports]
    exact List.mem_flatMap.2 ⟨placed, inside, told⟩
  exact closed _ reported rfl

theorem restored_tokens {source : Text}
    (closed : ∀ report ∈ (Lexed.ofText source).reports, report.fault ≠ .unterminatedString) :
    (Lexed.ofText (restored source)).tokens.map Token.mark =
      ((Lexed.ofText source).tokens.filter (!·.isComment)).map Token.mark := by
  have body := Piece.tokensFrom_veiled source (closed_of_reports closed)
    (.ofText (restored source)) (.ofText source) 0
  rw [← restored_eq] at body
  have ended : (Token.endOfFile (Text.byteSize source)
      ((LineTable.ofText source).position (Text.byteSize source))).isComment = false := rfl
  rw [Lexed.ofText_tokens, Lexed.ofText_tokens, List.filter_append,
    List.filter_cons_of_pos (by simp [ended]), List.filter_nil, List.map_append, List.map_append,
    byteSize_restored]
  exact congrArg (· ++ _) body

end MoSyntax
