import MoSyntax.Proofs.Printing.Spelling

/-!
The tokens of a spelled text. Legible tokens are read again one for one, and the operator and the
sign of a compound assignment stand close to each other.
-/
namespace MoSyntax

/-- No operator of a compound assignment is separated from its sign. -/
def Glued : List Token → Prop
  | [] | [_] => True
  | first :: second :: rest =>
    (first.kind.compound second.kind → first.span.stop = second.span.start) ∧
      Glued (second :: rest)

theorem Glued.tail {first : Token} {rest : List Token} (glued : Glued (first :: rest)) :
    Glued rest := by
  cases rest with
  | nil => trivial
  | cons second rest => exact glued.2

namespace Piece

theorem splitUpTo_of_le {count more : Nat} {text : Text} (enough : text.length ≤ count)
    (least : count ≤ more) : splitUpTo more text = splitUpTo count text := by
  induction count generalizing more text with
  | zero =>
    obtain rfl : text = [] := List.length_eq_zero_iff.1 (by omega)
    cases more <;> rfl
  | succ count ih =>
    cases text with
    | nil => cases more <;> rfl
    | cons c rest =>
      obtain ⟨more, rfl⟩ : ∃ less, more = less + 1 := ⟨more - 1, by omega⟩
      have shorter := length_read_le c rest
      simp only [List.length_cons] at enough
      show (read c rest).1 :: splitUpTo more (read c rest).2 =
        (read c rest).1 :: splitUpTo count (read c rest).2
      rw [ih (by omega) (by omega)]

theorem split_cons (c : Char) (rest : Text) :
    split (c :: rest) = (read c rest).1 :: split (read c rest).2 := by
  have shorter := length_read_le c rest
  show (read c rest).1 :: splitUpTo rest.length (read c rest).2 = _
  rw [splitUpTo_of_le (Nat.le_refl _) shorter, split]

end Piece

theorem Lexeme.read?_of_isBlank {c : Char} (blank : isBlank c) (rest : Text) :
    read? (c :: rest) = none := by
  simp only [isBlank, Bool.or_eq_true, beq_iff_eq] at blank
  rcases blank with (rfl | rfl) | rfl <;> rfl

def tokensFrom (table : LineTable) (start : Nat) (text : Text) : List Token :=
  (PlacedPiece.placeAll start (Piece.split text)).filterMap (·.token? table)

def reportsFrom (start : Nat) (text : Text) : List Diagnostic :=
  (PlacedPiece.placeAll start (Piece.split text)).flatMap (·.reports)

theorem TokenKind.text_cons {kind : TokenKind} (legible : kind.legible) :
    ∃ c rest, kind.text = c :: rest ∧ isBlank c = false := by
  obtain ⟨lexeme, read, _, _⟩ := Lexeme.read?_text legible .ended
  cases text : kind.text with
  | nil => simp [text, Lexeme.read?] at read
  | cons c rest =>
    refine ⟨c, rest, rfl, ?_⟩
    rw [Bool.eq_false_iff]
    intro blank
    rw [text, List.cons_append, Lexeme.read?_of_isBlank blank] at read
    simp at read

theorem tokensFrom_text {kind : TokenKind} (legible : kind.legible) {rest : Text}
    (separated : Separated kind rest) (table : LineTable) (start : Nat) :
    ∃ token, tokensFrom table start (kind.text ++ rest) =
        token :: tokensFrom table (start + Text.byteSize kind.text) rest ∧
      token.kind = kind ∧ token.span = ⟨start, start + Text.byteSize kind.text⟩ ∧
      reportsFrom start (kind.text ++ rest) =
        reportsFrom (start + Text.byteSize kind.text) rest := by
  obtain ⟨lexeme, read, same, flawless⟩ := Lexeme.read?_text legible separated
  have text : lexeme.text = kind.text :=
    List.append_cancel_right (Lexeme.read?_append read)
  obtain ⟨c, more, first, shown⟩ := TokenKind.text_cons legible
  have piece : Piece.read c (more ++ rest) = (.lexeme lexeme, rest) := by
    rw [first, List.cons_append] at read
    simp [Piece.read, shown, read]
  have pieces : PlacedPiece.placeAll start (Piece.split (kind.text ++ rest)) =
      ⟨start, .lexeme lexeme⟩ ::
        PlacedPiece.placeAll (start + Text.byteSize kind.text) (Piece.split rest) := by
    rw [first, List.cons_append, Piece.split_cons, piece, ← first, ← text]
    rfl
  refine ⟨⟨lexeme.kind, lexeme.text, ⟨start, start + Text.byteSize lexeme.text⟩,
    table.position start⟩, ?_, same, by rw [text], ?_⟩
  · rw [tokensFrom, pieces]
    rfl
  · rw [reportsFrom, pieces, List.flatMap_cons, flawless, List.nil_append, reportsFrom]

theorem tokensFrom_space {c : Char} (shown : isBlank c = false) (rest : Text) (table : LineTable)
    (start : Nat) :
    tokensFrom table start (' ' :: c :: rest) = tokensFrom table (start + 1) (c :: rest) ∧
      reportsFrom start (' ' :: c :: rest) = reportsFrom (start + 1) (c :: rest) := by
  have piece : Piece.read ' ' (c :: rest) = (.blanks [' '], c :: rest) := by
    simp [Piece.read, shown, show isBlank ' ' = true from rfl]
  rw [tokensFrom, reportsFrom, Piece.split_cons, piece]
  exact ⟨rfl, rfl⟩

theorem spell_cons {kind : TokenKind} (legible : kind.legible) (kinds : List TokenKind) :
    ∃ c rest, spell (kind :: kinds) = c :: rest ∧ isBlank c = false := by
  obtain ⟨c, rest, text, shown⟩ := TokenKind.text_cons legible
  cases kinds with
  | nil => exact ⟨c, rest, text, shown⟩
  | cons next kinds => exact ⟨c, _, by rw [spell, text, List.cons_append], shown⟩

/-- Behind a token the spelling goes on with the next, at once or after a space. -/
theorem tokensFrom_gap {kind next : TokenKind} (legible : next.legible) (kinds : List TokenKind)
    (table : LineTable) (start : Nat) :
    Separated kind (kind.gap next ++ spell (next :: kinds)) ∧
      ∃ offset, (kind.compound next → offset = start) ∧
        tokensFrom table start (kind.gap next ++ spell (next :: kinds)) =
          tokensFrom table offset (spell (next :: kinds)) ∧
        reportsFrom start (kind.gap next ++ spell (next :: kinds)) =
          reportsFrom offset (spell (next :: kinds)) := by
  obtain ⟨c, rest, spelled, shown⟩ := spell_cons legible kinds
  cases compound : kind.compound next with
  | true =>
    refine ⟨?_, start, fun _ => rfl, by simp [TokenKind.gap, compound],
      by simp [TokenKind.gap, compound]⟩
    obtain rfl : next = .operator .assign := by
      unfold TokenKind.compound at compound
      split at compound
      · rfl
      · simp at compound
    have first : ∃ more, spell (.operator .assign :: kinds) = '=' :: more := by
      cases kinds with
      | nil => exact ⟨[], rfl⟩
      | cons _ _ => exact ⟨_, rfl⟩
    obtain ⟨more, first⟩ := first
    rw [TokenKind.gap, if_pos compound, List.nil_append, first]
    exact .joined compound
  | false =>
    have gap : kind.gap next = [' '] := by simp [TokenKind.gap, compound]
    refine ⟨gap ▸ .spaced, start + 1, by simp, ?_⟩
    rw [gap, spelled]
    exact tokensFrom_space shown rest table start

theorem tokensFrom_spell (table : LineTable) (start : Nat) (kinds : List TokenKind)
    (legible : ∀ kind ∈ kinds, kind.legible) :
    (tokensFrom table start (spell kinds)).map Token.kind = kinds ∧
      Glued (tokensFrom table start (spell kinds)) ∧ reportsFrom start (spell kinds) = [] ∧
      ∀ token rest, tokensFrom table start (spell kinds) = token :: rest →
        token.span.start = start := by
  fun_induction spell kinds generalizing start with
  | case1 => exact ⟨rfl, trivial, rfl, by rintro _ _ ⟨⟩⟩
  | case2 kind =>
    obtain ⟨token, tokens, same, span, reports⟩ :=
      tokensFrom_text (legible kind (by simp)) .ended table start
    rw [List.append_nil] at tokens reports
    rw [tokens, reports]
    refine ⟨by simp [same, tokensFrom, Piece.split, Piece.splitUpTo, PlacedPiece.placeAll], trivial,
      rfl, ?_⟩
    rintro _ _ ⟨⟩
    rw [span]
  | case3 kind next kinds ih =>
    obtain ⟨first, others⟩ := List.forall_mem_cons.1 legible
    obtain ⟨separated, offset, close, behind, silent⟩ := tokensFrom_gap (others next List.mem_cons_self)
      kinds table (start + Text.byteSize kind.text)
    obtain ⟨token, tokens, same, span, reports⟩ := tokensFrom_text first separated table start
    obtain ⟨map, glued, none, starts⟩ := ih offset others
    rw [tokens, behind, reports, silent]
    refine ⟨by rw [List.map_cons, map, same], ?_, none, ?_⟩
    · cases rest : tokensFrom table offset (spell (next :: kinds)) with
      | nil => trivial
      | cons second rest =>
        rw [rest] at map glued
        have other : second.kind = next := (List.cons.inj map).1
        refine ⟨fun compound => ?_, glued⟩
        rw [same, other] at compound
        rw [span, starts second _ rest, close compound]
    · rintro _ _ ⟨⟩
      rw [span]

end MoSyntax
