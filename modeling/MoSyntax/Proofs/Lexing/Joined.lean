import MoSyntax.Proofs.Lexing.Restored
import MoSyntax.Proofs.Likeness.Relocated

/-!
Two texts with a line feed between them. No lexeme goes on behind a line feed, so the pieces are those
of the first text, the line break and those of the second one; and what is read of a text further
behind is the same, with all spans moved.
-/
namespace MoSyntax

namespace Piece

theorem read_of_isBlank {c : Char} (blank : isBlank c) (rest : Text) :
    read c rest = (.blanks (c :: rest.takeWhile isBlank), rest.dropWhile isBlank) := by
  rw [read, if_pos blank]

theorem read_of_some {c : Char} {rest behind : Text} {lexeme : Lexeme}
    (found : Lexeme.read? (c :: rest) = some (lexeme, behind)) :
    read c rest = (.lexeme lexeme, behind) := by
  have shown : ¬ isBlank c := fun blank => by
    rw [Lexeme.read?_of_isBlank blank] at found
    simp at found
  rw [read, if_neg shown, found]

theorem read_of_none {c : Char} {rest : Text} (shown : ¬ isBlank c)
    (none : Lexeme.read? (c :: rest) = none) : read c rest = (.invalid c, rest) := by
  rw [read, if_neg shown, none]

/-- A line feed behind a text does not change its first piece, unless it comes to stand behind a
carriage return. -/
theorem read_feed (c : Char) {rest : Text} (alone : c = '\r' → rest ≠ []) (more : Text) :
    read c (rest ++ '\n' :: more) = ((read c rest).1, (read c rest).2 ++ '\n' :: more) := by
  by_cases blank : isBlank c
  · have stops : Text.Stops isBlank (rest.dropWhile isBlank ++ '\n' :: more) := by
      have behind := Text.stops_dropWhile isBlank rest
      cases left : rest.dropWhile isBlank with
      | nil =>
        rintro _ ⟨⟩
        rfl
      | cons d left =>
        rintro _ ⟨⟩
        exact behind d (by rw [left]; rfl)
    obtain ⟨run, behind⟩ := stops.run (List.all_eq_true.1 (List.all_takeWhile (p := isBlank)))
    rw [← List.append_assoc, List.takeWhile_append_dropWhile] at run behind
    rw [read_of_isBlank blank, read_of_isBlank blank, run, behind]
  · cases found : Lexeme.read? (c :: rest) with
    | none =>
      have carriage : c = '\r' → rest.head? = (rest ++ '\n' :: more).head? := fun same => by
        obtain ⟨d, rest, rfl⟩ := List.exists_cons_of_ne_nil (alone same)
        rfl
      rw [read_of_none blank found, read_of_none blank (Lexeme.read?_eq_none found carriage)]
    | some next =>
      obtain ⟨lexeme, behind⟩ := next
      have stands := (Lexeme.stands_of_read? found).veil (.behind behind more) (.inr rfl) fun _ => rfl
      have whole := stands.read?
      rw [← List.append_assoc, Lexeme.read?_append found, List.cons_append] at whole
      rw [read_of_some found, read_of_some whole]

theorem getLast?_of_read (c : Char) (rest : Text) (ends : (c :: rest).getLast? ≠ some '\r') :
    (read c rest).2.getLast? ≠ some '\r' := by
  intro last
  rw [← read_append, List.getLast?_append, last] at ends
  exact ends rfl

theorem split_feed {text : Text} (ends : text.getLast? ≠ some '\r') (more : Text) :
    split (text ++ '\n' :: more) = split text ++ .lexeme (.lineBreak ['\n']) :: split more := by
  induction text using split_induction with
  | nil =>
    have feed : read '\n' more = (.lexeme (.lineBreak ['\n']), more) := rfl
    rw [List.nil_append, split_cons, feed]
    rfl
  | cons c rest ih =>
    have alone : c = '\r' → rest ≠ [] := by
      rintro rfl rfl
      exact ends rfl
    rw [List.cons_append, split_cons, read_feed c alone, ih (getLast?_of_read c rest ends),
      split_cons, List.cons_append]

/-- What follows a whole line does not change the first piece of it: the piece is the end of the
line, or it ends before that. -/
theorem read_line {c : Char} {rest : Text} (ends : (c :: rest).getLast? = some '\n') :
    (∃ feed, ∀ more, read c (rest ++ more) = (.lexeme (.lineBreak feed), more)) ∨
      (read c rest).2.getLast? = some '\n' ∧
        ∀ more, read c (rest ++ more) = ((read c rest).1, (read c rest).2 ++ more) := by
  rcases List.eq_nil_or_concat rest with rfl | ⟨front, last, whole⟩
  · obtain rfl : c = '\n' := by simpa using ends
    exact .inl ⟨['\n'], fun _ => rfl⟩
  · rw [List.concat_eq_append] at whole
    subst whole
    obtain rfl : last = '\n' := by simpa [List.getLast?_cons] using ends
    by_cases carriage : c = '\r' ∧ front = []
    · obtain ⟨rfl, rfl⟩ := carriage
      exact .inl ⟨['\r', '\n'], fun _ => rfl⟩
    · have inside := fun more => read_feed c (fun same none => carriage ⟨same, none⟩) more
      refine .inr ⟨by simp [inside], fun more => ?_⟩
      rw [List.append_assoc, List.singleton_append, inside, inside, List.append_assoc]
      rfl

/-- A text of whole lines ends with a line break, and its pieces stay the same when more text
follows. -/
theorem split_line {text : Text} (ends : text.getLast? = some '\n') :
    ∃ pieces feed, split text = pieces ++ [.lexeme (.lineBreak feed)] ∧
      ∀ more, split (text ++ more) = split text ++ split more := by
  suffices every : ∃ pieces feed, ∀ more,
      split (text ++ more) = pieces ++ .lexeme (.lineBreak feed) :: split more by
    obtain ⟨pieces, feed, every⟩ := every
    have whole : split text = pieces ++ [.lexeme (.lineBreak feed)] := by
      rw [← List.append_nil text, every]
      rfl
    exact ⟨pieces, feed, whole, fun more => by rw [every, whole, List.append_assoc]; rfl⟩
  induction text using split_induction with
  | nil => simp at ends
  | cons c rest ih =>
    rcases read_line ends with ⟨feed, last⟩ | ⟨further, inside⟩
    · refine ⟨[], feed, fun more => ?_⟩
      rw [List.cons_append, split_cons, last]
      rfl
    · obtain ⟨pieces, feed, behind⟩ := ih further
      refine ⟨(read c rest).1 :: pieces, feed, fun more => ?_⟩
      rw [List.cons_append, split_cons, inside, behind]
      rfl

end Piece

namespace PlacedPiece

theorem placeAll_append (start : Nat) (first second : List Piece) :
    placeAll start (first ++ second) =
      placeAll start first ++
        placeAll (start + Text.byteSize (first.flatMap Piece.text)) second := by
  induction first generalizing start with
  | nil => rfl
  | cons piece first ih =>
    rw [List.cons_append, placeAll, placeAll, ih, List.flatMap_cons, Text.byteSize_append,
      Nat.add_assoc, List.cons_append]

theorem placeAll_add (more start : Nat) (pieces : List Piece) :
    placeAll (more + start) pieces =
      (placeAll start pieces).map fun placed => ⟨more + placed.start, placed.piece⟩ := by
  induction pieces generalizing start with
  | nil => rfl
  | cons piece pieces ih => rw [placeAll, placeAll, List.map_cons, Nat.add_assoc, ih]

theorem span_add (more start : Nat) (piece : Piece) :
    span ⟨more + start, piece⟩ = (span ⟨start, piece⟩).relocate (more + ·) := by
  rw [span, span, Span.relocate, Nat.add_assoc]

theorem badEscapes_add (more start : Nat) (units : List StringUnit) :
    StringUnit.badEscapes (more + start) units =
      (StringUnit.badEscapes start units).map fun bad => (bad.1.relocate (more + ·), bad.2) := by
  induction units generalizing start with
  | nil => rfl
  | cons unit units ih =>
    rw [StringUnit.badEscapes, StringUnit.badEscapes, List.map_append, Nat.add_assoc, ih]
    cases unit.bad? <;> rfl

theorem reports_add (more start : Nat) (piece : Piece) :
    reports ⟨more + start, piece⟩ =
      (reports ⟨start, piece⟩).map (Diagnostic.relocate (more + ·)) := by
  cases piece with
  | blanks text => rfl
  | invalid c =>
    rw [reports, reports, span_add]
    rfl
  | lexeme lexeme =>
    cases lexeme with
    | word | comment | lineBreak | operator | punctuation => rfl
    | number fractional text =>
      simp only [reports, span_add]
      split <;> rfl
    | string closed units =>
      simp only [reports, span_add, List.map_append, Nat.add_assoc, badEscapes_add, List.map_map]
      cases closed <;> rfl

end PlacedPiece

theorem tokensFrom_feed {text : Text} (ends : text.getLast? ≠ some '\r') (more : Text)
    (table : LineTable) (start : Nat) :
    tokensFrom table start (text ++ '\n' :: more) =
      tokensFrom table start text ++
        ⟨.lineBreak, ['\n'], ⟨start + Text.byteSize text, start + Text.byteSize text + 1⟩,
          table.position (start + Text.byteSize text)⟩ ::
        tokensFrom table (start + (Text.byteSize text + 1)) more := by
  rw [tokensFrom, Piece.split_feed ends, PlacedPiece.placeAll_append, Piece.split_flatMap,
    List.filterMap_append, ← tokensFrom, PlacedPiece.placeAll, ← Nat.add_assoc]
  rfl

theorem placed_line {text : Text} (ends : text.getLast? = some '\n') (start : Nat) (more : Text) :
    PlacedPiece.placeAll start (Piece.split (text ++ more)) =
      PlacedPiece.placeAll start (Piece.split text) ++
        PlacedPiece.placeAll (start + Text.byteSize text) (Piece.split more) := by
  obtain ⟨_, _, _, split⟩ := Piece.split_line ends
  rw [split, PlacedPiece.placeAll_append, Piece.split_flatMap]

theorem tokensFrom_line {text : Text} (ends : text.getLast? = some '\n') (table : LineTable)
    (start : Nat) (more : Text) :
    tokensFrom table start (text ++ more) =
      tokensFrom table start text ++ tokensFrom table (start + Text.byteSize text) more := by
  rw [tokensFrom, placed_line ends, List.filterMap_append, ← tokensFrom, ← tokensFrom]

theorem tokensFrom_getLast {text : Text} (ends : text.getLast? = some '\n') (table : LineTable)
    (start : Nat) :
    ∃ front feed, tokensFrom table start text = front ++ [feed] ∧ feed.kind = .lineBreak := by
  obtain ⟨pieces, feed, whole, _⟩ := Piece.split_line ends
  let place := start + Text.byteSize (pieces.flatMap Piece.text)
  refine ⟨(PlacedPiece.placeAll start pieces).filterMap (·.token? table), ⟨.lineBreak, feed,
    PlacedPiece.span ⟨place, .lexeme (.lineBreak feed)⟩, table.position place⟩, ?_, rfl⟩
  rw [tokensFrom, whole, PlacedPiece.placeAll_append, List.filterMap_append]
  rfl

theorem tokensFrom_add (table table' : LineTable) (more start : Nat) (text : Text) :
    (tokensFrom table (more + start) text).map Token.mark =
      ((tokensFrom table' start text).map (Token.relocate (more + ·))).map Token.mark := by
  rw [tokensFrom, PlacedPiece.placeAll_add, tokensFrom]
  induction PlacedPiece.placeAll start (Piece.split text) with
  | nil => rfl
  | cons placed rest ih =>
    obtain ⟨start, piece⟩ := placed
    cases piece with
    | blanks | invalid => exact ih
    | lexeme lexeme =>
      have head := PlacedPiece.span_add more start (.lexeme lexeme)
      exact List.cons_eq_cons.2 ⟨congrArg (fun span => (lexeme.kind, lexeme.text, span)) head, ih⟩

theorem reportsFrom_feed {text : Text} (ends : text.getLast? ≠ some '\r') (more : Text) (start : Nat) :
    reportsFrom start (text ++ '\n' :: more) =
      reportsFrom start text ++ reportsFrom (start + (Text.byteSize text + 1)) more := by
  rw [reportsFrom, Piece.split_feed ends, PlacedPiece.placeAll_append, Piece.split_flatMap,
    List.flatMap_append, ← reportsFrom, PlacedPiece.placeAll, ← Nat.add_assoc]
  rfl

theorem reportsFrom_line {text : Text} (ends : text.getLast? = some '\n') (start : Nat)
    (more : Text) :
    reportsFrom start (text ++ more) =
      reportsFrom start text ++ reportsFrom (start + Text.byteSize text) more := by
  rw [reportsFrom, placed_line ends, List.flatMap_append, ← reportsFrom, ← reportsFrom]

theorem reportsFrom_add (more start : Nat) (text : Text) :
    reportsFrom (more + start) text = (reportsFrom start text).map (Diagnostic.relocate (more + ·)) := by
  rw [reportsFrom, PlacedPiece.placeAll_add, reportsFrom, List.flatMap_map, List.map_flatMap]
  exact congrArg (List.flatMap · _) (funext fun placed => PlacedPiece.reports_add more _ _)

/-! A carriage return that no line feed follows is reported. -/

theorem UnitsStand.carriage {units : List StringUnit} {rest : Text} (stand : UnitsStand units rest) :
    '\r' ∉ StringUnit.textOf units :=
  fun member => absurd (stand.line '\r' member) (by decide)

theorem not_mem_of_class {holds : Char → Bool} {text : Text} (all : ∀ c ∈ text, holds c) {c : Char}
    (lacks : holds c = false) : c ∉ text :=
  fun member => absurd (all c member) (by simp [lacks])

theorem Lexeme.Stands.last {lexeme : Lexeme} {rest : Text} (stands : lexeme.Stands rest) :
    lexeme.text.getLast? ≠ some '\r' := by
  have inner (free : '\r' ∉ lexeme.text) : lexeme.text.getLast? ≠ some '\r' :=
    fun last => free (List.mem_of_getLast? last)
  cases stands with
  | feed | carriage => simp [text]
  | comment inside ends =>
    refine inner ?_
    simpa [text] using not_mem_of_class inside rfl
  | closed inside | unclosed inside =>
    refine inner ?_
    simpa [text] using inside.carriage
  | word starts inside =>
    refine inner ?_
    simpa [text, (ne_of_class starts '\r' rfl).symm] using not_mem_of_class inside rfl
  | whole starts inside =>
    refine inner ?_
    simpa [text, (ne_of_class starts '\r' rfl).symm] using not_mem_of_class inside rfl
  | fraction starts front goesOn back =>
    refine inner ?_
    simpa [text, (ne_of_class starts '\r' rfl).symm, (ne_of_class goesOn '\r' rfl).symm] using
      And.intro (not_mem_of_class front rfl) (not_mem_of_class back rfl)
  | @operator sign =>
    refine inner ?_
    cases sign <;> decide
  | @punctuation mark =>
    refine inner ?_
    cases mark <;> decide

theorem reportsFrom_cons (start : Nat) (c : Char) (rest : Text) :
    reportsFrom start (c :: rest) =
      PlacedPiece.reports ⟨start, (Piece.read c rest).1⟩ ++
        reportsFrom (start + Text.byteSize (Piece.read c rest).1.text) (Piece.read c rest).2 := by
  rw [reportsFrom, Piece.split_cons, PlacedPiece.placeAll, List.flatMap_cons, reportsFrom]

theorem carriage_reported {text : Text} (ends : text.getLast? = some '\r') (start : Nat) :
    reportsFrom start text ≠ [] := by
  induction text using Piece.split_induction generalizing start with
  | nil => simp at ends
  | cons c rest ih =>
    intro silent
    rw [reportsFrom_cons] at silent
    obtain ⟨here, behind⟩ := List.append_eq_nil_iff.1 silent
    -- Only the last piece can end in the carriage return; neither blanks nor a lexeme do.
    by_cases whole : (Piece.read c rest).2 = []
    · have text := Piece.read_append c rest
      rw [whole, List.append_nil] at text
      rw [← text] at ends
      by_cases blank : isBlank c
      · have all : ∀ d ∈ (Piece.read c rest).1.text, isBlank d := by
          rw [Piece.read_of_isBlank blank]
          exact List.forall_mem_cons.2 ⟨blank, List.all_eq_true.1 List.all_takeWhile⟩
        exact absurd (all _ (List.mem_of_getLast? ends)) (by decide)
      · cases found : Lexeme.read? (c :: rest) with
        | none =>
          rw [Piece.read_of_none blank found] at here
          exact absurd here (List.cons_ne_nil _ _)
        | some next =>
          rw [Piece.read_of_some found] at ends
          exact (Lexeme.stands_of_read? found).last ends
    · refine ih ?_ _ behind
      rw [← Piece.read_append c rest, List.getLast?_append,
        List.getLast?_eq_some_getLast whole, Option.some_or] at ends
      rw [List.getLast?_eq_some_getLast whole, ends]

end MoSyntax
