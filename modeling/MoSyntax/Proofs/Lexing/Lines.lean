import MoSyntax.Proofs.Deepening.Program
import MoSyntax.Proofs.Likeness.Joined

/-!
Lexing is local to lines. What is read of a text in front of a line feed is what is read of it alone,
and what is read behind the line feed is what is read of the rest alone, further behind. So a string
that is never closed on its line, or a character that has no meaning, does not reach the next line.
-/
namespace MoSyntax

/-- The span is that of a stretch of the text, and the stretch is not empty. -/
def Span.Marks (span : Span) (text : Text) : Prop :=
  ∃ front middle back, text = front ++ (middle ++ back) ∧ middle ≠ [] ∧
    span = ⟨Text.byteSize front, Text.byteSize front + Text.byteSize middle⟩

/-- A token that has come to stand behind so many bytes and so many lines. -/
def Token.shift (bytes lines : Nat) (token : Token) : Token :=
  { token.relocate (bytes + ·) with position := token.position.lower lines }

/-- What is wrong with the lexemes of a source, in the order of the reports. -/
def Lexed.diagnostics (source : Text) : List Diagnostic :=
  ((Bag.ofSource source).reportAll (ofText source).reports).items

/-! Reports are about stretches of the text. -/

theorem StringUnit.marks_of_mem_badEscapes {units : List StringUnit} {before : Text} (behind : Text)
    {bad : Span × Char} (member : bad ∈ badEscapes (Text.byteSize before) units) :
    bad.1.Marks (before ++ (textOf units ++ behind)) := by
  induction units generalizing before with
  | nil => simp [badEscapes] at member
  | cons unit units ih =>
    have whole : before ++ (textOf (unit :: units) ++ behind) =
        before ++ (unit.text ++ (textOf units ++ behind)) := by simp [textOf]
    rw [badEscapes, List.mem_append, ← Text.byteSize_append] at member
    rcases member with here | further
    · obtain ⟨c, _, rfl⟩ := Option.map_eq_some_iff.1 (Option.mem_toList.1 here)
      refine ⟨before, unit.text, _, whole, ?_, by rw [Text.byteSize_append]⟩
      cases unit <;> exact List.cons_ne_nil _ _
    · rw [whole, ← List.append_assoc]
      exact ih further

namespace PlacedPiece

theorem marks_of_mem_reports {before : Text} {piece : Piece} (some : piece.text ≠ [])
    (behind : Text) {report : Diagnostic}
    (member : report ∈ reports ⟨Text.byteSize before, piece⟩) :
    report.span.Marks (before ++ (piece.text ++ behind)) := by
  have whole : (span ⟨Text.byteSize before, piece⟩).Marks (before ++ (piece.text ++ behind)) :=
    ⟨before, piece.text, behind, rfl, some, rfl⟩
  cases flaw_of_mem_reports member with
  | character | number | unclosed => exact whole
  | @escape closed units bad shown found =>
    obtain rfl : piece = _ := shown
    have quote : Text.byteSize before + 1 = Text.byteSize (before ++ ['"']) := by
      rw [Text.byteSize_append]
      rfl
    rw [quote] at found
    have marks : (invalidEscape bad.1 bad.2).span.Marks _ :=
      StringUnit.marks_of_mem_badEscapes ((if closed then ['"'] else []) ++ behind) found
    simpa [Piece.text, Lexeme.text] using marks

end PlacedPiece

theorem marks_of_mem_reportsFrom {before text : Text} {report : Diagnostic}
    (member : report ∈ reportsFrom (Text.byteSize before) text) :
    report.span.Marks (before ++ text) := by
  obtain ⟨placed, inside, told⟩ := List.mem_flatMap.1 member
  obtain ⟨among, front, back, place, whole⟩ := PlacedPiece.exists_of_mem_placeAll before inside
  obtain ⟨start, piece⟩ := placed
  obtain rfl : start = Text.byteSize front := place
  rw [Piece.split_flatMap] at whole
  rw [whole]
  exact PlacedPiece.marks_of_mem_reports (Piece.ne_nil_of_mem_splitUpTo _ _ _ among) back told

/-! What is in front of a line feed. -/

theorem tokensFrom_front (before text behind : Text) :
    tokensFrom (.ofText (before ++ (text ++ behind))) (Text.byteSize before) text =
      tokensFrom (.ofText (before ++ text)) (Text.byteSize before) text := by
  refine List.filterMap_congr fun placed inside => ?_
  obtain ⟨_, front, back, start, whole⟩ := PlacedPiece.exists_of_mem_placeAll before inside
  rw [Piece.split_flatMap] at whole
  have position : (LineTable.ofText (before ++ (text ++ behind))).position placed.start =
      (LineTable.ofText (before ++ text)).position placed.start := by
    rw [← List.append_assoc, whole, start, List.append_assoc, LineTable.position_behind,
      LineTable.position_behind]
  rw [PlacedPiece.token?, PlacedPiece.token?, position]

def tokensBehind (first second : Text) : List Token :=
  (tokensFrom (.ofText (first ++ second)) (Text.byteSize first) second).filter (!·.isComment)

theorem grammarTokens_line {first : Text} (ends : first.getLast? = some '\n') (second : Text) :
    grammarTokens (first ++ second) = grammarTokens first ++ tokensBehind first second := by
  have front : tokensFrom (.ofText (first ++ second)) 0 first = Lexed.written first :=
    tokensFrom_front [] first second
  have whole := tokensFrom_line ends (.ofText (first ++ second)) 0 second
  rw [front, Nat.zero_add] at whole
  rw [grammarTokens, show Lexed.written (first ++ second) = _ from whole, List.filter_append]
  rfl

theorem tokensBehind_append {first second : Text} (ends : first.getLast? = some '\n')
    (line : second.getLast? = some '\n') (third : Text) :
    tokensBehind first (second ++ third) =
      tokensBehind first second ++ tokensBehind (first ++ second) third := by
  have both : (first ++ second).getLast? = some '\n' := by rw [List.getLast?_append, line]; rfl
  have whole := grammarTokens_line ends (second ++ third)
  have apart := grammarTokens_line both third
  rw [grammarTokens_line ends, List.append_assoc, List.append_assoc, whole] at apart
  exact List.append_cancel_left apart

theorem tokensBehind_getLast (first : Text) {text : Text} (ends : text.getLast? = some '\n') :
    ∃ front feed, tokensBehind first text = front ++ [feed] ∧ feed.kind = .lineBreak := by
  obtain ⟨front, feed, tokens, breaks⟩ :=
    tokensFrom_getLast ends (.ofText (first ++ text)) (Text.byteSize first)
  refine ⟨front.filter (!·.isComment), feed, ?_, breaks⟩
  rw [tokensBehind, tokens, List.filter_append]
  simp [Token.isComment, breaks]

theorem Piece.feed_mem_of_lineBreak {text feed : Text}
    (member : .lexeme (.lineBreak feed) ∈ Piece.split text) : '\n' ∈ text := by
  induction text using Piece.split_induction with
  | nil => simp [Piece.split, Piece.splitUpTo] at member
  | cons c rest ih =>
    rw [Piece.split_cons, List.mem_cons] at member
    rw [← Piece.read_append c rest, List.mem_append]
    rcases member with here | behind
    · by_cases blank : isBlank c
      · rw [Piece.read_of_isBlank blank] at here
        simp at here
      · cases found : Lexeme.read? (c :: rest) with
        | none =>
          rw [Piece.read_of_none blank found] at here
          simp at here
        | some next =>
          obtain ⟨lexeme, behind⟩ := next
          rw [Piece.read_of_some found] at here ⊢
          obtain rfl := Piece.lexeme.inj here.symm
          cases Lexeme.stands_of_read? found <;> simp [Piece.text, Lexeme.text]
    · exact .inr (ih behind)

theorem feed_mem_of_lineBreak {text : Text} {token : Token} (member : token ∈ grammarTokens text)
    (breaks : token.kind = .lineBreak) : '\n' ∈ text := by
  obtain ⟨placed, inside, found⟩ := List.mem_filterMap.1 (List.mem_of_mem_filter member)
  obtain ⟨lexeme, piece, rfl⟩ := PlacedPiece.token?_eq_some found
  obtain ⟨among, _⟩ := PlacedPiece.exists_of_mem_placeAll [] inside
  rw [piece] at among
  obtain ⟨feed, rfl⟩ := Lexeme.kind_eq_lineBreak breaks
  exact Piece.feed_mem_of_lineBreak among

/-- Behind a text and a line, further text has the tokens that it has behind another text. -/
theorem tokensBehind_feed (first : Text) {line : Text} (ends : line.getLast? ≠ some '\r')
    (other second : Text) :
    ∃ middle feed back, tokensBehind first (line ++ '\n' :: second) = middle ++ feed :: back ∧
      middle.map Token.mark =
        ((grammarTokens line).map (Token.relocate (Text.byteSize first + ·))).map Token.mark ∧
      feed.kind = .lineBreak ∧
      feed.span.start = Text.byteSize first + Text.byteSize line ∧
      ∀ more, more + Text.byteSize other = Text.byteSize first + Text.byteSize line + 1 →
        back.map Token.mark =
          ((tokensBehind other second).map (Token.relocate (more + ·))).map Token.mark := by
  let table := LineTable.ofText (first ++ (line ++ '\n' :: second))
  obtain ⟨feed, breaks, start, tokens⟩ : ∃ feed : Token, feed.kind = .lineBreak ∧
      feed.span.start = Text.byteSize first + Text.byteSize line ∧ _ = _ ++ feed :: _ :=
    ⟨_, rfl, rfl, tokensFrom_feed ends second table (Text.byteSize first)⟩
  have visible : feed.isComment = false := by rw [Token.isComment, breaks]; rfl
  refine ⟨_, feed, (tokensFrom table (Text.byteSize first + (Text.byteSize line + 1)) second).filter
    (!·.isComment), ?_, filter_moved (tokensFrom_add table (.ofText line) _ 0 line), breaks, start,
    fun more same => ?_⟩
  · rw [tokensBehind, show tokensFrom _ _ _ = _ from tokens, List.filter_append,
      List.filter_cons_of_pos (by simp [visible])]
    rfl
  · have moved := filter_moved (tokensFrom_add table (.ofText (other ++ second)) more
      (Text.byteSize other) second)
    rwa [same, Nat.add_assoc] at moved

theorem Bag.place_front {text : Text} (behind : Text) {report : Diagnostic}
    (marks : report.span.Marks text) :
    (Bag.ofSource (text ++ behind)).place report = (Bag.ofSource text).place report := by
  obtain ⟨front, middle, back, rfl, _, span⟩ := marks
  have start : report.span.start = Text.byteSize front := congrArg Span.start span
  have position : (LineTable.ofText (front ++ (middle ++ back) ++ behind)).position report.span.start =
      (LineTable.ofText (front ++ (middle ++ back))).position report.span.start := by
    rw [start, List.append_assoc, LineTable.position_behind, LineTable.position_behind]
  exact congrArg (fun position => { report with position }) position

/-! What is behind a line feed. -/

theorem PlacedPiece.token?_shift (first second : Text) (start : Nat) (piece : Piece) :
    token? (.ofText (first ++ '\n' :: second)) ⟨Text.byteSize first + 1 + start, piece⟩ =
      (token? (.ofText second) ⟨start, piece⟩).map
        (Token.shift (Text.byteSize first + 1) (first.count '\n' + 1)) := by
  cases piece with
  | blanks | invalid => rfl
  | lexeme lexeme =>
    have span := span_add (Text.byteSize first + 1) start (.lexeme lexeme)
    have position := LineTable.position_append first second start
    rw [token?, token?, span, position]
    rfl

theorem tokensFrom_shift (first second text : Text) (start : Nat) :
    tokensFrom (.ofText (first ++ '\n' :: second)) (Text.byteSize first + 1 + start) text =
      (tokensFrom (.ofText second) start text).map
        (Token.shift (Text.byteSize first + 1) (first.count '\n' + 1)) := by
  rw [tokensFrom, PlacedPiece.placeAll_add, List.filterMap_map, tokensFrom, List.map_filterMap]
  exact congrArg (List.filterMap · _) (funext fun placed => PlacedPiece.token?_shift first second _ _)

namespace Lexed

theorem diagnostics_eq (source : Text) :
    diagnostics source = (reportsFrom 0 source).map (Bag.ofSource source).place := by
  rw [diagnostics, Bag.items_reportAll, ofText_reports]
  rfl

theorem written_of_not_endOfFile (source : Text) :
    (ofText source).tokens.filter (!·.isEndOfFile) = written source := by
  have proper : ∀ token ∈ written source, (!token.isEndOfFile) = true := by
    intro token member
    simpa [Token.isEndOfFile] using kind_ne_endOfFile_of_mem_written member
  rw [ofText_tokens, List.filter_append, List.filter_eq_self.2 proper]
  exact List.append_nil _

theorem written_joined {first : Text} (ends : first.getLast? ≠ some '\r') (second : Text) :
    written (first ++ '\n' :: second) =
      written first ++
        ⟨.lineBreak, ['\n'], ⟨Text.byteSize first, Text.byteSize first + 1⟩, first.placeBehind⟩ ::
          (written second).map (Token.shift (Text.byteSize first + 1) (first.count '\n' + 1)) := by
  have whole := tokensFrom_feed ends second (.ofText (first ++ '\n' :: second)) 0
  have front : tokensFrom (.ofText (first ++ '\n' :: second)) 0 first = written first :=
    tokensFrom_front [] first ('\n' :: second)
  have back : tokensFrom (.ofText (first ++ '\n' :: second)) (Text.byteSize first + 1) second =
      (written second).map (Token.shift (Text.byteSize first + 1) (first.count '\n' + 1)) :=
    tokensFrom_shift first second second 0
  rw [Nat.zero_add, Nat.zero_add, front, back, LineTable.position_behind] at whole
  exact whole

theorem diagnostics_joined {first : Text} (ends : first.getLast? ≠ some '\r') (second : Text) :
    diagnostics (first ++ '\n' :: second) =
      diagnostics first ++ (diagnostics second).map
        (Diagnostic.shift (Text.byteSize first + 1) (first.count '\n' + 1)) := by
  have front : (reportsFrom 0 first).map (Bag.ofSource (first ++ '\n' :: second)).place =
      (reportsFrom 0 first).map (Bag.ofSource first).place := by
    refine List.map_congr_left fun report member => ?_
    have marks : report.span.Marks ([] ++ first) := marks_of_mem_reportsFrom member
    exact Bag.place_front _ marks
  have back := reportsFrom_add (Text.byteSize first + 1) 0 second
  rw [diagnostics_eq, diagnostics_eq, diagnostics_eq, reportsFrom_feed ends, List.map_append, front,
    Nat.zero_add, back, List.map_map, List.map_map]
  exact congrArg (_ ++ List.map · _) (funext (Bag.place_joined first second))

/-- A text with a line feed in it has the tokens and the diagnostics of what is in front of the line
feed, and then those of what is behind it, further behind; the line feed is a line break. A carriage
return in front of the line feed would belong to the line break. -/
theorem ofText_joined {first : Text} (ends : first.getLast? ≠ some '\r') (second : Text) :
    (ofText (first ++ '\n' :: second)).tokens =
        (ofText first).tokens.filter (!·.isEndOfFile) ++
          ⟨.lineBreak, ['\n'], ⟨Text.byteSize first, Text.byteSize first + 1⟩, first.placeBehind⟩ ::
            (ofText second).tokens.map
              (Token.shift (Text.byteSize first + 1) (first.count '\n' + 1)) ∧
      diagnostics (first ++ '\n' :: second) =
        diagnostics first ++ (diagnostics second).map
          (Diagnostic.shift (Text.byteSize first + 1) (first.count '\n' + 1)) := by
  refine ⟨?_, diagnostics_joined ends second⟩
  have position := LineTable.position_append first second (Text.byteSize second)
  rw [ofText_tokens, written_joined ends, written_of_not_endOfFile, ofText_tokens, List.map_append,
    List.append_assoc, List.cons_append, Text.byteSize_feed, position]
  rfl

/-- A string that is not closed and ends in a backslash, with an escape that has no meaning: the
line feed ends it, and the string on the next line is read as if it stood alone. -/
theorem ofText_joined_unclosed :
    "ä\n\"\\q\\".toList.getLast? ≠ some '\r' ∧
      diagnostics ("ä\n\"\\q\\".toList ++ '\n' :: "\"é".toList) =
        diagnostics "ä\n\"\\q\\".toList ++
          (diagnostics "\"é".toList).map (Diagnostic.shift 8 2) := by
  have ends : "ä\n\"\\q\\".toList.getLast? ≠ some '\r' := by decide
  exact ⟨ends, (ofText_joined ends "\"é".toList).2⟩

end Lexed

end MoSyntax
