import MoSyntax.Proofs.Lexing.Lines
import MoSyntax.Proofs.Lexing.Positions
import MoSyntax.Proofs.Tally.Program
import MoSyntax.Proofs.Telling.Decl
import MoSyntax.Proofs.Telling.Lexeme

/-!
The diagnostics of a parse. No two of them are the same, and each of them points at characters of
the text, with the line and the column of the place.
-/
namespace MoSyntax

/-- The span covers whole characters of the text; it may be empty where the text ends. -/
structure Span.Covers (span : Span) (text : Text) : Prop where
  ordered : span.start ≤ span.stop
  within : span.stop ≤ Text.byteSize text
  starts : text.Boundary span.start
  stops : text.Boundary span.stop
  solid : span.isEmpty → span.start = Text.byteSize text

theorem Span.Covers.of_lt {span : Span} {text : Text} (solid : span.start < span.stop)
    (starts : text.Boundary span.start) (stops : text.Boundary span.stop) : span.Covers text where
  ordered := Nat.le_of_lt solid
  within := stops.le
  starts := starts
  stops := stops
  solid empty := by
    have same : span.start = span.stop := by simpa [Span.isEmpty] using empty
    exact absurd same (Nat.ne_of_lt solid)

theorem Span.Covers.ended (text : Text) : (Span.empty (Text.byteSize text)).Covers text where
  ordered := Nat.le_refl _
  within := Nat.le_refl _
  starts := ⟨text, [], (List.append_nil _).symm, rfl⟩
  stops := ⟨text, [], (List.append_nil _).symm, rfl⟩
  solid _ := rfl

theorem Span.Marks.covers {span : Span} {text : Text} (marks : span.Marks text) :
    span.Covers text := by
  obtain ⟨front, middle, back, rfl, some, rfl⟩ := marks
  refine .of_lt (Nat.lt_add_of_pos_right (Text.byteSize_pos some)) ⟨front, _, rfl, rfl⟩
    ⟨front ++ middle, back, (List.append_assoc _ _ _).symm, ?_⟩
  exact (Text.byteSize_append _ _).symm

theorem marks_of_mem_grammarTokens {source : Text} {token : Token}
    (member : token ∈ grammarTokens source) : token.span.Marks source := by
  obtain ⟨lexeme, front, back, _, _, some, start, stop, whole⟩ :=
    Lexed.exists_of_mem_written (List.mem_of_mem_filter member)
  refine ⟨front, lexeme.text, back, whole, some, ?_⟩
  rw [← start, ← stop]

theorem mem_grammarTokens_of_mem_readTokens {source : Text} {limit : Option Nat} {token : Token}
    (member : token ∈ readTokens source limit) : token ∈ grammarTokens source := by
  cases limit with
  | none => exact member
  | some limit => exact List.mem_of_mem_take member

theorem Cursor.Points.covers {source : Text} {limit : Option Nat} {span : Span}
    (points : (sourceCursor source limit).Points span) : span.Covers source := by
  rw [sourceCursor_eq] at points
  rcases points with rfl | ⟨solid, ⟨first, here, start⟩, last, there, stop⟩
  · exact .ended source
  · have marks {token : Token} (member : token ∈ [] ++ readTokens source limit) :
        token.span.Covers source :=
      (marks_of_mem_grammarTokens (mem_grammarTokens_of_mem_readTokens member)).covers
    exact .of_lt solid (start ▸ (marks here).starts) (stop ▸ (marks there).stops)

/-- A report as it comes to the bag covers text, and its place is not known yet. -/
structure Diagnostic.Pending (source : Text) (report : Diagnostic) : Prop where
  covers : ∀ label ∈ report.labels, label.span.Covers source
  unplaced : report.position = ⟨0, 0⟩

theorem Diagnostic.Pending.alone {source : Text} {report : Diagnostic}
    (covers : report.span.Covers source) (alone : report.secondary = [])
    (unplaced : report.position = ⟨0, 0⟩) : report.Pending source := by
  refine ⟨fun label member => ?_, unplaced⟩
  rw [labels, alone, List.mem_singleton] at member
  exact member ▸ covers

theorem pending_of_mem_gatheredReports {source : Text} {limits : Limits} {report : Diagnostic}
    (member : report ∈ gatheredReports source limits) : report.Pending source := by
  rw [gatheredReports, List.mem_append, List.mem_append] at member
  rcases member with (lexed | cut) | parsed
  · rw [Lexed.ofText_reports] at lexed
    have marks : report.span.Marks ([] ++ source) := marks_of_mem_reportsFrom lexed
    obtain ⟨placed, inside, told⟩ := List.mem_flatMap.1 lexed
    have some := Piece.ne_nil_of_mem_splitUpTo _ _ _
      (PlacedPiece.exists_of_mem_placeAll [] inside).1
    obtain ⟨alone, unplaced, _⟩ := PlacedPiece.told_of_mem_reports some told
    exact .alone marks.covers alone unplaced
  · obtain ⟨bound, token, inside, rfl⟩ := exists_of_mem_cut cut
    rw [ofTokens_lexed] at inside
    exact .alone (marks_of_mem_grammarTokens inside).covers rfl rfl
  · have reported := Parser.declarations_halts limits.depth _
      (sourceCursor_intact source limits.tokens) (sourceCursor_inOrder source limits.tokens)
    have told := reported.told report parsed
    exact ⟨fun label among => (told.points label among).covers, told.unplaced⟩

theorem gatheredReports_nodup (source : Text) (limits : Limits) :
    (gatheredReports source limits).Nodup := by
  have intact := sourceCursor_intact source limits.tokens
  have parsed := Parser.declarations_halts limits.depth _ intact
    (sourceCursor_inOrder source limits.tokens)
  have lexed : (Lexed.ofText source).reports.Nodup := by
    rw [Lexed.ofText_reports]
    exact reportsFrom_nodup [] source
  have cut :
      (limitTokens limits.tokens (Cursor.ofTokens (Lexed.ofText source).tokens)).2.Nodup := by
    cases limits.tokens with
    | none => exact .nil
    | some limit => exact Option.toList_nodup _
  refine List.nodup_append.2 ⟨List.nodup_append.2 ⟨lexed, cut, ?_⟩, parsed.distinct, ?_⟩
  · rintro report told _ again rfl
    have lexical := Lexed.lexical_of_mem told
    rw [tooManyTokens_of_mem again] at lexical
    cases lexical
  · rintro report told _ again rfl
    have grammar := (declarations_tallied limits.depth intact).1 report again
    rcases List.mem_append.1 told with told | told
    · exact Lexed.not_fromGrammar told grammar
    · rw [Diagnostic.FromGrammar, tooManyTokens_of_mem told] at grammar
      rcases grammar with grammar | grammar <;> cases grammar

/-- No error is reported twice: the diagnostics of a parse are pairwise distinct, with their
messages, labels and notes. -/
theorem parse_diagnostics_nodup (source name : Text) (limits : Limits) :
    (parse source name limits).diagnostics.Nodup := by
  rw [(parse_diagnostics_sorts source name limits).same.nodup_iff]
  refine (gatheredReports_nodup source limits).map_on fun first here second there same => ?_
  have unplaced := (pending_of_mem_gatheredReports here).unplaced
  have unplaced' := (pending_of_mem_gatheredReports there).unplaced
  cases first
  cases second
  simp_all [Bag.place, Bag.ofSource]

/-- Every diagnostic points at the text: its labels cover whole characters, a label is empty at most
where the text ends, and line and column count what stands before the primary one. -/
theorem parse_diagnostics_cover (source name : Text) (limits : Limits) :
    ∀ diagnostic ∈ (parse source name limits).diagnostics,
      (∀ label ∈ diagnostic.labels, label.span.Covers source) ∧
        ∃ before behind, source = before ++ behind ∧
          diagnostic.span.start = Text.byteSize before ∧
          diagnostic.position = before.placeBehind := by
  intro diagnostic member
  obtain ⟨report, told, rfl⟩ := mem_diagnostics_iff.1 member
  have pending : report.Pending source := pending_of_mem_gatheredReports told
  refine ⟨pending.covers, ?_⟩
  obtain ⟨before, behind, rfl, start⟩ :=
    (pending.covers report.primary List.mem_cons_self).starts
  refine ⟨before, behind, rfl, start, ?_⟩
  show (LineTable.ofText (before ++ behind)).position report.span.start = _
  rw [show report.span.start = Text.byteSize before from start, LineTable.position_behind]

/-- A character of two bytes that starts no token, in a body that the end of the text cuts off. -/
theorem parse_diagnostics_cover_cut_off :
    ∃ diagnostic ∈ (parse "fn f() \x7b\n é".toList unnamed {}).diagnostics,
      diagnostic.span = ⟨10, 12⟩ ∧
      (∀ label ∈ diagnostic.labels, label.span.Covers "fn f() \x7b\n é".toList) ∧
      ∃ before behind : Text, "fn f() \x7b\n é".toList = before ++ behind ∧
        10 = Text.byteSize before ∧ diagnostic.position = before.placeBehind := by
  have told : ∃ diagnostic ∈ (parse "fn f() \x7b\n é".toList unnamed {}).diagnostics,
      diagnostic.span = ⟨10, 12⟩ := by decide +kernel
  obtain ⟨diagnostic, member, place⟩ := told
  obtain ⟨labels, before, behind, whole, start, position⟩ :=
    parse_diagnostics_cover "fn f() \x7b\n é".toList unnamed {} diagnostic member
  rw [place] at start
  exact ⟨diagnostic, member, place, labels, before, behind, whole, start, position⟩

end MoSyntax
