import MoSyntax.Proofs.Lexing.Neighbours
import MoSyntax.Proofs.Lexing.NumberForm

/-!
Number tokens. The lexer takes anything for a number that begins like one. What is reported of numbers
says which of them are written by no pattern; the others mean what their pattern says, and they are
read again when they are printed.
-/
namespace MoSyntax

/-- Two ranges have a byte in common. -/
def Span.meets (first second : Span) : Bool :=
  decide (first.start < second.stop) && decide (second.start < first.stop)

/-- What is reported of numbers on a range of the source. -/
def Lexed.numberReports (source : Text) (span : Span) : List Diagnostic :=
  (ofText source).reports.filter fun report =>
    report.fault == .invalidNumberLiteral && report.span.meets span

/-- The literal is what the pattern makes of the text. Printed, it is read again as the same one. -/
structure NumberLiteral.Follows (literal : NumberLiteral) (form : NumberForm) (text : Text) :
    Prop where
  radix : literal.radix = form.radix
  fractional : literal.fractional = form.fractional
  value : ∀ value, literal.value? = some value ↔
    form.fractional = false ∧ value = form.radix.positional (form.digits text) ∧ value < 2 ^ 64
  printed : (Lexed.ofText literal.text).tokens.map Token.kind = [.number literal, .endOfFile]
  silent : (Lexed.ofText literal.text).reports = []

namespace PlacedPiece

variable {source : Text} {placed : PlacedPiece}

theorem span_of_number {report : Diagnostic} (told : report ∈ placed.reports)
    (fault : report.fault = .invalidNumberLiteral) : report.span = placed.span := by
  cases flaw_of_mem_reports told with
  | number => rfl
  | character | unclosed | escape => cases fault

theorem reports_elsewhere {span : Span} (apart : placed.span.meets span = false) :
    (placed.reports.filter fun report =>
      report.fault == .invalidNumberLiteral && report.span.meets span) = [] := by
  refine List.filter_eq_nil_iff.2 fun report told both => ?_
  obtain ⟨fault, meets⟩ := Bool.and_eq_true_iff.1 both
  rw [span_of_number told (eq_of_beq fault), apart] at meets
  cases meets

/-- Of numbers just that is reported on a piece which is reported of it. -/
theorem numberReports_of_mem (member : placed ∈ placeAll 0 (Piece.split source)) :
    Lexed.numberReports source placed.span =
      placed.reports.filter (·.fault == .invalidNumberLiteral) := by
  obtain ⟨front, back, all⟩ := List.append_of_mem member
  obtain ⟨_, behind, before⟩ := List.pairwise_append.1 (all ▸ pairwise_placeAll 0 (Piece.split source))
  have left : ∀ other ∈ front, other.span.meets placed.span = false := by
    intro other among
    have first := before other among placed List.mem_cons_self
    simp only [Span.meets, Bool.and_eq_false_iff, decide_eq_false_iff_not]
    omega
  have right : ∀ other ∈ back, other.span.meets placed.span = false := by
    intro other among
    have second := List.rel_of_pairwise_cons behind among
    simp only [Span.meets, Bool.and_eq_false_iff, decide_eq_false_iff_not]
    omega
  have here : placed.span.meets placed.span := by
    have solid : placed.span.start < placed.span.stop :=
      Nat.lt_add_of_pos_right (Text.byteSize_pos (ne_nil_of_mem member))
    simp [Span.meets, solid]
  rw [Lexed.numberReports, Lexed.ofText_reports, reportsFrom, all, List.filter_flatMap,
    List.flatMap_append, List.flatMap_cons,
    List.flatMap_eq_nil_iff.2 fun other among => reports_elsewhere (left other among),
    List.flatMap_eq_nil_iff.2 fun other among => reports_elsewhere (right other among),
    List.nil_append, List.append_nil]
  refine List.filter_congr fun report told => ?_
  by_cases fault : report.fault = .invalidNumberLiteral
  · rw [span_of_number told fault, here, Bool.and_true]
  · simp [fault]

theorem numberReports_of_read {fractional : Bool} {text : Text} {literal : NumberLiteral}
    (member : placed ∈ placeAll 0 (Piece.split source))
    (piece : placed.piece = .lexeme (.number fractional text))
    (read : NumberLiteral.read text = .ok literal) :
    Lexed.numberReports source placed.span = [] := by
  rw [numberReports_of_mem member, reports, piece]
  simp only [read, List.filter_nil]

theorem numberReports_of_unread {fractional : Bool} {text : Text} {error : NumberError}
    (member : placed ∈ placeAll 0 (Piece.split source))
    (piece : placed.piece = .lexeme (.number fractional text))
    (unread : NumberLiteral.read text = .error error) :
    Lexed.numberReports source placed.span = [invalidNumber placed.span error] := by
  rw [numberReports_of_mem member, reports, piece]
  simp only [unread]
  rfl

end PlacedPiece

namespace NumberForm

variable {form : NumberForm} {text : Text}

theorem Matches.numberOf (matching : form.Matches text) (fractional : Bool) :
    Lexeme.numberOf fractional text = form.literal text := by
  rw [Lexeme.numberOf, matching.read]

theorem Matches.follows (matching : form.Matches text) : (form.literal text).Follows form text := by
  have legible : ∀ kind ∈ [TokenKind.number (form.literal text)], kind.legible :=
    List.forall_mem_singleton.2 matching.legible
  obtain ⟨kinds, _, none, _⟩ := tokensFrom_spell (.ofText (form.literal text).text) 0 _ legible
  constructor
  case radix => rfl
  case fractional => rfl
  case value => exact matching.value?_eq_some_iff
  case printed =>
    rw [Lexed.ofText_tokens, List.map_append]
    exact congrArg (· ++ _) kinds
  case silent => rw [Lexed.ofText_reports]; exact none

end NumberForm

namespace Lexed

/-- A number token is taken just if a pattern writes it, and then it means what the pattern says. Any
other is reported once, over the whole of it, and has the digit zero. -/
theorem ofText_numbers (source : Text) (token : Token) (member : token ∈ (ofText source).tokens)
    (literal : NumberLiteral) (kind : token.kind = .number literal) :
    (numberReports source token.span = [] ↔ ∃ form : NumberForm, form.Matches token.lexeme) ∧
      (∀ form : NumberForm, form.Matches token.lexeme → literal.Follows form token.lexeme) ∧
      ((¬ ∃ form : NumberForm, form.Matches token.lexeme) →
        literal.digits = ['0'] ∧ ∃ error, NumberLiteral.read token.lexeme = .error error ∧
          numberReports source token.span = [PlacedPiece.invalidNumber token.span error]) := by
  have written : token.kind ≠ .endOfFile := by simp [kind]
  obtain ⟨placed, inside, lexeme, piece, whole⟩ := exists_placed_of_mem member written
  have named : lexeme.kind = .number literal := (congrArg Token.kind whole).symm.trans kind
  obtain ⟨fractional, text, rfl, same⟩ := Lexeme.kind_eq_number named
  have lexeme : token.lexeme = text := congrArg Token.lexeme whole
  have span : token.span = placed.span := congrArg Token.span whole
  have follows : ∀ form : NumberForm, form.Matches text → literal.Follows form text := by
    intro form matching
    rw [same, matching.numberOf]
    exact matching.follows
  rw [lexeme, span]
  cases read : NumberLiteral.read text with
  | ok result =>
    obtain ⟨rest, stands⟩ := PlacedPiece.stands_of_mem inside piece
    have some := stands.exists_form read
    exact ⟨iff_of_true (PlacedPiece.numberReports_of_read inside piece read) some, follows,
      fun none => absurd some none⟩
  | error error =>
    have told := PlacedPiece.numberReports_of_unread inside piece read
    have none : ¬ ∃ form : NumberForm, form.Matches text := by
      rintro ⟨form, matching⟩
      cases matching.read.symm.trans read
    refine ⟨iff_of_false (told ▸ List.cons_ne_nil _ _) none, follows, fun _ => ⟨?_, error, rfl, told⟩⟩
    rw [same, Lexeme.numberOf, read]

/-- A number that is spaced out, with small and large letters, and one with a digit too large. -/
theorem ofText_numbers_based :
    (∃ token ∈ (ofText "0xF_f 0b102".toList).tokens,
        token.kind = .number ⟨.hexadecimal, false, "Ff".toList⟩ ∧
          NumberLiteral.value? ⟨.hexadecimal, false, "Ff".toList⟩ = some 255) ∧
      ∃ token ∈ (ofText "0xF_f 0b102".toList).tokens, ∃ literal, token.kind = .number literal ∧
        (¬ ∃ form : NumberForm, form.Matches token.lexeme) ∧ literal.digits = ['0'] := by
  have taken : ∃ token ∈ (ofText "0xF_f 0b102".toList).tokens,
      token.kind = .number ⟨.hexadecimal, false, "Ff".toList⟩ ∧ token.lexeme = "0xF_f".toList := by
    decide +kernel
  have refused : ∃ token ∈ (ofText "0xF_f 0b102".toList).tokens,
      token.kind = .number ⟨.binary, false, ['0']⟩ ∧
        numberReports "0xF_f 0b102".toList token.span ≠ [] := by
    decide +kernel
  refine ⟨?_, ?_⟩
  · obtain ⟨token, member, kind, text⟩ := taken
    have clean : "F_f".toList.all fun c => c ∈ Radix.hexadecimal.figures ∨ c = '_' := by decide
    have matching : (NumberForm.marked .hexadecimal Radix.noConfusion).Matches token.lexeme :=
      ⟨"F_f".toList, text, by decide,
        fun c inside => of_decide_eq_true (List.all_eq_true.1 clean c inside)⟩
    have follows := (ofText_numbers _ token member _ kind).2.1 _ matching
    refine ⟨token, member, kind, (follows.value 255).2 ⟨rfl, ?_, by decide⟩⟩
    rw [text]
    decide +kernel
  · obtain ⟨token, member, kind, told⟩ := refused
    obtain ⟨silent, _, zero⟩ := ofText_numbers _ token member _ kind
    have none := mt silent.2 told
    exact ⟨token, member, _, kind, none, (zero none).1⟩

end Lexed

end MoSyntax
