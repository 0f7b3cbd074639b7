import Mathlib.Data.List.Basic
import MoSyntax.Proofs.Lexing.Layout
import MoSyntax.Proofs.Lexing.Neighbours
import MoSyntax.Proofs.Lexing.Units

/-!
Escapes in strings. The text of a string token is read from left to right in units. What is wrong with
it is told by that reading alone: each escape without a meaning is reported where it stands, a string
that no quote closes is reported as a whole, and of strings nothing else is reported.
-/
namespace MoSyntax

def Fault.ofString : Fault → Bool
  | invalidEscape | unterminatedString => true
  | _ => false

namespace StringUnit

/-- The characters that have a meaning behind a backslash. -/
def escapable : List Char := ['"', '\\', 'n', 'r', 't', '0', '\'']

/-- What is to be reported of a unit at its place. -/
def report? (placed : Span × StringUnit) : Option Diagnostic :=
  match placed.2 with
  | .escape c => if c ∈ escapable then none else some (PlacedPiece.invalidEscape placed.1 c)
  | _ => none

theorem meaning?_isNone_iff {c : Char} : (meaning? c).isNone ↔ c ∉ escapable := by
  unfold meaning?
  split <;> simp_all [escapable]

theorem report?_eq (placed : Span × StringUnit) :
    report? placed = placed.2.bad?.map (PlacedPiece.invalidEscape placed.1) := by
  obtain ⟨span, unit⟩ := placed
  cases unit with
  | plain c => rfl
  | loneBackslash => rfl
  | escape c =>
    by_cases known : c ∈ escapable
    · have meant : ¬ (meaning? c).isNone := fun none => meaning?_isNone_iff.1 none known
      simp [report?, bad?, known, meant]
    · simp [report?, bad?, known, meaning?_isNone_iff.2 known]

theorem badEscapes_reports (offset : Nat) (units : List StringUnit) :
    (badEscapes offset units).map (fun bad => PlacedPiece.invalidEscape bad.1 bad.2) =
      (placeAll offset units).filterMap report? := by
  rw [badEscapes_eq, List.map_filterMap]
  refine congrArg (List.filterMap · _) (funext fun placed => ?_)
  rw [report?_eq, Option.map_map]
  rfl

theorem value_eq_text {unit : StringUnit} (plain : ∀ c ∈ escapable, unit ≠ .escape c) :
    unit.value = unit.text := by
  cases unit with
  | plain c => rfl
  | loneBackslash => rfl
  | escape c =>
    have none := meaning?_isNone_iff.2 fun known => plain c known rfl
    rw [value, Option.isNone_iff_eq_none.1 none]
    rfl

end StringUnit

namespace Token

def innerUnits (token : Token) : List StringUnit := StringUnit.ofText (token.lexeme.drop 1)

/-- A string is closed if the last of its units is a quote that stands for itself. -/
def closed (token : Token) : Bool := token.innerUnits.getLast? == some (.plain '"')

/-- The units of the body of a string, without the quotes around it. -/
def units (token : Token) : List StringUnit :=
  if token.closed then token.innerUnits.dropLast else token.innerUnits

def placedUnits (token : Token) : List (Span × StringUnit) :=
  StringUnit.placeAll (token.span.start + 1) token.units

def stringReports (token : Token) : List Diagnostic :=
  match token.kind with
  | .string _ =>
    (if token.closed then [] else [PlacedPiece.unterminatedString token.span]) ++
      token.placedUnits.filterMap StringUnit.report?
  | _ => []

theorem ofString_of_mem_stringReports {token : Token} {report : Diagnostic}
    (member : report ∈ token.stringReports) : report.fault.ofString := by
  unfold stringReports at member
  split at member
  · rcases List.mem_append.1 member with unclosed | escape
    · split at unclosed
      · cases unclosed
      · obtain rfl := List.mem_singleton.1 unclosed
        rfl
    · obtain ⟨placed, _, told⟩ := List.mem_filterMap.1 escape
      rw [StringUnit.report?_eq] at told
      obtain ⟨c, _, rfl⟩ := Option.map_eq_some_iff.1 told
      rfl
  · cases member

theorem stringReports_of_other {token : Token} (other : ∀ value, token.kind ≠ .string value) :
    token.stringReports = [] := by
  unfold stringReports
  split
  · rename_i value kind
    exact absurd kind (other value)
  · rfl

/-- The body of a string token is what the token has between its quotes, or behind the first one. Its
units stand in the source one behind the other, and their values make up the value. -/
structure Unescapes (source : Text) (token : Token) (value : Text) : Prop where
  lexeme : token.lexeme =
    '"' :: (StringUnit.textOf token.units ++ if token.closed then ['"'] else [])
  read : StringUnit.ofText (StringUnit.textOf token.units) = token.units
  unquoted : .plain '"' ∉ token.units
  lone : .loneBackslash ∈ token.units → token.closed = false
  value : value = token.units.flatMap StringUnit.value
  verbatim : ∀ unit ∈ token.units, (∀ c ∈ StringUnit.escapable, unit ≠ .escape c) →
    unit.value = unit.text
  slices : ∀ placed ∈ token.placedUnits, placed.1.slice? source = some placed.2.text
  within : ∀ placed ∈ token.placedUnits, token.span.start < placed.1.start ∧
    placed.1.start < placed.1.stop ∧ placed.1.stop ≤ token.span.stop
  ordered : token.placedUnits.Pairwise fun first second => first.1.stop ≤ second.1.start

end Token

theorem Lexeme.Stands.units {closed : Bool} {units : List StringUnit} {rest : Text}
    (stands : (Lexeme.string closed units).Stands rest) {token : Token}
    (text : token.lexeme = (Lexeme.string closed units).text) :
    token.closed = closed ∧ token.units = units ∧ .plain '"' ∉ units ∧
      (.loneBackslash ∈ units → closed = false) ∧
      StringUnit.ofText (StringUnit.textOf units) = units := by
  cases stands with
  | closed inside =>
    have inner : token.innerUnits = units ++ [.plain '"'] := by
      rw [Token.innerUnits, text]
      exact inside.ofText_append inside.not_lone ['"']
    have ends : token.closed := by simp [Token.closed, inner]
    refine ⟨ends, ?_, inside.unquoted, fun lone => absurd lone inside.not_lone, inside.ofText⟩
    rw [Token.units, if_pos ends, inner, List.dropLast_concat]
  | unclosed inside _ =>
    have inner : token.innerUnits = units := by
      rw [Token.innerUnits, text]
      exact (congrArg StringUnit.ofText (List.append_nil _)).trans inside.ofText
    have unended : token.closed = false := by
      rw [Token.closed, inner, beq_eq_false_iff_ne]
      exact fun last => inside.unquoted (List.mem_of_getLast? last)
    refine ⟨unended, ?_, inside.unquoted, fun _ => rfl, inside.ofText⟩
    rw [Token.units, unended, inner]
    rfl

namespace PlacedPiece

theorem reports_other {placed : PlacedPiece}
    (other : ∀ closed units, placed.piece ≠ .lexeme (.string closed units)) :
    placed.reports.filter (·.fault.ofString) = [] := by
  refine List.filter_eq_nil_iff.2 fun report member => ?_
  cases flaw_of_mem_reports member with
  | character | number => exact Bool.false_ne_true
  | unclosed piece => exact absurd piece (other _ _)
  | escape piece => exact absurd piece (other _ _)

theorem reports_string {start : Nat} {text : Text} {placed : PlacedPiece} {closed : Bool}
    {units : List StringUnit} (member : placed ∈ placeAll start (Piece.split text))
    (piece : placed.piece = .lexeme (.string closed units)) {table : LineTable} {token : Token}
    (found : placed.token? table = some token) : placed.reports = token.stringReports := by
  obtain ⟨rest, stands⟩ := stands_of_mem member piece
  rw [token?, piece] at found
  have whole := (Option.some.inj found).symm
  have kind : token.kind = .string (StringUnit.valueOf units) := congrArg Token.kind whole
  have span : token.span = placed.span := congrArg Token.span whole
  obtain ⟨ends, same, _⟩ := stands.units (congrArg Token.lexeme whole)
  rw [reports, piece, Token.stringReports, kind]
  simp only
  rw [ends, Token.placedUnits, same, span, StringUnit.badEscapes_reports]
  rfl

theorem reports_ofString {start : Nat} {text : Text} {placed : PlacedPiece}
    (member : placed ∈ placeAll start (Piece.split text)) (table : LineTable) :
    placed.reports.filter (·.fault.ofString) =
      (placed.token? table).toList.flatMap Token.stringReports := by
  by_cases string : ∃ closed units, placed.piece = .lexeme (.string closed units)
  · obtain ⟨closed, units, piece⟩ := string
    obtain ⟨token, found⟩ : ∃ token, placed.token? table = some token :=
      ⟨_, by rw [token?, piece]⟩
    rw [reports_string member piece found, found, Option.toList_some, List.flatMap_singleton]
    exact List.filter_eq_self.2 fun report told => Token.ofString_of_mem_stringReports told
  · have other : ∀ closed units, placed.piece ≠ .lexeme (.string closed units) :=
      fun closed units piece => string ⟨closed, units, piece⟩
    rw [reports_other other]
    refine (List.flatMap_eq_nil_iff.2 fun token found => ?_).symm
    obtain ⟨lexeme, piece, rfl⟩ := token?_eq_some (Option.mem_toList.1 found)
    refine Token.stringReports_of_other fun value kind => ?_
    obtain ⟨closed, units, rfl, _⟩ := Lexeme.kind_eq_string kind
    exact other closed units piece

end PlacedPiece

/-- A string token of a text shows its units where they stand. -/
theorem Lexed.unescapes_of_mem {source : Text} {token : Token} {value : Text}
    (member : token ∈ written source) (kind : token.kind = .string value) :
    token.Unescapes source value := by
  obtain ⟨placed, inside, found⟩ := List.mem_filterMap.1 member
  obtain ⟨lexeme, piece, whole⟩ := PlacedPiece.token?_eq_some found
  have named : lexeme.kind = .string value := (congrArg Token.kind whole).symm.trans kind
  obtain ⟨closed, units, rfl, valued⟩ := Lexeme.kind_eq_string named
  obtain ⟨rest, stands⟩ := PlacedPiece.stands_of_mem inside piece
  have text : token.lexeme = (Lexeme.string closed units).text := congrArg Token.lexeme whole
  obtain ⟨ends, same, unquoted, lone, read⟩ := stands.units text
  obtain ⟨_, front, back, _, written, _, start, stop, split⟩ := exists_of_mem_written member
  rw [← written, text, Lexeme.text] at split stop
  have quote : token.span.start + 1 = Text.byteSize (front ++ ['"']) := by
    rw [start, Text.byteSize_append]
    rfl
  constructor
  case lexeme => rw [text, ends, same, Lexeme.text, List.cons_append]
  case read => rw [same, read]
  case unquoted => rwa [same]
  case lone => rwa [same, ends]
  case value => rw [same, valued]; rfl
  case verbatim => exact fun unit _ plain => StringUnit.value_eq_text plain
  case slices =>
    intro placed among
    rw [Token.placedUnits, same, quote] at among
    have slice := StringUnit.slice?_of_mem_placeAll ((if closed then ['"'] else []) ++ back) among
    rw [split]
    simpa using slice
  case within =>
    intro placed among
    rw [Token.placedUnits, same] at among
    obtain ⟨after, solid, within⟩ := StringUnit.within_of_mem_placeAll among
    have size : token.span.start + 1 + Text.byteSize (StringUnit.textOf units) ≤ token.span.stop := by
      have one : '"'.utf8Size = 1 := rfl
      simp only [List.cons_append, Text.byteSize_cons, Text.byteSize_append, one] at stop
      omega
    exact ⟨by omega, solid, by omega⟩
  case ordered => exact StringUnit.placeAll_ordered _ _

namespace Lexed

/-- Strings are reported as they are written. Of all that is reported, what only strings have is what
their tokens show, in their order: that no quote closes the string, and each escape without a meaning;
and each string token has the value of its units, which stand in the source where they are reported. -/
theorem ofText_strings (source : Text) :
    (ofText source).reports.filter (·.fault.ofString) =
        (ofText source).tokens.flatMap Token.stringReports ∧
      ∀ token ∈ (ofText source).tokens, ∀ value, token.kind = .string value →
        token.Unescapes source value := by
  have ended : Token.stringReports (.endOfFile (Text.byteSize source)
      ((LineTable.ofText source).position (Text.byteSize source))) = [] := rfl
  rw [ofText_tokens]
  refine ⟨?_, fun token member value kind => ?_⟩
  · rw [ofText_reports, reportsFrom, List.filter_flatMap, List.flatMap_append,
      List.flatMap_singleton, ended, List.append_nil, written, List.filterMap_eq_flatMap_toList,
      List.flatMap_assoc]
    exact List.flatMap_congr fun placed member => PlacedPiece.reports_ofString member _
  · rcases List.mem_append.1 member with written | last
    · exact unescapes_of_mem written kind
    · obtain rfl := List.mem_singleton.1 last
      cases kind

/-- An escape without a meaning in a closed string, and a string that is not closed, with a wide
character behind one backslash and nothing behind another. -/
theorem ofText_strings_broken :
    ∃ token ∈ (ofText "\"é\\q\\n\" \"\\日\\\r\nx".toList).tokens,
      token.kind = .string "\\日\\".toList ∧
      token.Unescapes "\"é\\q\\n\" \"\\日\\\r\nx".toList "\\日\\".toList ∧
      token.stringReports =
        [PlacedPiece.unterminatedString ⟨9, 15⟩, PlacedPiece.invalidEscape ⟨10, 14⟩ '日'] := by
  have string : ∃ token ∈ (ofText "\"é\\q\\n\" \"\\日\\\r\nx".toList).tokens,
      token.kind = .string "\\日\\".toList ∧ token.stringReports =
        [PlacedPiece.unterminatedString ⟨9, 15⟩, PlacedPiece.invalidEscape ⟨10, 14⟩ '日'] := by
    decide +kernel
  obtain ⟨token, member, kind, told⟩ := string
  exact ⟨token, member, kind, (ofText_strings _).2 token member _ kind, told⟩

end Lexed

end MoSyntax
