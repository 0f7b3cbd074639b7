import Mathlib.Data.List.Basic
import MoSyntax.Proofs.Lexing.Places
import MoSyntax.Proofs.Printing.Lexing

/-!
Every byte of a text is accounted for. From any character on, the text falls into the spans of its
tokens, runs of blanks, and single characters that are reported as invalid; there is nothing between
these and nothing twice.
-/
namespace MoSyntax

/-- What a stretch of text is taken for. -/
inductive Part where
  | token (token : Token)
  | blanks (span : Span)
  | invalid (report : Diagnostic)

namespace Part

def span : Part → Span
  | .token found => found.span
  | .blanks span => span
  | .invalid report => report.span

def token? : Part → Option Token
  | .token found => some found
  | _ => none

def report? : Part → Option Diagnostic
  | .invalid report => some report
  | _ => none

/-- The parts fill a range of offsets: the first begins where the range does, each of the others
where the one before it ends, and none is empty. -/
def Tile : Nat → List Part → Nat → Prop
  | start, [], stop => start = stop
  | start, part :: parts, stop =>
    part.span.start = start ∧ start < part.span.stop ∧ Tile part.span.stop parts stop

/-- The part is in the text what it is taken for. -/
def Genuine (source : Text) : Part → Prop
  | .token _ => True
  | .blanks span => ∃ run, span.slice? source = some run ∧ ∀ c ∈ run, c = ' ' ∨ c = '\t' ∨ c = '\x0c'
  | .invalid report => report.fault = .invalidCharacter ∧
    ∃ c, report.span.slice? source = some [c]

end Part

/-- The token has the text at its span, and line and column are those of the start of the span. -/
def Token.Located (source : Text) (token : Token) : Prop :=
  token.span.slice? source = some token.lexeme ∧
    ∃ before behind, source = before ++ behind ∧ token.span.start = Text.byteSize before ∧
      token.position = before.placeBehind

/-- What the tokens and the parts of a text have to do with it, when it is read from an offset on. -/
structure Lexed.Accounts (lexed : Lexed) (source : Text) (offset : Nat) (body : List Token)
    (parts : List Part) : Prop where
  base : lexed.base = offset
  tokens : ∃ position, lexed.tokens = body ++ [.endOfFile (Text.byteSize source) position]
  proper : ∀ token ∈ body, token.kind ≠ .endOfFile
  ordered : Ordered body
  located : ∀ token ∈ lexed.tokens, token.Located source
  fills : Part.Tile offset parts (Text.byteSize source)
  genuine : ∀ part ∈ parts, part.Genuine source
  shown : parts.filterMap Part.token? = body
  told : parts.filterMap Part.report? =
    lexed.reports.filter fun report => report.fault == .invalidCharacter

namespace Piece

theorem forall_mem_split {holds : Piece → Prop} (each : ∀ c rest, holds (read c rest).1)
    (text : Text) : ∀ piece ∈ split text, holds piece := by
  rw [split]
  generalize text.length = count
  induction count generalizing text with
  | zero => simp [splitUpTo]
  | succ count ih =>
    cases text with
    | nil => simp [splitUpTo]
    | cons c rest =>
      simp only [splitUpTo, List.mem_cons]
      rintro piece (rfl | member)
      · exact each c rest
      · exact ih _ piece member

theorem isBlank_of_read {c : Char} {rest text : Text} (blanks : (read c rest).1 = .blanks text) :
    ∀ d ∈ text, isBlank d := by
  rw [read] at blanks
  split at blanks
  · rename_i blank
    obtain rfl : c :: rest.takeWhile isBlank = text := by simpa using blanks
    exact List.forall_mem_cons.2 ⟨blank, List.all_eq_true.1 List.all_takeWhile⟩
  · split at blanks <;> simp at blanks

theorem isBlank_of_mem_split {text run : Text} (member : Piece.blanks run ∈ split text) :
    ∀ c ∈ run, isBlank c := by
  have each : ∀ piece ∈ split text, ∀ run, piece = .blanks run → ∀ c ∈ run, isBlank c :=
    forall_mem_split (fun _ _ _ blanks => isBlank_of_read blanks) text
  exact each _ member run rfl

end Piece

namespace PlacedPiece

/-- What a piece is taken for. -/
def part (table : LineTable) (placed : PlacedPiece) : Part :=
  match placed.piece with
  | .blanks _ => .blanks placed.span
  | .lexeme lexeme => .token ⟨lexeme.kind, lexeme.text, placed.span, table.position placed.start⟩
  | .invalid c => .invalid (invalidCharacter placed.span c)

theorem part_span (table : LineTable) (placed : PlacedPiece) :
    (placed.part table).span = placed.span := by
  unfold part
  split <;> rfl

theorem part_token? (table : LineTable) (placed : PlacedPiece) :
    (placed.part table).token? = placed.token? table := by
  obtain ⟨start, piece⟩ := placed
  cases piece <;> rfl

theorem part_report? (table : LineTable) (placed : PlacedPiece) :
    (placed.part table).report?.toList =
      placed.reports.filter fun report => report.fault == .invalidCharacter := by
  obtain ⟨start, piece⟩ := placed
  cases piece with
  | blanks text => rfl
  | invalid c => rfl
  | lexeme found =>
    symm
    refine List.filter_eq_nil_iff.2 fun report member => ?_
    cases flaw_of_mem_reports member with
    | character piece => cases piece
    | number | unclosed | escape => exact Bool.false_ne_true

theorem tile_placeAll (table : LineTable) (start : Nat) {pieces : List Piece}
    (solid : ∀ piece ∈ pieces, piece.text ≠ []) :
    Part.Tile start ((placeAll start pieces).map (·.part table))
      (start + Text.byteSize (pieces.flatMap Piece.text)) := by
  induction pieces generalizing start with
  | nil => rfl
  | cons piece pieces ih =>
    obtain ⟨some, others⟩ := List.forall_mem_cons.1 solid
    have size := Text.byteSize_pos some
    rw [placeAll, List.map_cons, List.flatMap_cons, Text.byteSize_append, ← Nat.add_assoc]
    refine ⟨by rw [part_span]; rfl, ?_, ?_⟩
    · rw [part_span]
      show start < start + Text.byteSize piece.text
      omega
    · rw [part_span]
      exact ih _ others

theorem slice?_of_mem {before rest : Text} {placed : PlacedPiece}
    (member : placed ∈ placeAll (Text.byteSize before) (Piece.split rest)) :
    placed.span.slice? (before ++ rest) = some placed.piece.text ∧
      ∃ front behind, before ++ rest = front ++ behind ∧ placed.start = Text.byteSize front := by
  obtain ⟨_, front, back, start, whole⟩ := exists_of_mem_placeAll before member
  rw [Piece.split_flatMap] at whole
  rw [whole]
  exact ⟨Span.slice?_append _ _ _ _ start rfl, front, _, rfl, start⟩

theorem genuine_part (table : LineTable) {before rest : Text} {placed : PlacedPiece}
    (member : placed ∈ placeAll (Text.byteSize before) (Piece.split rest)) :
    (placed.part table).Genuine (before ++ rest) := by
  obtain ⟨among, _⟩ := exists_of_mem_placeAll before member
  obtain ⟨slice, _⟩ := slice?_of_mem member
  obtain ⟨start, piece⟩ := placed
  cases piece with
  | lexeme found => trivial
  | invalid c => exact ⟨rfl, c, slice⟩
  | blanks run =>
    refine ⟨run, slice, fun c inside => ?_⟩
    have blank := Piece.isBlank_of_mem_split among c inside
    simpa [isBlank, or_assoc] using blank

theorem located_token {before rest : Text} {placed : PlacedPiece} {token : Token}
    (member : placed ∈ placeAll (Text.byteSize before) (Piece.split rest))
    (found : placed.token? (.ofText (before ++ rest)) = some token) :
    token.Located (before ++ rest) := by
  obtain ⟨lexeme, piece, rfl⟩ := token?_eq_some found
  obtain ⟨slice, front, behind, whole, start⟩ := slice?_of_mem member
  rw [piece] at slice
  refine ⟨slice, front, behind, whole, start, ?_⟩
  rw [start, whole, LineTable.position_behind]

end PlacedPiece

theorem tokensFrom_ordered (table : LineTable) (before text : Text) :
    Ordered (tokensFrom table (Text.byteSize before) text) where
  solid := by
    intro token member
    obtain ⟨placed, inside, found⟩ := List.mem_filterMap.1 member
    obtain ⟨lexeme, piece, rfl⟩ := PlacedPiece.token?_eq_some found
    obtain ⟨among, _⟩ := PlacedPiece.exists_of_mem_placeAll before inside
    have size := Text.byteSize_pos (Piece.ne_nil_of_mem_splitUpTo _ _ _ among)
    show placed.start < placed.start + Text.byteSize placed.piece.text
    omega
  apart := by
    refine List.Pairwise.filterMap _ ?_ (PlacedPiece.pairwise_placeAll _ (Piece.split text))
    intro first second before one left two right
    obtain ⟨_, _, rfl⟩ := PlacedPiece.token?_eq_some left
    obtain ⟨_, _, rfl⟩ := PlacedPiece.token?_eq_some right
    exact before

namespace Lexed

/-- From a character on, the tokens and reports are those of the rest, placed in the whole. -/
theorem ofTextFrom_append (before rest : Text) :
    ofTextFrom (before ++ rest) (Text.byteSize before) =
      { base := Text.byteSize before
        tokens := tokensFrom (.ofText (before ++ rest)) (Text.byteSize before) rest ++
          [.endOfFile (Text.byteSize (before ++ rest))
            ((LineTable.ofText (before ++ rest)).position (Text.byteSize (before ++ rest)))]
        reports := reportsFrom (Text.byteSize before) rest } := by
  simp [ofTextFrom, tokensFrom, reportsFrom]

theorem endOfFile_located (source : Text) :
    (Token.endOfFile (Text.byteSize source)
      ((LineTable.ofText source).position (Text.byteSize source))).Located source := by
  have slice := Span.slice?_append (.empty (Text.byteSize source)) source [] [] rfl rfl
  have position := LineTable.position_behind source []
  simp only [List.append_nil] at slice position
  exact ⟨slice, source, [], (List.append_nil _).symm, rfl, position⟩

/-- Reading a text from a character on accounts for every byte from there. -/
theorem ofTextFrom_accounts (before rest : Text) :
    ∃ body parts, (ofTextFrom (before ++ rest) (Text.byteSize before)).Accounts (before ++ rest)
      (Text.byteSize before) body parts := by
  rw [ofTextFrom_append]
  generalize table : LineTable.ofText (before ++ rest) = lines
  refine ⟨tokensFrom lines (Text.byteSize before) rest,
    (PlacedPiece.placeAll (Text.byteSize before) (Piece.split rest)).map (·.part lines), ?_⟩
  constructor
  case base => rfl
  case tokens => exact ⟨_, rfl⟩
  case proper =>
    intro token member
    obtain ⟨placed, _, found⟩ := List.mem_filterMap.1 member
    obtain ⟨lexeme, _, rfl⟩ := PlacedPiece.token?_eq_some found
    exact lexeme.kind_ne_endOfFile
  case ordered => exact tokensFrom_ordered _ _ _
  case located =>
    intro token member
    rcases List.mem_append.1 member with member | member
    · obtain ⟨placed, inside, found⟩ := List.mem_filterMap.1 member
      exact PlacedPiece.located_token inside (table ▸ found)
    · obtain rfl := List.mem_singleton.1 member
      exact table ▸ endOfFile_located _
  case fills =>
    have tile := PlacedPiece.tile_placeAll lines (Text.byteSize before)
      (Piece.ne_nil_of_mem_splitUpTo rest.length rest)
    rwa [← Piece.split, Piece.split_flatMap, ← Text.byteSize_append] at tile
  case genuine =>
    intro part member
    obtain ⟨placed, inside, rfl⟩ := List.mem_map.1 member
    exact PlacedPiece.genuine_part lines inside
  case shown =>
    rw [List.filterMap_map, tokensFrom]
    exact congrArg (List.filterMap · _) (funext (PlacedPiece.part_token? lines))
  case told =>
    rw [List.filterMap_map, reportsFrom, List.filter_flatMap, List.filterMap_eq_flatMap_toList]
    exact congrArg (List.flatMap · _) (funext (PlacedPiece.part_report? lines))

end Lexed

end MoSyntax
