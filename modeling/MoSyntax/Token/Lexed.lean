import MoSyntax.Diagnostic.Basic
import MoSyntax.Text.Escaped
import MoSyntax.Token.Basic
import MoSyntax.Token.Lexeme

/-!
The tokens of a text. Every lexeme gives one token, with the span it covers, and the pieces that
are no proper lexeme give the lexical diagnostics; blanks give nothing. A text may be read from any
offset on, and spans always count from its start.
-/
namespace MoSyntax

namespace Lexeme

/-- A malformed number stands for zero. -/
def numberOf (fractional : Bool) (text : Text) : NumberLiteral :=
  match NumberLiteral.read text with
  | .ok literal => literal
  | .error _ => ⟨(NumberLiteral.splitRadix text).1, fractional, ['0']⟩

def kind : Lexeme → TokenKind
  | word text =>
    match Keyword.ofText? text with
    | some keyword => .keyword keyword
    | none => .identifier text
  | number fractional text => .number (numberOf fractional text)
  | string _ units => .string (StringUnit.valueOf units)
  | comment _ => .comment
  | lineBreak _ => .lineBreak
  | operator sign => .operator sign
  | punctuation mark => .punctuation mark

end Lexeme

/-- A piece and the offset of its first byte. -/
structure PlacedPiece where
  start : Nat
  piece : Piece
deriving DecidableEq, Repr

namespace PlacedPiece

def placeAll : Nat → List Piece → List PlacedPiece
  | _, [] => []
  | start, piece :: pieces =>
    ⟨start, piece⟩ :: placeAll (start + Text.byteSize piece.text) pieces

def span (placed : PlacedPiece) : Span :=
  ⟨placed.start, placed.start + Text.byteSize placed.piece.text⟩

def token? (table : LineTable) (placed : PlacedPiece) : Option Token :=
  match placed.piece with
  | .lexeme lexeme =>
    some ⟨lexeme.kind, lexeme.text, placed.span, table.position placed.start⟩
  | _ => none

def invalidCharacter (span : Span) (c : Char) : Diagnostic :=
  Diagnostic.standard .invalidCharacter ⟨span, "this character is not valid in Mo"⟩
    |>.withMessage ("invalid character `" ++ String.ofList (Text.escaped c) ++ "`")

def unterminatedString (span : Span) : Diagnostic :=
  Diagnostic.standard .unterminatedString ⟨span, "this string is never closed"⟩
    |>.withMessage "unterminated string literal"
    |>.withNote "string literals must end with `\"` on the same line"

def invalidEscape (span : Span) (c : Char) : Diagnostic :=
  Diagnostic.standard .invalidEscape ⟨span, "unknown escape"⟩
    |>.withMessage ("invalid escape sequence `\\" ++ String.ofList (Text.escaped c) ++ "`")

def invalidNumber (span : Span) (error : NumberError) : Diagnostic :=
  Diagnostic.standard .invalidNumberLiteral ⟨span, "this number literal is malformed"⟩
    |>.withMessage error.message

def reports (placed : PlacedPiece) : List Diagnostic :=
  match placed.piece with
  | .invalid c => [invalidCharacter placed.span c]
  | .lexeme (.number _ text) =>
    match NumberLiteral.read text with
    | .ok _ => []
    | .error error => [invalidNumber placed.span error]
  | .lexeme (.string closed units) =>
    (if closed then [] else [unterminatedString placed.span]) ++
      (StringUnit.badEscapes (placed.start + 1) units).map fun bad => invalidEscape bad.1 bad.2
  | _ => []

end PlacedPiece

/-- The tokens end with one for the end of the text. -/
structure Lexed where
  base : Nat
  tokens : List Token
  reports : List Diagnostic
deriving DecidableEq, Repr

namespace Lexed

/-- Reads from an offset on. An offset inside a character or past the end reads nothing. -/
def ofTextFrom (text : Text) (offset : Nat) : Lexed :=
  let table := LineTable.ofText text
  let size := Text.byteSize text
  let rest := (Text.dropBytes? offset text).getD []
  let base := size - Text.byteSize rest
  let placed := PlacedPiece.placeAll base (Piece.split rest)
  { base
    tokens := placed.filterMap (·.token? table) ++ [.endOfFile size (table.position size)]
    reports := placed.flatMap (·.reports) }

def ofText (text : Text) : Lexed := ofTextFrom text 0

end Lexed

end MoSyntax
