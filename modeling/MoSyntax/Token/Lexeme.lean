import MoSyntax.Token.Operator
import MoSyntax.Token.Quoted

/-!
How a text falls into pieces. A piece is a run of blanks, a lexeme or one character that begins no
lexeme; a lexeme is the longest that the language knows at its place. The texts of the pieces in
order are the text that was split.
-/
namespace MoSyntax

/-- Blanks separate lexemes; line breaks are not blanks. -/
def isBlank (c : Char) : Bool := c == ' ' || c == '\t' || c == '\x0c'

def startsWord (c : Char) : Bool := c.isAlpha || c == '_'

def continuesWord (c : Char) : Bool := c.isAlphanum || c == '_'

def continuesDigits (c : Char) : Bool := c.isDigit || c == '_'

inductive Lexeme where
  | word (text : Text)
  | number (fractional : Bool) (text : Text)
  | string (closed : Bool) (units : List StringUnit)
  | comment (text : Text)
  | lineBreak (text : Text)
  | operator (sign : Operator)
  | punctuation (mark : Punctuation)
deriving DecidableEq, Repr

namespace Lexeme

def text : Lexeme → Text
  | word text => text
  | number _ text => text
  | string closed units => '"' :: StringUnit.textOf units ++ if closed then ['"'] else []
  | comment text => text
  | lineBreak text => text
  | operator sign => sign.symbol
  | punctuation mark => [mark.symbol]

/-- A number that begins a text. A point belongs to it only between digits. -/
def readNumber (text : Text) : Lexeme × Text :=
  let whole := text.takeWhile continuesDigits
  match text.dropWhile continuesDigits with
  | '.' :: c :: rest =>
    if c.isDigit then
      (.number true (whole ++ '.' :: c :: rest.takeWhile continuesWord),
        rest.dropWhile continuesWord)
    else (.number false (text.takeWhile continuesWord), text.dropWhile continuesWord)
  | _ => (.number false (text.takeWhile continuesWord), text.dropWhile continuesWord)

/-- A string whose opening quote has been read; without a closing quote it ends with the line. -/
def readString (text : Text) : Lexeme × Text :=
  match readUnits text with
  | (units, '"' :: rest) => (.string true units, rest)
  | (units, rest) => (.string false units, rest)

/-- An operator or punctuation mark that begins a text. -/
def readSymbol? (text : Text) : Option (Lexeme × Text) :=
  match Operator.leading? text with
  | some found => some (.operator found, text.drop found.symbol.length)
  | none =>
    match text with
    | [] => none
    | c :: rest => (Punctuation.ofChar? c).map fun mark => (.punctuation mark, rest)

/-- The lexeme that begins a text, and what follows it. -/
def read? : Text → Option (Lexeme × Text)
  | '\n' :: rest => some (.lineBreak ['\n'], rest)
  | '\r' :: '\n' :: rest => some (.lineBreak ['\r', '\n'], rest)
  | '/' :: '/' :: rest =>
    some (.comment ('/' :: '/' :: rest.takeWhile (!endsLine ·)), rest.dropWhile (!endsLine ·))
  | '"' :: rest => some (readString rest)
  | c :: rest =>
    if c.isDigit then some (readNumber (c :: rest))
    else if startsWord c then
      some (.word (c :: rest.takeWhile continuesWord), rest.dropWhile continuesWord)
    else readSymbol? (c :: rest)
  | [] => none

end Lexeme

inductive Piece where
  | blanks (text : Text)
  | lexeme (found : Lexeme)
  | invalid (c : Char)
deriving DecidableEq, Repr

namespace Piece

def text : Piece → Text
  | blanks text => text
  | lexeme found => found.text
  | invalid c => [c]

def read : Char → Text → Piece × Text
  | c, rest =>
    if isBlank c then (.blanks (c :: rest.takeWhile isBlank), rest.dropWhile isBlank)
    else
      match Lexeme.read? (c :: rest) with
      | some (found, rest) => (.lexeme found, rest)
      | none => (.invalid c, rest)

def splitUpTo : Nat → Text → List Piece
  | 0, _ => []
  | _ + 1, [] => []
  | count + 1, c :: rest =>
    let (piece, rest) := read c rest
    piece :: splitUpTo count rest

/-- All pieces: no piece is empty, so there are no more of them than characters. -/
def split (text : Text) : List Piece := splitUpTo text.length text

end Piece

end MoSyntax
