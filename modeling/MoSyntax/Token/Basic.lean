import MoSyntax.Lines
import MoSyntax.Token.Keyword
import MoSyntax.Token.Number
import MoSyntax.Token.Operator

/-!
Tokens: a kind, the text it was read from, and its place. A line break is a token of its own,
because the grammar lets it separate statements; a comment is one that the grammar never sees.
-/
namespace MoSyntax

inductive TokenKind where
  | endOfFile
  | identifier (name : Text)
  | number (literal : NumberLiteral)
  | string (value : Text)
  | keyword (word : Keyword)
  | operator (sign : Operator)
  | punctuation (mark : Punctuation)
  | lineBreak
  | comment
deriving DecidableEq, Repr

namespace TokenKind

/-- The kind as messages name it. -/
def description : TokenKind → String
  | endOfFile => "end of file"
  | identifier name => "identifier `" ++ String.ofList name ++ "`"
  | number _ => "a number literal"
  | string _ => "a string literal"
  | keyword word => "keyword `" ++ String.ofList word.text ++ "`"
  | operator sign => "operator `" ++ String.ofList sign.symbol ++ "`"
  | punctuation mark => "`" ++ String.ofList [mark.symbol] ++ "`"
  | lineBreak => "a line break"
  | comment => "a comment"

def isIdentifier : TokenKind → Bool
  | identifier _ => true
  | _ => false

def opens : TokenKind → Bool
  | punctuation mark => mark.opens
  | _ => false

def closes : TokenKind → Bool
  | punctuation mark => mark.closes
  | _ => false

def startsDeclaration : TokenKind → Bool
  | keyword word => word.startsDeclaration
  | _ => false

end TokenKind

structure Token where
  kind : TokenKind
  lexeme : Text
  span : Span
  position : Position
deriving DecidableEq, Repr

namespace Token

def isComment (token : Token) : Bool := token.kind == .comment

def isEndOfFile (token : Token) : Bool := token.kind == .endOfFile

def endOfFile (offset : Nat) (position : Position) : Token :=
  ⟨.endOfFile, [], .empty offset, position⟩

def description (token : Token) : String := token.kind.description

end Token

end MoSyntax
