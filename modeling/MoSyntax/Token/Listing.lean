import MoSyntax.Text.Escaped
import MoSyntax.Token.Basic

/-! Tokens as a listing shows them: every kind by its full name, with what it carries. -/
namespace MoSyntax

def Radix.listing : Radix → String
  | binary => "Binary"
  | octal => "Octal"
  | decimal => "Decimal"
  | hexadecimal => "Hexadecimal"

def Keyword.listing : Keyword → String
  | useWord => "Use"
  | structWord => "Struct"
  | fnWord => "Fn"
  | forWord => "For"
  | ifWord => "If"
  | elseWord => "Else"
  | retWord => "Ret"
  | deferWord => "Defer"
  | trueWord => "True"
  | falseWord => "False"

def Operator.listing : Operator → String
  | plus => "Plus"
  | minus => "Minus"
  | star => "Star"
  | slash => "Slash"
  | percent => "Percent"
  | ampersand => "Amp"
  | pipe => "Pipe"
  | caret => "Caret"
  | tilde => "Tilde"
  | shiftLeft => "Shl"
  | shiftRight => "Shr"
  | bang => "Bang"
  | equal => "EqEq"
  | notEqual => "NotEq"
  | less => "Lt"
  | greater => "Gt"
  | lessEqual => "LtEq"
  | greaterEqual => "GtEq"
  | assign => "Assign"
  | declare => "ColonAssign"

def Punctuation.listing : Punctuation → String
  | leftParen => "LParen"
  | rightParen => "RParen"
  | leftBrace => "LBrace"
  | rightBrace => "RBrace"
  | leftBracket => "LBracket"
  | rightBracket => "RBracket"
  | comma => "Comma"
  | dot => "Dot"
  | colon => "Colon"

def NumberLiteral.listing (literal : NumberLiteral) : String :=
  "NumberLiteral \x7b radix: " ++ literal.radix.listing ++ ", fractional: " ++
    toString literal.fractional ++ ", digits: " ++
    String.ofList (Text.quoted literal.digits) ++ " \x7d"

def TokenKind.listing : TokenKind → String
  | endOfFile => "Eof"
  | identifier name => "Identifier(" ++ String.ofList (Text.quoted name) ++ ")"
  | number literal => "Literal(Number(" ++ literal.listing ++ "))"
  | string value => "Literal(String(" ++ String.ofList (Text.quoted value) ++ "))"
  | keyword word => "Keyword(" ++ word.listing ++ ")"
  | operator sign => "Operator(" ++ sign.listing ++ ")"
  | punctuation mark => "Punctuation(" ++ mark.listing ++ ")"
  | lineBreak => "LineBreak"
  | comment => "Comment"

/-- The line of a token: its place, its kind and the text it was read from. -/
def Token.listing (token : Token) : String :=
  s!"{token.position.line}:{token.position.column}" ++ "\t" ++ token.kind.listing ++ "\t" ++
    String.ofList (Text.quoted token.lexeme)

end MoSyntax
