import MoSyntax.Text

/-!
The catalogue of error codes. Codes that begin `E00` come from reading tokens, `E01` from the
grammar and `E02` from the limits on a parse. Codes are looked up without regard to case.
-/
namespace MoSyntax

structure ErrorCode where
  code : String
  message : String
  explanation : String
deriving DecidableEq, Repr

namespace ErrorCode

def invalidCharacter : ErrorCode where
  code := "E0000"
  message := "Invalid character"
  explanation :=
    "The lexer encountered a character that is not part of the Mo language definition. " ++
    "The character is skipped and scanning continues with the next one."

def unterminatedString : ErrorCode where
  code := "E0001"
  message := "Unterminated string literal"
  explanation :=
    "A string literal must be closed by a `\"` on the same line. " ++
    "The literal is treated as ending at the end of the line."

def invalidEscape : ErrorCode where
  code := "E0002"
  message := "Invalid escape sequence"
  explanation :=
    "Only `\\\"`, `\\\\`, `\\n`, `\\r`, `\\t`, `\\0` and `\\'` are valid escapes inside a Mo " ++
    "string literal. The offending escape is kept verbatim."

def invalidNumberLiteral : ErrorCode where
  code := "E0003"
  message := "Invalid number literal"
  explanation :=
    "Number literals are decimal (`42`), fractional (`4.2`), hexadecimal (`0x2A`), octal " ++
    "(`0o52`) or binary (`0b101010`). Digits must be valid for the chosen base; `_` may be " ++
    "used as a separator."

def unexpectedToken : ErrorCode where
  code := "E0100"
  message := "Unexpected token"
  explanation :=
    "The token does not start any construct that is valid at this position. " ++
    "The parser skips to the next line break or closing brace and continues."

def missingExpectedToken : ErrorCode where
  code := "E0101"
  message := "Missing expected token"
  explanation :=
    "The construct being parsed requires a specific token here, such as a closing `)` or " ++
    "`\x7d`, an identifier or a type."

def ambiguousConstruct : ErrorCode where
  code := "E0102"
  message := "Ambiguous construct"
  explanation :=
    "The statement could be read in more than one way and none of the readings is valid. " ++
    "For example, in a compound assignment the operator and `=` must be written together " ++
    "(`x += 1`)."

def recursionLimitExceeded : ErrorCode where
  code := "E0200"
  message := "Nesting limit exceeded"
  explanation :=
    "The source nests expressions, blocks or types deeper than the configured maximum depth. " ++
    "The innermost construct is replaced by an error node and parsing continues after it."

def tokenLimitExceeded : ErrorCode where
  code := "E0201"
  message := "Token limit exceeded"
  explanation :=
    "The source contains more tokens than the configured budget. Tokens past the budget are " ++
    "ignored."

def all : List ErrorCode :=
  [invalidCharacter, unterminatedString, invalidEscape, invalidNumberLiteral, unexpectedToken,
    missingExpectedToken, ambiguousConstruct, recursionLimitExceeded, tokenLimitExceeded]

/-- A code as it is compared: its ASCII letters in lower case. -/
def caseless (code : Text) : Text := code.map Char.toLower

def lookup? (code : Text) : Option ErrorCode :=
  all.find? fun entry => caseless entry.code.toList == caseless code

end ErrorCode

end MoSyntax
