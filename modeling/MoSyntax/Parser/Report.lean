import MoSyntax.Diagnostic.Basic
import MoSyntax.Token.Basic

/-! The words for what the grammar misses or does not expect. -/
namespace MoSyntax.Report

/-- No construct that may stand here begins with the token. -/
def unexpected (expected : String) (found : Token) : Diagnostic :=
  Diagnostic.standard .unexpectedToken ⟨found.span, "unexpected " ++ found.description⟩
    |>.withMessage ("expected " ++ expected ++ ", found " ++ found.description)

def missing (expected : String) (message : String) (found : Token) : Diagnostic :=
  Diagnostic.standard .missingExpectedToken
      ⟨found.span, "expected " ++ expected ++ ", found " ++ found.description⟩
    |>.withMessage message

def unclosedBlock (opening : Span) (found : Token) : Diagnostic :=
  missing "`\x7d`" "expected `\x7d` to close the code block" found
    |>.withLabel ⟨opening, "block opened here"⟩

def singleSegment (span : Span) (name : Text) : Diagnostic :=
  Diagnostic.standard .missingExpectedToken ⟨span, "a single identifier is not a module path"⟩
    |>.withMessage ("expected `:` after `" ++ String.ofList name ++ "` in module path")
    |>.withNote "module paths look like `std:io`"

def lengthNotDecimal (found : Token) : Diagnostic :=
  Diagnostic.standard .missingExpectedToken ⟨found.span, "not a decimal integer"⟩
    |>.withMessage
      ("array length `" ++ String.ofList found.lexeme ++ "` must be a decimal integer")

def spacedCompound (sign : Operator) (span : Span) : Diagnostic :=
  let symbol := String.ofList sign.symbol
  Diagnostic.standard .ambiguousConstruct ⟨span, "separated by whitespace"⟩
    |>.withMessage ("`" ++ symbol ++ "` and `=` must be adjacent in a compound assignment")
    |>.withNote ("write `" ++ symbol ++ "=` without a space")

def tooDeep (limit : Nat) (span : Span) : Diagnostic :=
  Diagnostic.standard .recursionLimitExceeded ⟨span, "nesting limit reached here"⟩
    |>.withMessage s!"nesting exceeds the limit of {limit} levels"
    |>.withNote "the rest of this construct was skipped"

def tooManyTokens (limit : Nat) (span : Span) : Diagnostic :=
  Diagnostic.standard .tokenLimitExceeded ⟨span, "parsing stopped here"⟩
    |>.withMessage s!"input exceeds the limit of {limit} tokens"

end MoSyntax.Report
