import MoSyntax.Parser.Basic
import MoSyntax.Parser.Report
import MoSyntax.Tree.Basic

/-! Single tokens, names, and lists between brackets: the phrases that all constructs share. -/
namespace MoSyntax.Parser

def check (kind : TokenKind) : Parser Bool := do return (← current).kind == kind

/-- Passes the current token if it is of the kind. -/
def accept (kind : TokenKind) : Parser Bool := do
  if ← check kind then
    advance
    return true
  else
    return false

/-- Passes a token of the kind, which has to be there. -/
def expect (kind : TokenKind) (message : String) : Parser Span := do
  let found ← current
  if found.kind == kind then
    advance
    return found.span
  else
    reject (Report.missing kind.description message found)

/-- How many line breaks come next. -/
def lineBreaksAhead (tokens : List Token) : Nat :=
  (tokens.takeWhile fun token => token.kind == .lineBreak).length

def skipLineBreaks : Parser Unit := do skip (lineBreaksAhead (← here).ahead)

def ident (message : String) : Parser Ident := do
  let found ← current
  match found.kind with
  | .identifier name =>
    advance
    return ⟨found.span, name⟩
  | _ => reject (Report.missing "an identifier" message found)

/-- One more segment of a path; a colon without a name behind it is left alone. -/
def nextSegment : Parser (Option Ident) := do
  let cursor ← here
  if cursor.current.kind == .punctuation .colon && (cursor.peek 1).kind.isIdentifier then
    advance
    return some (← ident "expected a path segment after `:`")
  else
    return none

def name (message : String) : Parser Name := do
  let first ← ident message
  match ← many nextSegment with
  | [] => return .ident first
  | rest => return .path ⟨first :: rest⟩

def nextItem {α : Type} (item : Parser α) : Parser (Option α) := do
  if ← accept (.punctuation .comma) then
    skipLineBreaks
    let value ← item
    skipLineBreaks
    return some value
  else
    return none

def commaSeparated {α : Type} (item : Parser α) : Parser (List α) := do
  let first ← item
  skipLineBreaks
  return first :: (← many (nextItem item))

def itemsBefore {α : Type} (item : Parser α) (closing : Punctuation) : Parser (List α) := do
  skipLineBreaks
  if ← check (.punctuation closing) then return [] else commaSeparated item

/-- The items up to a closing mark, and the span of that mark. -/
def listUntil {α : Type} (item : Parser α) (closing : Punctuation) (message : String) :
    Parser (List α × Span) := do
  let items ← itemsBefore item closing
  return (items, ← expect (.punctuation closing) message)

end MoSyntax.Parser
