import MoSyntax.Parser.Basic

/-!
How much to skip when a construct cannot be read. Skipping keeps count of the brackets that are
open and stops only outside of them, except that the search for the next declaration looks
everywhere. The count for a statement stays at zero where a bracket closes that is not open; the
count for a subtree has no meaning there.
-/
namespace MoSyntax.Skip

/-- The number of open brackets behind a token, unless it closes one that is not open. -/
def openAfter? (depth : Nat) (kind : TokenKind) : Option Nat :=
  if kind.opens then some (depth + 1)
  else if kind.closes then if depth = 0 then none else some (depth - 1)
  else some depth

/-- The number of open brackets behind a token. -/
def openAfter (depth : Nat) (kind : TokenKind) : Nat := (openAfter? depth kind).getD 0

/-- The number of tokens before the first one outside of brackets that halts. -/
def lengthTo (halts : TokenKind → Bool) : Nat → List Token → Nat
  | _, [] => 0
  | depth, token :: tokens =>
    if depth = 0 ∧ halts token.kind then 0
    else lengthTo halts (openAfter depth token.kind) tokens + 1

/-- A subtree ends at a closing bracket, at a line break and at what its context adds. -/
def endsSubtree (stops : TokenKind → Bool) (kind : TokenKind) : Bool :=
  kind.closes || kind == .lineBreak || stops kind

/-- The number of tokens before the end of a subtree. -/
def subtreeLength? (stops : TokenKind → Bool) : Nat → List Token → Option Nat
  | _, [] => some 0
  | depth, token :: tokens =>
    if depth = 0 ∧ endsSubtree stops token.kind then some 0
    else do
      let depth ← openAfter? depth token.kind
      return (← subtreeLength? stops depth tokens) + 1

def endsStatement (kind : TokenKind) : Bool :=
  kind == .lineBreak || kind == .punctuation .rightBrace

def stopsExpression (kind : TokenKind) : Bool := kind == .punctuation .comma

def stopsStatement (_ : TokenKind) : Bool := false

def stopsType (kind : TokenKind) : Bool :=
  kind == .punctuation .comma || kind == .punctuation .leftBrace ||
    kind == .operator .declare || kind == .operator .assign

end MoSyntax.Skip

namespace MoSyntax.Parser

def skipStatement : Parser Unit := do
  skip (Skip.lengthTo Skip.endsStatement 0 (← here).ahead)

/-- Past the current token, and on to the next declaration. -/
def skipDeclaration : Parser Unit := do
  advance
  skip ((← here).ahead.takeWhile fun token => !token.kind.startsDeclaration).length

/-- Past a subtree, with the span of what was skipped. -/
def skipSubtree (stops : TokenKind → Bool) : Parser (Option Span) := do
  let cursor ← here
  match Skip.subtreeLength? stops 0 cursor.ahead with
  | none => stumble .closing
  | some 0 => return none
  | some (count + 1) =>
    skip (count + 1)
    return some (cursor.current.span.through (cursor.peek count).span)

end MoSyntax.Parser
