import MoSyntax.Parser.TypeExpr

/-!
Expressions. Binary operators of one tier associate to the left, and a tier reads its operands by
the next tighter one; the tightest reads unary expressions, which are primaries with dots behind.
A line break may follow a binary operator but not precede it.
-/
namespace MoSyntax.Parser

/-- Values that stand for themselves. -/
def constant? (found : Token) : Option Expr :=
  match found.kind with
  | .number literal => some (.number found.span literal)
  | .string value => some (.string found.span value)
  | .keyword .trueWord => some (.bool found.span true)
  | .keyword .falseWord => some (.bool found.span false)
  | _ => none

def expressionList (expr : Parser Expr) (closing : Punctuation) : Parser (List Expr × Span) :=
  listUntil expr closing ("expected `" ++ String.ofList [closing.symbol] ++ "` to close the list")

def grouped (expr : Parser Expr) : Parser Expr := do
  let opening ← current
  advance
  skipLineBreaks
  let inner ← expr
  skipLineBreaks
  let closing ← expect (.punctuation .rightParen)
    "expected `)` to close the parenthesized expression"
  return .grouped (opening.span.through closing) inner

/-- A name, with at most one index or argument list. -/
def nameOrCall (expr : Parser Expr) : Parser Expr := do
  let target ← name "expected a variable or function name"
  if ← accept (.punctuation .leftBracket) then
    skipLineBreaks
    let position ← expr
    skipLineBreaks
    let closing ← expect (.punctuation .rightBracket) "expected `]` to close the index"
    return .index (target.span.through closing) target position
  else if ← accept (.punctuation .leftParen) then
    let (arguments, closing) ← expressionList expr .rightParen
    return .call (target.span.through closing) target arguments
  else
    return .named target

/-- The element type of an array literal, tried only where a name or a bracket follows. -/
def elementType (type : Parser TypeExpr) : Parser (Option TypeExpr) := do
  let found ← current
  if found.kind.isIdentifier || found.kind == .punctuation .leftBracket then
    attempt .elementType type
  else
    return none

def arrayLiteral (type : Parser TypeExpr) (expr : Parser Expr) : Parser Expr := do
  let opening ← expect (.punctuation .leftBracket) "expected `[` to start an array literal"
  let (elements, closing) ← expressionList expr .rightBracket
  let type? ← elementType type
  return .array (opening.through ((type?.map TypeExpr.span).getD closing)) elements type?

def primary (type : Parser TypeExpr) (expr : Parser Expr) : Parser Expr := do
  let found ← current
  match constant? found with
  | some value =>
    advance
    return value
  | none =>
    match found.kind with
    | .punctuation .leftParen => grouped expr
    | .punctuation .leftBracket => arrayLiteral type expr
    | .identifier _ => nameOrCall expr
    | _ => reject (Report.unexpected "an expression" found)

/-- A dot with a field, or with a method and its arguments. -/
def nextSuffix (expr : Parser Expr) : Parser (Option Suffix) := do
  let dot ← current
  if ← accept (.punctuation .dot) then
    let member ← ident "expected a field or method name after `.`"
    if ← accept (.punctuation .leftParen) then
      let (arguments, closing) ← expressionList expr .rightParen
      return some (.call (dot.span.through closing) member arguments)
    else
      return some (.field (dot.span.through member.span) member)
  else
    return none

def chain (type : Parser TypeExpr) (expr : Parser Expr) : Parser Expr := do
  let receiver ← primary type expr
  let suffixes ← many (nextSuffix expr)
  match suffixes.getLast? with
  | none => return receiver
  | some last => return .chain (receiver.span.through last.span) receiver suffixes

def prefixOperator? : TokenKind → Option UnaryOperator
  | .operator sign => UnaryOperator.ofSign? sign
  | _ => none

/-- At most one operator before a chain. -/
def unary (type : Parser TypeExpr) (expr : Parser Expr) : Parser Expr := do
  let found ← current
  match prefixOperator? found.kind with
  | none => chain type expr
  | some operator =>
    advance
    let operand ← chain type expr
    return .unary (found.span.through operand.span) ⟨found.span, operator⟩ operand

/-- The operator of a tier that a token stands for. -/
def tierOperator? (tier : Precedence) : TokenKind → Option BinaryOperator
  | .operator sign => (BinaryOperator.ofSign? sign).filter fun operator =>
    operator.precedence == tier
  | _ => none

/-- One more operator of a tier, and its right operand. -/
def nextOperand (tier : Precedence) (operand : Parser Expr) :
    Parser (Option (Located BinaryOperator × Expr)) := do
  let found ← current
  match tierOperator? tier found.kind with
  | none => return none
  | some operator =>
    advance
    skipLineBreaks
    return some (⟨found.span, operator⟩, ← operand)

def join (tier : Precedence) (left : Expr) (next : Located BinaryOperator × Expr) : Expr :=
  .binary (left.span.through next.2.span) tier left next.1 next.2

def binaryTier (tier : Precedence) (operand : Parser Expr) : Parser Expr := do
  let first ← operand
  return (← many (nextOperand tier operand)).foldl (join tier) first

/-- An expression whose types and inner expressions are read by the given parsers. -/
def exprLevel (type : Parser TypeExpr) (expr : Parser Expr) : Parser Expr :=
  Precedence.all.foldr binaryTier (unary type expr)

def expression (limit : Nat) : Nat → Cursor → Reply Expr
  | 0, cursor => tooDeep limit Skip.stopsExpression .skipped cursor
  | budget + 1, cursor =>
    inside (limit - budget) (exprLevel (typeExpr limit budget) (expression limit budget)) cursor

end MoSyntax.Parser
