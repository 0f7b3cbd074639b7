import MoSyntax.Parser.Expr

/-!
Statements and blocks. A statement that begins with no keyword is, in this order of preference, a
declaration `x := v`, a declaration with a type `x T := v`, an assignment `e = v`, a compound
assignment `e += v`, or an expression. A block goes on behind a statement that cannot be read, and
it ends at the latest where the next declaration begins.
-/
namespace MoSyntax.Parser

/-- One more statement of a block, or none in its place. -/
def nextStatement (stmt : Parser Stmt) : Parser (Option (Option Stmt)) := do
  skipLineBreaks
  let cursor ← here
  if cursor.atEnd || cursor.current.kind == .punctuation .rightBrace ||
      cursor.current.kind.startsDeclaration then
    return none
  else
    return some (← recover stmt skipStatement)

/-- The end of a block: its brace, or without one the token before. -/
def closeBlock (opening : Span) : Parser Span := do
  let cursor ← here
  if cursor.current.kind == .punctuation .rightBrace then
    advance
    return cursor.current.span
  else
    report (Report.unclosedBlock opening cursor.current)
    return (← previous).span

def block (stmt : Parser Stmt) : Parser Block := do
  let opening ← expect (.punctuation .leftBrace) "expected `\x7b` to start a code block"
  let statements ← many (nextStatement stmt)
  let closing ← closeBlock opening
  return .braces (opening.through closing) statements.reduceOption

def forLoop (expr : Parser Expr) (stmt : Parser Stmt) : Parser Stmt := do
  let opening ← expect (.keyword .forWord) "expected `for`"
  let condition ← expr
  skipLineBreaks
  let body ← block stmt
  return .forLoop (opening.through body.span) condition body

/-- The block behind `else`, which may stand on a later line. -/
def elseBlock (stmt : Parser Stmt) : Parser (Option Block) := do
  let cursor ← here
  let breaks := lineBreaksAhead cursor.ahead
  if (cursor.peek breaks).kind == .keyword .elseWord then
    skip (breaks + 1)
    skipLineBreaks
    return some (← block stmt)
  else
    return none

def ifElse (expr : Parser Expr) (stmt : Parser Stmt) : Parser Stmt := do
  let opening ← expect (.keyword .ifWord) "expected `if`"
  let condition ← expr
  skipLineBreaks
  let consequence ← block stmt
  let otherwise ← elseBlock stmt
  let closing := (otherwise.map Block.span).getD consequence.span
  return .ifElse (opening.through closing) condition consequence otherwise

def ret (expr : Parser Expr) : Parser Stmt := do
  let opening ← expect (.keyword .retWord) "expected `ret`"
  let cursor ← here
  if cursor.atEnd || cursor.current.kind == .lineBreak ||
      cursor.current.kind == .punctuation .rightBrace then
    return .ret opening none
  else
    let value ← expr
    return .ret (opening.through value.span) (some value)

def defer (stmt : Parser Stmt) : Parser Stmt := do
  let opening ← expect (.keyword .deferWord) "expected `defer`"
  let statement ← stmt
  return .defer (opening.through statement.span) statement

/-- What comes before the value of a declaration with a type. -/
def typedHead (type : Parser TypeExpr) : Parser (Ident × TypeExpr) := do
  let declared ← ident "expected a variable name"
  let declaredType ← type
  let _ ← expect (.operator .declare) "expected `:=` after the declared type"
  return (declared, declaredType)

/-- A declaration. Behind `:=` there is no way back. -/
def declaration (type : Parser TypeExpr) (expr : Parser Expr) : Parser (Option Stmt) := do
  let cursor ← here
  if !cursor.current.kind.isIdentifier then
    return none
  else if (cursor.peek 1).kind == .operator .declare then
    let declared ← ident "expected a variable name"
    advance
    let value ← expr
    return some (.declare (declared.span.through value.span) declared none value)
  else
    match ← attempt .typedDeclaration (typedHead type) with
    | none => return none
    | some (declared, declaredType) =>
      let value ← expr
      return some (.declare (declared.span.through value.span) declared (some declaredType) value)

/-- The operator of a compound assignment: the next token is `=`, close to it or not. -/
def compoundOperator? (cursor : Cursor) : Option (Operator × BinaryOperator) :=
  match cursor.current.kind with
  | .operator sign =>
    if (cursor.peek 1).kind == .operator .assign then
      (BinaryOperator.ofCompoundSign? sign).map fun operator => (sign, operator)
    else none
  | _ => none

/-- An assignment of either form; an expression alone is declined. -/
def assignment (target : Parser Expr) (expr : Parser Expr) : Parser (Option Stmt) := do
  let target ← target
  let cursor ← here
  if ← accept (.operator .assign) then
    let value ← expr
    return some (.assign (target.span.through value.span) target value)
  else
    match compoundOperator? cursor with
    | none => return none
    | some (sign, operator) =>
      let found := cursor.current.span
      let equals := (cursor.peek 1).span
      if found.stop == equals.start then
        skip 2
        let value ← expr
        return some
          (.compoundAssign (target.span.through value.span) target ⟨found, operator⟩ value)
      else
        reject (Report.spacedCompound sign (found.through equals))

def expressionStatement (expr : Parser Expr) : Parser Stmt := do
  note (.plainStatement (← current).position)
  return .expression (← expr)

def simpleStatement (type : Parser TypeExpr) (expr : Parser Expr) : Parser Stmt := do
  match ← declaration type expr with
  | some statement => return statement
  | none => unlessDeclined (assignment (unary type expr) expr) (expressionStatement expr)

/-- A statement whose parts are read by the given parsers. -/
def stmtLevel (type : Parser TypeExpr) (expr : Parser Expr) (stmt : Parser Stmt) :
    Parser Stmt := do
  match (← current).kind with
  | .keyword .forWord => forLoop expr stmt
  | .keyword .ifWord => ifElse expr stmt
  | .keyword .retWord => ret expr
  | .keyword .deferWord => defer stmt
  | .punctuation .leftBrace => return .block (← block stmt)
  | _ => simpleStatement type expr

def statement (limit : Nat) : Nat → Cursor → Reply Stmt
  | 0, cursor => tooDeep limit Skip.stopsStatement .skipped cursor
  | budget + 1, cursor =>
    inside (limit - budget)
      (stmtLevel (typeExpr limit budget) (expression limit budget) (statement limit budget)) cursor

end MoSyntax.Parser
