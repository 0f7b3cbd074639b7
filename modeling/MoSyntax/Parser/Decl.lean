import MoSyntax.Parser.Stmt

/-!
Declarations, and a whole file of them. Where a declaration cannot be read the file goes on with
the next keyword that begins one.
-/
namespace MoSyntax.Parser

/-- The name that an imported module goes by. -/
def localName : Parser (Option (Located Text)) := do
  let found ← current
  match found.kind with
  | .string value =>
    advance
    return some ⟨found.span, value⟩
  | _ => return none

def useDeclaration : Parser Decl := do
  let opening ← expect (.keyword .useWord) "expected `use`"
  match ← name "expected a module path after `use`" with
  | .ident first => reject (Report.singleSegment first.span first.name)
  | .path path =>
    let alternative ← localName
    let closing := (alternative.map Located.span).getD path.span
    return .importing (opening.through closing) path alternative

def typedName (message : String) (type : Parser TypeExpr) : Parser TypedName := do
  let declared ← ident message
  let declaredType ← type
  return ⟨declared.span.through declaredType.span, declared, declaredType⟩

def isFieldSeparator (kind : TokenKind) : Bool :=
  kind == .lineBreak || kind == .punctuation .comma

def skipFieldSeparators : Parser Unit := do
  skip ((← here).ahead.takeWhile fun token => isFieldSeparator token.kind).length

/-- What follows a field that has been read: a separator, the closing brace, or else nothing that
belongs to the struct. -/
def endField : Parser Unit := do
  let found ← current
  if isFieldSeparator found.kind || found.kind == .punctuation .rightBrace then
    return ()
  else
    report (Report.unexpected "`,`, a line break or `\x7d` after a struct field" found)
    skipStatement

/-- One more field of a struct, or none in its place. -/
def nextField (type : Parser TypeExpr) : Parser (Option (Option TypedName)) := do
  skipFieldSeparators
  let cursor ← here
  if cursor.atEnd || cursor.current.kind == .punctuation .rightBrace ||
      cursor.current.kind.startsDeclaration then
    return none
  else
    match ← recover (typedName "expected a field name" type) skipStatement with
    | some field =>
      endField
      return some (some field)
    | none => return some none

def structDeclaration (type : Parser TypeExpr) : Parser Decl := do
  let opening ← expect (.keyword .structWord) "expected `struct`"
  let declared ← ident "expected a struct name after `struct`"
  skipLineBreaks
  let _ ← expect (.punctuation .leftBrace) "expected `\x7b` to start the struct body"
  let fields ← many (nextField type)
  let closing ← expect (.punctuation .rightBrace) "expected `\x7d` to close the struct body"
  return .record (opening.through closing) declared fields.reduceOption

def parameters (type : Parser TypeExpr) : Parser (List TypedName) := do
  let _ ← expect (.punctuation .leftParen) "expected `(` after the function name"
  let (items, _) ← listUntil (typedName "expected a parameter name" type) .rightParen
    "expected `)` to close the parameter list"
  return items

/-- The type of what a function returns, unless its body comes at once or on the next line. -/
def resultType (type : Parser TypeExpr) : Parser (Option TypeExpr) := do
  let found ← current
  if found.kind == .punctuation .leftBrace || found.kind == .lineBreak then
    return none
  else
    return some (← type)

def fnDeclaration (type : Parser TypeExpr) (stmt : Parser Stmt) : Parser Decl := do
  let opening ← expect (.keyword .fnWord) "expected `fn`"
  let declared ← ident "expected a function name after `fn`"
  let items ← parameters type
  let result ← resultType type
  skipLineBreaks
  let body ← block stmt
  return .function (opening.through body.span) declared items result body

def topLevel (type : Parser TypeExpr) (stmt : Parser Stmt) : Parser Decl := do
  let found ← current
  match found.kind with
  | .keyword .useWord => useDeclaration
  | .keyword .structWord => structDeclaration type
  | .keyword .fnWord => fnDeclaration type stmt
  | _ => reject (Report.unexpected "`use`, `struct` or `fn` at the top level" found)

/-- A declaration that failed may have stopped where the next one begins; only one that has not
moved at all must be left behind. -/
def resynchronize (start : Cursor) : Parser Unit := do
  let cursor ← here
  if cursor.movedSince start.index && cursor.current.kind.startsDeclaration then
    return ()
  else
    skipDeclaration

/-- One more declaration of a file, or none in its place. -/
def nextDeclaration (decl : Parser Decl) : Parser (Option (Option Decl)) := do
  skipLineBreaks
  let start ← here
  if start.atEnd then
    return none
  else
    return some (← recover decl (resynchronize start))

def declarations (limit : Nat) : Parser (List Decl) := do
  let found ← many (nextDeclaration (topLevel (typeExpr limit limit) (statement limit limit)))
  return found.reduceOption

end MoSyntax.Parser
