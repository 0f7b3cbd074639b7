import MoSyntax.Diagnostic.Basic
import MoSyntax.Token.Basic
import MoSyntax.Tree.Basic

/-!
Tokens, trees and diagnostics with all their spans moved. Each offset goes where a map takes it, and
all else stays.
-/
namespace MoSyntax

variable (move : Nat → Nat)

def Span.relocate (span : Span) : Span := ⟨move span.start, move span.stop⟩

/-- The line and the column stay as they are. -/
def Token.relocate (token : Token) : Token := { token with span := token.span.relocate move }

def Located.relocate {α : Type} (located : Located α) : Located α :=
  ⟨located.span.relocate move, located.value⟩

def Ident.relocate (name : Ident) : Ident := ⟨name.span.relocate move, name.name⟩

def ModulePath.relocate (path : ModulePath) : ModulePath :=
  ⟨path.segments.map (Ident.relocate move)⟩

def Name.relocate : Name → Name
  | ident name => .ident (name.relocate move)
  | path modules => .path (modules.relocate move)

def TypeExpr.relocate : TypeExpr → TypeExpr
  | named name => .named (name.relocate move)
  | pointer span target => .pointer (span.relocate move) target.relocate
  | array span length element =>
    .array (span.relocate move) (length.map (Located.relocate move)) element.relocate
  | skipped span => .skipped (span.relocate move)

mutual

def Expr.relocate : Expr → Expr
  | .number span value => .number (span.relocate move) value
  | .string span value => .string (span.relocate move) value
  | .bool span value => .bool (span.relocate move) value
  | .named name => .named (name.relocate move)
  | .index span target position =>
    .index (span.relocate move) (target.relocate move) position.relocate
  | .call span callee arguments =>
    .call (span.relocate move) (callee.relocate move) (exprsRelocate arguments)
  | .array span elements elementType =>
    .array (span.relocate move) (exprsRelocate elements) (elementType.map (TypeExpr.relocate move))
  | .grouped span inner => .grouped (span.relocate move) inner.relocate
  | .chain span receiver suffixes =>
    .chain (span.relocate move) receiver.relocate (suffixesRelocate suffixes)
  | .unary span operator operand =>
    .unary (span.relocate move) (operator.relocate move) operand.relocate
  | .binary span tier left operator right =>
    .binary (span.relocate move) tier left.relocate (operator.relocate move) right.relocate
  | .skipped span => .skipped (span.relocate move)

def Suffix.relocate : Suffix → Suffix
  | .field span name => .field (span.relocate move) (name.relocate move)
  | .call span name arguments =>
    .call (span.relocate move) (name.relocate move) (exprsRelocate arguments)

def exprsRelocate : List Expr → List Expr
  | [] => []
  | expr :: exprs => expr.relocate :: exprsRelocate exprs

def suffixesRelocate : List Suffix → List Suffix
  | [] => []
  | suffix :: suffixes => suffix.relocate :: suffixesRelocate suffixes

end

mutual

def Stmt.relocate : Stmt → Stmt
  | .forLoop span condition body =>
    .forLoop (span.relocate move) (condition.relocate move) body.relocate
  | .ifElse span condition consequence none =>
    .ifElse (span.relocate move) (condition.relocate move) consequence.relocate none
  | .ifElse span condition consequence (some otherwise) =>
    .ifElse (span.relocate move) (condition.relocate move) consequence.relocate
      (some otherwise.relocate)
  | .ret span value => .ret (span.relocate move) (value.map (Expr.relocate move))
  | .defer span statement => .defer (span.relocate move) statement.relocate
  | .block body => .block body.relocate
  | .declare span name type value =>
    .declare (span.relocate move) (name.relocate move) (type.map (TypeExpr.relocate move))
      (value.relocate move)
  | .assign span target value =>
    .assign (span.relocate move) (target.relocate move) (value.relocate move)
  | .compoundAssign span target operator value =>
    .compoundAssign (span.relocate move) (target.relocate move) (operator.relocate move)
      (value.relocate move)
  | .expression value => .expression (value.relocate move)
  | .skipped span => .skipped (span.relocate move)

def Block.relocate : Block → Block
  | .braces span statements => .braces (span.relocate move) (stmtsRelocate statements)

def stmtsRelocate : List Stmt → List Stmt
  | [] => []
  | statement :: statements => statement.relocate :: stmtsRelocate statements

end

def TypedName.relocate (typed : TypedName) : TypedName :=
  ⟨typed.span.relocate move, typed.name.relocate move, typed.type.relocate move⟩

def Decl.relocate : Decl → Decl
  | importing span path localName =>
    .importing (span.relocate move) (path.relocate move) (localName.map (Located.relocate move))
  | record span name fields =>
    .record (span.relocate move) (name.relocate move) (fields.map (TypedName.relocate move))
  | function span name parameters result body =>
    .function (span.relocate move) (name.relocate move) (parameters.map (TypedName.relocate move))
      (result.map (TypeExpr.relocate move)) (body.relocate move)

def Label.relocate (label : Label) : Label := ⟨label.span.relocate move, label.message⟩

/-- The line and the column stay as they are. -/
def Diagnostic.relocate (diagnostic : Diagnostic) : Diagnostic :=
  { diagnostic with
    primary := diagnostic.primary.relocate move
    secondary := diagnostic.secondary.map (Label.relocate move) }

theorem exprsRelocate_eq (exprs : List Expr) :
    exprsRelocate move exprs = exprs.map (Expr.relocate move) := by
  induction exprs with
  | nil => rfl
  | cons expr exprs ih => rw [exprsRelocate, ih, List.map_cons]

theorem suffixesRelocate_eq (suffixes : List Suffix) :
    suffixesRelocate move suffixes = suffixes.map (Suffix.relocate move) := by
  induction suffixes with
  | nil => rfl
  | cons suffix suffixes ih => rw [suffixesRelocate, ih, List.map_cons]

theorem stmtsRelocate_eq (statements : List Stmt) :
    stmtsRelocate move statements = statements.map (Stmt.relocate move) := by
  induction statements with
  | nil => rfl
  | cons statement statements ih => rw [stmtsRelocate, ih, List.map_cons]

theorem Span.relocate_through (first last : Span) :
    (first.through last).relocate move =
      (first.relocate move).through (last.relocate move) := rfl

/-! What is not moved stays the same. -/

@[simp] theorem Span.relocate_id (span : Span) : span.relocate id = span := rfl

@[simp] theorem Located.relocate_id {α : Type} (located : Located α) :
    located.relocate id = located := rfl

@[simp] theorem Ident.relocate_id (name : Ident) : name.relocate id = name := rfl

theorem map_of_stays {α : Type} {same : α → α} (stays : ∀ value, same value = value)
    (values : List α) : values.map same = values := by
  rw [funext (g := id) stays, List.map_id]

@[simp] theorem ModulePath.relocate_id (path : ModulePath) : path.relocate id = path := by
  rw [relocate, map_of_stays Ident.relocate_id]

@[simp] theorem Name.relocate_id (name : Name) : name.relocate id = name := by
  cases name <;> simp [relocate]

@[simp] theorem TypeExpr.relocate_id (type : TypeExpr) : type.relocate id = type := by
  induction type with
  | named name => simp [relocate]
  | pointer span target ih => simp [relocate, ih]
  | array span length element ih => cases length <;> simp [relocate, ih]
  | skipped span => simp [relocate]

mutual

theorem Expr.relocate_id : (expr : Expr) → expr.relocate id = expr
  | .number _ _ | .string _ _ | .bool _ _ | .skipped _ => by simp [Expr.relocate]
  | .named _ => by simp [Expr.relocate]
  | .index _ _ position => by simp [Expr.relocate, Expr.relocate_id position]
  | .call _ _ arguments => by simp [Expr.relocate, exprsRelocate_id arguments]
  | .array _ elements elementType => by
    cases elementType <;> simp [Expr.relocate, exprsRelocate_id elements]
  | .grouped _ inner => by simp [Expr.relocate, Expr.relocate_id inner]
  | .chain _ receiver suffixes => by
    simp [Expr.relocate, Expr.relocate_id receiver, suffixesRelocate_id suffixes]
  | .unary _ _ operand => by simp [Expr.relocate, Expr.relocate_id operand]
  | .binary _ _ left _ right => by
    simp [Expr.relocate, Expr.relocate_id left, Expr.relocate_id right]

theorem Suffix.relocate_id : (suffix : Suffix) → suffix.relocate id = suffix
  | .field _ _ => by simp [Suffix.relocate]
  | .call _ _ arguments => by simp [Suffix.relocate, exprsRelocate_id arguments]

theorem exprsRelocate_id : (exprs : List Expr) → exprsRelocate id exprs = exprs
  | [] => rfl
  | expr :: exprs => by simp [exprsRelocate, Expr.relocate_id expr, exprsRelocate_id exprs]

theorem suffixesRelocate_id : (suffixes : List Suffix) → suffixesRelocate id suffixes = suffixes
  | [] => rfl
  | suffix :: suffixes => by
    simp [suffixesRelocate, Suffix.relocate_id suffix, suffixesRelocate_id suffixes]

end

attribute [simp] Expr.relocate_id

mutual

theorem Stmt.relocate_id : (statement : Stmt) → statement.relocate id = statement
  | .forLoop _ _ body => by simp [Stmt.relocate, Block.relocate_id body]
  | .ifElse _ _ consequence none => by simp [Stmt.relocate, Block.relocate_id consequence]
  | .ifElse _ _ consequence (some otherwise) => by
    simp [Stmt.relocate, Block.relocate_id consequence, Block.relocate_id otherwise]
  | .ret _ value => by cases value <;> simp [Stmt.relocate]
  | .defer _ statement => by simp [Stmt.relocate, Stmt.relocate_id statement]
  | .block body => by simp [Stmt.relocate, Block.relocate_id body]
  | .declare _ _ type _ => by cases type <;> simp [Stmt.relocate]
  | .assign _ _ _ | .compoundAssign _ _ _ _ | .expression _ | .skipped _ => by
    simp [Stmt.relocate]

theorem Block.relocate_id : (body : Block) → body.relocate id = body
  | .braces _ statements => by simp [Block.relocate, stmtsRelocate_id statements]

theorem stmtsRelocate_id : (statements : List Stmt) → stmtsRelocate id statements = statements
  | [] => rfl
  | statement :: statements => by
    simp [stmtsRelocate, Stmt.relocate_id statement, stmtsRelocate_id statements]

end

@[simp] theorem TypedName.relocate_id (typed : TypedName) : typed.relocate id = typed := by
  simp [relocate]

theorem Decl.relocate_id (declaration : Decl) : declaration.relocate id = declaration := by
  cases declaration with
  | importing span path localName => cases localName <;> simp [relocate]
  | record span name fields => simp [relocate, map_of_stays TypedName.relocate_id]
  | function span name parameters result body =>
    cases result <;> simp [relocate, map_of_stays TypedName.relocate_id, Block.relocate_id]

theorem Label.relocate_id (label : Label) : label.relocate id = label := rfl

theorem Diagnostic.relocate_id (diagnostic : Diagnostic) : diagnostic.relocate id = diagnostic := by
  simp [relocate, Label.relocate_id, map_of_stays Label.relocate_id]

end MoSyntax
