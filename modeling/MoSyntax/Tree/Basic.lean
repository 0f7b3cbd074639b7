import MoSyntax.Span
import MoSyntax.Token.Number
import MoSyntax.Tree.Operator

/-!
The syntax tree. Every construct carries the span it covers, except where a part covers the same.
A `skipped` leaf stands for what lay too deep to be read.
-/
namespace MoSyntax

structure Located (α : Type) where
  span : Span
  value : α
deriving DecidableEq, Repr

structure Ident where
  span : Span
  name : Text
deriving DecidableEq, Repr

/-- Names with colons between them. -/
structure ModulePath where
  segments : List Ident
deriving DecidableEq, Repr

def ModulePath.span (path : ModulePath) : Span :=
  match path.segments.head?, path.segments.getLast? with
  | some first, some last => first.span.through last.span
  | _, _ => .empty 0

inductive Name where
  | ident (name : Ident)
  | path (modules : ModulePath)
deriving DecidableEq, Repr

def Name.span : Name → Span
  | ident name => name.span
  | path modules => modules.span

inductive TypeExpr where
  | named (name : Name)
  | pointer (span : Span) (target : TypeExpr)
  | array (span : Span) (length : Option (Located NumberLiteral)) (element : TypeExpr)
  | skipped (span : Span)
deriving DecidableEq, Repr

def TypeExpr.span : TypeExpr → Span
  | named name => name.span
  | pointer span _ | array span _ _ | skipped span => span

mutual

inductive Expr where
  | number (span : Span) (value : NumberLiteral)
  | string (span : Span) (value : Text)
  | bool (span : Span) (value : Bool)
  | named (name : Name)
  | index (span : Span) (target : Name) (position : Expr)
  | call (span : Span) (callee : Name) (arguments : List Expr)
  | array (span : Span) (elements : List Expr) (elementType : Option TypeExpr)
  | grouped (span : Span) (inner : Expr)
  | chain (span : Span) (receiver : Expr) (suffixes : List Suffix)
  | unary (span : Span) (operator : Located UnaryOperator) (operand : Expr)
  | binary (span : Span) (tier : Precedence) (left : Expr) (operator : Located BinaryOperator)
      (right : Expr)
  | skipped (span : Span)
deriving BEq, Repr

/-- What follows a dot. -/
inductive Suffix where
  | field (span : Span) (name : Ident)
  | call (span : Span) (name : Ident) (arguments : List Expr)
deriving BEq, Repr

end

def Expr.span : Expr → Span
  | named name => name.span
  | number span _ | string span _ | bool span _ | index span _ _ | call span _ _ | array span _ _
  | grouped span _ | chain span _ _ | unary span _ _ | binary span _ _ _ _ | skipped span => span

def Suffix.span : Suffix → Span
  | field span _ | call span _ _ => span

mutual

inductive Stmt where
  | forLoop (span : Span) (condition : Expr) (body : Block)
  | ifElse (span : Span) (condition : Expr) (consequence : Block) (otherwise : Option Block)
  | ret (span : Span) (value : Option Expr)
  | defer (span : Span) (statement : Stmt)
  | block (body : Block)
  | declare (span : Span) (name : Ident) (type : Option TypeExpr) (value : Expr)
  | assign (span : Span) (target : Expr) (value : Expr)
  | compoundAssign (span : Span) (target : Expr) (operator : Located BinaryOperator) (value : Expr)
  | expression (value : Expr)
  | skipped (span : Span)
deriving BEq, Repr

inductive Block where
  | braces (span : Span) (statements : List Stmt)
deriving BEq, Repr

end

def Block.span : Block → Span
  | braces span _ => span

def Block.statements : Block → List Stmt
  | braces _ statements => statements

def Stmt.span : Stmt → Span
  | block body => body.span
  | expression value => value.span
  | forLoop span _ _ | ifElse span _ _ _ | ret span _ | defer span _ | declare span _ _ _
  | assign span _ _ | compoundAssign span _ _ _ | skipped span => span

/-- A name with a type: a field of a struct or a parameter of a function. -/
structure TypedName where
  span : Span
  name : Ident
  type : TypeExpr
deriving DecidableEq, Repr

inductive Decl where
  | importing (span : Span) (path : ModulePath) (localName : Option (Located Text))
  | record (span : Span) (name : Ident) (fields : List TypedName)
  | function (span : Span) (name : Ident) (parameters : List TypedName)
      (result : Option TypeExpr) (body : Block)
deriving BEq, Repr

def Decl.span : Decl → Span
  | importing span _ _ | record span _ _ | function span _ _ _ _ => span

structure Program where
  span : Span
  declarations : List Decl
deriving BEq, Repr

end MoSyntax
