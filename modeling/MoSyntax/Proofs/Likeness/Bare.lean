import MoSyntax.Proofs.Likeness.Relocated
import MoSyntax.Proofs.Printing.Shape

/-!
A tree without its spans is the same wherever the tree has been moved to. So trees that come to be
equal when their spans are moved differ in their spans only.
-/
namespace MoSyntax

variable (move : Nat → Nat)

@[simp] theorem Located.bare_relocate {α : Type} (located : Located α) :
    (located.relocate move).bare = located.bare := rfl

@[simp] theorem Ident.bare_relocate (name : Ident) : (name.relocate move).bare = name.bare := rfl

@[simp] theorem ModulePath.bare_relocate (path : ModulePath) :
    (path.relocate move).bare = path.bare := by
  simp [bare, relocate]

@[simp] theorem Name.bare_relocate (name : Name) : (name.relocate move).bare = name.bare := by
  cases name <;> simp [bare, relocate]

@[simp] theorem TypeExpr.bare_relocate (type : TypeExpr) :
    (type.relocate move).bare = type.bare := by
  induction type with
  | named name => simp [bare, relocate]
  | pointer span target ih => simp [bare, relocate, ih]
  | array span length element ih => cases length <;> simp [bare, relocate, ih]
  | skipped span => simp [bare, relocate]

mutual

theorem Expr.bare_relocate : (expr : Expr) → (expr.relocate move).bare = expr.bare
  | .number _ _ | .string _ _ | .bool _ _ | .skipped _ | .named _ => by
    simp [Expr.relocate, Expr.bare]
  | .index _ _ position => by simp [Expr.relocate, Expr.bare, Expr.bare_relocate position]
  | .call _ _ arguments => by simp [Expr.relocate, Expr.bare, exprsBare_relocate arguments]
  | .array _ elements elementType => by
    cases elementType <;> simp [Expr.relocate, Expr.bare, exprsBare_relocate elements]
  | .grouped _ inner => by simp [Expr.relocate, Expr.bare, Expr.bare_relocate inner]
  | .chain _ receiver suffixes => by
    simp [Expr.relocate, Expr.bare, Expr.bare_relocate receiver, suffixesBare_relocate suffixes]
  | .unary _ _ operand => by simp [Expr.relocate, Expr.bare, Expr.bare_relocate operand]
  | .binary _ _ left _ right => by
    simp [Expr.relocate, Expr.bare, Expr.bare_relocate left, Expr.bare_relocate right]

theorem Suffix.bare_relocate : (suffix : Suffix) → (suffix.relocate move).bare = suffix.bare
  | .field _ _ => by simp [Suffix.relocate, Suffix.bare]
  | .call _ _ arguments => by simp [Suffix.relocate, Suffix.bare, exprsBare_relocate arguments]

theorem exprsBare_relocate :
    (exprs : List Expr) → exprsBare (exprsRelocate move exprs) = exprsBare exprs
  | [] => rfl
  | expr :: exprs => by
    simp [exprsRelocate, exprsBare, Expr.bare_relocate expr, exprsBare_relocate exprs]

theorem suffixesBare_relocate :
    (suffixes : List Suffix) → suffixesBare (suffixesRelocate move suffixes) = suffixesBare suffixes
  | [] => rfl
  | suffix :: suffixes => by
    simp [suffixesRelocate, suffixesBare, Suffix.bare_relocate suffix,
      suffixesBare_relocate suffixes]

end

attribute [simp] Expr.bare_relocate

mutual

theorem Stmt.bare_relocate :
    (statement : Stmt) → (statement.relocate move).bare = statement.bare
  | .forLoop _ _ body => by simp [Stmt.relocate, Stmt.bare, Block.bare_relocate body]
  | .ifElse _ _ consequence none => by
    simp [Stmt.relocate, Stmt.bare, Block.bare_relocate consequence]
  | .ifElse _ _ consequence (some otherwise) => by
    simp [Stmt.relocate, Stmt.bare, Block.bare_relocate consequence, Block.bare_relocate otherwise]
  | .ret _ value => by cases value <;> simp [Stmt.relocate, Stmt.bare]
  | .defer _ statement => by simp [Stmt.relocate, Stmt.bare, Stmt.bare_relocate statement]
  | .block body => by simp [Stmt.relocate, Stmt.bare, Block.bare_relocate body]
  | .declare _ _ type _ => by cases type <;> simp [Stmt.relocate, Stmt.bare]
  | .assign _ _ _ | .compoundAssign _ _ _ _ | .expression _ | .skipped _ => by
    simp [Stmt.relocate, Stmt.bare]

theorem Block.bare_relocate : (body : Block) → (body.relocate move).bare = body.bare
  | .braces _ statements => by simp [Block.relocate, Block.bare, stmtsBare_relocate statements]

theorem stmtsBare_relocate :
    (statements : List Stmt) → stmtsBare (stmtsRelocate move statements) = stmtsBare statements
  | [] => rfl
  | statement :: statements => by
    simp [stmtsRelocate, stmtsBare, Stmt.bare_relocate statement, stmtsBare_relocate statements]

end

@[simp] theorem TypedName.bare_relocate (typed : TypedName) :
    (typed.relocate move).bare = typed.bare := by
  simp [relocate, bare]

theorem Decl.bare_relocate (declaration : Decl) :
    (declaration.relocate move).bare = declaration.bare := by
  cases declaration with
  | importing span path localName => cases localName <;> simp [relocate, bare]
  | record span name fields => simp [relocate, bare]
  | function span name parameters result body =>
    cases result <;> simp [relocate, bare, Block.bare_relocate]

theorem Program.bare_eq {first second : Program}
    (same : first.declarations.map (Decl.relocate move) =
      second.declarations.map (Decl.relocate move)) : first.bare = second.bare := by
  have bare (program : Program) :
      program.bare = ⟨.empty 0, (program.declarations.map (Decl.relocate move)).map Decl.bare⟩ := by
    rw [List.map_map, Program.bare]
    exact congrArg _ (List.map_congr_left fun declaration _ =>
      (Decl.bare_relocate move declaration).symm)
  rw [bare, bare, same]

end MoSyntax
