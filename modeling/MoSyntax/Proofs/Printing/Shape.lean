import MoSyntax.Proofs.Printing.Spelling
import MoSyntax.Proofs.Yield.Kinds

/-!
The trees that can be printed. In a well-formed tree nothing was skipped and every operand binds as
tightly as its place asks. Trees are compared without their spans, and their nesting counts the
levels that the reader of statements, full expressions and types goes down.
-/
namespace MoSyntax

def deepest (levels : List Nat) : Nat := levels.foldr max 0

theorem deepest_le {levels : List Nat} {bound : Nat} :
    deepest levels ≤ bound ↔ ∀ level ∈ levels, level ≤ bound := by
  induction levels with
  | nil => simp [deepest]
  | cons level levels ih =>
    rw [deepest, List.foldr_cons, ← deepest, Nat.max_le, ih, List.forall_mem_cons]

/-! The tree without spans. -/

def Located.bare {α : Type} (located : Located α) : Located α := ⟨.empty 0, located.value⟩

def Ident.bare (name : Ident) : Ident := ⟨.empty 0, name.name⟩

def ModulePath.bare (path : ModulePath) : ModulePath := ⟨path.segments.map Ident.bare⟩

def Name.bare : Name → Name
  | ident name => .ident name.bare
  | path modules => .path modules.bare

def TypeExpr.bare : TypeExpr → TypeExpr
  | named name => .named name.bare
  | pointer _ target => .pointer (.empty 0) target.bare
  | array _ length element => .array (.empty 0) (length.map Located.bare) element.bare
  | skipped _ => .skipped (.empty 0)

mutual

def Expr.bare : Expr → Expr
  | .number _ value => .number (.empty 0) value
  | .string _ value => .string (.empty 0) value
  | .bool _ value => .bool (.empty 0) value
  | .named name => .named name.bare
  | .index _ target position => .index (.empty 0) target.bare position.bare
  | .call _ callee arguments => .call (.empty 0) callee.bare (exprsBare arguments)
  | .array _ elements elementType =>
    .array (.empty 0) (exprsBare elements) (elementType.map TypeExpr.bare)
  | .grouped _ inner => .grouped (.empty 0) inner.bare
  | .chain _ receiver suffixes => .chain (.empty 0) receiver.bare (suffixesBare suffixes)
  | .unary _ operator operand => .unary (.empty 0) operator.bare operand.bare
  | .binary _ tier left operator right =>
    .binary (.empty 0) tier left.bare operator.bare right.bare
  | .skipped _ => .skipped (.empty 0)

def Suffix.bare : Suffix → Suffix
  | .field _ name => .field (.empty 0) name.bare
  | .call _ name arguments => .call (.empty 0) name.bare (exprsBare arguments)

def exprsBare : List Expr → List Expr
  | [] => []
  | expr :: exprs => expr.bare :: exprsBare exprs

def suffixesBare : List Suffix → List Suffix
  | [] => []
  | suffix :: suffixes => suffix.bare :: suffixesBare suffixes

end

mutual

def Stmt.bare : Stmt → Stmt
  | .forLoop _ condition body => .forLoop (.empty 0) condition.bare body.bare
  | .ifElse _ condition consequence none =>
    .ifElse (.empty 0) condition.bare consequence.bare none
  | .ifElse _ condition consequence (some otherwise) =>
    .ifElse (.empty 0) condition.bare consequence.bare (some otherwise.bare)
  | .ret _ value => .ret (.empty 0) (value.map Expr.bare)
  | .defer _ statement => .defer (.empty 0) statement.bare
  | .block body => .block body.bare
  | .declare _ name type value =>
    .declare (.empty 0) name.bare (type.map TypeExpr.bare) value.bare
  | .assign _ target value => .assign (.empty 0) target.bare value.bare
  | .compoundAssign _ target operator value =>
    .compoundAssign (.empty 0) target.bare operator.bare value.bare
  | .expression value => .expression value.bare
  | .skipped _ => .skipped (.empty 0)

def Block.bare : Block → Block
  | .braces _ statements => .braces (.empty 0) (stmtsBare statements)

def stmtsBare : List Stmt → List Stmt
  | [] => []
  | statement :: statements => statement.bare :: stmtsBare statements

end

def TypedName.bare (typed : TypedName) : TypedName :=
  ⟨.empty 0, typed.name.bare, typed.type.bare⟩

def Decl.bare : Decl → Decl
  | importing _ path localName => .importing (.empty 0) path.bare (localName.map Located.bare)
  | record _ name fields => .record (.empty 0) name.bare (fields.map TypedName.bare)
  | function _ name parameters result body =>
    .function (.empty 0) name.bare (parameters.map TypedName.bare) (result.map TypeExpr.bare)
      body.bare

def Program.bare (program : Program) : Program :=
  ⟨.empty 0, program.declarations.map Decl.bare⟩

theorem exprsBare_eq (exprs : List Expr) : exprsBare exprs = exprs.map Expr.bare := by
  induction exprs with
  | nil => rfl
  | cons expr exprs ih => rw [exprsBare, ih, List.map_cons]

theorem suffixesBare_eq (suffixes : List Suffix) :
    suffixesBare suffixes = suffixes.map Suffix.bare := by
  induction suffixes with
  | nil => rfl
  | cons suffix suffixes ih => rw [suffixesBare, ih, List.map_cons]

theorem stmtsBare_eq (statements : List Stmt) :
    stmtsBare statements = statements.map Stmt.bare := by
  induction statements with
  | nil => rfl
  | cons statement statements ih => rw [stmtsBare, ih, List.map_cons]

/-! Well-formed trees. -/

def ModulePath.wellFormed (path : ModulePath) : Bool := 2 ≤ path.segments.length

def Name.wellFormed : Name → Bool
  | ident _ => true
  | path modules => modules.wellFormed

def NumberLiteral.countsItems (literal : NumberLiteral) : Bool :=
  literal.radix == .decimal && !literal.fractional

def TypeExpr.wellFormed : TypeExpr → Bool
  | named name => name.wellFormed
  | pointer _ target => target.wellFormed
  | array _ length element =>
    length.all (fun length => length.value.countsItems) && element.wellFormed
  | skipped _ => false

def TypeExpr.isPointer : TypeExpr → Bool
  | pointer _ _ => true
  | _ => false

/-- How tightly an expression binds: from the tiers of binary operators over unary expressions and
chains of dots to primaries. -/
def Expr.level : Expr → Nat
  | binary _ tier _ _ _ => tier.level
  | unary _ _ _ => 4
  | chain _ _ _ => 5
  | _ => 6

mutual

/-- An operand binds as tightly as its place asks, and only the left operand of a binary operator
may be of the same tier. -/
def Expr.wellFormed : Expr → Bool
  | .number _ _ | .string _ _ | .bool _ _ => true
  | .named name => name.wellFormed
  | .index _ target position => target.wellFormed && position.wellFormed
  | .call _ callee arguments => callee.wellFormed && exprsWellFormed arguments
  | .array _ elements elementType =>
    exprsWellFormed elements && elementType.all fun type => type.wellFormed && !type.isPointer
  | .grouped _ inner => inner.wellFormed
  | .chain _ receiver suffixes =>
    receiver.level == 6 && !suffixes.isEmpty && receiver.wellFormed && suffixesWellFormed suffixes
  | .unary _ _ operand => 5 ≤ operand.level && operand.wellFormed
  | .binary _ tier left operator right =>
    operator.value.precedence == tier && tier.level ≤ left.level && tier.level < right.level &&
      left.wellFormed && right.wellFormed
  | .skipped _ => false

def Suffix.wellFormed : Suffix → Bool
  | .field _ _ => true
  | .call _ _ arguments => exprsWellFormed arguments

def exprsWellFormed : List Expr → Bool
  | [] => true
  | expr :: exprs => expr.wellFormed && exprsWellFormed exprs

def suffixesWellFormed : List Suffix → Bool
  | [] => true
  | suffix :: suffixes => suffix.wellFormed && suffixesWellFormed suffixes

end

mutual

/-- What is assigned to binds at least as tightly as a unary expression. -/
def Stmt.wellFormed : Stmt → Bool
  | .forLoop _ condition body => condition.wellFormed && body.wellFormed
  | .ifElse _ condition consequence none => condition.wellFormed && consequence.wellFormed
  | .ifElse _ condition consequence (some otherwise) =>
    condition.wellFormed && consequence.wellFormed && otherwise.wellFormed
  | .ret _ value => value.all Expr.wellFormed
  | .defer _ statement => statement.wellFormed
  | .block body => body.wellFormed
  | .declare _ _ type value => type.all TypeExpr.wellFormed && value.wellFormed
  | .assign _ target value => 4 ≤ target.level && target.wellFormed && value.wellFormed
  | .compoundAssign _ target operator value =>
    operator.value.compounds && 4 ≤ target.level && target.wellFormed && value.wellFormed
  | .expression value => value.wellFormed
  | .skipped _ => false

def Block.wellFormed : Block → Bool
  | .braces _ statements => stmtsWellFormed statements

def stmtsWellFormed : List Stmt → Bool
  | [] => true
  | statement :: statements => statement.wellFormed && stmtsWellFormed statements

end

def Decl.wellFormed : Decl → Bool
  | importing _ path _ => path.wellFormed
  | record _ _ fields => fields.all fun field => field.type.wellFormed
  | function _ _ parameters result body =>
    (parameters.all fun parameter => parameter.type.wellFormed) && result.all TypeExpr.wellFormed &&
      body.wellFormed

theorem exprsWellFormed_eq (exprs : List Expr) : exprsWellFormed exprs = exprs.all Expr.wellFormed := by
  induction exprs with
  | nil => rfl
  | cons expr exprs ih => rw [exprsWellFormed, ih, List.all_cons]

theorem suffixesWellFormed_eq (suffixes : List Suffix) :
    suffixesWellFormed suffixes = suffixes.all Suffix.wellFormed := by
  induction suffixes with
  | nil => rfl
  | cons suffix suffixes ih => rw [suffixesWellFormed, ih, List.all_cons]

theorem stmtsWellFormed_eq (statements : List Stmt) :
    stmtsWellFormed statements = statements.all Stmt.wellFormed := by
  induction statements with
  | nil => rfl
  | cons statement statements ih => rw [stmtsWellFormed, ih, List.all_cons]

/-! Nesting. -/

def TypeExpr.nesting : TypeExpr → Nat
  | pointer _ target => target.nesting + 1
  | array _ _ element => element.nesting + 1
  | _ => 1

mutual

/-- The levels inside of an expression that is not a full one: operands share the level of the
expression they belong to, and what stands between brackets is a full expression. -/
def Expr.nested : Expr → Nat
  | .index _ _ position => position.nested + 1
  | .call _ _ arguments => deepest (exprNestings arguments)
  | .array _ elements elementType =>
    max (deepest (exprNestings elements)) ((elementType.map TypeExpr.nesting).getD 0)
  | .grouped _ inner => inner.nested + 1
  | .chain _ receiver suffixes => max receiver.nested (deepest (suffixNestings suffixes))
  | .unary _ _ operand => operand.nested
  | .binary _ _ left _ right => max left.nested right.nested
  | _ => 0

def Suffix.nesting : Suffix → Nat
  | .field _ _ => 0
  | .call _ _ arguments => deepest (exprNestings arguments)

def exprNestings : List Expr → List Nat
  | [] => []
  | expr :: exprs => (expr.nested + 1) :: exprNestings exprs

def suffixNestings : List Suffix → List Nat
  | [] => []
  | suffix :: suffixes => suffix.nesting :: suffixNestings suffixes

end

def Expr.nesting (expr : Expr) : Nat := expr.nested + 1

mutual

def Stmt.nesting : Stmt → Nat
  | .forLoop _ condition body => max condition.nesting body.nesting + 1
  | .ifElse _ condition consequence none => max condition.nesting consequence.nesting + 1
  | .ifElse _ condition consequence (some otherwise) =>
    max condition.nesting (max consequence.nesting otherwise.nesting) + 1
  | .ret _ value => (value.map Expr.nesting).getD 0 + 1
  | .defer _ statement => statement.nesting + 1
  | .block body => body.nesting + 1
  | .declare _ _ type value => max ((type.map TypeExpr.nesting).getD 0) value.nesting + 1
  | .assign _ target value | .compoundAssign _ target _ value =>
    max target.nested value.nesting + 1
  | .expression value => value.nesting + 1
  | .skipped _ => 1

def Block.nesting : Block → Nat
  | .braces _ statements => deepest (stmtNestings statements)

def stmtNestings : List Stmt → List Nat
  | [] => []
  | statement :: statements => statement.nesting :: stmtNestings statements

end

theorem Stmt.nesting_pos (statement : Stmt) : 0 < statement.nesting := by
  unfold nesting
  split <;> omega

def Decl.nesting : Decl → Nat
  | importing _ _ _ => 0
  | record _ _ fields => deepest (fields.map fun field => field.type.nesting)
  | function _ _ parameters result body =>
    max (deepest (parameters.map fun parameter => parameter.type.nesting))
      (max ((result.map TypeExpr.nesting).getD 0) body.nesting)

def Program.nesting (program : Program) : Nat := deepest (program.declarations.map Decl.nesting)

theorem exprNestings_eq (exprs : List Expr) : exprNestings exprs = exprs.map Expr.nesting := by
  induction exprs with
  | nil => rfl
  | cons expr exprs ih => rw [exprNestings, ih, List.map_cons, Expr.nesting]

theorem suffixNestings_eq (suffixes : List Suffix) :
    suffixNestings suffixes = suffixes.map Suffix.nesting := by
  induction suffixes with
  | nil => rfl
  | cons suffix suffixes ih => rw [suffixNestings, ih, List.map_cons]

theorem stmtNestings_eq (statements : List Stmt) :
    stmtNestings statements = statements.map Stmt.nesting := by
  induction statements with
  | nil => rfl
  | cons statement statements ih => rw [stmtNestings, ih, List.map_cons]

/-! Printing. -/

/-- The tokens of the printed form, with a line break where a new line begins. -/
def Program.printedKinds (program : Program) : List TokenKind := program.kinds [.lineBreak]

def Program.printed (program : Program) : Text := spell program.printedKinds

/-- A tree that can be printed. Its names are no keywords, and the digits of its numbers are digits
of their base. -/
structure Program.WellFormed (program : Program) : Prop where
  shape : ∀ declaration ∈ program.declarations, declaration.wellFormed
  legible : ∀ kind ∈ program.printedKinds, kind.legible

end MoSyntax
