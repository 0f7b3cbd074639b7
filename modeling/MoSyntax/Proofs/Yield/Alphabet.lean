import MoSyntax.Proofs.Yield.Kinds

/-!
Which tokens the parts of a tree are written with. A type has no brackets but square ones; an
expression has no braces, no sign of an assignment and no keyword but the truth values; and a
statement never has the keyword of a struct.
-/
namespace MoSyntax

namespace TokenKind

/-- What a type may be written with. -/
def inType : TokenKind → Bool
  | identifier _ | number _ => true
  | operator sign => sign == .star
  | punctuation mark => mark == .leftBracket || mark == .rightBracket || mark == .colon
  | _ => false

def inExpr : TokenKind → Bool
  | identifier _ | number _ | string _ => true
  | keyword word => word == .trueWord || word == .falseWord
  | operator sign => sign != .declare && sign != .assign
  | punctuation mark => mark != .leftBrace && mark != .rightBrace
  | _ => false

theorem inExpr_of_inType {kind : TokenKind} (type : kind.inType) : kind.inExpr := by
  cases kind with
  | operator sign => cases sign <;> first | rfl | simp [inType] at type
  | punctuation mark => cases mark <;> first | rfl | simp [inType] at type
  | _ => first | rfl | simp [inType] at type

end TokenKind

open TokenKind (inType inExpr)

theorem Name.inType_of_mem {name : Name} {kind : TokenKind} (member : kind ∈ name.kinds) :
    kind.inType := by
  cases name with
  | ident name =>
    rw [List.mem_singleton.1 member]
    rfl
  | path modules =>
    rcases mem_intercalate member with member | ⟨part, among, member⟩
    · rw [List.mem_singleton.1 member]
      rfl
    · obtain ⟨name, _, rfl⟩ := List.mem_map.1 among
      rw [List.mem_singleton.1 member]
      rfl

theorem TypeExpr.inType_of_mem {type : TypeExpr} {kind : TokenKind} (member : kind ∈ type.kinds) :
    kind.inType := by
  induction type with
  | named name => exact Name.inType_of_mem member
  | pointer span target ih =>
    rcases List.mem_cons.1 member with rfl | member
    · rfl
    · exact ih member
  | array span length element ih =>
    rcases List.mem_cons.1 member with rfl | member
    · rfl
    · rcases List.mem_append.1 member with member | member
      · cases length with
        | none => simp at member
        | some length =>
          rw [List.mem_singleton.1 member]
          rfl
      · rcases List.mem_cons.1 member with rfl | member
        · rfl
        · exact ih member
  | skipped span => simp [kinds] at member

theorem inExpr_of_mem_listed {parts : List (List TokenKind)}
    (all : ∀ part ∈ parts, ∀ kind ∈ part, kind.inExpr) : ∀ kind ∈ listed parts, kind.inExpr := by
  intro kind member
  rcases mem_intercalate member with member | ⟨part, among, member⟩
  · rw [List.mem_singleton.1 member]
    rfl
  · exact all part among kind member

theorem BinaryOperator.inExpr_sign (operator : BinaryOperator) :
    (TokenKind.operator operator.sign).inExpr := by
  cases operator <;> rfl

theorem UnaryOperator.inExpr_sign (operator : UnaryOperator) :
    (TokenKind.operator operator.sign).inExpr := by
  cases operator <;> rfl

theorem Name.inExpr_of_mem (name : Name) : ∀ kind ∈ name.kinds, kind.inExpr :=
  fun _ member => TokenKind.inExpr_of_inType (Name.inType_of_mem member)

theorem TypeExpr.inExpr_of_mem (type : TypeExpr) : ∀ kind ∈ type.kinds, kind.inExpr :=
  fun _ member => TokenKind.inExpr_of_inType (TypeExpr.inType_of_mem member)

mutual

theorem Expr.inExpr_of_mem : (expr : Expr) → ∀ kind ∈ expr.kinds, kind.inExpr
  | .number _ _ | .string _ _ | .skipped _ => by simp [Expr.kinds, inExpr]
  | .bool _ value => by cases value <;> simp [Expr.kinds, inExpr]
  | .named name => by
    rw [Expr.kinds]
    exact name.inExpr_of_mem
  | .index _ target position => by
    have inner := Expr.inExpr_of_mem position
    simp only [Expr.kinds, List.forall_mem_append, List.forall_mem_cons]
    exact ⟨target.inExpr_of_mem, rfl, inner, rfl, by simp⟩
  | .call _ callee arguments => by
    have inner := inExpr_of_mem_listed (exprKinds_inExpr arguments)
    simp only [Expr.kinds, List.forall_mem_append, List.forall_mem_cons]
    exact ⟨callee.inExpr_of_mem, rfl, inner, rfl, by simp⟩
  | .array _ elements element => by
    have inner := inExpr_of_mem_listed (exprKinds_inExpr elements)
    simp only [Expr.kinds, List.forall_mem_append, List.forall_mem_cons]
    refine ⟨rfl, inner, rfl, ?_⟩
    cases element with
    | none => simp
    | some element => exact element.inExpr_of_mem
  | .grouped _ inner => by
    have inner := Expr.inExpr_of_mem inner
    simp only [Expr.kinds, List.forall_mem_append, List.forall_mem_cons]
    exact ⟨rfl, inner, rfl, by simp⟩
  | .chain _ receiver suffixes => by
    have first := Expr.inExpr_of_mem receiver
    have others := suffixKinds_inExpr suffixes
    simp only [Expr.kinds, List.forall_mem_append, List.forall_mem_flatten]
    exact ⟨first, others⟩
  | .unary _ operator operand => by
    have inner := Expr.inExpr_of_mem operand
    simp only [Expr.kinds, List.forall_mem_cons]
    exact ⟨operator.value.inExpr_sign, inner⟩
  | .binary _ _ left operator right => by
    have first := Expr.inExpr_of_mem left
    have second := Expr.inExpr_of_mem right
    simp only [Expr.kinds, List.forall_mem_append, List.forall_mem_cons]
    exact ⟨first, operator.value.inExpr_sign, second⟩

theorem Suffix.inExpr_of_mem : (suffix : Suffix) → ∀ kind ∈ suffix.kinds, kind.inExpr
  | .field _ name => by simp [Suffix.kinds, Ident.kinds, inExpr]
  | .call _ name arguments => by
    have inner := inExpr_of_mem_listed (exprKinds_inExpr arguments)
    simp only [Suffix.kinds, Ident.kinds, List.forall_mem_append, List.forall_mem_cons]
    exact ⟨rfl, ⟨rfl, by simp⟩, rfl, inner, rfl, by simp⟩

theorem exprKinds_inExpr : (exprs : List Expr) →
    ∀ part ∈ exprKinds exprs, ∀ kind ∈ part, kind.inExpr
  | [] => by simp [exprKinds]
  | expr :: exprs => by
    rw [exprKinds]
    simp only [List.forall_mem_cons]
    exact ⟨Expr.inExpr_of_mem expr, exprKinds_inExpr exprs⟩

theorem suffixKinds_inExpr : (suffixes : List Suffix) →
    ∀ part ∈ suffixKinds suffixes, ∀ kind ∈ part, kind.inExpr
  | [] => by simp [suffixKinds]
  | suffix :: suffixes => by
    rw [suffixKinds]
    simp only [List.forall_mem_cons]
    exact ⟨Suffix.inExpr_of_mem suffix, suffixKinds_inExpr suffixes⟩

end

def TokenKind.inStmt (kind : TokenKind) : Bool := kind != .keyword .structWord

theorem TokenKind.inStmt_of_inExpr {kind : TokenKind} (expr : kind.inExpr) : kind.inStmt := by
  simp only [inStmt, bne_iff_ne]
  rintro rfl
  simp [inExpr] at expr

theorem Expr.inStmt_of_mem (expr : Expr) : ∀ kind ∈ expr.kinds, kind.inStmt :=
  fun kind member => TokenKind.inStmt_of_inExpr (expr.inExpr_of_mem kind member)

theorem TypeExpr.inStmt_of_mem (type : TypeExpr) : ∀ kind ∈ type.kinds, kind.inStmt :=
  fun kind member => TokenKind.inStmt_of_inExpr (type.inExpr_of_mem kind member)

theorem inStmt_of_mem_option {α : Type} {kinds : α → List TokenKind} (value : Option α)
    (all : ∀ value, ∀ kind ∈ kinds value, kind.inStmt) :
    ∀ kind ∈ (value.map kinds).getD [], kind.inStmt := by
  cases value with
  | none => simp
  | some value => exact all value

mutual

theorem Stmt.inStmt_of_mem : (statement : Stmt) → ∀ kind ∈ statement.kinds [], kind.inStmt
  | .forLoop _ condition body => by
    have inner := Block.inStmt_of_mem body
    simp only [Stmt.kinds, List.forall_mem_append, List.forall_mem_cons]
    exact ⟨rfl, condition.inStmt_of_mem, inner⟩
  | .ifElse _ condition consequence none => by
    have inner := Block.inStmt_of_mem consequence
    simp only [Stmt.kinds, List.forall_mem_append, List.forall_mem_cons]
    exact ⟨rfl, condition.inStmt_of_mem, inner⟩
  | .ifElse _ condition consequence (some otherwise) => by
    have inner := Block.inStmt_of_mem consequence
    have other := Block.inStmt_of_mem otherwise
    simp only [Stmt.kinds, List.forall_mem_append, List.forall_mem_cons]
    exact ⟨rfl, condition.inStmt_of_mem, inner, rfl, other⟩
  | .ret _ value => by
    simp only [Stmt.kinds, List.forall_mem_cons]
    exact ⟨rfl, inStmt_of_mem_option value Expr.inStmt_of_mem⟩
  | .defer _ statement => by
    have inner := Stmt.inStmt_of_mem statement
    simp only [Stmt.kinds, List.forall_mem_cons]
    exact ⟨rfl, inner⟩
  | .block body => by
    rw [Stmt.kinds]
    exact Block.inStmt_of_mem body
  | .declare _ name type value => by
    simp only [Stmt.kinds, Ident.kinds, List.forall_mem_append, List.forall_mem_cons]
    exact ⟨⟨rfl, by simp⟩, inStmt_of_mem_option type TypeExpr.inStmt_of_mem, rfl,
      value.inStmt_of_mem⟩
  | .assign _ target value => by
    simp only [Stmt.kinds, List.forall_mem_append, List.forall_mem_cons]
    exact ⟨target.inStmt_of_mem, rfl, value.inStmt_of_mem⟩
  | .compoundAssign _ target operator value => by
    simp only [Stmt.kinds, List.forall_mem_append, List.forall_mem_cons]
    exact ⟨target.inStmt_of_mem, TokenKind.inStmt_of_inExpr operator.value.inExpr_sign, rfl,
      value.inStmt_of_mem⟩
  | .expression value => by
    rw [Stmt.kinds]
    exact value.inStmt_of_mem
  | .skipped _ => by simp [Stmt.kinds]

theorem Block.inStmt_of_mem : (block : Block) → ∀ kind ∈ block.kinds [], kind.inStmt
  | .braces _ statements => by
    have inner := stmtKinds_inStmt statements
    simp only [Block.kinds, braced, intercalate_nil, List.nil_append, List.forall_mem_append,
      List.forall_mem_cons, List.forall_mem_flatten]
    exact ⟨rfl, inner, rfl, by simp⟩

theorem stmtKinds_inStmt : (statements : List Stmt) →
    ∀ part ∈ stmtKinds [] statements, ∀ kind ∈ part, kind.inStmt
  | [] => by simp [stmtKinds]
  | statement :: statements => by
    have first := Stmt.inStmt_of_mem statement
    have others := stmtKinds_inStmt statements
    rw [stmtKinds]
    simp only [List.forall_mem_cons]
    exact ⟨first, others⟩

end

end MoSyntax
