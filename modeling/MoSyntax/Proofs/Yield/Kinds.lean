import MoSyntax.Token.Basic
import MoSyntax.Tree.Basic

/-!
The tokens that a tree is written with, in the order of the grammar. Where the written form begins a
new line there may stand tokens of its own, `line`: none in the yield of a tree. A leaf for what was
skipped has no tokens.
-/
namespace MoSyntax

def listed (parts : List (List TokenKind)) : List TokenKind :=
  [.punctuation .comma].intercalate parts

def Ident.kinds (name : Ident) : List TokenKind := [.identifier name.name]

def ModulePath.kinds (path : ModulePath) : List TokenKind :=
  [.punctuation .colon].intercalate (path.segments.map Ident.kinds)

def Name.kinds : Name → List TokenKind
  | ident name => name.kinds
  | path modules => modules.kinds

def TypeExpr.kinds : TypeExpr → List TokenKind
  | named name => name.kinds
  | pointer _ target => .operator .star :: target.kinds
  | array _ length element =>
    .punctuation .leftBracket :: ((length.map fun length => .number length.value).toList ++
      .punctuation .rightBracket :: element.kinds)
  | skipped _ => []

mutual

def Expr.kinds : Expr → List TokenKind
  | .number _ value => [.number value]
  | .string _ value => [.string value]
  | .bool _ value => [.keyword (if value then .trueWord else .falseWord)]
  | .named name => name.kinds
  | .index _ target position =>
    target.kinds ++ .punctuation .leftBracket :: (position.kinds ++ [.punctuation .rightBracket])
  | .call _ callee arguments =>
    callee.kinds ++ .punctuation .leftParen ::
      (listed (exprKinds arguments) ++ [.punctuation .rightParen])
  | .array _ elements elementType =>
    .punctuation .leftBracket :: (listed (exprKinds elements) ++
      .punctuation .rightBracket :: ((elementType.map TypeExpr.kinds).getD []))
  | .grouped _ inner => .punctuation .leftParen :: (inner.kinds ++ [.punctuation .rightParen])
  | .chain _ receiver suffixes => receiver.kinds ++ (suffixKinds suffixes).flatten
  | .unary _ operator operand => .operator operator.value.sign :: operand.kinds
  | .binary _ _ left operator right =>
    left.kinds ++ .operator operator.value.sign :: right.kinds
  | .skipped _ => []

def Suffix.kinds : Suffix → List TokenKind
  | .field _ name => .punctuation .dot :: name.kinds
  | .call _ name arguments =>
    .punctuation .dot :: (name.kinds ++ .punctuation .leftParen ::
      (listed (exprKinds arguments) ++ [.punctuation .rightParen]))

def exprKinds : List Expr → List (List TokenKind)
  | [] => []
  | expr :: exprs => expr.kinds :: exprKinds exprs

def suffixKinds : List Suffix → List (List TokenKind)
  | [] => []
  | suffix :: suffixes => suffix.kinds :: suffixKinds suffixes

end

/-- Parts between braces, each on a line of its own. -/
def braced (line : List TokenKind) (parts : List (List TokenKind)) : List TokenKind :=
  .punctuation .leftBrace :: (line ++ (line.intercalate parts ++ [.punctuation .rightBrace]))

mutual

def Stmt.kinds (line : List TokenKind) : Stmt → List TokenKind
  | .forLoop _ condition body => .keyword .forWord :: (condition.kinds ++ body.kinds line)
  | .ifElse _ condition consequence none =>
    .keyword .ifWord :: (condition.kinds ++ consequence.kinds line)
  | .ifElse _ condition consequence (some otherwise) =>
    .keyword .ifWord :: (condition.kinds ++
      (consequence.kinds line ++ .keyword .elseWord :: otherwise.kinds line))
  | .ret _ value => .keyword .retWord :: (value.map Expr.kinds).getD []
  | .defer _ statement => .keyword .deferWord :: statement.kinds line
  | .block body => body.kinds line
  | .declare _ name type value =>
    name.kinds ++ ((type.map TypeExpr.kinds).getD [] ++ .operator .declare :: value.kinds)
  | .assign _ target value => target.kinds ++ .operator .assign :: value.kinds
  | .compoundAssign _ target operator value =>
    target.kinds ++ .operator operator.value.sign :: .operator .assign :: value.kinds
  | .expression value => value.kinds
  | .skipped _ => []

def Block.kinds (line : List TokenKind) : Block → List TokenKind
  | .braces _ statements => braced line (stmtKinds line statements)

def stmtKinds (line : List TokenKind) : List Stmt → List (List TokenKind)
  | [] => []
  | statement :: statements => statement.kinds line :: stmtKinds line statements

end

def TypedName.kinds (typed : TypedName) : List TokenKind := typed.name.kinds ++ typed.type.kinds

def Decl.kinds (line : List TokenKind) : Decl → List TokenKind
  | importing _ path localName =>
    .keyword .useWord :: (path.kinds ++ (localName.map fun name => .string name.value).toList)
  | record _ name fields =>
    .keyword .structWord :: (name.kinds ++ braced line (fields.map TypedName.kinds))
  | function _ name parameters result body =>
    .keyword .fnWord :: (name.kinds ++ .punctuation .leftParen ::
      (listed (parameters.map TypedName.kinds) ++ .punctuation .rightParen ::
        ((result.map TypeExpr.kinds).getD [] ++ body.kinds line)))

def Program.kinds (line : List TokenKind) (program : Program) : List TokenKind :=
  line.intercalate (program.declarations.map (Decl.kinds line))

/-- All that a program is written with but line breaks. -/
def Program.yield (program : Program) : List TokenKind := program.kinds []

theorem exprKinds_eq (exprs : List Expr) : exprKinds exprs = exprs.map Expr.kinds := by
  induction exprs with
  | nil => rfl
  | cons expr exprs ih => rw [exprKinds, ih, List.map_cons]

theorem suffixKinds_eq (suffixes : List Suffix) : suffixKinds suffixes = suffixes.map Suffix.kinds := by
  induction suffixes with
  | nil => rfl
  | cons suffix suffixes ih => rw [suffixKinds, ih, List.map_cons]

theorem stmtKinds_eq (line : List TokenKind) (statements : List Stmt) :
    stmtKinds line statements = statements.map (Stmt.kinds line) := by
  induction statements with
  | nil => rfl
  | cons statement statements ih => rw [stmtKinds, ih, List.map_cons]

theorem intercalate_cons {α : Type} (between first : List α) (rest : List (List α)) :
    between.intercalate (first :: rest) = first ++ rest.flatMap (between ++ ·) := by
  induction rest generalizing first with
  | nil => simp
  | cons second rest ih => simp [ih]

theorem mem_intercalate {α : Type} {between : List α} {parts : List (List α)} {x : α}
    (member : x ∈ between.intercalate parts) : x ∈ between ∨ ∃ part ∈ parts, x ∈ part := by
  cases parts with
  | nil => simp at member
  | cons first rest =>
    rw [intercalate_cons, List.mem_append, List.mem_flatMap] at member
    rcases member with member | ⟨part, among, member⟩
    · exact .inr ⟨first, List.mem_cons_self, member⟩
    · rcases List.mem_append.1 member with member | member
      · exact .inl member
      · exact .inr ⟨part, List.mem_cons_of_mem _ among, member⟩

theorem intercalate_nil {α : Type} (parts : List (List α)) : [].intercalate parts = parts.flatten := by
  cases parts with
  | nil => rfl
  | cons first rest => simp [intercalate_cons, List.flatten]

end MoSyntax
