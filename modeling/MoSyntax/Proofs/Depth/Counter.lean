import MoSyntax.Parser.Decl

/-!
The parser with a counter of levels. The counter is zero for a file, and it goes up by one for what is
read inside of a statement, an expression or a type, unless it has reached the limit. A watch knows the
counter wherever something is read, and may do there what it likes.
-/
namespace MoSyntax

/-- What becomes of a parser where the counter has a value. -/
abbrev Watch : Type 1 := Nat → (α : Type) → Parser α → Parser α

/-- Up to the limit the watch changes nothing. -/
def Watch.Idle (watch : Watch) (limit : Nat) : Prop :=
  ∀ depth ≤ limit, ∀ (α : Type) (parser : Parser α), watch depth α parser = parser

namespace Parser

section
variable (watch : Watch) (limit : Nat)

/-- One level further in, unless the counter has reached the limit. -/
def nested {α : Type} (depth : Nat) (stops : TokenKind → Bool) (placeholder : Span → α)
    (body : depth < limit → Parser α) : Parser α :=
  watch depth α <|
    if further : depth < limit then inside (depth + 1) (watch (depth + 1) α (body further))
    else tooDeep limit stops placeholder

def countedType (depth : Nat) : Parser TypeExpr :=
  nested watch limit depth Skip.stopsType .skipped fun _ => typeLevel (countedType (depth + 1))
termination_by limit - depth

def countedExpression (depth : Nat) : Parser Expr :=
  nested watch limit depth Skip.stopsExpression .skipped fun _ =>
    exprLevel (countedType watch limit (depth + 1)) (countedExpression (depth + 1))
termination_by limit - depth

def countedStatement (depth : Nat) : Parser Stmt :=
  nested watch limit depth Skip.stopsStatement .skipped fun _ =>
    stmtLevel (countedType watch limit (depth + 1)) (countedExpression watch limit (depth + 1))
      (countedStatement (depth + 1))
termination_by limit - depth

def countedDeclarations : Parser (List Decl) :=
  watch 0 (List Decl) do
    let found ← many (nextDeclaration
      (topLevel (countedType watch limit 0) (countedStatement watch limit 0)))
    return found.reduceOption

end

variable {watch : Watch} {limit : Nat} {α : Type} {stops : TokenKind → Bool} {placeholder : Span → α}

theorem nested_of_lt (idle : watch.Idle limit) {depth : Nat} (further : depth < limit)
    (body : depth < limit → Parser α) :
    nested watch limit depth stops placeholder body = inside (depth + 1) (body further) := by
  rw [nested, idle depth (Nat.le_of_lt further), dif_pos further, idle (depth + 1) further]

theorem nested_of_eq (idle : watch.Idle limit) (body : limit < limit → Parser α) :
    nested watch limit limit stops placeholder body = tooDeep limit stops placeholder := by
  rw [nested, idle limit (Nat.le_refl limit), dif_neg (Nat.lt_irrefl limit)]

theorem counted_eq (idle : watch.Idle limit) {counted levels : Nat → Parser α}
    (inner bodies : Nat → Parser α)
    (nests : ∀ depth,
      counted depth = nested watch limit depth stops placeholder fun _ => inner (depth + 1))
    (deep : levels 0 = tooDeep limit stops placeholder)
    (within : ∀ budget, levels (budget + 1) = inside (limit - budget) (bodies budget))
    (same : ∀ budget depth, depth + budget = limit → counted depth = levels budget →
      inner depth = bodies budget) (budget depth : Nat) (whole : depth + budget = limit) :
    counted depth = levels budget := by
  induction budget generalizing depth with
  | zero =>
    obtain rfl : depth = limit := whole
    rw [nests, nested_of_eq idle, deep]
  | succ budget ih =>
    have further : depth + 1 + budget = limit := by omega
    have entered : limit - budget = depth + 1 := by omega
    rw [nests, nested_of_lt idle (by omega), within, entered,
      same budget (depth + 1) further (ih (depth + 1) further)]

theorem countedType_eq (idle : watch.Idle limit) {budget depth : Nat}
    (whole : depth + budget = limit) : countedType watch limit depth = typeExpr limit budget := by
  refine counted_eq idle (fun depth => typeLevel (countedType watch limit depth))
    (fun budget => typeLevel (typeExpr limit budget)) (fun depth => by rw [countedType]) rfl
    (fun _ => rfl) ?_ budget depth whole
  exact fun _ _ _ inner => congrArg typeLevel inner

theorem countedExpression_eq (idle : watch.Idle limit) {budget depth : Nat}
    (whole : depth + budget = limit) :
    countedExpression watch limit depth = expression limit budget := by
  refine counted_eq idle
    (fun depth => exprLevel (countedType watch limit depth) (countedExpression watch limit depth))
    (fun budget => exprLevel (typeExpr limit budget) (expression limit budget))
    (fun depth => by rw [countedExpression]) rfl (fun _ => rfl) ?_ budget depth whole
  intro budget depth whole inner
  rw [countedType_eq idle whole, inner]

theorem countedStatement_eq (idle : watch.Idle limit) {budget depth : Nat}
    (whole : depth + budget = limit) :
    countedStatement watch limit depth = statement limit budget := by
  refine counted_eq idle
    (fun depth => stmtLevel (countedType watch limit depth) (countedExpression watch limit depth)
      (countedStatement watch limit depth))
    (fun budget => stmtLevel (typeExpr limit budget) (expression limit budget)
      (statement limit budget))
    (fun depth => by rw [countedStatement]) rfl (fun _ => rfl) ?_ budget depth whole
  intro budget depth whole inner
  rw [countedType_eq idle whole, countedExpression_eq idle whole, inner]

/-- Nothing is read where the counter is beyond the limit: a watch that would change something there
only changes nothing. -/
theorem countedDeclarations_eq (idle : watch.Idle limit) :
    countedDeclarations watch limit = declarations limit := by
  rw [countedDeclarations, idle 0 (Nat.zero_le limit),
    countedType_eq idle (Nat.zero_add limit),
    countedStatement_eq idle (Nat.zero_add limit)]
  rfl

end Parser

end MoSyntax
