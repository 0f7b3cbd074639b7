import MoSyntax.Parser.Expr
import MoSyntax.Proofs.Reading.Expr
import MoSyntax.Proofs.Tally.Logic

/-!
Types and expressions pay for their reports. Each of them begins with a token of its own, except for
a placeholder, and that covers at least the token where the limit is reported.
-/
namespace MoSyntax.Parser

variable {type : Parser TypeExpr} {expr : Parser Expr}

theorem arrayLength_loose : Loose 0 arrayLength := by
  intro start
  apply TalliedAt.current_bind
  split
  · rename_i literal found
    split
    · have number : start.current.kind ≠ .endOfFile := by simp [found]
      exact FirmAt.loose (FirmAt.advance_bind number (.pure _))
    · exact TalliedAt.reject (.inl rfl) (Nat.le_refl 1)
  · exact Loose.pure _ _

theorem typeLevel_firm (types : Loose 0 type) : Firm 1 (typeLevel type) := by
  intro start
  apply TalliedAt.current_bind
  split
  · refine (expect_firm (by simp) _).bind (fun _ => arrayLength_loose.bind fun _ => ?_) start
    exact (expect_firm (by simp) _).loose.bind fun _ => types.bind fun _ => .pure _
  · rename_i found
    have star : start.current.kind ≠ .endOfFile := by simp [found]
    exact TalliedAt.current_bind
      (FirmAt.advance_bind star (types.bind fun _ => .pure _))
  · exact (name_firm _).bind (fun _ => .pure _) start
  · exact FirmAt.reject (.inl rfl)

theorem typeExpr_firm (limit budget : Nat) : Firm 0 (typeExpr limit budget) := by
  induction budget with
  | zero => exact tooDeep_firm limit _ _
  | succ budget ih =>
    exact fun start => TalliedAt.inside _ ((typeLevel_firm ih.loose).mono start)

theorem expressionList_loose (exprs : Loose 0 expr) (closing : Punctuation) :
    Loose 0 (expressionList expr closing) :=
  listUntil_loose exprs closing _

theorem grouped_firm (exprs : Loose 0 expr) {start : Cursor}
    (opens : start.current.kind = .punctuation .leftParen) : FirmAt 1 start (grouped expr) := by
  apply TalliedAt.current_bind
  refine FirmAt.advance_bind (by simp [opens]) ?_
  exact skipLineBreaks_loose.bind fun _ => exprs.bind fun _ => skipLineBreaks_loose.bind fun _ =>
    (expect_firm (by simp) _).loose.bind fun _ => .pure _

theorem nameOrCall_firm (exprs : Loose 0 expr) : Firm 1 (nameOrCall expr) := by
  refine (name_firm _).bind fun target => (accept_loose (by simp)).bind fun index => ?_
  split
  · exact skipLineBreaks_loose.bind fun _ => exprs.bind fun _ => skipLineBreaks_loose.bind fun _ =>
      (expect_firm (by simp) _).loose.bind fun _ => .pure _
  · refine (accept_loose (by simp)).bind fun call => ?_
    split
    · exact (expressionList_loose exprs _).bind fun _ => .pure _
    · exact .pure _

theorem elementType_loose (types : Loose 0 type) : Loose 0 (elementType type) := by
  intro start
  apply TalliedAt.current_bind
  split
  · refine TalliedAt.imp (TalliedAt.attempt .elementType (types start)) ?_ fun _ _ => id
    intro value? used told paid
    cases value? with
    | none => exact Nat.le_of_eq (paid.2.trans paid.1.symm)
    | some value => exact paid
  · exact Loose.pure _ _

theorem arrayLiteral_firm (types : Loose 0 type) (exprs : Loose 0 expr) :
    Firm 1 (arrayLiteral type expr) :=
  (expect_firm (by simp) _).bind fun _ => (expressionList_loose exprs _).bind fun _ =>
    (elementType_loose types).bind fun _ => .pure _

theorem primary_firm (types : Loose 0 type) (exprs : Loose 0 expr) :
    Firm 1 (primary type expr) := by
  intro start
  apply TalliedAt.current_bind
  split
  · rename_i value found
    exact FirmAt.advance_bind (constant?_ne_endOfFile found) (.pure _)
  · split
    · rename_i opens
      exact grouped_firm exprs opens
    · exact arrayLiteral_firm types exprs start
    · exact nameOrCall_firm exprs start
    · exact FirmAt.reject (.inl rfl)

theorem nextSuffix_loose (exprs : Loose 0 expr) : Loose 0 (nextSuffix expr) := by
  intro start
  apply TalliedAt.current_bind
  refine (accept_loose (by simp)).bind (fun dot => ?_) start
  split
  · refine (ident_firm _).loose.bind fun member => (accept_loose (by simp)).bind fun call => ?_
    split
    · exact (expressionList_loose exprs _).bind fun _ => .pure _
    · exact .pure _
  · exact .pure _

theorem chain_firm (types : Loose 0 type) (exprs : Loose 0 expr) : Firm 1 (chain type expr) := by
  refine (primary_firm types exprs).bind fun receiver =>
    (nextSuffix_loose exprs).many.bind fun suffixes => ?_
  split <;> exact .pure _

theorem unary_firm (types : Loose 0 type) (exprs : Loose 0 expr) : Firm 1 (unary type expr) := by
  intro start
  apply TalliedAt.current_bind
  split
  · exact chain_firm types exprs start
  · rename_i operator found
    obtain ⟨sign, kind, _⟩ := prefixOperator?_eq_some found
    exact FirmAt.advance_bind (by simp [kind])
      ((chain_firm types exprs).loose.bind fun _ => .pure _)

theorem nextOperand_loose (tier : Precedence) {operand : Parser Expr} (operands : Loose 0 operand) :
    Loose 0 (nextOperand tier operand) := by
  intro start
  apply TalliedAt.current_bind
  split
  · exact Loose.pure _ _
  · rename_i operator found
    have sign : start.current.kind ≠ .endOfFile := by
      intro ended
      simp [tierOperator?, ended] at found
    exact FirmAt.loose (FirmAt.advance_bind sign
      (skipLineBreaks_loose.bind fun _ => operands.bind fun _ => .pure _))

theorem binaryTier_firm (tier : Precedence) {operand : Parser Expr} (operands : Firm 1 operand) :
    Firm 1 (binaryTier tier operand) :=
  operands.bind fun _ => (nextOperand_loose tier operands.loose).many.bind fun _ => .pure _

theorem exprLevel_firm (types : Loose 0 type) (exprs : Loose 0 expr) :
    Firm 1 (exprLevel type expr) := by
  have tiers (all : List Precedence) :
      Firm 1 (all.foldr binaryTier (unary type expr)) := by
    induction all with
    | nil => exact unary_firm types exprs
    | cons tier all ih => exact binaryTier_firm tier ih
  exact tiers Precedence.all

theorem expression_firm (limit budget : Nat) : Firm 0 (expression limit budget) := by
  induction budget with
  | zero => exact tooDeep_firm limit _ _
  | succ budget ih =>
    exact fun start => TalliedAt.inside _
      ((exprLevel_firm (typeExpr_firm limit budget).loose ih.loose).mono start)

end MoSyntax.Parser
