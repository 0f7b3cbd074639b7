import MoSyntax.Proofs.Deepening.TypeExpr

/-!
Expressions with different budgets: what is read with a larger one agrees with what is read with a
smaller one up to the first report of the limit.
-/
namespace MoSyntax.Parser

variable {α : Type}

theorem skipLineBreaks_keeps : Keeps skipLineBreaks := skipLineBreaks_sound.keeps

theorem accept_keeps {kind : TokenKind} (some : kind ≠ .endOfFile) : Keeps (accept kind) :=
  (accept_sound some).keeps

theorem name_keeps (message : String) : Keeps (name message) := (name_sound message).keeps

theorem tooDeep_deepens (limit : Nat) (stops : TokenKind → Bool) (placeholder : Span → α)
    (deep : Parser α) : Deepens (tooDeep limit stops placeholder) deep := by
  refine ⟨(tooDeep_sound limit stops placeholder).keeps, fun start _ => ?_⟩
  rw [tooDeep_eq]
  exact .limited ⟨_, List.mem_cons_self, rfl⟩ List.nil_prefix

section
variable {item further : Parser α}

theorem nextItem_deepens (deepens : Deepens item further) :
    Deepens (nextItem item) (nextItem further) := by
  refine (Deepens.refl (accept_keeps (by simp))).bind fun found => ?_
  split
  · exact (Deepens.refl skipLineBreaks_keeps).bind fun _ => deepens.bind fun _ =>
      (Deepens.refl skipLineBreaks_keeps).bind fun _ => .refl (.pure _)
  · exact .refl (.pure _)

theorem commaSeparated_deepens (deepens : Deepens item further) :
    Deepens (commaSeparated item) (commaSeparated further) :=
  deepens.bind fun _ => (Deepens.refl skipLineBreaks_keeps).bind fun _ =>
    (Deepens.many (nextItem_deepens deepens)).bind fun _ => .refl (.pure _)

theorem listUntil_deepens (deepens : Deepens item further) (closing : Punctuation)
    (message : String) :
    Deepens (listUntil item closing message) (listUntil further closing message) := by
  refine Deepens.bind ?_ fun items =>
    (Deepens.refl (Silent.expect (by simp) message).keeps).bind fun _ => .refl (.pure _)
  refine (Deepens.refl skipLineBreaks_keeps).bind fun _ => ?_
  refine (Deepens.refl (.check _)).bind fun ended => ?_
  split
  · exact .refl (.pure _)
  · exact commaSeparated_deepens deepens

end

section
variable {type deepType : Parser TypeExpr} {expr deepExpr : Parser Expr}

theorem grouped_deepens (exprs : Deepens expr deepExpr) :
    Deepens (grouped expr) (grouped deepExpr) := by
  refine (Deepens.refl .current).bind fun opening => ?_
  refine (Deepens.refl Silent.advance.keeps).bind fun _ => ?_
  refine (Deepens.refl skipLineBreaks_keeps).bind fun _ => exprs.bind fun inner => ?_
  exact .refl (skipLineBreaks_keeps.bind fun _ =>
    (Silent.expect (by simp) _).keeps.bind fun _ => .pure _)

theorem nameOrCall_deepens (exprs : Deepens expr deepExpr) :
    Deepens (nameOrCall expr) (nameOrCall deepExpr) := by
  refine (Deepens.refl (name_keeps _)).bind fun target => ?_
  refine (Deepens.refl (accept_keeps (by simp))).bind fun indexed => ?_
  split
  · refine (Deepens.refl skipLineBreaks_keeps).bind fun _ => exprs.bind fun position => ?_
    exact .refl (skipLineBreaks_keeps.bind fun _ =>
      (Silent.expect (by simp) _).keeps.bind fun _ => .pure _)
  · refine (Deepens.refl (accept_keeps (by simp))).bind fun called => ?_
    split
    · exact (listUntil_deepens exprs _ _).bind fun _ => .refl (.pure _)
    · exact .refl (.pure _)

theorem elementType_deepens (types : Tries type deepType) :
    Deepens (elementType type) (elementType deepType) := by
  refine (Deepens.refl .current).bind fun found => ?_
  split
  · exact types.attempt .elementType
  · exact .refl (.pure _)

theorem arrayLiteral_deepens (types : Tries type deepType) (exprs : Deepens expr deepExpr) :
    Deepens (arrayLiteral type expr) (arrayLiteral deepType deepExpr) := by
  refine (Deepens.refl (Silent.expect (by simp) _).keeps).bind fun opening => ?_
  exact (listUntil_deepens exprs _ _).bind fun elements =>
    (elementType_deepens types).bind fun _ => .refl (.pure _)

theorem primary_deepens (types : Tries type deepType) (exprs : Deepens expr deepExpr) :
    Deepens (primary type expr) (primary deepType deepExpr) := by
  refine (Deepens.refl .current).bind fun found => ?_
  split
  · exact .refl (Silent.advance.keeps.bind fun _ => .pure _)
  · split
    · exact grouped_deepens exprs
    · exact arrayLiteral_deepens types exprs
    · exact nameOrCall_deepens exprs
    · exact .refl (.reject _)

theorem nextSuffix_deepens (exprs : Deepens expr deepExpr) :
    Deepens (nextSuffix expr) (nextSuffix deepExpr) := by
  refine (Deepens.refl .current).bind fun dot => ?_
  refine (Deepens.refl (accept_keeps (by simp))).bind fun dotted => ?_
  split
  · refine (Deepens.refl (Silent.ident _).keeps).bind fun member => ?_
    refine (Deepens.refl (accept_keeps (by simp))).bind fun called => ?_
    split
    · exact (listUntil_deepens exprs _ _).bind fun _ => .refl (.pure _)
    · exact .refl (.pure _)
  · exact .refl (.pure _)

theorem chain_deepens (types : Tries type deepType) (exprs : Deepens expr deepExpr) :
    Deepens (chain type expr) (chain deepType deepExpr) := by
  refine (primary_deepens types exprs).bind fun receiver => ?_
  refine (Deepens.many (nextSuffix_deepens exprs)).bind fun suffixes => ?_
  split
  · exact .refl (.pure _)
  · exact .refl (.pure _)

theorem unary_deepens (types : Tries type deepType) (exprs : Deepens expr deepExpr) :
    Deepens (unary type expr) (unary deepType deepExpr) := by
  refine (Deepens.refl .current).bind fun found => ?_
  split
  · exact chain_deepens types exprs
  · exact (Deepens.refl Silent.advance.keeps).bind fun _ =>
      (chain_deepens types exprs).bind fun _ => .refl (.pure _)

theorem nextOperand_deepens (tier : Precedence) {operand further : Parser Expr}
    (deepens : Deepens operand further) :
    Deepens (nextOperand tier operand) (nextOperand tier further) := by
  refine (Deepens.refl .current).bind fun found => ?_
  split
  · exact .refl (.pure _)
  · exact (Deepens.refl Silent.advance.keeps).bind fun _ =>
      (Deepens.refl skipLineBreaks_keeps).bind fun _ => deepens.bind fun _ => .refl (.pure _)

theorem binaryTier_deepens (tier : Precedence) {operand further : Parser Expr}
    (deepens : Deepens operand further) :
    Deepens (binaryTier tier operand) (binaryTier tier further) :=
  deepens.bind fun _ =>
    (Deepens.many (nextOperand_deepens tier deepens)).bind fun _ => .refl (.pure _)

theorem exprLevel_deepens (types : Tries type deepType) (exprs : Deepens expr deepExpr) :
    Deepens (exprLevel type expr) (exprLevel deepType deepExpr) :=
  binaryTier_deepens .equality <| binaryTier_deepens .comparison <| binaryTier_deepens .term <|
    binaryTier_deepens .factor <| unary_deepens types exprs

/-- An expression begins with a unary one, and so do its reports. -/
theorem unary_reports (type : Parser TypeExpr) (expr : Parser Expr) (start : Cursor) :
    (unary type expr start).reports <+: (exprLevel type expr start).reports := by
  have tier (tier : Precedence) (operand : Parser Expr) :
      (operand start).reports <+: (binaryTier tier operand start).reports := reports_bind _ _ _
  have terms := (tier .factor (unary type expr)).trans (tier .term _)
  exact terms.trans ((tier .comparison _).trans (tier .equality _))

end

variable {limit other budget more : Nat}

theorem typeExpr_tries (le : budget ≤ more) (within : budget ≤ limit) (further : more ≤ other) :
    Tries (typeExpr limit budget) (typeExpr other more) :=
  (typeExpr_settles le within further).tries (typeExpr_sound limit budget within).keeps

theorem expression_succ (limit : Nat) {budget : Nat} (within : budget < limit) :
    expression limit (budget + 1) =
      exprLevel (typeExpr limit budget) (expression limit budget) :=
  inside_eq (exprLevel (typeExpr limit budget) (expression limit budget)) (by omega)

theorem expression_deepens (le : budget ≤ more) (within : budget ≤ limit)
    (further : more ≤ other) : Deepens (expression limit budget) (expression other more) := by
  induction budget generalizing more with
  | zero => exact tooDeep_deepens limit _ _ _
  | succ budget ih =>
    obtain ⟨more, rfl⟩ : ∃ count, more = count + 1 := ⟨more - 1, by omega⟩
    rw [expression_succ limit (by omega), expression_succ other (by omega)]
    exact exprLevel_deepens (typeExpr_tries (by omega) (by omega) (by omega))
      (ih (by omega) (by omega) (by omega))

end MoSyntax.Parser
