import MoSyntax.Proofs.Reading.Stmt
import MoSyntax.Proofs.Tally.Expr

/-!
Statements pay for their reports. What a failed statement owes is paid for by a token that is
skipped behind it, and what a block without its closing brace owes, by the opening one.
-/
namespace MoSyntax.Parser

variable {type : Parser TypeExpr} {expr : Parser Expr} {stmt : Parser Stmt}

theorem nextStatement_loose (stmts : Firm 0 stmt) : Loose 0 (nextStatement stmt) := by
  intro start
  refine LooseAt.silent_bind (skipLineBreaks_at start) rfl (fun _ _ _ holds => holds.1) ?_
  rintro _ _ stop passes ⟨_, rfl⟩
  apply TalliedAt.here_bind
  split
  · exact Loose.pure _ _
  · rename_i goesOn
    simp only [Bool.or_eq_true, not_or, Cursor.atEnd, List.isEmpty_iff] at goesOn
    obtain ⟨⟨more, inner⟩, _⟩ := goesOn
    obtain ⟨token, rest, ahead⟩ := List.exists_cons_of_ne_nil more
    have here := Cursor.current_of_ahead ahead
    have notBreak : (stop.current.kind == .lineBreak) = false := here ▸ passes.other ahead
    have inside : Skip.endsStatement token.kind = false := by
      rw [← here, Skip.endsStatement, notBreak, Bool.false_or]
      simpa using inner
    have paid : LooseAt 0 stop (recover stmt skipStatement) := by
      refine TalliedAt.imp (TalliedAt.recover (stmts stop)
        (fun used next further => skipStatement_moves ahead inside further) fun _ => rfl) ?_
        fun _ _ => id
      intro value? used told counted
      cases value? <;> exact counted
    exact paid.bind fun _ => .pure _

theorem closeBlock_owing (opening : Span) : Loose 1 (closeBlock opening) := by
  intro start
  apply TalliedAt.here_bind
  split
  · rename_i closes
    have brace : start.current.kind ≠ .endOfFile := by
      intro ended
      simp [ended] at closes
    have paid : LooseAt 0 start (do advance; return start.current.span) :=
      FirmAt.loose (FirmAt.advance_bind brace (.pure _))
    exact TalliedAt.imp paid (fun _ _ _ => Nat.le_succ_of_le) fun _ _ => id
  · have reported : TalliedAt start (fun _ used told => told ≤ used + 1) Owing
        (report (Report.unclosedBlock opening start.current)) :=
      TalliedAt.report (.inl rfl) (Nat.le_refl 1)
    refine TalliedAt.bind reported ?_ fun _ _ => id
    intro _ used told stop _ counted
    exact TalliedAt.previous_bind (TalliedAt.pure counted)

theorem block_firm (stmts : Firm 0 stmt) : Firm 0 (block stmt) :=
  (expect_firm (by simp) _).settle fun opening => (nextStatement_loose stmts).many.bind fun _ =>
    (closeBlock_owing opening).map _

theorem forLoop_firm (exprs : Loose 0 expr) (stmts : Firm 0 stmt) : Firm 1 (forLoop expr stmt) :=
  (expect_firm (by simp) _).bind fun _ => exprs.bind fun _ => skipLineBreaks_loose.bind fun _ =>
    (block_firm stmts).loose.map _

theorem elseBlock_loose (stmts : Firm 0 stmt) : Loose 0 (elseBlock stmt) := by
  intro start
  apply TalliedAt.here_bind
  dsimp only
  split
  · exact (skip_loose _).bind (fun _ => skipLineBreaks_loose.bind fun _ =>
      (block_firm stmts).loose.map _) start
  · exact Loose.pure _ _

theorem ifElse_firm (exprs : Loose 0 expr) (stmts : Firm 0 stmt) : Firm 1 (ifElse expr stmt) :=
  (expect_firm (by simp) _).bind fun _ => exprs.bind fun _ => skipLineBreaks_loose.bind fun _ =>
    (block_firm stmts).loose.bind fun _ => (elseBlock_loose stmts).map _

theorem ret_firm (exprs : Loose 0 expr) : Firm 1 (ret expr) := by
  refine (expect_firm (by simp) _).bind fun _ start => TalliedAt.here_bind ?_
  split
  · exact Loose.pure _ _
  · exact exprs.map _ start

theorem defer_firm (stmts : Firm 0 stmt) : Firm 1 (defer stmt) :=
  (expect_firm (by simp) _).bind fun _ => stmts.loose.map _

theorem typedHead_firm (types : Loose 0 type) : Firm 1 (typedHead type) :=
  (ident_firm _).bind fun _ => types.bind fun _ => (expect_firm (by simp) _).loose.map _

/-- What is read behind `:=` is paid for, and a declaration is not declined any more. -/
theorem value_tallied (exprs : Loose 0 expr) (make : Expr → Stmt) (start : Cursor) :
    TalliedAt start (fun value? used told => value?.isSome ∧ told ≤ used) Owing
      (do return some (make (← expr))) :=
  TalliedAt.map _ (TalliedAt.imp (exprs start) (fun _ _ _ paid => ⟨rfl, paid⟩) fun _ _ => id)

/-- What is no declaration costs nothing, so that another reading of it is paid for. -/
theorem declaration_tallied (types : Loose 0 type) (exprs : Loose 0 expr) (start : Cursor) :
    TalliedAt start (fun value? used told => told ≤ used ∧ (value? = none → used = 0)) Settled
      (declaration type expr) := by
  -- Behind the token that the declaration begins with, the value is paid for.
  have valued {used told : Nat} {stop : Cursor} {value : Parser (Option Stmt)}
      (paid : told + 1 ≤ used)
      (behind : TalliedAt stop (fun value? used told => value?.isSome ∧ told ≤ used) Owing value) :
      TalliedAt stop (fun value? more later => told + later ≤ used + more ∧
          (value? = none → used + more = 0))
        (fun more later => Settled (used + more) (told + later)) value := by
    refine TalliedAt.imp behind (fun value? _ _ counted => ⟨by omega, ?_⟩) fun _ _ => ?_
    · rintro rfl
      exact absurd counted.1 Bool.false_ne_true
    · rw [Settled, Owing]
      omega
  apply TalliedAt.here_bind
  split
  · exact TalliedAt.pure ⟨Nat.le_refl 0, fun _ => rfl⟩
  · split
    · refine TalliedAt.bind (ident_firm _ start) (fun declared used told stop _ paid => ?_)
        fun _ _ => id
      refine valued paid (TalliedAt.bind (skip_loose 1 stop) (fun _ more later _ _ counted => ?_)
        fun _ _ => id)
      refine TalliedAt.imp (value_tallied exprs _ _) (fun _ _ _ value => ⟨value.1, by omega⟩)
        fun _ _ lost => ?_
      rw [Owing] at lost ⊢
      omega
    · refine TalliedAt.bind (TalliedAt.attempt .typedDeclaration (typedHead_firm types start)) ?_
        fun _ _ => id
      intro head used told stop _ counted
      cases head with
      | none => exact TalliedAt.pure ⟨Nat.le_of_eq (by omega), fun _ => by omega⟩
      | some head => exact valued counted (value_tallied exprs _ stop)

theorem assignment_firm {target : Parser Expr} (targets : Firm 1 target) (exprs : Loose 0 expr) :
    Firm 1 (assignment target expr) := by
  refine targets.bind fun target start => TalliedAt.here_bind ?_
  refine (accept_loose (by simp)).bind (fun assigns => ?_) start
  split
  · exact exprs.map _
  · split
    · exact .pure _
    · dsimp only
      split
      · exact (skip_loose 2).bind fun _ => exprs.map _
      · exact fun _ => TalliedAt.reject (.inl rfl) (Nat.le_refl 1)

theorem expressionStatement_firm (exprs : Firm 0 expr) : Firm 0 (expressionStatement expr) :=
  fun start => TalliedAt.current_bind (TalliedAt.note_bind (TalliedAt.map _ (exprs start)))

theorem simpleStatement_firm (types : Loose 0 type) (exprs : Firm 0 expr) :
    Firm 0 (simpleStatement type expr) := by
  intro start
  refine TalliedAt.bind (declaration_tallied types exprs.loose start) ?_ fun _ _ => id
  intro value? used told stop _ ⟨counted, declined⟩
  cases value? with
  | some statement => exact TalliedAt.pure counted
  | none =>
    have used := declined rfl
    have either : FirmAt 0 stop
        (unlessDeclined (assignment (unary type expr) expr) (expressionStatement expr)) := by
      refine TalliedAt.unlessDeclined ?_ (expressionStatement_firm exprs stop)
      refine TalliedAt.imp (assignment_firm (unary_firm types exprs.loose) exprs.loose stop)
        (fun _ _ _ paid _ _ => Nat.le_of_succ_le paid) fun _ _ => id
    refine TalliedAt.imp either (fun _ _ _ paid => by omega) fun more later lost => ?_
    rw [Settled] at lost ⊢
    omega

theorem stmtLevel_firm (types : Loose 0 type) (exprs : Firm 0 expr) (stmts : Firm 0 stmt) :
    Firm 0 (stmtLevel type expr stmt) := by
  intro start
  apply TalliedAt.current_bind
  split
  · exact (forLoop_firm exprs.loose stmts).mono start
  · exact (ifElse_firm exprs.loose stmts).mono start
  · exact (ret_firm exprs.loose).mono start
  · exact (defer_firm stmts).mono start
  · exact TalliedAt.map _ (block_firm stmts start)
  · exact simpleStatement_firm types exprs start

theorem statement_firm (limit budget : Nat) : Firm 0 (statement limit budget) := by
  induction budget with
  | zero => exact tooDeep_firm limit _ _
  | succ budget ih =>
    exact fun start => TalliedAt.inside _ (stmtLevel_firm (typeExpr_firm limit budget).loose
      (expression_firm limit budget) ih start)

end MoSyntax.Parser
