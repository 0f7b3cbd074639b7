import MoSyntax.Proofs.Deepening.Expr

/-!
Statements with different budgets. The target of an assignment is read on trial, with one level more
than the expression that is read from the same place when there is no assignment. So a trial that
comes to the limit and is given up is followed by an expression that comes to the limit as well.
-/
namespace MoSyntax.Parser

open Diagnostic (ReachesLimit beforeLimit beforeLimit_append)

variable {type deepType : Parser TypeExpr} {expr deepExpr : Parser Expr}
  {stmt deepStmt : Parser Stmt}

theorem skipStatement_keeps : Keeps skipStatement := Keeps.here.bind fun _ => .skip _

theorem closeBlock_keeps (opening : Span) : Keeps (closeBlock opening) := by
  refine Keeps.here.bind fun cursor => ?_
  split
  · exact Silent.advance.keeps.bind fun _ => .pure _
  · exact (Keeps.report _).bind fun _ => Keeps.previous.bind fun _ => .pure _

section
variable {start : Cursor}

theorem closeBlock_eq (opening : Span) (start : Cursor) :
    closeBlock opening start =
      (if start.current.kind == .punctuation .rightBrace then do
        advance
        return start.current.span
      else do
        report (Report.unclosedBlock opening start.current)
        return (← previous).span : Parser Span) start := rfl

theorem closeBlock_found (opening : Span) (closes : start.current.kind = .punctuation .rightBrace) :
    closeBlock opening start = { value := some start.current.span, cursor := start.advance } := by
  rw [closeBlock_eq, if_pos (by simp [closes])]
  rfl

theorem closeBlock_missing (opening : Span)
    (other : start.current.kind ≠ .punctuation .rightBrace) :
    (closeBlock opening start).reports ≠ [] := by
  rw [closeBlock_eq, if_neg (by simpa using other)]
  exact List.cons_ne_nil _ _

theorem block_opened (opens : start.current.kind == .punctuation .leftBrace) :
    block stmt start =
      (many (nextStatement stmt) >>= fun found =>
        closeBlock start.current.span >>= fun closing =>
          pure (.braces (start.current.span.through closing) found.reduceOption)) start.advance := by
  rw [block, bind_of_silent (expect_found opens _)]

end

theorem nextStatement_deepens (stmts : Deepens stmt deepStmt) :
    Deepens (nextStatement stmt) (nextStatement deepStmt) := by
  refine (Deepens.refl skipLineBreaks_keeps).bind fun _ => (Deepens.refl .here).bind fun cursor => ?_
  split
  · exact .refl (.pure _)
  · exact (stmts.recover skipStatement_keeps).bind fun _ => .refl (.pure _)

theorem block_deepens (stmts : Deepens stmt deepStmt) : Deepens (block stmt) (block deepStmt) := by
  refine (Deepens.refl (Silent.expect (by simp) _).keeps).bind fun opening => ?_
  exact (Deepens.many (nextStatement_deepens stmts)).bind fun _ =>
    (Deepens.refl (closeBlock_keeps _)).bind fun _ => .refl (.pure _)

theorem forLoop_deepens (exprs : Deepens expr deepExpr) (stmts : Deepens stmt deepStmt) :
    Deepens (forLoop expr stmt) (forLoop deepExpr deepStmt) := by
  refine (Deepens.refl (Silent.expect (by simp) _).keeps).bind fun opening => ?_
  exact exprs.bind fun _ => (Deepens.refl skipLineBreaks_keeps).bind fun _ =>
    (block_deepens stmts).bind fun _ => .refl (.pure _)

theorem elseBlock_deepens (stmts : Deepens stmt deepStmt) :
    Deepens (elseBlock stmt) (elseBlock deepStmt) := by
  refine (Deepens.refl .here).bind fun cursor => ?_
  dsimp only
  split
  · exact (Deepens.refl (.skip _)).bind fun _ => (Deepens.refl skipLineBreaks_keeps).bind fun _ =>
      (block_deepens stmts).bind fun _ => .refl (.pure _)
  · exact .refl (.pure _)

theorem ifElse_deepens (exprs : Deepens expr deepExpr) (stmts : Deepens stmt deepStmt) :
    Deepens (ifElse expr stmt) (ifElse deepExpr deepStmt) := by
  refine (Deepens.refl (Silent.expect (by simp) _).keeps).bind fun opening => ?_
  refine exprs.bind fun condition => (Deepens.refl skipLineBreaks_keeps).bind fun _ => ?_
  exact (block_deepens stmts).bind fun _ => (elseBlock_deepens stmts).bind fun _ => .refl (.pure _)

theorem ret_deepens (exprs : Deepens expr deepExpr) : Deepens (ret expr) (ret deepExpr) := by
  refine (Deepens.refl (Silent.expect (by simp) _).keeps).bind fun opening => ?_
  refine (Deepens.refl .here).bind fun cursor => ?_
  split
  · exact .refl (.pure _)
  · exact exprs.bind fun _ => .refl (.pure _)

theorem defer_deepens (stmts : Deepens stmt deepStmt) : Deepens (defer stmt) (defer deepStmt) :=
  (Deepens.refl (Silent.expect (by simp) _).keeps).bind fun _ => stmts.bind fun _ => .refl (.pure _)

theorem declaration_deepens (heads : Tries (typedHead type) (typedHead deepType))
    (exprs : Deepens expr deepExpr) :
    Deepens (declaration type expr) (declaration deepType deepExpr) := by
  refine (Deepens.refl .here).bind fun cursor => ?_
  split
  · exact .refl (.pure _)
  · split
    · exact (Deepens.refl (Silent.ident _).keeps).bind fun _ =>
        (Deepens.refl Silent.advance.keeps).bind fun _ => exprs.bind fun _ => .refl (.pure _)
    · refine (heads.attempt .typedDeclaration).bind fun found => ?_
      split
      · exact .refl (.pure _)
      · exact exprs.bind fun _ => .refl (.pure _)

/-! The trial of an assignment. -/

/-- What may follow the target of an assignment. -/
def assigned (expr : Parser Expr) (target : Expr) : Parser (Option Stmt) :=
  assignment (pure target) expr

theorem assignment_eq (target : Parser Expr) (expr : Parser Expr) :
    assignment target expr = target >>= assigned expr := rfl

theorem assigned_deepens (exprs : Deepens expr deepExpr) (target : Expr) :
    Deepens (assigned expr target) (assigned deepExpr target) := by
  refine (Deepens.refl (.pure _)).bind fun target => (Deepens.refl .here).bind fun cursor => ?_
  refine (Deepens.refl (accept_keeps (by simp))).bind fun found => ?_
  split
  · exact exprs.bind fun _ => .refl (.pure _)
  · split
    · exact .refl (.pure _)
    · dsimp only
      split
      · exact (Deepens.refl (.skip _)).bind fun _ => exprs.bind fun _ => .refl (.pure _)
      · exact .refl (.reject _)

theorem ne_declined {α β : Type} {parser : Parser α} (make : α → β) (start : Cursor) :
    ((parser >>= fun value => pure (some (make value))) start).value ≠ some none := by
  cases found : (parser start).value with
  | none =>
    rw [bind_of_none found]
    simp
  | some value =>
    rw [bind_of_some found]
    simp [Reply.after, pure, succeed]

/-- What may follow the target of a compound assignment, seen from where it is. -/
def compounded (start : Cursor) (expr : Parser Expr) (target : Expr) : Parser (Option Stmt) :=
  match compoundOperator? start with
  | none => return none
  | some (sign, operator) =>
    if start.current.span.stop == (start.peek 1).span.start then do
      skip 2
      let value ← expr
      return some (.compoundAssign (target.span.through value.span) target
        ⟨start.current.span, operator⟩ value)
    else
      reject (Report.spacedCompound sign (start.current.span.through (start.peek 1).span))

/-- Whether there is an assignment is seen before its value is read. -/
theorem assigned_declined {target : Expr} {start : Cursor}
    (declined : (assigned deepExpr target start).value = some none) (expr : Parser Expr) :
    assigned expr target start = { value := some none, cursor := start } := by
  obtain ⟨next, opened, assigns, compounds⟩ : ∃ next : Parser Expr → Bool → Parser (Option Stmt),
      (∀ expr, assigned expr target start = (accept (.operator .assign) >>= next expr) start) ∧
      (∀ expr, next expr true = expr >>= fun value =>
        pure (some (.assign (target.span.through value.span) target value))) ∧
      (∀ expr, next expr false = compounded start expr target) :=
    ⟨_, fun _ => rfl, fun _ => rfl, fun _ => rfl⟩
  have continues (expr : Parser Expr) {found : Bool} {stop : Cursor}
      (accepted : accept (.operator .assign) start = { value := some found, cursor := stop }) :
      assigned expr target start = next expr found stop := by
    rw [opened, bind_of_some (congrArg Reply.value accepted), accepted]
    rfl
  by_cases equals : start.current.kind == .operator .assign
  · rw [continues _ (accept_found equals), assigns] at declined
    exact absurd declined (ne_declined _ _)
  · rw [continues _ (accept_other equals), compounds, compounded] at declined ⊢
    cases sign : compoundOperator? start with
    | none => rfl
    | some found =>
      rw [sign] at declined
      dsimp only at declined
      split at declined
      · rw [bind_of_some rfl] at declined
        exact absurd declined (ne_declined _ _)
      · simp [reject] at declined

theorem assignment_declined {target deepTarget : Parser Expr} {start : Cursor}
    (same : deepTarget start = target start)
    (declined : (assignment target expr start).value = some none) :
    assignment deepTarget deepExpr start = assignment target expr start := by
  rw [assignment_eq] at declined ⊢
  rw [assignment_eq, bind_congr same]
  cases found : (target start).value with
  | none =>
    rw [bind_of_none found] at declined
    exact absurd declined (by simp)
  | some value =>
    rw [bind_of_some found] at declined
    have rest := assigned_declined (show (assigned expr value _).value = _ from declined)
    rw [bind_of_some found, bind_of_some found, rest, rest]

section
variable {α : Type} {first second : Parser (Option α)} {other further : Parser α} {start : Cursor}

theorem unlessDeclined_reports (parser : Parser (Option α)) (other : Parser α) (start : Cursor) :
    (unlessDeclined parser other start).reports = (parser start).reports ∨
      (parser start).value = some none ∧
        (unlessDeclined parser other start).reports = (other start).reports := by
  rw [unlessDeclined]
  split
  · exact .inl rfl
  · exact .inl rfl
  · rename_i declined
    exact .inr ⟨declined, rfl⟩

theorem unlessDeclined_congr (same : second start = first start)
    (deepens : (other start).DeepensTo (further start)) :
    (unlessDeclined first other start).DeepensTo (unlessDeclined second further start) := by
  rw [unlessDeclined, unlessDeclined, same]
  split
  · exact .same rfl
  · exact .same rfl
  · exact deepens.after

theorem unlessDeclined_kept (kept : (first start).value ≠ some none)
    (too : (second start).value ≠ some none) (deepens : (first start).DeepensTo (second start)) :
    (unlessDeclined first other start).DeepensTo (unlessDeclined second further start) := by
  have told := (unlessDeclined_reports first other start).resolve_right fun both => kept both.1
  have deeper := (unlessDeclined_reports second further start).resolve_right fun both => too both.1
  cases deepens with
  | limited reaches agrees => exact .limited (told ▸ reaches) (told ▸ deeper ▸ agrees)
  | same eq =>
    refine .same ?_
    rw [unlessDeclined, unlessDeclined, eq]
    split
    · rfl
    · rfl
    · rename_i declined
      exact absurd declined kept

end

theorem expressionStatement_reports (expr : Parser Expr) (start : Cursor) :
    (expressionStatement expr start).reports = (expr start).reports := by
  have opened : expressionStatement expr start =
      ((expr >>= fun value => pure (.expression value) : Parser Stmt) start).after
        { value := some (), cursor := start, events := [.plainStatement start.current.position] } :=
    rfl
  rw [opened]
  cases found : (expr start).value with
  | none =>
    rw [bind_of_none found]
    rfl
  | some value =>
    rw [bind_of_some found]
    simp [Reply.after, pure, succeed]

/-- An assignment, or else an expression from the same place: both come to the limit together. -/
theorem plain_deepens {target deepTarget : Parser Expr} (targets : Deepens target deepTarget)
    (exprs : Deepens expr deepExpr)
    (retries : ∀ start, start.Intact → ReachesLimit (target start).reports →
      ReachesLimit (expr start).reports ∧
        beforeLimit (expr start).reports <+: (deepTarget start).reports)
    (begins : ∀ start, start.Intact →
      beforeLimit (target start).reports <+: (deepExpr start).reports) :
    Deepens (unlessDeclined (assignment target expr) (expressionStatement expr))
      (unlessDeclined (assignment deepTarget deepExpr) (expressionStatement deepExpr)) := by
  have trials : Deepens (assignment target expr) (assignment deepTarget deepExpr) :=
    targets.bind (assigned_deepens exprs)
  have others : Deepens (expressionStatement expr) (expressionStatement deepExpr) :=
    (Deepens.refl .current).bind fun _ => (Deepens.refl (.note _)).bind fun _ =>
      exprs.bind fun _ => .refl (.pure _)
  refine ⟨fun start intact => ?_, fun start intact => ?_⟩
  · rw [unlessDeclined]
    split
    · exact trials.keeps start intact
    · exact trials.keeps start intact
    · exact others.keeps start intact
  · have deeper := unlessDeclined_reports (assignment deepTarget deepExpr)
      (expressionStatement deepExpr) start
    cases targets.deepens start intact with
    | same eq =>
      by_cases declined : (assignment target expr start).value = some none
      · exact unlessDeclined_congr (assignment_declined eq declined) (others.deepens start intact)
      · refine unlessDeclined_kept declined (fun deep => declined ?_) (trials.deepens start intact)
        rwa [← assignment_declined eq.symm deep] at deep
    | limited reaches agrees =>
      have trial : (deepTarget start).reports <+: (assignment deepTarget deepExpr start).reports :=
        reports_bind deepTarget (assigned deepExpr) start
      rw [expressionStatement_reports] at deeper
      rcases unlessDeclined_reports (assignment target expr) (expressionStatement expr) start
        with told | ⟨_, told⟩
      · obtain ⟨more, whole⟩ : (target start).reports <+: (assignment target expr start).reports :=
          reports_bind target (assigned expr) start
        rw [← whole] at told
        refine .limited (told ▸ reaches.append more) ?_
        rw [told, beforeLimit_append reaches]
        rcases deeper with deeper | ⟨_, deeper⟩
        · exact deeper ▸ agrees.trans trial
        · exact deeper ▸ begins start intact
      · rw [expressionStatement_reports] at told
        obtain ⟨again, before⟩ := retries start intact reaches
        refine .limited (told ▸ again) ?_
        rw [told]
        rcases deeper with deeper | ⟨_, deeper⟩
        · exact deeper ▸ before.trans trial
        · exact deeper ▸ (exprs.deepens start intact).agrees

theorem simpleStatement_deepens (heads : Tries (typedHead type) (typedHead deepType))
    (exprs : Deepens expr deepExpr)
    (plain : Deepens (unlessDeclined (assignment (unary type expr) expr) (expressionStatement expr))
      (unlessDeclined (assignment (unary deepType deepExpr) deepExpr)
        (expressionStatement deepExpr))) :
    Deepens (simpleStatement type expr) (simpleStatement deepType deepExpr) := by
  refine (declaration_deepens heads exprs).bind fun found => ?_
  cases found with
  | some statement => exact .refl (.pure _)
  | none => exact plain

theorem stmtLevel_deepens (exprs : Deepens expr deepExpr) (stmts : Deepens stmt deepStmt)
    (simple : Deepens (simpleStatement type expr) (simpleStatement deepType deepExpr)) :
    Deepens (stmtLevel type expr stmt) (stmtLevel deepType deepExpr deepStmt) := by
  refine (Deepens.refl .current).bind fun found => ?_
  split
  · exact forLoop_deepens exprs stmts
  · exact ifElse_deepens exprs stmts
  · exact ret_deepens exprs
  · exact defer_deepens stmts
  · exact (block_deepens stmts).bind fun _ => .refl (.pure _)
  · exact simple

variable {limit other budget more : Nat}

theorem target_deepens (le : budget ≤ more) (within : budget ≤ limit) (further : more ≤ other) :
    Deepens (unary (typeExpr limit budget) (expression limit budget))
      (unary (typeExpr other more) (expression other more)) :=
  unary_deepens (typeExpr_tries le within further) (expression_deepens le within further)

/-- An expression comes to the limit where a target does that may go one level deeper. -/
theorem target_retries (lt : budget < more) (within : budget ≤ limit) (further : more ≤ other)
    {start : Cursor} (intact : start.Intact)
    (reaches : ReachesLimit (unary (typeExpr limit budget) (expression limit budget) start).reports) :
    ReachesLimit (expression limit budget start).reports ∧
      beforeLimit (expression limit budget start).reports <+:
        (unary (typeExpr other more) (expression other more) start).reports := by
  cases budget with
  | zero =>
    have skipped : expression limit 0 start = _ :=
      tooDeep_eq limit Skip.stopsExpression Expr.skipped start
    rw [skipped]
    exact ⟨⟨_, List.mem_cons_self, rfl⟩, List.nil_prefix⟩
  | succ budget =>
    have inner : ReachesLimit
        (unary (typeExpr limit budget) (expression limit budget) start).reports := by
      have deeper := target_deepens (Nat.le_succ budget) (Nat.le_of_lt within) within
      cases deeper.deepens start intact with
      | same eq => exact eq ▸ reaches
      | limited again _ => exact again
    obtain ⟨rest, whole⟩ := unary_reports (typeExpr limit budget) (expression limit budget) start
    rw [expression_succ limit (by omega), ← whole, beforeLimit_append inner]
    have deeper := target_deepens (by omega : budget ≤ more) (by omega : budget ≤ limit) further
    exact ⟨inner.append rest, (deeper.deepens start intact).agrees⟩

/-- What a target tells before the limit is told by a deeper expression. -/
theorem target_begins (lt : budget < more) (within : budget ≤ limit) (further : more ≤ other)
    {start : Cursor} (intact : start.Intact) :
    beforeLimit (unary (typeExpr limit budget) (expression limit budget) start).reports <+:
      (expression other more start).reports := by
  obtain ⟨more, rfl⟩ : ∃ count, more = count + 1 := ⟨more - 1, by omega⟩
  have deeper := target_deepens (by omega : budget ≤ more) within (by omega : more ≤ other)
  rw [expression_succ other (by omega)]
  exact (deeper.deepens start intact).agrees.trans (unary_reports _ _ _)

theorem statement_deepens (lt : budget < more) (within : budget ≤ limit) (further : more ≤ other) :
    Deepens (statement limit budget) (statement other more) := by
  induction budget generalizing more with
  | zero => exact tooDeep_deepens limit _ _ _
  | succ budget ih =>
    obtain ⟨more, rfl⟩ : ∃ count, more = count + 1 := ⟨more - 1, by omega⟩
    have shallow : statement limit (budget + 1) = stmtLevel (typeExpr limit budget)
        (expression limit budget) (statement limit budget) := inside_eq (stmtLevel _ _ _) (by omega)
    have deep : statement other (more + 1) = stmtLevel (typeExpr other more)
        (expression other more) (statement other more) := inside_eq (stmtLevel _ _ _) (by omega)
    have lt : budget < more := Nat.lt_of_succ_lt_succ lt
    have inner : budget ≤ limit := Nat.le_of_succ_le within
    have outer : more ≤ other := Nat.le_of_succ_le further
    have heads := typedHead_tries (typeExpr_settles (Nat.le_of_lt lt) inner outer)
      (typeExpr_sound limit budget inner).keeps
    have exprs := expression_deepens (Nat.le_of_lt lt) inner outer
    rw [shallow, deep]
    refine stmtLevel_deepens exprs (ih lt inner outer) (simpleStatement_deepens heads exprs ?_)
    exact plain_deepens (target_deepens (Nat.le_of_lt lt) inner outer) exprs
      (fun _ intact => target_retries lt inner outer intact)
      (fun _ intact => target_begins lt inner outer intact)

end MoSyntax.Parser
