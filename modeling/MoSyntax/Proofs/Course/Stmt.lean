import MoSyntax.Proofs.Course.Expr
import MoSyntax.Proofs.Reading.Stmt

/-!
The course through statements and blocks. In a block a statement that cannot be read is skipped from
the token that its failure is blamed on.
-/
namespace MoSyntax.Parser

variable {body : Cursor → Cursor → Prop} {start : Cursor} {α : Type}

section
variable {stmt : Parser Stmt} {reading : Reading Stmt}

theorem nextStatement_runs (runs : Runs anyBody stmt) : Runs anyBody (nextStatement stmt) := by
  refine skipLineBreaks_runs.bind fun _ start => RunsAt.here_bind ?_
  split
  · exact .pure _
  · exact runs.recover.bind (fun _ => .pure _) start

theorem closeBlock_runs (opening : Span) : Runs body (closeBlock opening) := by
  intro start
  apply RunsAt.here_bind
  split
  · rename_i closes
    have closes : start.current.kind = .punctuation .rightBrace := by simpa using closes
    exact RunsAt.advance_bind (by simp [closes]) (by simp [closes, TokenKind.startsDeclaration])
      fun _ => .pure _
  · refine RunsAt.bind (RunsAt.report ?_) fun _ _ => RunsAt.previous.bind fun _ _ => .pure _
    rfl

theorem block_runs (runs : Runs anyBody stmt) (sound : Sound reading stmt)
    (some : ∀ used value reports, reading used value reports → used ≠ []) :
    Runs anyBody (block stmt) := by
  have rounds := Runs.many (nextStatement_runs runs) (nextStatement_sound sound some).moves
  refine (mark_runs _ (by decide)).bind fun opening => rounds.bind fun _ => ?_
  exact (closeBlock_runs opening).bind fun _ => .pure _

theorem elseBlock_runs (blocks : Runs body (block stmt)) : Runs body (elseBlock stmt) := by
  intro start intact
  refine RunsAt.here_bind ?_ intact
  dsimp only [lineBreaksAhead]
  split
  · rename_i found
    have word : (start.peek (start.ahead.takeWhile (·.kind == .lineBreak)).length).kind =
        .keyword .elseWord := by simpa using found
    obtain ⟨rest, ahead⟩ := Cursor.ahead_of_peek intact _ List.takeWhile_append_dropWhile.symm
      (show (start.peek (start.ahead.takeWhile (·.kind == .lineBreak)).length).kind ≠ _ by
        simp [word])
    refine RunsAt.bind (RunsAt.skip (_ ++ [_]) rest (by simpa using ahead) (by simp) ?_) fun _ _ =>
      skipLineBreaks_runs.bind (fun _ => blocks.bind fun _ => .pure _) _
    intro token member
    rcases List.mem_append.1 member with before | last
    · exact (breaks_takeWhile start.ahead).plain token before
    · obtain rfl := List.mem_singleton.1 last
      simp [word, TokenKind.startsDeclaration, Keyword.startsDeclaration]
  · exact .pure _

variable {expr : Parser Expr}

theorem word_runs {word : Keyword} (plain : word.startsDeclaration = false) {message : String}
    (other : message ∉ Diagnostic.unclosedMessages) :
    Runs body (expect (.keyword word) message) :=
  expect_runs (by simp) (by simp [TokenKind.startsDeclaration, plain]) other

theorem forLoop_runs (exprs : Runs body expr) (blocks : Runs body (block stmt)) :
    Runs body (forLoop expr stmt) :=
  (word_runs rfl (by decide)).bind fun _ => exprs.bind fun _ => skipLineBreaks_runs.bind fun _ =>
    blocks.bind fun _ => .pure _

theorem ifElse_runs (exprs : Runs body expr) (blocks : Runs body (block stmt)) :
    Runs body (ifElse expr stmt) :=
  (word_runs rfl (by decide)).bind fun _ => exprs.bind fun _ => skipLineBreaks_runs.bind fun _ =>
    blocks.bind fun _ => (elseBlock_runs blocks).bind fun _ => .pure _

theorem ret_runs (exprs : Runs body expr) : Runs body (ret expr) := by
  refine (word_runs rfl (by decide)).bind fun _ start => RunsAt.here_bind ?_
  split
  · exact .pure _
  · exact exprs.bind (fun _ => .pure _) start

theorem defer_runs (runs : Runs body stmt) : Runs body (defer stmt) :=
  (word_runs rfl (by decide)).bind fun _ => runs.bind fun _ => .pure _

end

variable {type : Parser TypeExpr} {expr : Parser Expr}

theorem declare_runs (kind : Operator) {message : String}
    (other : message ∉ Diagnostic.unclosedMessages) :
    Runs body (expect (.operator kind) message) :=
  expect_runs (by simp) (by simp [TokenKind.startsDeclaration]) other

theorem declaration_runs (types : Runs body type) (exprs : Runs body expr) :
    Runs body (declaration type expr) := by
  intro start intact
  refine RunsAt.here_bind ?_ intact
  split
  · exact .pure _
  · split
    · rename_i found
      refine (ident_runs (by decide) start).bind fun name some => ?_
      obtain ⟨_, used, passes, reads⟩ := ident_sound "expected a variable name" start intact
      rw [some] at reads
      obtain ⟨⟨token, rfl, _⟩, _⟩ := reads
      have sign : (ident "expected a variable name" start).cursor.current.kind =
          .operator .declare := by
        rw [Cursor.current, ← passes.peek]
        simpa using found
      exact RunsAt.advance_bind (by simp [sign]) (by simp [sign, TokenKind.startsDeclaration])
        fun stop => exprs.bind (fun _ => .pure _) stop
    · have heads : Runs body (typedHead type) :=
        (ident_runs (by decide)).bind fun _ => types.bind fun _ =>
          (declare_runs _ (by decide)).bind fun _ => .pure _
      refine (heads.attempt _).bind (fun found => ?_) start
      split
      · exact .pure _
      · exact exprs.bind fun _ => .pure _

theorem spacedCompound_wrong (sign : Operator) (span : Span) :
    ¬ (Report.spacedCompound sign span).isUnclosed := by
  show ¬ Diagnostic.unclosedMessages.contains ("`" ++ String.ofList sign.symbol ++
    "` and `=` must be adjacent in a compound assignment")
  simp [Diagnostic.unclosedMessages, ← String.toList_inj]

theorem assignment_runs {target : Parser Expr} (targets : Runs body target)
    (exprs : Runs body expr) : Runs body (assignment target expr) := by
  refine targets.bind fun target start => RunsAt.here_bind ?_
  have accepts : Runs body (accept (.operator .assign)) :=
    accept_runs (by simp) (by simp [TokenKind.startsDeclaration])
  refine (accepts start).bind fun found some => ?_
  cases found with
  | true => exact exprs.bind (fun _ => .pure _) _
  | false =>
    rw [accept_stays some]
    simp only [Bool.false_eq_true, ↓reduceIte]
    split
    · exact .pure _
    · rename_i sign operator compound
      obtain ⟨kind, equals, _⟩ := compoundOperator?_eq_some compound
      split
      · intro intact
        obtain ⟨behind, current⟩ := Cursor.ahead_of_current intact (by simp [kind])
        obtain ⟨rest, ahead⟩ := Cursor.ahead_of_peek intact [_] current
          (fun none => by simp [equals] at none)
        refine RunsAt.bind (RunsAt.skip [_, _] rest ahead rfl ?_)
          (fun _ _ => exprs.bind (fun _ => .pure _) _) intact
        simp [kind, equals, TokenKind.startsDeclaration]
      · exact .reject rfl (spacedCompound_wrong _ _)

theorem simpleStatement_runs (types : Runs body type) (exprs : Runs body expr)
    {reading : Reading Expr} (sound : Sound reading expr) :
    Runs body (simpleStatement type expr) := by
  refine (declaration_runs types exprs).bind fun found => ?_
  cases found with
  | some statement => exact .pure _
  | none =>
    refine (assignment_runs (unary_runs types exprs sound) exprs).unlessDeclined fun start => ?_
    exact RunsAt.current_bind (RunsAt.note_bind (exprs.bind (fun _ => .pure _) start))

theorem stmtLevel_runs {stmt : Parser Stmt} (types : Runs body type) (exprs : Runs body expr)
    (runs : Runs body stmt) (blocks : Runs body (block stmt)) {reading : Reading Expr}
    (sound : Sound reading expr) : Runs body (stmtLevel type expr stmt) := by
  intro start
  apply RunsAt.current_bind
  split
  · exact forLoop_runs exprs blocks start
  · exact ifElse_runs exprs blocks start
  · exact ret_runs exprs start
  · exact defer_runs runs start
  · exact blocks.bind (fun _ => .pure _) start
  · exact simpleStatement_runs types exprs sound start

theorem statement_runs (limit budget : Nat) (within : budget ≤ limit) :
    Runs anyBody (statement limit budget) := by
  induction budget with
  | zero => exact tooDeep_runs limit (by simp) _
  | succ budget ih =>
    have within : budget ≤ limit := Nat.le_of_succ_le within
    have exprs := expression_sound limit budget within
    have blocks := block_runs (ih within) (statement_sound limit budget within) fun _ _ _ =>
      StmtReading.ne_nil
    exact fun start => RunsAt.inside (stmtLevel_runs (typeExpr_runs limit budget)
      (expression_runs limit budget within) (ih within) blocks exprs start)

end MoSyntax.Parser
