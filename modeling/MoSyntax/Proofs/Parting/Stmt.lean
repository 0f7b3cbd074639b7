import MoSyntax.Proofs.Parting.Expr

/-!
Statements and blocks, read from two texts that part. A statement of the first text that goes on
behind the place where they part finds a closing brace instead of its block.
-/
namespace MoSyntax

theorem Parser.kind_of_expect {kind : TokenKind} {message : String} {start : Cursor} {span : Span}
    (found : (expect kind message start).value = some span) : start.current.kind = kind := by
  by_contra other
  rw [expect_other (by simpa using other)] at found
  simp at found

theorem Parser.pastBreaks_eq (cursor : Cursor) :
    pastBreaks cursor = cursor.advanceBy (lineBreaksAhead cursor.ahead) := rfl

theorem Parser.peek_lineBreaksAhead (cursor : Cursor) :
    cursor.peek (lineBreaksAhead cursor.ahead) = (pastBreaks cursor).current :=
  cursor.peek_breaks

namespace Parting

open MoSyntax.Parser

variable {c : Parting} {depth : Nat} {start other : Cursor}

theorem Past.current_ne (past : c.Past depth start other) (intact : other.Intact) (wild : ¬ c.mild) :
    (pastBreaks other).current.kind ≠ .keyword .elseWord := by
  have plain := c.plain.resolve_left wild
  rw [← past.second] at plain
  cases ahead : (pastBreaks other).ahead with
  | nil =>
    have ended := ((pastBreaks_passes other).1.intact intact).eof
    rw [Cursor.current, Cursor.peek, ahead, List.getD_nil, ended]
    simp
  | cons token rest =>
    rw [Cursor.current_of_ahead ahead]
    exact plain token (by rw [ahead]; rfl)

namespace Cursors

theorem compoundOperator? (like : c.Cursors depth start other) :
    Parser.compoundOperator? start = Parser.compoundOperator? other := by
  rw [Parser.compoundOperator?, Parser.compoundOperator?, ← like.current]
  split
  · rename_i sign kind
    rw [like.peek depth (by simp [kind]) (by rw [kind]; rfl)]
  · rfl

theorem skip_compound (like : c.Cursors depth start other) {sign : Operator}
    (operator : start.current.kind = .operator sign)
    (equals : (start.peek 1).kind = .operator .assign) :
    c.Cursors depth (start.advanceBy 2) (other.advanceBy 2) := by
  have further := (like.advance depth (by simp [operator]) (by rw [operator]; rfl)).1
  rw [Cursor.peek_one like.intact (by simp [operator])] at equals
  exact (further.advance depth (by simp [equals]) (by rw [equals]; rfl)).1

end Cursors

namespace Agrees

theorem closeBlock (wild : ¬ c.mild) (opening : Span) :
    c.Agrees .any (depth + 1) depth (closeBlock opening) := by
  intro start other like
  refine AgreesAt.here_bind ?_ like
  rw [← like.current]
  split
  · rename_i closes
    have closes : start.current.kind = .punctuation .rightBrace := by simpa using closes
    exact AgreesAt.advance_bind _ (by simp [closes]) (by rw [closes]; rfl) fun _ _ => AgreesAt.pure _
  · exact AgreesAt.report_lost wild _ _ _

section

variable {reading : Reading Stmt} {stmt : Parser Stmt} (sound : Sound reading stmt)
  (stmts : ∀ depth, c.Agrees .any depth depth stmt)

include sound stmts

theorem nextStatement (wild : ¬ c.mild) :
    c.Agrees .any (depth + 1) (depth + 1) (nextStatement stmt) := by
  intro start other
  refine (skipLineBreaks _ _).bind fun _ stop stop' like => ?_
  refine AgreesAt.here_bind ?_ like
  rw [← like.current, like.more.1, like.more.2]
  split
  · exact AgreesAt.pure _
  · exact (AgreesAt.recover sound wild _ _ (stmts _ _ _)).bind fun _ _ _ => AgreesAt.pure _

variable (some : ∀ used value reports, reading used value reports → used ≠ [])

include some

theorem block : c.Agrees .any depth depth (block stmt) := by
  intro start other like
  refine AgreesAt.bind_at (expect (depth + 1) (by simp) rfl _ _ _)
    (fun opening found _ => ?_) like
  have wild : ¬ c.mild := like.wild (by rw [kind_of_expect found]; rfl)
  refine (many (nextStatement sound stmts wild) (nextStatement_sound sound some).advances _ _).bind
    fun _ _ _ => ?_
  exact (closeBlock wild opening _ _).bind fun _ _ _ => AgreesAt.pure _

theorem skipLineBreaks_block {β : Type} (wild : ¬ c.mild) (goesOn : Block → β) :
    c.Agrees .any depth depth (do
      Parser.skipLineBreaks
      return goesOn (← Parser.block stmt)) := by
  intro start other
  refine AgreesAt.skipLineBreaks_bind (fun calm => absurd calm wild) ?_ trivial fun _ _ => ?_
  · exact ((Balks.expect (by simp) _).bind _).bind _
  · exact (block sound stmts some _ _).bind fun _ _ _ => AgreesAt.pure _

theorem elseBlock (wild : ¬ c.mild) : c.Agrees .any depth depth (elseBlock stmt) := by
  intro start other like
  refine AgreesAt.here_bind ?_ like
  dsimp only
  rw [peek_lineBreaksAhead, peek_lineBreaksAhead]
  rcases like.pastBreaks with ⟨count, further⟩ | past
  · rw [← further.current, ← count]
    split
    · rename_i found
      have word : (pastBreaks start).current.kind = .keyword .elseWord := by simpa using found
      have behind := (further.advance depth (by simp [word]) (by rw [word]; rfl)).1
      rw [pastBreaks_eq, pastBreaks_eq, ← count, ← Cursor.advanceBy_add, ← Cursor.advanceBy_add]
        at behind
      intro _
      refine Replies.bind (.same rfl rfl ⟨depth, fun _ => rfl, behind⟩) fun _ _ _ => ?_
      exact skipLineBreaks_block sound stmts some wild _ _ _
    · exact AgreesAt.pure _
  · rw [past.current wild, if_neg (by simp),
      if_neg (by simpa using past.current_ne like.intact' wild)]
    exact AgreesAt.pure _

variable {expr : Parser Expr} (exprs : ∀ depth, c.Agrees .failing depth depth expr)

include exprs

theorem forLoop : c.Agrees .any depth depth (forLoop expr stmt) := by
  intro start other like
  refine AgreesAt.bind_at (expect depth (by simp) rfl _ _ _) (fun _ found _ => ?_) like
  have wild : ¬ c.mild := like.wild (by rw [kind_of_expect found]; rfl)
  refine (exprs _ _ _).any.bind fun _ _ _ => ?_
  exact skipLineBreaks_block sound stmts some wild _ _ _

theorem ifElse : c.Agrees .any depth depth (ifElse expr stmt) := by
  intro start other like
  refine AgreesAt.bind_at (expect depth (by simp) rfl _ _ _) (fun _ found _ => ?_) like
  have wild : ¬ c.mild := like.wild (by rw [kind_of_expect found]; rfl)
  refine (exprs _ _ _).any.bind fun _ _ _ => ?_
  refine AgreesAt.skipLineBreaks_bind (fun calm => absurd calm wild) ?_ trivial fun _ _ => ?_
  · exact ((Balks.expect (by simp) _).bind _).bind _
  · refine (block sound stmts some _ _).bind fun _ _ _ => ?_
    exact (elseBlock sound stmts some wild _ _).bind fun _ _ _ => AgreesAt.pure _

end

section

variable {type : Parser TypeExpr} {expr : Parser Expr} {stmt : Parser Stmt}
  (types : ∀ depth, c.Agrees .never depth depth type)
  (exprs : ∀ depth, c.Agrees .failing depth depth expr)
  (stmts : ∀ depth, c.Agrees .any depth depth stmt)

include exprs in
theorem ret : c.Agrees .failing depth depth (ret expr) := by
  intro start other
  refine (expect depth (by simp) rfl _ _ _).bind fun _ stop stop' like => ?_
  refine AgreesAt.here_bind ?_ like
  rw [← like.current, like.more.1, like.more.2]
  split
  · exact AgreesAt.pure _
  · exact (exprs _ _ _).bind fun _ _ _ => AgreesAt.pure _

include stmts in
theorem defer : c.Agrees .any depth depth (defer stmt) := by
  intro start other
  refine (expect depth (by simp) rfl _ _ _).bind fun _ _ _ => ?_
  exact (stmts _ _ _).bind fun _ _ _ => AgreesAt.pure _

include types in
theorem typedHead : c.Agrees .never depth depth (typedHead type) := by
  intro start other
  refine (ident _ _ _).bind fun _ _ _ => ?_
  refine (types depth _ _).bind fun _ _ _ => ?_
  exact (expect depth (by simp) rfl _ _ _).bind fun _ _ _ => AgreesAt.pure _

include types exprs in
theorem declaration : c.Agrees .failing depth depth (declaration type expr) := by
  intro start other like
  refine AgreesAt.here_bind ?_ like
  rw [← like.current]
  split
  · exact AgreesAt.pure _
  · rename_i word
    rw [← like.identifier (by simpa using word)]
    split
    · rename_i sign
      refine AgreesAt.bind_at (ident _ _ _) fun _ found _ => ?_
      have sign : (Parser.ident "expected a variable name" start).cursor.current.kind =
          .operator .declare := by
        rw [Comparison.current_behind_ident like.intact found]
        simpa using sign
      refine AgreesAt.advance_bind _ (by simp [sign]) (by rw [sign]; rfl) fun _ _ => ?_
      exact (exprs depth _ _).bind fun _ _ _ => AgreesAt.pure _
    · refine (AgreesAt.attempt _ (typedHead types _ _)).bind fun head _ _ => ?_
      cases head with
      | none => exact AgreesAt.pure _
      | some head => exact (exprs _ _ _).bind fun _ _ _ => AgreesAt.pure _

include exprs in
theorem assignment {target : Parser Expr} (targets : c.Agrees .failing depth depth target) :
    c.Agrees .failing depth depth (assignment target expr) := by
  intro start other
  refine (targets _ _).bind fun _ stop stop' like => ?_
  refine AgreesAt.here_bind (AgreesAt.accept_bind depth (by simp) rfl (fun _ _ => ?_) ?_)
    like
  · exact (exprs _ _ _).bind fun _ _ _ => AgreesAt.pure _
  · rw [← like.compoundOperator?]
    cases found : compoundOperator? stop with
    | none => exact AgreesAt.pure _
    | some compound =>
      obtain ⟨sign, operator⟩ := compound
      obtain ⟨kind, equals, _⟩ := compoundOperator?_eq_some found
      simp only [Bool.false_eq_true, ↓reduceIte]
      rw [← like.current, ← like.peek depth (by simp [kind]) (by rw [kind]; rfl)]
      split
      · intro _
        refine Replies.bind (.same rfl rfl ⟨depth, fun _ => rfl, like.skip_compound kind equals⟩)
          fun _ _ _ => ?_
        exact (exprs _ _ _).bind fun _ _ _ => AgreesAt.pure _
      · exact AgreesAt.reject _

variable {exprReading : Reading Expr}

include types exprs in
theorem simpleStatement (sound : Sound exprReading expr) :
    c.Agrees .failing depth depth (simpleStatement type expr) := by
  intro start other
  refine (declaration types exprs _ _).bind fun declared _ _ => ?_
  cases declared with
  | some statement => exact AgreesAt.pure _
  | none =>
    refine AgreesAt.unlessDeclined (assignment exprs (unary exprs sound types) _ _) ?_
    refine AgreesAt.current_bind (AgreesAt.note_bind ?_)
    exact (exprs _ _ _).bind fun _ _ _ => AgreesAt.pure _

include types exprs stmts in
theorem stmtLevel (sound : Sound exprReading expr) {reading : Reading Stmt}
    (sounds : Sound reading stmt)
    (some : ∀ used value reports, reading used value reports → used ≠ []) :
    c.Agrees .any depth depth (stmtLevel type expr stmt) := by
  intro start other
  refine AgreesAt.current_bind ?_
  split
  · exact forLoop sounds stmts some exprs _ _
  · exact ifElse sounds stmts some exprs _ _
  · exact (ret exprs _ _).any
  · exact defer stmts _ _
  · exact (block sounds stmts some _ _).bind fun _ _ _ => AgreesAt.pure _
  · exact (simpleStatement types exprs sound _ _).any

end

theorem statement (limit : Nat) {budget : Nat} (within : budget ≤ limit) (depth : Nat) :
    c.Agrees .any depth depth (statement limit budget) := by
  induction budget generalizing depth with
  | zero => exact tooDeep limit Skip.stopsStatement _
  | succ budget ih =>
    have less := Nat.le_of_lt within
    exact fun _ _ => AgreesAt.inside (stmtLevel (fun _ => typeExpr limit budget)
      (expression limit less) (ih less) (expression_sound limit budget less)
      (statement_sound limit budget less) (fun _ _ _ => StmtReading.ne_nil) _ _)

end Agrees

end Parting

end MoSyntax
