import MoSyntax.Proofs.Likeness.Expr

/-!
Statements and blocks, read from two texts. They stand inside of the braces of a function, and where
the first text is shorter a report of its statements is enough.
-/
namespace MoSyntax

theorem Cursor.advanceBy_add (first second : Nat) (cursor : Cursor) :
    cursor.advanceBy (first + second) = (cursor.advanceBy first).advanceBy second := by
  induction first generalizing cursor with
  | zero => rw [Nat.zero_add, advanceBy]
  | succ first ih => rw [Nat.succ_add, advanceBy, ih, advanceBy]

theorem Cursor.peek_breaks (cursor : Cursor) :
    cursor.peek (cursor.ahead.takeWhile (·.kind == .lineBreak)).length =
      (cursor.advanceBy (cursor.ahead.takeWhile (·.kind == .lineBreak)).length).current :=
  (advanceBy_passes _ _ List.takeWhile_append_dropWhile.symm).1.peek 0

namespace Comparison

open MoSyntax.Parser

variable {c : Comparison}

namespace Stmts

variable {span span' : Span}

theorem forLoop {condition condition' : Expr} {body body' : Block} (spans : c.Spans span span')
    (conditions : c.Exprs condition condition') (bodies : c.Blocks body body') :
    c.Stmts (.forLoop span condition body) (.forLoop span' condition' body') :=
  ⟨by rw [Stmt.relocate, Stmt.relocate, spans.eq, conditions.tree, bodies.tree], spans⟩

theorem ifElse {condition condition' : Expr} {consequence consequence' : Block}
    {otherwise otherwise' : Option Block} (spans : c.Spans span span')
    (conditions : c.Exprs condition condition') (consequences : c.Blocks consequence consequence')
    (others : Option.Rel c.Blocks otherwise otherwise') :
    c.Stmts (.ifElse span condition consequence otherwise)
      (.ifElse span' condition' consequence' otherwise') := by
  refine ⟨?_, spans⟩
  cases others with
  | none =>
    rw [Stmt.relocate, Stmt.relocate, spans.eq, conditions.tree, consequences.tree]
  | some other =>
    rw [Stmt.relocate, Stmt.relocate, spans.eq, conditions.tree, consequences.tree, other.tree]

theorem ret {value value' : Option Expr} (spans : c.Spans span span')
    (values : Option.Rel c.Exprs value value') : c.Stmts (.ret span value) (.ret span' value') :=
  ⟨by rw [Stmt.relocate, Stmt.relocate, spans.eq,
    option_map_eq (fun _ _ alike => alike.tree) values], spans⟩

theorem defer {statement statement' : Stmt} (spans : c.Spans span span')
    (alike : c.Stmts statement statement') :
    c.Stmts (.defer span statement) (.defer span' statement') :=
  ⟨by rw [Stmt.relocate, Stmt.relocate, spans.eq, alike.tree], spans⟩

theorem block {body body' : Block} (alike : c.Blocks body body') :
    c.Stmts (.block body) (.block body') :=
  ⟨by rw [Stmt.relocate, Stmt.relocate, alike.tree], alike.span⟩

theorem declare {name name' : Ident} {type type' : Option TypeExpr} {value value' : Expr}
    (names : c.Idents name name') (types : Option.Rel c.Types type type')
    (values : c.Exprs value value') :
    c.Stmts (.declare (name.span.through value.span) name type value)
      (.declare (name'.span.through value'.span) name' type' value') := by
  have spans := names.span.through values.span
  exact ⟨by rw [Stmt.relocate, Stmt.relocate, spans.eq, names.eq, values.tree,
    option_map_eq (fun _ _ alike => alike.tree) types], spans⟩

theorem assign {target target' value value' : Expr} (targets : c.Exprs target target')
    (values : c.Exprs value value') :
    c.Stmts (.assign (target.span.through value.span) target value)
      (.assign (target'.span.through value'.span) target' value') := by
  have spans := targets.span.through values.span
  exact ⟨by rw [Stmt.relocate, Stmt.relocate, spans.eq, targets.tree, values.tree], spans⟩

theorem compoundAssign {target target' value value' : Expr}
    {operator operator' : Located BinaryOperator} (targets : c.Exprs target target')
    (operators : c.Marked operator operator') (values : c.Exprs value value') :
    c.Stmts (.compoundAssign (target.span.through value.span) target operator value)
      (.compoundAssign (target'.span.through value'.span) target' operator' value') := by
  have spans := targets.span.through values.span
  exact ⟨by rw [Stmt.relocate, Stmt.relocate, spans.eq, targets.tree, operators.eq, values.tree],
    spans⟩

theorem expression {value value' : Expr} (alike : c.Exprs value value') :
    c.Stmts (.expression value) (.expression value') :=
  ⟨by rw [Stmt.relocate, Stmt.relocate, alike.tree], alike.span⟩

theorem skipped (spans : c.Spans span span') : c.Stmts (.skipped span) (.skipped span') :=
  ⟨by rw [Stmt.relocate, Stmt.relocate, spans.eq], spans⟩

end Stmts

theorem Blocks.braces {span span' : Span} {statements statements' : List Stmt}
    (spans : c.Spans span span') (alike : List.Forall₂ c.Stmts statements statements') :
    c.Blocks (.braces span statements) (.braces span' statements') :=
  ⟨by rw [Block.relocate, Block.relocate, spans.eq, stmtsRelocate_eq, stmtsRelocate_eq,
    map_eq (fun _ _ alike => alike.tree) alike], spans⟩

theorem neutral_of_isIdentifier {kind : TokenKind} (word : kind.isIdentifier) : Neutral kind := by
  cases kind with
  | identifier => exact ⟨by simp, by simp, fun _ => rfl⟩
  | _ => simp [TokenKind.isIdentifier] at word

theorem current_behind_ident {start : Cursor} {message : String} {name : Ident}
    (intact : start.Intact) (found : (Parser.ident message start).value = some name) :
    (Parser.ident message start).cursor.current = start.peek 1 := by
  obtain ⟨_, used, passes, holds⟩ := ident_sound message start intact
  rw [found] at holds
  obtain ⟨⟨token, rfl, _⟩, _⟩ := holds
  exact (passes.peek 0).symm

variable {near : Prop} {depth : Nat} {start other : Cursor}

theorem joins_eq {cursor : Cursor} {rest : List Token} (intact : cursor.Intact)
    (ahead : cursor.ahead = cursor.current :: rest)
    (equals : (cursor.peek 1).kind = .operator .assign) :
    joins cursor.current rest =
      (cursor.current.span.stop == (cursor.peek 1).span.start) := by
  obtain ⟨more, dropped⟩ := Cursor.drop_of_peek intact 1 (by simp [equals])
  rw [ahead, List.drop_one, List.tail_cons] at dropped
  simp [joins, dropped, equals]

namespace Cursors

theorem peek_of_neutral (like : c.Cursors near depth start other)
    (enclosed : c.tail = [] ∨ 0 < depth) (neutral : Neutral start.current.kind) :
    c.Tokens (start.peek 1) (other.peek 1) := by
  have alike := like.current_of_guarded enclosed
  rw [Cursor.peek_one like.intact neutral.ahead,
    Cursor.peek_one like.intact' (alike.kind ▸ neutral.ahead)]
  exact (like.advance neutral.ahead neutral.plain fun _ => neutral.level depth).current_of_guarded
    enclosed

theorem compoundOperator? (like : c.Cursors near depth start other)
    (enclosed : c.tail = [] ∨ 0 < depth) :
    Parser.compoundOperator? start = Parser.compoundOperator? other := by
  rw [Parser.compoundOperator?, Parser.compoundOperator?,
    ← (like.current_of_guarded enclosed).kind]
  split
  · rename_i sign kind
    rw [(like.peek_of_neutral enclosed (kind ▸ neutral_operator sign)).kind]
  · rfl

theorem skip_compound (like : c.Cursors near depth start other)
    (neutral : Neutral start.current.kind) (equals : (start.peek 1).kind = .operator .assign) :
    c.Cursors True depth (start.advanceBy 2) (other.advanceBy 2) := by
  rw [Cursor.peek_one like.intact neutral.ahead] at equals
  exact (like.advance neutral.ahead neutral.plain fun _ => neutral.level depth).advance
    (by simp [equals]) (by simp [equals]) fun _ => by rw [equals]; rfl

/-- An operator is close to the sign behind it in both texts or in none. -/
theorem close (like : c.Cursors near depth start other) {sign : Operator}
    (operator : start.current.kind = .operator sign)
    (equals : (start.peek 1).kind = .operator .assign)
    (equals' : (other.peek 1).kind = .operator .assign) :
    (start.current.span.stop == (start.peek 1).span.start) =
      (other.current.span.stop == (other.peek 1).span.start) := by
  have neutral : Neutral start.current.kind := operator ▸ neutral_operator sign
  have alike : c.Tokens start.current other.current :=
    like.current.resolve_right fun past => neutral.ahead past.kind
  obtain ⟨rest, left⟩ := Cursor.ahead_of_current like.intact neutral.ahead
  obtain ⟨others, right⟩ := Cursor.ahead_of_current like.intact' (alike.kind ▸ neutral.ahead)
  have aligned := like.ahead
  rw [left, right] at aligned
  have joined := (aligned.behind neutral.plain fun _ => neutral.level depth).2 sign operator
  rwa [joins_eq like.intact left equals, joins_eq like.intact' right equals'] at joined

end Cursors

namespace Likes

theorem closeBlock {opening opening' : Span} (spans : c.Spans opening opening') :
    c.Likes True True (depth + 1) depth c.Spans (closeBlock opening) (closeBlock opening') := by
  intro start other like
  have alike := like.current_of_guarded (.inr (Nat.succ_pos depth))
  refine LikesAt.here_bind ?_ like
  rw [← alike.kind]
  split
  · rename_i closes
    have closes : start.current.kind = .punctuation .rightBrace := by simpa using closes
    exact LikesAt.advance_bind (by simp [closes]) (by simp [closes]) (fun _ => by rw [closes]; rfl)
      fun _ _ => LikesAt.pure alike.span
  · by_cases whole : c.tail = []
    · refine LikesAt.report_bind (alike.unclosedBlock spans) ?_
      exact LikesAt.previous_bind fun _ _ last like =>
        LikesAt.pure last (like.anywhere whole depth)
    · exact LikesAt.report_lost whole trivial _

section

variable {reading : Reading Stmt} {stmt : Parser Stmt} (sound : Sound reading stmt)
  (stmts : ∀ (near : Prop) depth, (c.tail = [] ∨ 0 < depth) →
    c.Likes near True depth depth c.Stmts stmt stmt)

include sound stmts

theorem nextStatement (enclosed : c.tail = [] ∨ 0 < depth) :
    c.Likes near True depth depth (Option.Rel (Option.Rel c.Stmts)) (nextStatement stmt)
      (nextStatement stmt) := by
  intro start other
  refine (skipLineBreaks enclosed _ _).bind fun _ _ stop stop' _ like => ?_
  have alike := like.current_of_guarded enclosed
  refine LikesAt.here_bind ?_ like
  rw [← alike.kind, ← like.atEnd enclosed]
  split
  · exact LikesAt.pure .none
  · exact (LikesAt.recover sound (.inr trivial) (stmts near depth enclosed _ _)
      fun whole => skipStatement whole).bind fun _ _ _ _ found => LikesAt.pure (.some found)

variable (some : ∀ used value reports, reading used value reports → used ≠ [])

include some

theorem block (depth : Nat) : c.Likes near True depth depth c.Blocks (block stmt) (block stmt) := by
  have inside : c.tail = [] ∨ 0 < depth + 1 := .inr (Nat.succ_pos depth)
  refine expect_bind (.inr (.inr trivial)) (by simp) (by simp) (fun _ => rfl) _
    fun _ _ opening start other => ?_
  refine (many (nextStatement sound stmts inside) (nextStatement_sound sound some).advances
    (nextStatement_sound sound some).advances _ _).bind fun _ _ _ _ statements => ?_
  exact (closeBlock opening _ _).bind fun _ _ _ _ closing =>
    LikesAt.pure (.braces (opening.through closing) (reduceOption statements))

variable {expr : Parser Expr}
  (exprs : ∀ (near : Prop) depth, (c.tail = [] ∨ 0 < depth) →
    c.Likes near False depth depth c.Exprs expr expr)
  (enclosed : c.tail = [] ∨ 0 < depth)

include enclosed

theorem elseBlock : c.Likes near True depth depth (Option.Rel c.Blocks) (elseBlock stmt)
    (elseBlock stmt) := by
  intro start other like
  rcases like.skipBreaks with behind | ⟨cut, outside, _⟩
  · have alike := behind.current_of_guarded enclosed
    refine LikesAt.here_bind ?_ like
    dsimp only [lineBreaksAhead]
    rw [Cursor.peek_breaks, Cursor.peek_breaks, ← alike.kind]
    split
    · rename_i found
      have word : (start.advanceBy (start.ahead.takeWhile (·.kind == .lineBreak)).length).current.kind =
          .keyword .elseWord := by simpa using found
      intro _
      have next := behind.advance (by simp [word]) (by simp [word]) (fun _ => by rw [word]; rfl)
      rw [← Cursor.advanceBy_add, ← Cursor.advanceBy_add] at next
      refine Replies.bind (.same (.some rfl) .nil fun _ => next.weaken fun _ => trivial)
        fun _ _ _ _ _ => ?_
      refine (skipLineBreaks enclosed _ _).bind fun _ _ _ _ _ => ?_
      exact (block sound stmts some depth _ _).bind fun _ _ _ _ body => LikesAt.pure (.some body)
    · exact LikesAt.pure .none
  · exact absurd outside (ne_zero_of_enclosed enclosed cut)

include exprs

theorem forLoop : c.Likes near True depth depth c.Stmts (forLoop expr stmt) (forLoop expr stmt) := by
  intro start other
  refine (expect (.inr (.inr trivial)) (by simp) (by simp) (fun _ => rfl) _ _ _).bind
    fun _ _ _ _ opening => ?_
  refine (exprs near depth enclosed _ _).strict.bind fun _ _ _ _ condition => ?_
  refine (skipLineBreaks enclosed _ _).bind fun _ _ _ _ _ => ?_
  exact (block sound stmts some depth _ _).bind fun _ _ _ _ body =>
    LikesAt.pure (.forLoop (opening.through body.span) condition body)

theorem ifElse : c.Likes near True depth depth c.Stmts (ifElse expr stmt) (ifElse expr stmt) := by
  intro start other
  refine (expect (.inr (.inr trivial)) (by simp) (by simp) (fun _ => rfl) _ _ _).bind
    fun _ _ _ _ opening => ?_
  refine (exprs near depth enclosed _ _).strict.bind fun _ _ _ _ condition => ?_
  refine (skipLineBreaks enclosed _ _).bind fun _ _ _ _ _ => ?_
  refine (block sound stmts some depth _ _).bind fun _ _ _ _ consequence => ?_
  refine (elseBlock sound stmts some enclosed _ _).bind fun _ _ _ _ otherwise => ?_
  refine LikesAt.pure (.ifElse (opening.through ?_) condition consequence otherwise)
  cases otherwise with
  | none => exact consequence.span
  | some other => exact other.span

end

section

variable {type : Parser TypeExpr} {expr : Parser Expr} {stmt : Parser Stmt}
  (types : ∀ (near : Prop) depth, (c.tail = [] ∨ 0 < depth) →
    c.Likes near False depth depth c.Types type type)
  (exprs : ∀ (near : Prop) depth, (c.tail = [] ∨ 0 < depth) →
    c.Likes near False depth depth c.Exprs expr expr)
  (stmts : ∀ (near : Prop) depth, (c.tail = [] ∨ 0 < depth) →
    c.Likes near True depth depth c.Stmts stmt stmt)
  (enclosed : c.tail = [] ∨ 0 < depth)

include exprs enclosed in
theorem ret : c.Likes near True depth depth c.Stmts (ret expr) (ret expr) := by
  intro start other
  refine (expect (.inr (.inr trivial)) (by simp) (by simp) (fun _ => rfl) _ _ _).bind
    fun _ _ stop stop' opening like => ?_
  refine LikesAt.here_bind ?_ like
  rw [← (like.current_of_guarded enclosed).kind, ← like.atEnd enclosed]
  split
  · exact LikesAt.pure (.ret opening .none)
  · exact (exprs near depth enclosed _ _).strict.bind fun _ _ _ _ value =>
      LikesAt.pure (.ret (opening.through value.span) (.some value))

include stmts enclosed in
theorem defer : c.Likes near True depth depth c.Stmts (defer stmt) (defer stmt) := by
  intro start other
  refine (expect (.inr (.inr trivial)) (by simp) (by simp) (fun _ => rfl) _ _ _).bind
    fun _ _ _ _ opening => ?_
  exact (stmts near depth enclosed _ _).bind fun _ _ _ _ statement =>
    LikesAt.pure (.defer (opening.through statement.span) statement)

include types enclosed in
theorem typedHead : c.Likes near False depth depth
    (fun head head' => c.Idents head.1 head'.1 ∧ c.Types head.2 head'.2) (typedHead type)
    (typedHead type) := by
  intro start other
  refine (ident (.of_enclosed enclosed) _ _ _).bind fun _ _ _ _ declared => ?_
  refine (types near depth enclosed _ _).bind fun _ _ _ _ type => ?_
  exact (expect (.of_enclosed enclosed) (by simp) (by simp) (fun _ => rfl) _ _ _).bind
    fun _ _ _ _ _ => LikesAt.pure ⟨declared, type⟩

include types exprs enclosed in
theorem declaration : c.Likes near True depth depth (Option.Rel c.Stmts) (declaration type expr)
    (declaration type expr) := by
  intro start other like
  have alike := like.current_of_guarded enclosed
  refine LikesAt.here_bind ?_ like
  rw [← alike.kind]
  split
  · exact LikesAt.pure .none
  · rename_i word
    have neutral : Neutral start.current.kind := neutral_of_isIdentifier (by simpa using word)
    have next := like.peek_of_neutral enclosed neutral
    rw [← next.kind]
    split
    · rename_i sign
      refine LikesAt.bind_at (ident (.of_enclosed enclosed) _ _ _)
        fun declared declared' found _ names => ?_
      have sign : (Parser.ident "expected a variable name" start).cursor.current.kind =
          .operator .declare := by
        rw [current_behind_ident like.intact found]
        simpa using sign
      refine LikesAt.advance_bind (by simp [sign]) (by simp [sign]) (fun _ => by rw [sign]; rfl)
        fun _ _ => ?_
      exact (exprs near depth enclosed _ _).strict.bind fun _ _ _ _ value =>
        LikesAt.pure (.some (.declare names .none value))
    · refine LikesAt.bind (LikesAt.attempt (typedHead types enclosed _ _))
        fun head head' _ _ alike => ?_
      cases alike with
      | none => exact LikesAt.pure .none
      | some alike =>
        exact (exprs near depth enclosed _ _).strict.bind fun _ _ _ _ value =>
          LikesAt.pure (.some (.declare alike.1 (.some alike.2) value))

include exprs enclosed in
theorem assignment {target : Parser Expr}
    (targets : c.Likes near False depth depth c.Exprs target target) :
    c.Likes near False depth depth (Option.Rel c.Stmts) (assignment target expr)
      (assignment target expr) := by
  intro start other
  refine (targets _ _).bind fun _ _ stop stop' targets like => ?_
  refine LikesAt.here_bind (LikesAt.accept_bind (by simp) (by simp) (fun _ => rfl)
    (fun _ _ => ?_) ?_) like
  · exact (exprs near depth enclosed _ _).bind fun _ _ _ _ value =>
      LikesAt.pure (.some (.assign targets value))
  · rw [← like.compoundOperator? enclosed]
    cases found : compoundOperator? stop with
    | none => exact LikesAt.pure .none
    | some compound =>
      obtain ⟨sign, operator⟩ := compound
      obtain ⟨kind, equals, _⟩ := compoundOperator?_eq_some found
      have neutral : Neutral stop.current.kind := kind ▸ neutral_operator sign
      have alike := like.current_of_guarded enclosed
      have next := like.peek_of_neutral enclosed neutral
      simp only [Bool.false_eq_true, ↓reduceIte]
      rw [← like.close kind equals (next.kind ▸ equals)]
      split
      · intro _
        refine Replies.bind (.same (.some rfl) .nil fun _ =>
          (like.skip_compound neutral equals).weaken fun _ => trivial) fun _ _ _ _ _ => ?_
        exact (exprs near depth enclosed _ _).bind fun _ _ _ _ value =>
          LikesAt.pure (.some (.compoundAssign targets (Marked.of_spans alike.span operator) value))
      · exact LikesAt.reject ((alike.span.through next.span).spacedCompound sign)

include exprs enclosed in
theorem expressionStatement : c.Likes near True depth depth c.Stmts (expressionStatement expr)
    (expressionStatement expr) := by
  intro start other
  refine LikesAt.current_bind (LikesAt.note_bind ?_)
  exact (exprs near depth enclosed _ _).strict.bind fun _ _ _ _ value =>
    LikesAt.pure (.expression value)

variable {exprReading : Reading Expr}

include types exprs enclosed in
theorem simpleStatement (sound : Sound exprReading expr) :
    c.Likes near True depth depth c.Stmts (simpleStatement type expr)
      (simpleStatement type expr) := by
  intro start other
  refine (declaration types exprs enclosed _ _).bind fun _ _ _ _ declared => ?_
  cases declared with
  | some statement => exact LikesAt.pure statement
  | none =>
    exact LikesAt.unlessDeclined (assignment exprs enclosed
      (unary sound (types near) (exprs near) enclosed) _ _) (expressionStatement exprs enclosed _ _)

include types exprs stmts enclosed in
theorem stmtLevel (sound : Sound exprReading expr) {reading : Reading Stmt}
    (sounds : Sound reading stmt)
    (some : ∀ used value reports, reading used value reports → used ≠ []) :
    c.Likes near True depth depth c.Stmts (stmtLevel type expr stmt) (stmtLevel type expr stmt) := by
  intro start other like
  refine LikesAt.current_bind ?_ like
  rw [← (like.current_of_guarded enclosed).kind]
  split
  · exact forLoop sounds stmts some exprs enclosed _ _
  · exact ifElse sounds stmts some exprs enclosed _ _
  · exact ret exprs enclosed _ _
  · exact defer stmts enclosed _ _
  · exact (block sounds stmts some depth _ _).bind fun _ _ _ _ body => LikesAt.pure (.block body)
  · exact simpleStatement types exprs enclosed sound _ _

end

theorem statement (limit : Nat) {budget : Nat} (within : budget ≤ limit) (near : Prop) (depth : Nat)
    (enclosed : c.tail = [] ∨ 0 < depth) :
    c.Likes near True depth depth c.Stmts (statement limit budget) (statement limit budget) := by
  induction budget generalizing near depth with
  | zero => exact tooDeep (.of_enclosed enclosed) (fun _ _ => .skipped) limit Skip.stopsStatement
  | succ budget ih =>
    have less := Nat.le_of_lt within
    exact fun _ _ => LikesAt.inside (stmtLevel
      (fun _ _ enclosed => typeExpr (.of_enclosed enclosed) limit budget)
      (fun _ => expression limit less) (ih less) enclosed (expression_sound limit budget less)
      (statement_sound limit budget less) (fun _ _ _ => StmtReading.ne_nil) _ _)

end Likes

end Comparison

end MoSyntax
