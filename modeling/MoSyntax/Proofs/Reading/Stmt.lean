import MoSyntax.Parser.Stmt
import MoSyntax.Proofs.Reading.Expr

/-!
Readings of statements and blocks. A block keeps the statements that could be read; for every
stretch of tokens that is lost between them something has been reported, and so has been a missing
brace at the end.
-/
namespace MoSyntax

inductive BlockReading (stmt : Reading Stmt) : Reading Block
  | closed {left opening body statements reports right closing}
      (first : Mark (.punctuation .leftBrace) left opening)
      (reads : BodyReading Breaks stmt body statements reports)
      (second : Mark (.punctuation .rightBrace) right closing) :
      BlockReading stmt (left ++ (body ++ right)) (.braces (opening.through closing) statements)
        reports
  | unclosed {left opening body statements reports found}
      (first : Mark (.punctuation .leftBrace) left opening)
      (reads : BodyReading Breaks stmt body statements reports) :
      BlockReading stmt (left ++ body) (.braces (covered (left ++ body)) statements)
        (reports ++ [Report.unclosedBlock opening found])

/-- The block behind `else`, if there is one. -/
inductive ElseReading (stmt : Reading Stmt) : Reading (Option Block)
  | none : ElseReading stmt [] none []
  | some {before word opening behind used body reports} (breaks : Breaks before)
      (mark : Mark (.keyword .elseWord) word opening) (more : Breaks behind)
      (reads : BlockReading stmt used body reports) :
      ElseReading stmt (before ++ (word ++ (behind ++ used))) (some body) reports

/-- A statement whose parts are read one level further in. -/
inductive StmtLevel (type : Reading TypeExpr) (expr : Reading Expr) (stmt : Reading Stmt) :
    Reading Stmt
  | forLoop {word opening used condition reports breaks more body later}
      (mark : Mark (.keyword .forWord) word opening) (reads : expr used condition reports)
      (between : Breaks breaks) (block : BlockReading stmt more body later) :
      StmtLevel type expr stmt (word ++ (used ++ (breaks ++ more)))
        (.forLoop (opening.through body.span) condition body) (reports ++ later)
  | ifElse {word opening used condition reports breaks more consequence later left otherwise last}
      (mark : Mark (.keyword .ifWord) word opening) (reads : expr used condition reports)
      (between : Breaks breaks) (block : BlockReading stmt more consequence later)
      (other : ElseReading stmt left otherwise last) :
      StmtLevel type expr stmt (word ++ (used ++ (breaks ++ (more ++ left))))
        (.ifElse (opening.through ((otherwise.map Block.span).getD consequence.span)) condition
          consequence otherwise) (reports ++ (later ++ last))
  | ret {word opening} (mark : Mark (.keyword .retWord) word opening) :
      StmtLevel type expr stmt word (.ret opening none) []
  | retValue {word opening used value reports} (mark : Mark (.keyword .retWord) word opening)
      (reads : expr used value reports) :
      StmtLevel type expr stmt (word ++ used) (.ret (opening.through value.span) (some value))
        reports
  | defer {word opening used statement reports} (mark : Mark (.keyword .deferWord) word opening)
      (reads : stmt used statement reports) :
      StmtLevel type expr stmt (word ++ used) (.defer (opening.through statement.span) statement)
        reports
  | block {used body reports} (reads : BlockReading stmt used body reports) :
      StmtLevel type expr stmt used (.block body) reports
  | infer {token name sign place used value reports} (names : token.Names name)
      (mark : Mark (.operator .declare) sign place) (reads : expr used value reports) :
      StmtLevel type expr stmt (token :: (sign ++ used))
        (.declare (name.span.through value.span) name none value) reports
  | declare {token name used declared reports sign place more value later}
      (names : token.Names name) (typed : type used declared reports)
      (mark : Mark (.operator .declare) sign place) (reads : expr more value later) :
      StmtLevel type expr stmt (token :: (used ++ (sign ++ more)))
        (.declare (name.span.through value.span) name (some declared) value) (reports ++ later)
  | assign {used target reports sign place more value later}
      (first : ExprLevel type expr Precedence.unaryLevel used target reports)
      (mark : Mark (.operator .assign) sign place) (second : expr more value later) :
      StmtLevel type expr stmt (used ++ (sign ++ more))
        (.assign (target.span.through value.span) target value) (reports ++ later)
  | compoundAssign {used target reports token sign operator equals more value later}
      (first : ExprLevel type expr Precedence.unaryLevel used target reports)
      (kind : token.kind = .operator sign)
      (means : BinaryOperator.ofCompoundSign? sign = some operator)
      (assign : equals.kind = .operator .assign) (close : token.span.stop = equals.span.start)
      (second : expr more value later) :
      StmtLevel type expr stmt (used ++ (token :: equals :: more))
        (.compoundAssign (target.span.through value.span) target ⟨token.span, operator⟩ value)
        (reports ++ later)
  | expression {used value reports} (reads : expr used value reports) :
      StmtLevel type expr stmt used (.expression value) reports

def StmtReading (limit : Nat) : Nat → Reading Stmt
  | 0 => SkippedReading limit .skipped
  | budget + 1 =>
    StmtLevel (TypeReading limit budget) (ExprReading limit budget) (StmtReading limit budget)

section
variable {type : Reading TypeExpr} {expr : Reading Expr} {stmt : Reading Stmt}

theorem BlockReading.ne_nil {used body reports} (reads : BlockReading stmt used body reports) :
    used ≠ [] := by
  cases reads with
  | closed first => simp [first.ne_nil]
  | unclosed first => simp [first.ne_nil]

theorem StmtLevel.ne_nil (some : ∀ used value reports, expr used value reports → used ≠ [])
    {used found reports} (reads : StmtLevel type expr stmt used found reports) : used ≠ [] := by
  cases reads with
  | forLoop mark => simp [mark.ne_nil]
  | ifElse mark => simp [mark.ne_nil]
  | ret mark => exact mark.ne_nil
  | retValue mark => simp [mark.ne_nil]
  | defer mark => simp [mark.ne_nil]
  | block reads => exact reads.ne_nil
  | infer => simp
  | declare => simp
  | assign first => simp [first.ne_nil]
  | compoundAssign first => simp
  | expression reads => exact some _ _ _ reads

end

theorem StmtReading.ne_nil {limit budget : Nat} {used found reports}
    (reads : StmtReading limit budget used found reports) : used ≠ [] := by
  cases budget with
  | zero => exact SkippedReading.ne_nil reads
  | succ budget => exact StmtLevel.ne_nil (fun _ _ _ => ExprReading.ne_nil) reads

namespace Parser

variable {stmtReading : Reading Stmt} {stmt : Parser Stmt}

theorem nextStatement_sound (sound : Sound stmtReading stmt)
    (some : ∀ used value reports, stmtReading used value reports → used ≠ []) :
    Sound (Round (RecoveredReading Breaks stmtReading) Breaks) (nextStatement stmt) := by
  intro start
  apply SoundAt.bind (skipLineBreaks_at start)
  rintro before _ _ stop passes ⟨rfl, rfl⟩
  have breaks := breaks_takeWhile start.ahead
  apply SoundAt.here_bind
  split
  · exact SoundAt.pure ⟨by simpa using breaks, rfl⟩
  · rename_i goesOn
    simp only [Bool.or_eq_true, not_or, Cursor.atEnd, List.isEmpty_iff] at goesOn
    obtain ⟨⟨more, inner⟩, _⟩ := goesOn
    obtain ⟨token, rest, ahead⟩ := List.exists_cons_of_ne_nil more
    have here := Cursor.current_of_ahead ahead
    have notBreak : (stop.current.kind == .lineBreak) = false := here ▸ passes.other ahead
    refine SoundAt.bind (Sound.recover (sound stop)
      (fun used next further => skipStatement_moves ahead ?_ further) (fun _ => rfl)) ?_
    · rw [← here, Skip.endsStatement, notBreak, Bool.false_or]
      simpa using inner
    · intro used value reports _ _ holds
      refine SoundAt.pure ?_
      cases value with
      | none =>
        obtain ⟨moved, told⟩ := holds
        exact ⟨.lost (by simp [moved]) (by simpa using told), by simp [moved]⟩
      | some value =>
        have moved := some _ _ _ holds
        exact ⟨by simpa using .read breaks holds, by simp [moved]⟩

theorem closeBlock_sound (opening : Span) (start : Cursor) :
    SoundAt start (fun used closing reports =>
      Mark (.punctuation .rightBrace) used closing ∧ reports = [] ∨
        used = [] ∧ closing = start.last.span ∧
          ∃ found, reports = [Report.unclosedBlock opening found]) (closeBlock opening) := by
  apply SoundAt.here_bind
  split
  · rename_i closes
    have closes : start.current.kind = .punctuation .rightBrace := by simpa using closes
    apply SoundAt.advance_bind (by simp [closes])
    intro last _
    exact SoundAt.pure (.inl ⟨⟨_, rfl, closes, rfl⟩, rfl⟩)
  · exact SoundAt.report_bind
      (SoundAt.previous_bind (SoundAt.pure (.inr ⟨rfl, rfl, _, rfl⟩)))

theorem block_sound (sound : Sound stmtReading stmt)
    (some : ∀ used value reports, stmtReading used value reports → used ≠ []) :
    Sound (BlockReading stmtReading) (block stmt) := by
  intro start
  apply SoundAt.bind (expect_sound (by simp) _ start)
  rintro left opening _ middle passes ⟨first, rfl⟩
  apply SoundAt.bind (Sound.many (nextStatement_sound sound some) _)
  intro body statements reports stop further rounds
  apply SoundAt.bind (closeBlock_sound opening stop)
  rintro right closing later _ _ (⟨second, rfl⟩ | ⟨rfl, rfl, found, rfl⟩)
  · exact SoundAt.pure (by simpa using .closed first (.body rounds) second)
  · have same : opening.through stop.last.span = covered (left ++ body) := by
      obtain ⟨brace, rfl, _, rfl⟩ := first
      rw [(passes.trans further).last (by simp)]
      simp [covered, List.getLast?_eq_some_getLast]
    refine SoundAt.pure ?_
    rw [same]
    simpa using .unclosed first (.body rounds)

section
variable {type : Reading TypeExpr} {expr : Reading Expr} {typeParser : Parser TypeExpr}
  {exprParser : Parser Expr}

theorem elseBlock_sound (blocks : Sound (BlockReading stmtReading) (block stmt)) :
    Sound (ElseReading stmtReading) (elseBlock stmt) := by
  intro start intact
  refine SoundAt.here_bind ?_ intact
  dsimp only [lineBreaksAhead]
  split
  · rename_i found
    have word : (start.peek (start.ahead.takeWhile (·.kind == .lineBreak)).length).kind =
        .keyword .elseWord := by simpa using found
    obtain ⟨rest, ahead⟩ := Cursor.ahead_of_peek intact _ List.takeWhile_append_dropWhile.symm
      (show (start.peek (start.ahead.takeWhile (·.kind == .lineBreak)).length).kind ≠ _ by
        simp [word])
    apply SoundAt.bind (SoundAt.skip (_ ++ [_]) rest (by simpa using ahead) (by simp))
    rintro _ _ _ _ _ ⟨rfl, rfl⟩
    apply SoundAt.bind (skipLineBreaks_sound _)
    rintro behind _ _ _ _ ⟨more, rfl⟩
    apply SoundAt.bind (blocks _)
    intro used body reports _ _ reads
    exact SoundAt.pure (by
      simpa using ElseReading.some (breaks_takeWhile start.ahead) ⟨_, rfl, word, rfl⟩ more reads)
  · exact SoundAt.pure .none

theorem forLoop_sound (exprs : Sound expr exprParser)
    (blocks : Sound (BlockReading stmtReading) (block stmt)) :
    Sound (StmtLevel type expr stmtReading) (forLoop exprParser stmt) := by
  intro start
  apply SoundAt.bind (expect_sound (by simp) _ start)
  rintro word opening _ _ _ ⟨mark, rfl⟩
  apply SoundAt.bind (exprs _)
  intro used condition reports _ _ reads
  apply SoundAt.bind (skipLineBreaks_sound _)
  rintro breaks _ _ _ _ ⟨between, rfl⟩
  apply SoundAt.bind (blocks _)
  intro more body later _ _ block
  exact SoundAt.pure (by simpa using StmtLevel.forLoop mark reads between block)

theorem ifElse_sound (exprs : Sound expr exprParser)
    (blocks : Sound (BlockReading stmtReading) (block stmt)) :
    Sound (StmtLevel type expr stmtReading) (ifElse exprParser stmt) := by
  intro start
  apply SoundAt.bind (expect_sound (by simp) _ start)
  rintro word opening _ _ _ ⟨mark, rfl⟩
  apply SoundAt.bind (exprs _)
  intro used condition reports _ _ reads
  apply SoundAt.bind (skipLineBreaks_sound _)
  rintro breaks _ _ _ _ ⟨between, rfl⟩
  apply SoundAt.bind (blocks _)
  intro more consequence later _ _ block
  apply SoundAt.bind (elseBlock_sound blocks _)
  intro left otherwise last _ _ other
  exact SoundAt.pure (by simpa using StmtLevel.ifElse mark reads between block other)

theorem ret_sound (exprs : Sound expr exprParser) :
    Sound (StmtLevel type expr stmtReading) (ret exprParser) := by
  intro start
  apply SoundAt.bind (expect_sound (by simp) _ start)
  rintro word opening _ _ _ ⟨mark, rfl⟩
  apply SoundAt.here_bind
  split
  · exact SoundAt.pure (by simpa using StmtLevel.ret mark)
  · apply SoundAt.bind (exprs _)
    intro used value reports _ _ reads
    exact SoundAt.pure (by simpa using StmtLevel.retValue mark reads)

theorem defer_sound (sound : Sound stmtReading stmt) :
    Sound (StmtLevel type expr stmtReading) (defer stmt) := by
  intro start
  apply SoundAt.bind (expect_sound (by simp) _ start)
  rintro word opening _ _ _ ⟨mark, rfl⟩
  apply SoundAt.bind (sound _)
  intro used statement reports _ _ reads
  exact SoundAt.pure (by simpa using StmtLevel.defer mark reads)

inductive HeadReading (type : Reading TypeExpr) : Reading (Ident × TypeExpr)
  | head {token name used declared reports sign place} (names : token.Names name)
      (typed : type used declared reports) (mark : Mark (.operator .declare) sign place) :
      HeadReading type (token :: (used ++ sign)) (name, declared) reports

theorem HeadReading.ne_nil {type : Reading TypeExpr} {used head reports}
    (reads : HeadReading type used head reports) : used ≠ [] := by
  cases reads
  simp

theorem typedHead_sound (types : Sound type typeParser) :
    Sound (HeadReading type) (typedHead typeParser) := by
  intro start
  apply SoundAt.bind (ident_sound _ start)
  rintro _ name _ _ _ ⟨⟨token, rfl, names⟩, rfl⟩
  apply SoundAt.bind (types _)
  intro used declared reports _ _ typed
  apply SoundAt.bind (expect_sound (by simp) _ _)
  rintro sign place _ _ _ ⟨mark, rfl⟩
  exact SoundAt.pure (by simpa using HeadReading.head names typed mark)

def Declined (each : Reading Stmt) : Reading (Option Stmt)
  | used, some found, reports => each used found reports
  | used, none, reports => used = [] ∧ reports = []

theorem declaration_sound (types : Sound type typeParser) (exprs : Sound expr exprParser) :
    Sound (Declined (StmtLevel type expr stmtReading)) (declaration typeParser exprParser) := by
  intro start intact
  refine SoundAt.here_bind ?_ intact
  split
  · exact SoundAt.pure ⟨rfl, rfl⟩
  · split
    · rename_i found
      apply SoundAt.bind (ident_sound _ start)
      rintro _ name _ stop passes ⟨⟨token, rfl, names⟩, rfl⟩
      have sign : stop.current.kind = .operator .declare := by
        rw [Cursor.current, ← passes.peek]
        simpa using found
      apply SoundAt.advance_bind (by simp [sign])
      intro _ _
      apply SoundAt.bind (exprs _)
      intro used value reports _ _ reads
      exact SoundAt.pure (by
        simpa [Declined] using StmtLevel.infer names ⟨_, rfl, sign, rfl⟩ reads)
    · apply SoundAt.bind (Sound.attempt _ (typedHead_sound types) _)
      intro used head reports _ _ holds
      cases head with
      | none =>
        obtain ⟨rfl, rfl⟩ := holds
        exact SoundAt.pure ⟨rfl, rfl⟩
      | some head =>
        obtain ⟨names, typed, mark⟩ := holds
        apply SoundAt.bind (exprs _)
        intro more value later _ _ reads
        exact SoundAt.pure (by simpa [Declined] using StmtLevel.declare names typed mark reads)

theorem compoundOperator?_eq_some {cursor : Cursor} {sign : Operator} {operator : BinaryOperator}
    (found : compoundOperator? cursor = some (sign, operator)) :
    cursor.current.kind = .operator sign ∧ (cursor.peek 1).kind = .operator .assign ∧
      BinaryOperator.ofCompoundSign? sign = some operator := by
  unfold compoundOperator? at found
  split at found
  · rename_i found' kind
    split at found
    · rename_i equals
      obtain ⟨_, means, same⟩ := Option.map_eq_some_iff.1 found
      obtain ⟨rfl, rfl⟩ := Prod.mk.inj same
      exact ⟨kind, by simpa using equals, means⟩
    · simp at found
  · simp at found

theorem assignment_sound (exprs : Sound expr exprParser) {target : Parser Expr}
    (targets : Sound (ExprLevel type expr Precedence.unaryLevel) target) :
    Sound (fun used value reports => ∀ found, value = some found →
      StmtLevel type expr stmtReading used found reports) (assignment target exprParser) := by
  intro start
  apply SoundAt.bind (targets start)
  intro used target reports stop _ first intact
  refine SoundAt.here_bind (SoundAt.bind (accept_sound (by simp) _) ?_) intact
  rintro sign assigned _ _ passes ⟨rfl, found⟩
  cases assigned with
  | true =>
    obtain ⟨token, rfl, kind⟩ := found
    apply SoundAt.bind (exprs _)
    intro more value later _ _ second
    refine SoundAt.pure ?_
    rintro _ ⟨⟩
    simpa using StmtLevel.assign first ⟨_, rfl, kind, rfl⟩ second
  | false =>
    obtain rfl : sign = [] := by simpa using found
    obtain rfl := passes.of_nil
    simp only [Bool.false_eq_true, ↓reduceIte]
    split
    · exact SoundAt.pure (by simp)
    · rename_i sign operator compound
      obtain ⟨kind, equals, means⟩ := compoundOperator?_eq_some compound
      split
      · rename_i close
        obtain ⟨behind, current⟩ := Cursor.ahead_of_current intact (by simp [kind])
        obtain ⟨rest, ahead⟩ := Cursor.ahead_of_peek intact [_] current
          (fun none => by simp [equals] at none)
        apply SoundAt.bind (SoundAt.skip [_, _] rest ahead rfl)
        rintro _ _ _ _ _ ⟨rfl, rfl⟩
        apply SoundAt.bind (exprs _)
        intro more value later _ _ second
        refine SoundAt.pure ?_
        rintro _ ⟨⟩
        simpa using StmtLevel.compoundAssign first kind means equals (by simpa using close) second
      · exact SoundAt.fail_with _

theorem expressionStatement_sound (exprs : Sound expr exprParser) :
    Sound (StmtLevel type expr stmtReading) (expressionStatement exprParser) := by
  intro start
  refine SoundAt.current_bind (SoundAt.note_bind (SoundAt.bind (exprs _) ?_))
  intro used value reports _ _ reads
  exact SoundAt.pure (by simpa using StmtLevel.expression reads)

theorem simpleStatement_sound (types : Sound type typeParser) (exprs : Sound expr exprParser) :
    Sound (StmtLevel type expr stmtReading) (simpleStatement typeParser exprParser) := by
  intro start
  have declared : Sound (Declined (StmtLevel type expr stmtReading)) (declaration typeParser
    exprParser) := declaration_sound types exprs
  apply SoundAt.bind (declared start)
  intro used found reports _ _ holds
  cases found with
  | some statement => exact SoundAt.pure (by simpa [Declined] using holds)
  | none =>
    obtain ⟨rfl, rfl⟩ := holds
    exact Sound.unlessDeclined (assignment_sound exprs (unary_sound types exprs))
      (expressionStatement_sound exprs) _

theorem stmtLevel_sound (types : Sound type typeParser) (exprs : Sound expr exprParser)
    (sound : Sound stmtReading stmt)
    (some : ∀ used value reports, stmtReading used value reports → used ≠ []) :
    Sound (StmtLevel type expr stmtReading) (stmtLevel typeParser exprParser stmt) := by
  intro start
  have blocks := block_sound sound some
  apply SoundAt.current_bind
  split
  · exact forLoop_sound exprs blocks start
  · exact ifElse_sound exprs blocks start
  · exact ret_sound exprs start
  · exact defer_sound sound start
  · apply SoundAt.bind (blocks start)
    intro used body reports _ _ reads
    exact SoundAt.pure (by simpa using StmtLevel.block reads)
  · exact simpleStatement_sound types exprs start

end

theorem statement_sound (limit budget : Nat) (within : budget ≤ limit) :
    Sound (StmtReading limit budget) (statement limit budget) := by
  induction budget with
  | zero => exact tooDeep_sound limit _ _
  | succ budget ih =>
    intro start
    exact SoundAt.inside (by omega)
      (stmtLevel_sound (typeExpr_sound limit budget (by omega))
        (expression_sound limit budget (by omega)) (ih (by omega))
        (fun _ _ _ => StmtReading.ne_nil) start)

end Parser

end MoSyntax
