import MoSyntax.Proofs.Completion
import MoSyntax.Proofs.Lexing.Lines
import MoSyntax.Proofs.Session.Basic

/-!
The routines of the grammar, run in a session. Whether a routine succeeds or fails, it keeps the
diagnostics that were there, it leaves tokens and nesting as they were and it does not move back; a
success passes a token and a failure is reported. So the diagnostics of a parse are those of the lexer,
then the one of the limit on tokens, then those of the routines, put in source order.
-/
namespace MoSyntax

/-- The routines by what they read. A body is what is read inside a level of nesting. -/
inductive Routine : Type → Type 1
  | file : Routine (List Decl)
  | declaration : Routine Decl
  | useDeclaration : Routine Decl
  | structDeclaration : Routine Decl
  | fnDeclaration : Routine Decl
  | typedName (message : String) : Routine TypedName
  | parameters : Routine (List TypedName)
  | statement : Routine Stmt
  | statementBody : Routine Stmt
  | block : Routine Block
  | forLoop : Routine Stmt
  | ifElse : Routine Stmt
  | ret : Routine Stmt
  | defer : Routine Stmt
  | simpleStatement : Routine Stmt
  | localDeclaration : Routine (Option Stmt)
  | assignment : Routine (Option Stmt)
  | expressionStatement : Routine Stmt
  | typedHead : Routine (Ident × TypeExpr)
  | expression : Routine Expr
  | expressionBody : Routine Expr
  | binaryTier (tier : Precedence) : Routine Expr
  | unary : Routine Expr
  | chain : Routine Expr
  | primary : Routine Expr
  | nameOrCall : Routine Expr
  | arrayLiteral : Routine Expr
  | expressionList (closing : Punctuation) : Routine (List Expr × Span)
  | typeExpr : Routine TypeExpr
  | typeBody : Routine TypeExpr
  | arrayType : Routine TypeExpr
  | name (message : String) : Routine Name
  | ident (message : String) : Routine Ident
  | expect (kind : TokenKind) (some : kind ≠ .endOfFile) (message : String) : Routine Span
  | accept (kind : TokenKind) (some : kind ≠ .endOfFile) : Routine Bool
  | skipLineBreaks : Routine Unit
  | skipStatement : Routine Unit
  | skipDeclaration : Routine Unit
  | skipSubtree (stops : TokenKind → Bool) : Routine (Option Span)
  | attempt {α : Type} (trial : Trial) (routine : Routine α) : Routine (Option α)

namespace Routine

/-- The parser of a routine, with the parsers of the constructs that nest. -/
def parserOf (limit : Nat) (type : Parser TypeExpr) (expr : Parser Expr) (stmt : Parser Stmt)
    {α : Type} : Routine α → Parser α
  | file => Parser.declarations limit
  | declaration => Parser.topLevel type stmt
  | useDeclaration => Parser.useDeclaration
  | structDeclaration => Parser.structDeclaration type
  | fnDeclaration => Parser.fnDeclaration type stmt
  | typedName message => Parser.typedName message type
  | parameters => Parser.parameters type
  | statement => stmt
  | statementBody => Parser.stmtLevel type expr stmt
  | block => Parser.block stmt
  | forLoop => Parser.forLoop expr stmt
  | ifElse => Parser.ifElse expr stmt
  | ret => Parser.ret expr
  | defer => Parser.defer stmt
  | simpleStatement => Parser.simpleStatement type expr
  | localDeclaration => Parser.declaration type expr
  | assignment => Parser.assignment (Parser.unary type expr) expr
  | expressionStatement => Parser.expressionStatement expr
  | typedHead => Parser.typedHead type
  | expression => expr
  | expressionBody => Parser.exprLevel type expr
  | binaryTier tier =>
    Parser.binaryTier tier (tier.tighter.foldr Parser.binaryTier (Parser.unary type expr))
  | unary => Parser.unary type expr
  | chain => Parser.chain type expr
  | primary => Parser.primary type expr
  | nameOrCall => Parser.nameOrCall expr
  | arrayLiteral => Parser.arrayLiteral type expr
  | expressionList closing => Parser.expressionList expr closing
  | typeExpr => type
  | typeBody => Parser.typeLevel type
  | arrayType => Parser.arrayType type
  | name message => Parser.name message
  | ident message => Parser.ident message
  | expect kind _ message => Parser.expect kind message
  | accept kind _ => Parser.accept kind
  | skipLineBreaks => Parser.skipLineBreaks
  | skipStatement => Parser.skipStatement
  | skipDeclaration => Parser.skipDeclaration
  | skipSubtree stops => Parser.skipSubtree stops
  | attempt trial routine => Parser.attempt trial (routine.parserOf limit type expr stmt)

variable {α : Type}

/-- The parser of a routine that is called at some level of nesting. -/
def parser (limit depth : Nat) (routine : Routine α) : Parser α :=
  routine.parserOf limit (Parser.typeExpr limit (limit - depth))
    (Parser.expression limit (limit - depth)) (Parser.statement limit (limit - depth))

def run (routine : Routine α) (limit : Nat) : Action α := fun before =>
  (routine.parser limit before.depth).run before

theorem parser_attempt (limit depth : Nat) (trial : Trial) (routine : Routine α) :
    (attempt trial routine).parser limit depth = Parser.attempt trial (routine.parser limit depth) := by
  simp only [parser, parserOf]

/-- The routine may succeed without passing a token. -/
def mayStay {α : Type} : Routine α → Bool
  | file | localDeclaration | assignment | accept .. | skipLineBreaks | skipStatement
  | skipDeclaration | skipSubtree _ | attempt .. => true
  | _ => false

def Passing (reading : Reading α) : Prop :=
  ∀ used value reports, reading used value reports → used ≠ []

/-- The parser reads something of the tokens, and unless it may stay it passes one. -/
def Reads (stays : Bool) (parser : Parser α) : Prop :=
  ∃ reading, Parser.Sound reading parser ∧ (stays = false → Passing reading)

namespace Reads

variable {reading : Reading α} {parser : Parser α}

theorem passing {stays : Bool} (sound : Parser.Sound reading parser) (some : Passing reading) :
    Reads stays parser :=
  ⟨reading, sound, fun _ => some⟩

theorem staying (sound : Parser.Sound reading parser) : Reads true parser :=
  ⟨reading, sound, fun never => Bool.noConfusion never⟩

theorem silent {part : Cursor → Reading α}
    (sound : ∀ start, Parser.SoundAt start (part start) parser)
    (reports : ∀ start used value reports, part start used value reports → reports = []) :
    Reads true parser := by
  have told : Parser.Sound (fun _ _ reports => reports = []) parser :=
    fun start => (sound start).imp (reports start)
  exact staying told

end Reads

open MoSyntax.Parser in
theorem reads_parserOf (limit : Nat) {type : Reading TypeExpr} {expr : Reading Expr}
    {stmt : Reading Stmt} {typeParser : Parser TypeExpr} {exprParser : Parser Expr}
    {stmtParser : Parser Stmt} (types : Sound type typeParser) (exprs : Sound expr exprParser)
    (stmts : Sound stmt stmtParser) (someType : Passing type) (someExpr : Passing expr)
    (someStmt : Passing stmt) (routine : Routine α) :
    Reads routine.mayStay (routine.parserOf limit typeParser exprParser stmtParser) := by
  have blocks := block_sound stmts someStmt
  have stmtLevels : Passing (StmtLevel type expr stmt) := fun _ _ _ => StmtLevel.ne_nil someExpr
  have exprLevels (level : Nat) : Passing (ExprLevel type expr level) := fun _ _ _ => ExprLevel.ne_nil
  have typeLevels : Passing (TypeLevel type) := fun _ _ _ => TypeLevel.ne_nil
  have declLevels : Passing (DeclLevel type stmt) := fun _ _ _ => DeclLevel.ne_nil
  induction routine with
  | file => exact .staying (declarations_sound limit)
  | declaration => exact .passing (topLevel_sound types blocks) declLevels
  | useDeclaration => exact .passing useDeclaration_sound declLevels
  | structDeclaration => exact .passing (structDeclaration_sound types) declLevels
  | fnDeclaration => exact .passing (fnDeclaration_sound types blocks) declLevels
  | typedName message =>
    exact .passing (typedName_sound types message) fun _ _ _ => TypedReading.ne_nil
  | parameters =>
    refine .passing (parameters_sound types) ?_
    intro _ _ _ ⟨left, _, _, _, _, whole, mark, _⟩
    exact whole ▸ List.append_ne_nil_of_left_ne_nil mark.ne_nil _
  | statement => exact .passing stmts someStmt
  | statementBody => exact .passing (stmtLevel_sound types exprs stmts someStmt) stmtLevels
  | block => exact .passing blocks fun _ _ _ => BlockReading.ne_nil
  | forLoop => exact .passing (forLoop_sound exprs blocks) stmtLevels
  | ifElse => exact .passing (ifElse_sound exprs blocks) stmtLevels
  | ret => exact .passing (ret_sound exprs) stmtLevels
  | defer => exact .passing (defer_sound stmts) stmtLevels
  | simpleStatement => exact .passing (simpleStatement_sound types exprs) stmtLevels
  | localDeclaration =>
    have sound : Sound (Declined (StmtLevel type expr stmt))
        (Parser.declaration typeParser exprParser) :=
      declaration_sound types exprs
    exact .staying sound
  | assignment =>
    have sound : Sound (fun used value reports => ∀ found, value = some found →
        StmtLevel type expr stmt used found reports) (Parser.assignment _ exprParser) :=
      assignment_sound exprs (unary_sound types exprs)
    exact .staying sound
  | expressionStatement => exact .passing (expressionStatement_sound exprs) stmtLevels
  | typedHead => exact .passing (typedHead_sound types) fun _ _ _ => HeadReading.ne_nil
  | expression => exact .passing exprs someExpr
  | expressionBody => exact .passing (exprLevel_sound types exprs) (exprLevels 0)
  | binaryTier tier =>
    exact .passing (binaryTier_sound tier (tighter_sound types exprs tier)) (exprLevels _)
  | unary => exact .passing (unary_sound types exprs) (exprLevels _)
  | chain => exact .passing (chain_sound types exprs) (exprLevels _)
  | primary => exact .passing (primary_sound types exprs) (exprLevels _)
  | nameOrCall => exact .passing (nameOrCall_sound exprs 0) (exprLevels 0)
  | arrayLiteral => exact .passing (arrayLiteral_sound types exprs 0) (exprLevels 0)
  | expressionList closing =>
    refine .passing (expressionList_sound exprs closing) ?_
    intro _ _ _ ⟨_, last, whole, _, mark⟩
    exact whole ▸ List.append_ne_nil_of_right_ne_nil _ mark.ne_nil
  | typeExpr => exact .passing types someType
  | typeBody => exact .passing (typeLevel_sound types) typeLevels
  | arrayType => exact .passing (arrayType_sound types) typeLevels
  | name message => exact .passing (name_sound message) fun _ _ _ reads => reads.1.ne_nil
  | ident message =>
    refine .passing (ident_sound message) ?_
    intro _ _ _ ⟨⟨token, one, _⟩, _⟩
    exact one ▸ List.cons_ne_nil token []
  | expect kind some message =>
    exact .passing (expect_sound some message) fun _ _ _ reads => reads.1.ne_nil
  | accept kind some => exact .staying (accept_sound some)
  | skipLineBreaks => exact .staying skipLineBreaks_sound
  | skipStatement => exact .silent skipStatement_at fun _ _ _ _ holds => holds.1
  | skipDeclaration => exact .silent skipDeclaration_at fun _ _ _ _ holds => holds.1
  | skipSubtree stops => exact .silent (skipSubtree_at stops) fun _ _ _ _ holds => holds.1
  | attempt trial routine ih =>
    obtain ⟨_, sound, _⟩ := ih
    exact .staying (Sound.attempt trial sound)

theorem reads (limit depth : Nat) (routine : Routine α) :
    Reads routine.mayStay (routine.parser limit depth) := by
  have budget : limit - depth ≤ limit := Nat.sub_le _ _
  exact routine.reads_parserOf limit (Parser.typeExpr_sound limit _ budget)
    (Parser.expression_sound limit _ budget) (Parser.statement_sound limit _ budget)
    (fun _ _ _ => TypeReading.ne_nil) (fun _ _ _ => ExprReading.ne_nil)
    fun _ _ _ => StmtReading.ne_nil

/-- What a routine may rely on of another one that it calls. -/
structure Keeps (limit : Nat) (routine : Routine α) (before : Session) : Prop where
  /-- No step is taken that has no meaning, so no level is left that was not entered. -/
  steps : (routine.parser limit before.depth before.cursor).missteps = []
  ready : (routine.run limit before).2.Ready limit
  follows : before.Follows (routine.run limit before).2
  passes : routine.mayStay = false → (routine.run limit before).1.isSome →
    before.cursor.index < (routine.run limit before).2.cursor.index
  told : (routine.run limit before).1 = none →
    before.bag.size < (routine.run limit before).2.bag.size
  /-- To give up what has been read leaves nothing of it. -/
  rewinds : (routine.run limit before).2.rewind before.checkpoint = before
  attempts : ∀ trial,
    (attempt trial routine).run limit before = (routine.run limit).attempt before
  fails : ∀ trial, (routine.run limit before).1 = none →
    (attempt trial routine).run limit before = (some none, before)

theorem keeps {limit : Nat} {before : Session} (ready : before.Ready limit) (routine : Routine α) :
    routine.Keeps limit before := by
  obtain ⟨reading, sound, some⟩ := routine.reads limit before.depth
  have follows := Parser.run_follows sound ready.intact
  have rewinds := follows.rewind ready.intact
  have attempts (trial : Trial) :
      (attempt trial routine).run limit before = (routine.run limit).attempt before := by
    rw [run, parser_attempt, Parser.run_attempt sound trial ready.intact]
    exact Action.attempt_congr rfl
  constructor
  case steps => exact (sound before.cursor ready.intact).missteps
  case ready => exact ⟨Parser.run_intact sound ready.intact, ready.within⟩
  case follows => exact follows
  case passes => exact fun moves => Parser.run_moves sound (some moves) ready.intact
  case told => exact Parser.run_told sound ready.intact
  case rewinds => exact rewinds
  case attempts => exact attempts
  case fails =>
    intro trial fails
    rw [attempts, Action.attempt_of_none fails]
    exact congrArg (Prod.mk _) rewinds

/-- How the routines that nest are made of their bodies, and how a simple statement goes back when
what it has read is no assignment. -/
structure Composed (limit : Nat) (before : Session) : Prop where
  enters : before.depth < limit → before.enter.Ready limit
  statement : statement.run limit before =
    (statementBody.run limit).nested limit Skip.stopsStatement .skipped before
  expression : expression.run limit before =
    (expressionBody.run limit).nested limit Skip.stopsExpression .skipped before
  typeExpr : typeExpr.run limit before =
    (typeBody.run limit).nested limit Skip.stopsType .skipped before
  simpleStatement : simpleStatement.run limit before =
    (localDeclaration.run limit).andThen (fun
      | some statement => .succeed statement
      | none => (assignment.run limit).unlessDeclined (expressionStatement.run limit)) before

theorem composed {limit : Nat} {before : Session} (ready : before.Ready limit) :
    Composed limit before := by
  constructor
  case enters => exact fun further => ⟨ready.intact, further⟩
  case statement =>
    exact Parser.run_nested (Parser.statement limit) (fun budget => Parser.stmtLevel
      (Parser.typeExpr limit budget) (Parser.expression limit budget) (Parser.statement limit budget))
      rfl (fun _ => rfl) before
  case expression =>
    exact Parser.run_nested (Parser.expression limit) (fun budget => Parser.exprLevel
      (Parser.typeExpr limit budget) (Parser.expression limit budget)) rfl (fun _ => rfl) before
  case typeExpr =>
    exact Parser.run_nested (Parser.typeExpr limit) (fun budget => Parser.typeLevel
      (Parser.typeExpr limit budget)) rfl (fun _ => rfl) before
  case simpleStatement =>
    obtain ⟨_, first, _⟩ := localDeclaration.reads limit before.depth
    obtain ⟨_, second, _⟩ := assignment.reads limit before.depth
    refine (Parser.run_simpleStatement first second ready.intact).trans ?_
    refine Action.andThen_congr rfl fun value _ => ?_
    cases value with
    | some statement => rfl
    | none => exact Action.unlessDeclined_congr rfl rfl

end Routine

end MoSyntax
