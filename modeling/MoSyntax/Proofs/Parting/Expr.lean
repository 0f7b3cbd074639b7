import MoSyntax.Proofs.Parting.Phrase

/-!
Expressions, read from two texts that part. Outside of brackets an expression goes on behind a line
break only where a binary operator stands before it; then the first run finds no operand.
-/
namespace MoSyntax

namespace Parser

variable {α β : Type}

/-- The parser has no use for a closing brace. -/
def Balks (parser : Parser α) : Prop :=
  ∀ start : Cursor, start.current.kind = .punctuation .rightBrace →
    (parser start).value = none ∧ (parser start).reports ≠ []

namespace Balks

theorem reject (report : Diagnostic) : Balks (reject report : Parser α) :=
  fun _ _ => ⟨rfl, List.cons_ne_nil _ _⟩

theorem bind {first : Parser α} (balks : Balks first) (next : α → Parser β) :
    Balks (first >>= next) := by
  intro start brace
  obtain ⟨failed, told⟩ := balks start brace
  rw [bind_of_none failed]
  exact ⟨rfl, told⟩

theorem current_bind {next : Token → Parser β}
    (tail : ∀ token, token.kind = .punctuation .rightBrace → Balks (next token)) :
    Balks (current >>= next) :=
  fun start brace => tail start.current brace start brace

theorem expect {kind : TokenKind} (other : kind ≠ .punctuation .rightBrace) (message : String) :
    Balks (expect kind message) := by
  refine current_bind fun token brace => ?_
  rw [if_neg (by simpa [brace] using other.symm)]
  exact reject _

theorem primary (type : Parser TypeExpr) (expr : Parser Expr) : Balks (primary type expr) := by
  refine current_bind fun token brace => ?_
  have none : constant? token = none := by
    unfold constant?
    rw [brace]
  rw [none, brace]
  exact reject _

theorem unary (type : Parser TypeExpr) (expr : Parser Expr) : Balks (unary type expr) := by
  refine current_bind fun token brace => ?_
  rw [brace]
  exact (primary type expr).bind _

theorem binaryTier {operand : Parser Expr} (balks : Balks operand) (tier : Precedence) :
    Balks (binaryTier tier operand) := balks.bind _

end Balks

end Parser

namespace Parting

open MoSyntax.Parser

variable {c : Parting} {loss : Loss} {depth next last : Nat} {start other : Cursor} {α β : Type}

theorem Past.lost (past : c.Past depth start other) (wild : ¬ c.mild) {parser : Parser α}
    (balks : Balks parser) (admits : loss.Admits (none : Option α)) {second : Reply α} :
    c.Replies loss last (parser (Parser.pastBreaks start)) second := by
  obtain ⟨failed, told⟩ := balks _ (past.current wild)
  exact .lost wild told (failed ▸ admits)

/-- What comes behind line breaks, if it has no use for a closing brace. -/
theorem AgreesAt.skipLineBreaks_bind {goesOn : Unit → Parser β} {start other : Cursor}
    (mild : c.mild → ∀ token ∈ start.ahead.head?, token.kind ≠ .lineBreak)
    (balks : Balks (goesOn ())) (admits : loss.Admits (none : Option β))
    (tail : ∀ stop stop', c.AgreesAt loss depth last stop stop' (goesOn ()) (goesOn ())) :
    c.AgreesAt loss depth last start other (skipLineBreaks >>= goesOn)
      (skipLineBreaks >>= goesOn) := by
  intro like
  rcases like.pastBreaks with ⟨_, further⟩ | past
  · exact tail _ _ further
  · refine past.lost (fun calm => ?_) balks admits
    obtain ⟨token, rest, others, left, _⟩ := like.ahead.head
    refine mild calm token (by rw [left]; rfl) ?_
    rw [← Cursor.current_of_ahead left]
    exact past.breaks

namespace Agrees

variable {type : Parser TypeExpr} {expr : Parser Expr} {typeReading : Reading TypeExpr}
  {exprReading : Reading Expr}

section

variable (exprs : ∀ depth, c.Agrees .failing depth depth expr)

include exprs

theorem grouped (opens : start.current.kind = .punctuation .leftParen) :
    c.AgreesAt .failing depth depth start other (grouped expr) (grouped expr) := by
  refine AgreesAt.current_bind ?_
  refine AgreesAt.advance_bind (depth + 1) (by simp [opens]) (by rw [opens]; rfl)
    fun _ _ => ?_
  refine (skipLineBreaks _ _).bind fun _ _ _ => ?_
  refine (exprs _ _ _).bind fun _ _ _ => ?_
  refine (skipLineBreaks _ _).bind fun _ _ _ => ?_
  exact (expect _ (by simp) rfl _ _ _).bind fun _ _ _ => AgreesAt.pure _

variable (sound : Sound exprReading expr)

include sound

theorem expressionList {closing : Punctuation} (closes : closing.closes) :
    c.Agrees .failing (depth + 1) depth (expressionList expr closing) :=
  listUntil closes (exprs _) (nextItem_sound sound).advances _

theorem nameOrCall : c.Agrees .failing depth depth (nameOrCall expr) := by
  intro start other
  refine (name _ _ _).bind fun _ _ _ => ?_
  refine AgreesAt.accept_bind (depth + 1) (by simp) rfl (fun _ _ => ?_) ?_
  · refine (skipLineBreaks _ _).bind fun _ _ _ => ?_
    refine (exprs _ _ _).bind fun _ _ _ => ?_
    refine (skipLineBreaks _ _).bind fun _ _ _ => ?_
    exact (expect _ (by simp) rfl _ _ _).bind fun _ _ _ => AgreesAt.pure _
  · refine AgreesAt.accept_bind (depth + 1) (by simp) rfl (fun _ _ => ?_) (AgreesAt.pure _)
    exact (expressionList exprs sound rfl _ _).bind fun _ _ _ => AgreesAt.pure _

theorem nextSuffix : c.Agrees .failing depth depth (nextSuffix expr) := by
  intro start other
  refine AgreesAt.current_bind ?_
  refine AgreesAt.accept_bind depth (by simp) rfl (fun _ _ => ?_) (AgreesAt.pure _)
  refine (ident _ _ _).bind fun _ _ _ => ?_
  refine AgreesAt.accept_bind (depth + 1) (by simp) rfl (fun _ _ => ?_) (AgreesAt.pure _)
  exact (expressionList exprs sound rfl _ _).bind fun _ _ _ => AgreesAt.pure _

variable (types : ∀ depth, c.Agrees .never depth depth type)

include types

theorem arrayLiteral : c.Agrees .failing depth depth (arrayLiteral type expr) := by
  intro start other
  refine (expect (depth + 1) (by simp) rfl _ _ _).bind fun _ _ _ => ?_
  refine (expressionList exprs sound rfl _ _).bind fun _ _ _ => ?_
  refine AgreesAt.bind (show c.AgreesAt _ _ depth _ _ _ _ from AgreesAt.current_bind ?_)
    fun _ _ _ => AgreesAt.pure _
  split
  · exact AgreesAt.attempt _ (types depth _ _)
  · exact AgreesAt.pure _

theorem primary : c.Agrees .failing depth depth (primary type expr) := by
  intro start other
  refine AgreesAt.current_bind ?_
  cases found : constant? start.current with
  | some value =>
    obtain ⟨_, visible, level⟩ := Comparison.neutral_of_constant? found
    exact AgreesAt.advance_bind _ visible (level depth) fun _ _ => AgreesAt.pure _
  | none =>
    dsimp only
    split
    · rename_i opens
      exact grouped exprs opens
    · exact arrayLiteral exprs sound types _ _
    · exact nameOrCall exprs sound _ _
    · exact AgreesAt.reject _

theorem chain : c.Agrees .failing depth depth (chain type expr) := by
  intro start other
  refine (primary exprs sound types _ _).bind fun _ _ _ => ?_
  refine (many (nextSuffix exprs sound) (nextSuffix_sound sound).advances _ _).bind
    fun suffixes _ _ => ?_
  cases suffixes.getLast? <;> exact AgreesAt.pure _

theorem unary : c.Agrees .failing depth depth (unary type expr) := by
  intro start other
  refine AgreesAt.current_bind ?_
  split
  · exact chain exprs sound types _ _
  · rename_i operator found
    obtain ⟨sign, kind, _⟩ := prefixOperator?_eq_some found
    refine AgreesAt.advance_bind _ (by simp [kind]) (by rw [kind]; rfl) fun _ _ => ?_
    exact (chain exprs sound types _ _).bind fun _ _ _ => AgreesAt.pure _

end

section

variable {operand : Parser Expr} {reading : Reading Expr} (sound : Sound reading operand)
  (balks : Balks operand) (operands : c.Agrees .failing depth depth operand)

include balks operands

theorem nextOperand (tier : Precedence) :
    c.Agrees .failing depth depth (nextOperand tier operand) := by
  intro start other
  refine AgreesAt.current_bind ?_
  split
  · exact AgreesAt.pure _
  · rename_i operator found
    obtain ⟨sign, kind, means, _⟩ := tierOperator?_eq_some found
    -- A mild operator is not the last one of its line, so no line break comes next.
    refine AgreesAt.advance_bind_at _ (by simp [kind]) (by rw [kind]; rfl) fun mild => ?_
    refine AgreesAt.skipLineBreaks_bind (fun calm => (mild calm).operand sign operator kind means)
      (balks.bind _) rfl fun _ _ => ?_
    exact (operands _ _).bind fun _ _ _ => AgreesAt.pure _

include sound

theorem binaryTier (tier : Precedence) :
    c.Agrees .failing depth depth (binaryTier tier operand) := by
  intro start other
  refine (operands _ _).bind fun _ _ _ => ?_
  exact (many (nextOperand balks operands tier) (nextOperand_sound sound).advances _ _).bind
    fun _ _ _ => AgreesAt.pure _

end

theorem exprLevel (typed : Sound typeReading type) (sound : Sound exprReading expr)
    (types : ∀ depth, c.Agrees .never depth depth type)
    (exprs : ∀ depth, c.Agrees .failing depth depth expr) :
    c.Agrees .failing depth depth (exprLevel type expr) := by
  have single := unary_sound typed sound
  have factor := binaryTier_sound .factor single
  have term := binaryTier_sound .term factor
  have comparison := binaryTier_sound .comparison term
  have balks := Balks.unary type expr
  exact binaryTier comparison (((balks.binaryTier _).binaryTier _).binaryTier _)
    (binaryTier term ((balks.binaryTier _).binaryTier _)
      (binaryTier factor (balks.binaryTier _)
        (binaryTier single balks (unary exprs sound types) .factor) .term) .comparison) .equality

theorem expression (limit : Nat) {budget : Nat} (within : budget ≤ limit) (depth : Nat) :
    c.Agrees .failing depth depth (expression limit budget) := by
  induction budget generalizing depth with
  | zero => exact tooDeep limit Skip.stopsExpression _
  | succ budget ih =>
    have less := Nat.le_of_lt within
    exact fun _ _ => AgreesAt.inside (exprLevel (typeExpr_sound limit budget less)
      (expression_sound limit budget less) (fun _ => typeExpr limit budget) (ih less) _ _)

end Agrees

end Parting

end MoSyntax
