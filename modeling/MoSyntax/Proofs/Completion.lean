import MoSyntax.Proofs.Reading.Source

/-!
Every parse comes to a normal end. Each round of a loop passes a token before the next one begins,
so no loop runs on; no step is taken where it has no meaning; and all that is cut out of the source
begins and ends between two characters.
-/
namespace MoSyntax

namespace Parser

/-- A round that has something leaves fewer tokens ahead. -/
def Advances {α : Type} (step : Parser (Option α)) : Prop :=
  ∀ start, start.Intact → ∀ value, (step start).value = some (some value) →
    (step start).cursor.ahead.length < start.ahead.length

theorem Sound.advances {α : Type} {each : Reading α} {rest : List Token → Prop}
    {step : Parser (Option α)} (sound : Sound (Round each rest) step) : Advances step := by
  intro start intact value found
  obtain ⟨_, used, passes, holds⟩ := sound start intact
  rw [found] at holds
  have length := passes.length
  have passed := List.length_pos_iff.2 holds.2
  omega

/-- The rounds of all loops get on, at every depth that a limit allows. -/
structure LoopsAdvance (limit : Nat) : Prop where
  topLevel : Advances (nextDeclaration (topLevel (typeExpr limit limit) (statement limit limit)))
  structBody : Advances (nextField (typeExpr limit limit))
  parameters (message : String) :
    Advances (nextItem (typedName message (typeExpr limit limit)))
  codeBlock {budget : Nat} (within : budget ≤ limit) :
    Advances (nextStatement (statement limit budget))
  arguments {budget : Nat} (within : budget ≤ limit) :
    Advances (nextItem (expression limit budget))
  suffixes {budget : Nat} (within : budget ≤ limit) :
    Advances (nextSuffix (expression limit budget))
  operands {budget : Nat} (within : budget < limit) (tier : Precedence) :
    Advances (nextOperand tier (tier.tighter.foldr binaryTier
      (unary (typeExpr limit budget) (expression limit budget))))
  segments : Advances nextSegment

theorem tighter_sound {type : Reading TypeExpr} {expr : Reading Expr}
    {typeParser : Parser TypeExpr} {exprParser : Parser Expr} (types : Sound type typeParser)
    (exprs : Sound expr exprParser) (tier : Precedence) :
    Sound (ExprLevel type expr (tier.level + 1))
      (tier.tighter.foldr binaryTier (unary typeParser exprParser)) := by
  have factor := binaryTier_sound .factor (unary_sound types exprs)
  have term := binaryTier_sound .term factor
  cases tier with
  | equality => exact binaryTier_sound .comparison term
  | comparison => exact term
  | term => exact factor
  | factor => exact unary_sound types exprs

theorem loopsAdvance (limit : Nat) : LoopsAdvance limit where
  topLevel := (declaration_rounds limit).advances
  structBody := (nextField_sound (typeExpr_sound limit limit (Nat.le_refl _))).advances
  parameters message :=
    (nextItem_sound (typedName_sound (typeExpr_sound limit limit (Nat.le_refl _)) message)).advances
  codeBlock within :=
    (nextStatement_sound (statement_sound limit _ within) fun _ _ _ => StmtReading.ne_nil).advances
  arguments within := (nextItem_sound (expression_sound limit _ within)).advances
  suffixes within := (nextSuffix_sound (expression_sound limit _ within)).advances
  operands within tier :=
    (nextOperand_sound (tighter_sound (typeExpr_sound limit _ (Nat.le_of_lt within))
      (expression_sound limit _ (Nat.le_of_lt within)) tier)).advances
  segments := nextSegment_sound.advances

end Parser

namespace Lexed

/-- The units of a string are what stands inside its quotes, of which the second may be missing. -/
def QuotedIn (source : Text) (span : Span) (value : Text) : Prop :=
  ∃ (closed : Bool) (units : List StringUnit), value = StringUnit.valueOf units ∧
    (⟨span.start + 1, span.stop - if closed then 1 else 0⟩ : Span).slice? source =
      some (StringUnit.textOf units)

theorem quotedIn_of_mem {source : Text} {token : Token} {value : Text}
    (member : token ∈ (ofText source).tokens) (string : token.kind = .string value) :
    QuotedIn source token.span value := by
  rw [ofText_tokens, List.mem_append, List.mem_singleton] at member
  rcases member with member | rfl
  · obtain ⟨lexeme, front, back, kind, _, _, start, stop, whole⟩ := exists_of_mem_written member
    obtain ⟨closed, units, rfl, rfl⟩ :
        ∃ closed units, lexeme = .string closed units ∧ value = StringUnit.valueOf units := by
      rw [kind] at string
      cases lexeme with
      | string closed units =>
        exact ⟨closed, units, rfl, by simpa [Lexeme.kind] using string.symm⟩
      | word text =>
        rw [Lexeme.kind] at string
        split at string <;> simp at string
      | number | comment | lineBreak | operator | punctuation => simp [Lexeme.kind] at string
    have quote : ('"' : Char).utf8Size = 1 := rfl
    refine ⟨closed, units, rfl, ?_⟩
    have inner : source = (front ++ ['"']) ++
        (StringUnit.textOf units ++ ((if closed then ['"'] else []) ++ back)) := by
      rw [whole]
      simp [Lexeme.text]
    rw [inner]
    refine Span.slice?_append _ _ _ _ ?_ ?_
    · simp [start, quote]
    · rw [stop]
      cases closed <;> simp [Lexeme.text, quote] <;> omega
  · simp [Token.endOfFile] at string

end Lexed

/-- What the normal end of a parse comes to. -/
structure Completed (source : Text) (limits : Limits) (outcome : Outcome) : Prop where
  /-- No look behind the tokens, no bracket and no level closed that is not open, no endless loop. -/
  steps : outcome.missteps = []
  /-- The declarations of the tree are an answer of the parser, not what stands for a missing one. -/
  answers : (Parser.declarations limits.depth (sourceCursor source limits.tokens)).value =
    some outcome.program.declarations
  reachesEnd : (Parser.declarations limits.depth (sourceCursor source limits.tokens)).cursor.atEnd
  span : outcome.program.span = ⟨0, Text.byteSize source⟩
  loops : Parser.LoopsAdvance limits.depth
  lexemes : ∀ token ∈ (Lexed.ofText source).tokens, token.span.slice? source = some token.lexeme
  strings : ∀ token ∈ (Lexed.ofText source).tokens, ∀ value, token.kind = .string value →
    Lexed.QuotedIn source token.span value

/-- A parse comes to a normal end for every source and with all limits. -/
theorem parse_completed (source name : Text) (limits : Limits) :
    Completed source limits (parse source name limits) := by
  obtain ⟨found, value, _, missteps, ended, _⟩ :=
    Parser.declarations_reads limits.depth (sourceCursor_intact source limits.tokens)
  refine ⟨missteps, ?_, ?_, parse_span source name limits, Parser.loopsAdvance _,
    fun _ => Lexed.slice?_of_mem, fun _ member _ => Lexed.quotedIn_of_mem member⟩
  · rw [parse_declarations, value]
    rfl
  · rw [Cursor.atEnd, ended]
    rfl

end MoSyntax
