import MoSyntax.Parser.Expr
import MoSyntax.Proofs.Reading.TypeExpr

/-!
Readings of expressions. Each belongs to a level of binding: the four tiers of binary operators
from the loosest on, then unary expressions, chains and primaries. What is read at a level is read
at every looser one.
-/
namespace MoSyntax

namespace Precedence

def unaryLevel : Nat := 4

def chainLevel : Nat := 5

def primaryLevel : Nat := 6

end Precedence

open Precedence

inductive SuffixReading (expr : Reading Expr) : Reading Suffix
  | field {dot opening token name} (mark : Mark (.punctuation .dot) dot opening)
      (names : token.Names name) :
      SuffixReading expr (dot ++ [token]) (.field (opening.through name.span) name) []
  | call {dot opening token name left bracket items arguments right closing reports}
      (mark : Mark (.punctuation .dot) dot opening) (names : token.Names name)
      (first : Mark (.punctuation .leftParen) left bracket)
      (reads : ItemsReading expr items arguments reports)
      (second : Mark (.punctuation .rightParen) right closing) :
      SuffixReading expr (dot ++ (token :: (left ++ (items ++ right))))
        (.call (opening.through closing) name arguments) reports

/-- An expression whose types and inner expressions are read one level further in. -/
inductive ExprLevel (type : Reading TypeExpr) (expr : Reading Expr) : Nat → Reading Expr
  | number {level token literal} (kind : token.kind = .number literal) :
      ExprLevel type expr level [token] (.number token.span literal) []
  | string {level token value} (kind : token.kind = .string value) :
      ExprLevel type expr level [token] (.string token.span value) []
  | bool {level token value}
      (kind : token.kind = .keyword (if value then .trueWord else .falseWord)) :
      ExprLevel type expr level [token] (.bool token.span value) []
  | named {level used name} (reads : NameReading used name) :
      ExprLevel type expr level used (.named name) []
  | index {level used name left opening before inner position reports behind right closing}
      (target : NameReading used name) (first : Mark (.punctuation .leftBracket) left opening)
      (breaks : Breaks before) (reads : expr inner position reports) (more : Breaks behind)
      (second : Mark (.punctuation .rightBracket) right closing) :
      ExprLevel type expr level (used ++ (left ++ (before ++ (inner ++ (behind ++ right)))))
        (.index (name.span.through closing) name position) reports
  | call {level used name left opening items arguments reports right closing}
      (callee : NameReading used name) (first : Mark (.punctuation .leftParen) left opening)
      (reads : ItemsReading expr items arguments reports)
      (second : Mark (.punctuation .rightParen) right closing) :
      ExprLevel type expr level (used ++ (left ++ (items ++ right)))
        (.call (name.span.through closing) name arguments) reports
  | array {level left opening items elements reports right closing used element later}
      (first : Mark (.punctuation .leftBracket) left opening)
      (reads : ItemsReading expr items elements reports)
      (second : Mark (.punctuation .rightBracket) right closing)
      (annotated : OptionalReading type used element later)
      (plain : ∀ token ∈ used.head?, token.kind ≠ .operator .star) :
      ExprLevel type expr level (left ++ (items ++ (right ++ used)))
        (.array (opening.through ((element.map TypeExpr.span).getD closing)) elements element)
        (reports ++ later)
  | grouped {level left opening before used inner reports behind right closing}
      (first : Mark (.punctuation .leftParen) left opening) (breaks : Breaks before)
      (reads : expr used inner reports) (more : Breaks behind)
      (second : Mark (.punctuation .rightParen) right closing) :
      ExprLevel type expr level (left ++ (before ++ (used ++ (behind ++ right))))
        (.grouped (opening.through closing) inner) reports
  | chain {level used receiver reports left suffixes later last} (loose : level ≤ chainLevel)
      (reads : ExprLevel type expr primaryLevel used receiver reports)
      (others : Repeated (SuffixReading expr) Nothing left suffixes later)
      (ends : suffixes.getLast? = some last) :
      ExprLevel type expr level (used ++ left)
        (.chain (receiver.span.through last.span) receiver suffixes) (reports ++ later)
  | unary {level token sign operator used operand reports} (loose : level ≤ unaryLevel)
      (kind : token.kind = .operator sign) (means : UnaryOperator.ofSign? sign = some operator)
      (reads : ExprLevel type expr chainLevel used operand reports) :
      ExprLevel type expr level (token :: used)
        (.unary (token.span.through operand.span) ⟨token.span, operator⟩ operand) reports
  | binary {level tier used left reports token sign operator breaks more right later}
      (loose : level ≤ tier.level) (first : ExprLevel type expr tier.level used left reports)
      (kind : token.kind = .operator sign) (means : BinaryOperator.ofSign? sign = some operator)
      (tiered : operator.precedence = tier) (between : Breaks breaks)
      (second : ExprLevel type expr (tier.level + 1) more right later) :
      ExprLevel type expr level (used ++ (token :: (breaks ++ more)))
        (.binary (left.span.through right.span) tier left ⟨token.span, operator⟩ right)
        (reports ++ later)

def ExprReading (limit : Nat) : Nat → Reading Expr
  | 0 => SkippedReading limit .skipped
  | budget + 1 => ExprLevel (TypeReading limit budget) (ExprReading limit budget) 0

inductive OperandReading (tier : Precedence) (operand : Reading Expr) :
    Reading (Located BinaryOperator × Expr)
  | next {token sign operator breaks used right reports} (kind : token.kind = .operator sign)
      (means : BinaryOperator.ofSign? sign = some operator) (tiered : operator.precedence = tier)
      (between : Breaks breaks) (reads : operand used right reports) :
      OperandReading tier operand (token :: (breaks ++ used)) (⟨token.span, operator⟩, right) reports

variable {type : Reading TypeExpr} {expr : Reading Expr}

theorem ExprLevel.mono {loose tight : Nat} (le : loose ≤ tight) {used found reports}
    (reads : ExprLevel type expr tight used found reports) :
    ExprLevel type expr loose used found reports := by
  cases reads with
  | number kind => exact .number kind
  | string kind => exact .string kind
  | bool kind => exact .bool kind
  | named reads => exact .named reads
  | index target first breaks reads more second =>
    exact .index target first breaks reads more second
  | call callee first reads second => exact .call callee first reads second
  | array first reads second annotated plain => exact .array first reads second annotated plain
  | grouped first breaks reads more second => exact .grouped first breaks reads more second
  | chain bound reads others ends => exact .chain (Nat.le_trans le bound) reads others ends
  | unary bound kind means reads => exact .unary (Nat.le_trans le bound) kind means reads
  | binary bound first kind means tiered between second =>
    exact .binary (Nat.le_trans le bound) first kind means tiered between second

theorem ExprLevel.ne_nil {level used found reports}
    (reads : ExprLevel type expr level used found reports) : used ≠ [] := by
  induction reads with
  | number | string | bool | unary => simp
  | named reads => exact reads.ne_nil
  | index target => simp [target.ne_nil]
  | call callee => simp [callee.ne_nil]
  | array first => simp [first.ne_nil]
  | grouped first => simp [first.ne_nil]
  | chain _ _ _ _ ih => simp [ih]
  | binary => simp

theorem ExprReading.ne_nil {limit budget : Nat} {used found reports}
    (reads : ExprReading limit budget used found reports) : used ≠ [] := by
  cases budget with
  | zero => exact SkippedReading.ne_nil reads
  | succ budget => exact ExprLevel.ne_nil reads

theorem ExprLevel.foldl {tier : Precedence} {used first reports left nexts later}
    (reads : ExprLevel type expr tier.level used first reports)
    (others : Repeated (OperandReading tier (ExprLevel type expr (tier.level + 1))) Nothing left
      nexts later) :
    ExprLevel type expr tier.level (used ++ left) (nexts.foldl (Parser.join tier) first)
      (reports ++ later) := by
  induction others generalizing used first reports with
  | done ends => simpa [show _ = [] from ends] using reads
  | more next _ ih =>
    obtain ⟨kind, means, tiered, between, second⟩ := next
    have joined := ih (.binary (Nat.le_refl _) reads kind means tiered between second)
    simpa [Parser.join] using joined

namespace Parser

variable {typeParser : Parser TypeExpr} {exprParser : Parser Expr}

theorem constant?_reads {token : Token} {value : Expr} (found : constant? token = some value)
    (level : Nat) : ExprLevel type expr level [token] value [] := by
  unfold constant? at found
  split at found
  · rename_i kind
    obtain rfl := Option.some.inj found
    exact .number kind
  · rename_i kind
    obtain rfl := Option.some.inj found
    exact .string kind
  · rename_i kind
    obtain rfl := Option.some.inj found
    exact .bool kind
  · rename_i kind
    obtain rfl := Option.some.inj found
    exact .bool kind
  · simp at found

theorem constant?_ne_endOfFile {token : Token} {value : Expr}
    (found : constant? token = some value) : token.kind ≠ .endOfFile := by
  intro kind
  simp [constant?, kind] at found

theorem expressionList_sound (sound : Sound expr exprParser) (closing : Punctuation) :
    Sound (fun used list reports => ∃ items last, used = items ++ last ∧
      ItemsReading expr items list.1 reports ∧ Mark (.punctuation closing) last list.2)
      (expressionList exprParser closing) :=
  listUntil_sound sound closing _

theorem grouped_sound (sound : Sound expr exprParser) {start : Cursor}
    (paren : start.current.kind = .punctuation .leftParen) (level : Nat) :
    SoundAt start (ExprLevel type expr level) (grouped exprParser) := by
  refine SoundAt.current_bind (SoundAt.advance_bind (by simp [paren]) ?_)
  intro stop _
  apply SoundAt.bind (skipLineBreaks_sound _)
  rintro before _ _ _ _ ⟨breaks, rfl⟩
  apply SoundAt.bind (sound _)
  intro used inner reports _ _ reads
  apply SoundAt.bind (skipLineBreaks_sound _)
  rintro behind _ _ _ _ ⟨more, rfl⟩
  apply SoundAt.bind (expect_sound (by simp) _ _)
  rintro right closing _ _ _ ⟨second, rfl⟩
  exact SoundAt.pure (by simpa using .grouped ⟨_, rfl, paren, rfl⟩ breaks reads more second)

theorem nameOrCall_sound (sound : Sound expr exprParser) (level : Nat) :
    Sound (ExprLevel type expr level) (nameOrCall exprParser) := by
  intro start
  apply SoundAt.bind (name_sound _ start)
  rintro used name _ _ _ ⟨target, rfl⟩
  apply SoundAt.bind (accept_sound (by simp) _)
  rintro left indexed _ _ _ ⟨rfl, found⟩
  cases indexed with
  | true =>
    obtain ⟨bracket, rfl, kind⟩ := found
    apply SoundAt.bind (skipLineBreaks_sound _)
    rintro before _ _ _ _ ⟨breaks, rfl⟩
    apply SoundAt.bind (sound _)
    intro inner position reports _ _ reads
    apply SoundAt.bind (skipLineBreaks_sound _)
    rintro behind _ _ _ _ ⟨more, rfl⟩
    apply SoundAt.bind (expect_sound (by simp) _ _)
    rintro right closing _ _ _ ⟨second, rfl⟩
    exact SoundAt.pure (by
      simpa using .index target ⟨_, rfl, kind, rfl⟩ breaks reads more second)
  | false =>
    obtain rfl : left = [] := by simpa using found
    apply SoundAt.bind (accept_sound (by simp) _)
    rintro left called _ _ _ ⟨rfl, found⟩
    cases called with
    | true =>
      obtain ⟨paren, rfl, kind⟩ := found
      apply SoundAt.bind (expressionList_sound sound _ _)
      rintro _ ⟨arguments, closing⟩ reports _ _ ⟨items, right, rfl, reads, second⟩
      exact SoundAt.pure (by simpa using .call target ⟨_, rfl, kind, rfl⟩ reads second)
    | false =>
      obtain rfl : left = [] := by simpa using found
      exact SoundAt.pure (by simpa using .named target)

theorem elementType_sound (sound : Sound type typeParser) :
    Sound (fun used element reports => OptionalReading type used element reports ∧
      ∀ token ∈ used.head?, token.kind ≠ .operator .star) (elementType typeParser) := by
  intro start
  apply SoundAt.current_bind
  split
  · rename_i begins
    refine (SoundAt.headed (Sound.attempt .elementType sound start)).imp ?_
    rintro used element reports ⟨holds, headed⟩
    refine ⟨?_, ?_⟩
    · cases element with
      | none =>
        obtain ⟨rfl, rfl⟩ := holds
        exact .none
      | some element => exact .some holds
    · intro token first star
      rw [← headed token first, star] at begins
      simp [TokenKind.isIdentifier] at begins
  · exact SoundAt.pure ⟨.none, by simp⟩

theorem arrayLiteral_sound (types : Sound type typeParser) (exprs : Sound expr exprParser)
    (level : Nat) : Sound (ExprLevel type expr level) (arrayLiteral typeParser exprParser) := by
  intro start
  apply SoundAt.bind (expect_sound (by simp) _ start)
  rintro left opening _ _ _ ⟨first, rfl⟩
  apply SoundAt.bind (expressionList_sound exprs _ _)
  rintro _ ⟨elements, closing⟩ reports _ _ ⟨items, right, rfl, reads, second⟩
  apply SoundAt.bind (elementType_sound types _)
  rintro used element later _ _ ⟨annotated, plain⟩
  exact SoundAt.pure (by simpa using .array first reads second annotated plain)

theorem primary_sound (types : Sound type typeParser) (exprs : Sound expr exprParser) :
    Sound (ExprLevel type expr primaryLevel) (primary typeParser exprParser) := by
  intro start
  apply SoundAt.current_bind
  split
  · rename_i value found
    refine SoundAt.advance_bind (constant?_ne_endOfFile found) ?_
    intro stop _
    exact SoundAt.pure (constant?_reads found _)
  · split
    · rename_i paren
      exact grouped_sound exprs paren _
    · exact arrayLiteral_sound types exprs _ start
    · exact nameOrCall_sound exprs _ start
    · exact SoundAt.fail_with _

theorem nextSuffix_sound (sound : Sound expr exprParser) :
    Sound (Round (SuffixReading expr) Nothing) (nextSuffix exprParser) := by
  intro start
  refine SoundAt.current_bind (SoundAt.bind (accept_sound (by simp) start) ?_)
  rintro used dotted _ stop passes ⟨rfl, found⟩
  cases dotted with
  | false => exact SoundAt.pure ⟨by simpa [Nothing] using found, rfl⟩
  | true =>
    obtain ⟨dot, rfl, kind⟩ := found
    have here : start.current = dot := Cursor.current_of_ahead passes.ahead
    apply SoundAt.bind (ident_sound _ _)
    rintro _ name _ _ _ ⟨⟨token, rfl, names⟩, rfl⟩
    apply SoundAt.bind (accept_sound (by simp) _)
    rintro left called _ _ _ ⟨rfl, found⟩
    cases called with
    | false =>
      obtain rfl : left = [] := by simpa using found
      refine SoundAt.pure ⟨?_, by simp⟩
      simpa using SuffixReading.field ⟨dot, rfl, kind, here ▸ rfl⟩ names
    | true =>
      obtain ⟨paren, rfl, mark⟩ := found
      apply SoundAt.bind (expressionList_sound sound _ _)
      rintro _ ⟨arguments, closing⟩ reports _ _ ⟨items, right, rfl, reads, second⟩
      refine SoundAt.pure ⟨?_, by simp⟩
      simpa using SuffixReading.call ⟨dot, rfl, kind, here ▸ rfl⟩ names ⟨_, rfl, mark, rfl⟩ reads
        second

theorem chain_sound (types : Sound type typeParser) (exprs : Sound expr exprParser) :
    Sound (ExprLevel type expr chainLevel) (chain typeParser exprParser) := by
  intro start
  apply SoundAt.bind (primary_sound types exprs start)
  intro used receiver reports _ _ reads
  apply SoundAt.bind (Sound.many (nextSuffix_sound exprs) _)
  intro left suffixes later _ _ others
  split
  · rename_i none
    obtain rfl : suffixes = [] := by simpa using none
    cases others with
    | done ends =>
      exact SoundAt.pure (by
        simpa [show left = [] from ends] using reads.mono (by simp [chainLevel, primaryLevel]))
  · rename_i last ends
    exact SoundAt.pure (by simpa using .chain (Nat.le_refl _) reads others ends)

theorem prefixOperator?_eq_some {kind : TokenKind} {operator : UnaryOperator}
    (found : prefixOperator? kind = some operator) :
    ∃ sign, kind = .operator sign ∧ UnaryOperator.ofSign? sign = some operator := by
  unfold prefixOperator? at found
  split at found
  · rename_i sign
    exact ⟨sign, rfl, found⟩
  · simp at found

theorem unary_sound (types : Sound type typeParser) (exprs : Sound expr exprParser) :
    Sound (ExprLevel type expr unaryLevel) (unary typeParser exprParser) := by
  intro start
  apply SoundAt.current_bind
  split
  · exact (chain_sound types exprs start).imp fun _ _ _ reads =>
      reads.mono (by simp [unaryLevel, chainLevel])
  · rename_i operator found
    obtain ⟨sign, kind, means⟩ := prefixOperator?_eq_some found
    apply SoundAt.advance_bind (by simp [kind])
    intro stop _
    apply SoundAt.bind (chain_sound types exprs _)
    intro used operand reports _ _ reads
    exact SoundAt.pure (by simpa using .unary (Nat.le_refl _) kind means reads)

theorem tierOperator?_eq_some {tier : Precedence} {kind : TokenKind} {operator : BinaryOperator}
    (found : tierOperator? tier kind = some operator) :
    ∃ sign, kind = .operator sign ∧ BinaryOperator.ofSign? sign = some operator ∧
      operator.precedence = tier := by
  unfold tierOperator? at found
  split at found
  · rename_i sign
    obtain ⟨means, tiered⟩ := Option.filter_eq_some_iff.1 found
    exact ⟨sign, rfl, means, by simpa using tiered⟩
  · simp at found

theorem nextOperand_sound {tier : Precedence} {operand : Parser Expr} {reading : Reading Expr}
    (sound : Sound reading operand) :
    Sound (Round (OperandReading tier reading) Nothing) (nextOperand tier operand) := by
  intro start
  apply SoundAt.current_bind
  split
  · exact SoundAt.pure ⟨rfl, rfl⟩
  · rename_i operator found
    obtain ⟨sign, kind, means, tiered⟩ := tierOperator?_eq_some found
    apply SoundAt.advance_bind (by simp [kind])
    intro stop _
    apply SoundAt.bind (skipLineBreaks_sound _)
    rintro breaks _ _ _ _ ⟨between, rfl⟩
    apply SoundAt.bind (sound _)
    intro used right reports _ _ reads
    exact SoundAt.pure ⟨by simpa using .next kind means tiered between reads, by simp⟩

theorem binaryTier_sound (tier : Precedence) {operand : Parser Expr}
    (sound : Sound (ExprLevel type expr (tier.level + 1)) operand) :
    Sound (ExprLevel type expr tier.level) (binaryTier tier operand) := by
  intro start
  apply SoundAt.bind (sound start)
  intro used first reports _ _ reads
  apply SoundAt.bind (Sound.many (nextOperand_sound sound) _)
  intro left nexts later _ _ others
  exact SoundAt.pure (by
    simpa using ExprLevel.foldl (reads.mono (Nat.le_succ _)) others)

theorem exprLevel_sound (types : Sound type typeParser) (exprs : Sound expr exprParser) :
    Sound (ExprLevel type expr 0) (exprLevel typeParser exprParser) :=
  binaryTier_sound .equality <| binaryTier_sound .comparison <| binaryTier_sound .term <|
    binaryTier_sound .factor <|
      unary_sound types exprs

theorem expression_sound (limit budget : Nat) (within : budget ≤ limit) :
    Sound (ExprReading limit budget) (expression limit budget) := by
  induction budget with
  | zero => exact tooDeep_sound limit _ _
  | succ budget ih =>
    intro start
    exact SoundAt.inside (by omega)
      (exprLevel_sound (typeExpr_sound limit budget (by omega)) (ih (by omega)) start)

end Parser

end MoSyntax
