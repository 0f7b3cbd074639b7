import MoSyntax.Parser.Skip
import MoSyntax.Proofs.Printing.Shape

/-!
How the parts of a tree begin, and what may follow an expression so that it is not read on. The
looser an expression binds, the fewer operators may follow it.
-/
namespace MoSyntax

def upcoming : List TokenKind → TokenKind
  | [] => .endOfFile
  | kind :: _ => kind

@[simp] theorem upcoming_cons (kind : TokenKind) (kinds : List TokenKind) :
    upcoming (kind :: kinds) = kind := rfl

/-- There are tokens, and the first is of a class. -/
def Begins (starts : TokenKind → Bool) (kinds : List TokenKind) : Prop :=
  ∃ first rest, kinds = first :: rest ∧ starts first

namespace Begins

variable {starts : TokenKind → Bool} {kinds : List TokenKind}

theorem append (begins : Begins starts kinds) (rest : List TokenKind) :
    Begins starts (kinds ++ rest) := by
  obtain ⟨first, more, rfl, holds⟩ := begins
  exact ⟨first, more ++ rest, rfl, holds⟩

theorem imp {weak : TokenKind → Bool} (begins : Begins starts kinds)
    (implies : ∀ kind, starts kind → weak kind) : Begins weak kinds := by
  obtain ⟨first, more, rfl, holds⟩ := begins
  exact ⟨first, more, rfl, implies first holds⟩

theorem ne_nil (begins : Begins starts kinds) : kinds ≠ [] := by
  obtain ⟨first, more, rfl, _⟩ := begins
  simp

theorem head (begins : Begins starts kinds) : starts (upcoming kinds) := by
  obtain ⟨first, more, rfl, holds⟩ := begins
  exact holds

end Begins

namespace TokenKind

/-- What an array literal may be followed by if its element type is left open. -/
def startsElement : TokenKind → Bool
  | identifier _ => true
  | punctuation mark => mark == .leftBracket
  | _ => false

def startsType (kind : TokenKind) : Bool := kind.startsElement || kind == .operator .star

/-- How an expression begins that is no binary and no unary one. -/
def startsOperand : TokenKind → Bool
  | identifier _ | number _ | string _ => true
  | keyword word => word == .trueWord || word == .falseWord
  | punctuation mark => mark == .leftParen || mark == .leftBracket
  | _ => false

def startsExpr : TokenKind → Bool
  | operator sign => (UnaryOperator.ofSign? sign).isSome
  | kind => kind.startsOperand

def startsStmt : TokenKind → Bool
  | keyword word =>
    word == .forWord || word == .ifWord || word == .retWord || word == .deferWord ||
      (keyword word).startsExpr
  | punctuation mark => mark == .leftBrace || (punctuation mark).startsExpr
  | kind => kind.startsExpr

/-- Whether a token may follow an expression of a level or a tighter one. -/
def mayFollow (level : Nat) : TokenKind → Bool
  | identifier _ | punctuation .leftParen | punctuation .leftBracket | punctuation .colon => false
  | punctuation .dot => 5 < level
  | operator sign => (BinaryOperator.ofSign? sign).all fun operator => operator.precedence.level < level
  | _ => true

theorem startsStmt_of_startsExpr {kind : TokenKind} (starts : kind.startsExpr) :
    kind.startsStmt := by
  cases kind <;> simp_all [startsStmt]

theorem startsDeclaration_of_startsStmt {kind : TokenKind} (starts : kind.startsStmt) :
    kind.startsDeclaration = false := by
  cases kind with
  | keyword word => cases word <;> first | rfl | exact absurd starts (by decide)
  | _ => rfl

theorem mayFollow_of_le {level tighter : Nat} (le : level ≤ tighter) {kind : TokenKind}
    (follows : kind.mayFollow level) : kind.mayFollow tighter := by
  unfold mayFollow at follows ⊢
  split at follows
  · exact follows
  · exact follows
  · exact follows
  · exact follows
  · simp only [decide_eq_true_eq] at follows ⊢
    omega
  · rename_i sign
    cases means : BinaryOperator.ofSign? sign with
    | none => rfl
    | some operator =>
      rw [means] at follows
      simp only [Option.all_some, decide_eq_true_eq] at follows ⊢
      omega
  · rfl

end TokenKind

open TokenKind (startsElement startsType startsOperand startsExpr startsStmt)

theorem Name.kinds_eq_cons {name : Name} (formed : name.wellFormed) :
    ∃ word rest, name.kinds = .identifier word :: rest := by
  cases name with
  | ident name => exact ⟨_, _, rfl⟩
  | path modules =>
    obtain ⟨_ | ⟨first, more⟩⟩ := modules
    · simp [wellFormed, ModulePath.wellFormed] at formed
    · rw [kinds, ModulePath.kinds, List.map_cons, intercalate_cons]
      exact ⟨_, _, rfl⟩

namespace TypeExpr

/-- The first token of a pointer would be read as an operator behind an array literal. -/
theorem begins_of_not_pointer {type : TypeExpr} (formed : type.wellFormed)
    (plain : type.isPointer = false) : Begins startsElement type.kinds := by
  cases type with
  | named name =>
    obtain ⟨word, rest, same⟩ := Name.kinds_eq_cons formed
    exact ⟨_, rest, same, rfl⟩
  | pointer span target => simp [isPointer] at plain
  | array span length element => exact ⟨_, _, rfl, rfl⟩
  | skipped span => simp [wellFormed] at formed

theorem begins {type : TypeExpr} (formed : type.wellFormed) : Begins startsType type.kinds := by
  cases pointer : type.isPointer with
  | false =>
    refine (begins_of_not_pointer formed pointer).imp ?_
    intro kind starts
    simp [startsType, starts]
  | true =>
    cases type with
    | pointer span target => exact ⟨_, _, rfl, rfl⟩
    | _ => simp [isPointer] at pointer

end TypeExpr

namespace Expr

theorem begins_of_tight : (expr : Expr) → expr.wellFormed → 5 ≤ expr.level →
    Begins startsOperand expr.kinds
  | .number _ _, _, _ | .string _ _, _, _ | .array _ _ _, _, _ | .grouped _ _, _, _ =>
    ⟨_, _, rfl, rfl⟩
  | .bool _ value, _, _ => by cases value <;> exact ⟨_, _, rfl, rfl⟩
  | .named name, formed, _ => by
    rw [wellFormed] at formed
    obtain ⟨word, rest, same⟩ := Name.kinds_eq_cons formed
    exact ⟨_, rest, same, rfl⟩
  | .index _ target position, formed, _ => by
    rw [wellFormed, Bool.and_eq_true] at formed
    obtain ⟨word, rest, same⟩ := Name.kinds_eq_cons formed.1
    exact Begins.append ⟨_, rest, same, rfl⟩ _
  | .call _ callee arguments, formed, _ => by
    rw [wellFormed, Bool.and_eq_true] at formed
    obtain ⟨word, rest, same⟩ := Name.kinds_eq_cons formed.1
    exact Begins.append ⟨_, rest, same, rfl⟩ _
  | .chain _ receiver suffixes, formed, _ => by
    simp only [wellFormed, Bool.and_eq_true, beq_iff_eq] at formed
    exact (begins_of_tight receiver formed.1.2 (by omega)).append _
  | .unary _ _ _, _, tight => by simp [level] at tight
  | .binary _ tier _ _ _, _, tight => by cases tier <;> simp [level, Precedence.level] at tight
  | .skipped _, formed, _ => by simp [wellFormed] at formed

theorem begins_of_operand {expr : Expr} (formed : expr.wellFormed) (tight : 5 ≤ expr.level) :
    Begins startsExpr expr.kinds := by
  refine (expr.begins_of_tight formed tight).imp ?_
  intro kind starts
  cases kind <;> first | exact starts | simp [startsOperand] at starts

theorem begins : (expr : Expr) → expr.wellFormed → Begins startsExpr expr.kinds
  | .unary _ operator operand, _ => by
    refine ⟨_, _, rfl, ?_⟩
    cases operator.value <;> rfl
  | .binary _ _ left operator right, formed => by
    simp only [wellFormed, Bool.and_eq_true] at formed
    exact (begins left formed.1.2).append _
  | .number _ _, formed | .string _ _, formed | .bool _ _, formed | .named _, formed
  | .index _ _ _, formed | .call _ _ _, formed | .array _ _ _, formed | .grouped _ _, formed
  | .chain _ _ _, formed | .skipped _, formed => begins_of_operand formed (by simp [level])

theorem upcoming_ne_lineBreak {expr : Expr} (formed : expr.wellFormed) (rest : List TokenKind) :
    upcoming (expr.kinds ++ rest) ≠ .lineBreak :=
  ne_of_class ((expr.begins formed).append rest).head _ rfl

end Expr

theorem Block.begins (line : List TokenKind) (block : Block) :
    ∃ rest, block.kinds line = .punctuation .leftBrace :: rest := by
  cases block
  exact ⟨_, rfl⟩

def Stmt.isSimple : Stmt → Bool
  | declare _ _ _ _ | assign _ _ _ | compoundAssign _ _ _ _ | expression _ => true
  | _ => false

theorem Stmt.begins_of_simple {line : List TokenKind} {statement : Stmt}
    (formed : statement.wellFormed) (simple : statement.isSimple) :
    Begins startsExpr (statement.kinds line) := by
  cases statement with
  | declare span name type value => exact ⟨_, _, rfl, rfl⟩
  | assign span target value =>
    simp only [wellFormed, Bool.and_eq_true] at formed
    exact (target.begins formed.1.2).append _
  | compoundAssign span target operator value =>
    simp only [wellFormed, Bool.and_eq_true] at formed
    exact (target.begins formed.1.2).append _
  | expression value => exact value.begins formed
  | _ => simp [isSimple] at simple

theorem Stmt.begins (line : List TokenKind) {statement : Stmt} (formed : statement.wellFormed) :
    Begins startsStmt (statement.kinds line) := by
  cases simple : statement.isSimple with
  | true =>
    exact (begins_of_simple formed simple).imp fun _ => TokenKind.startsStmt_of_startsExpr
  | false =>
    cases statement with
    | forLoop span condition body => exact ⟨_, _, rfl, rfl⟩
    | ifElse span condition consequence otherwise =>
      cases otherwise <;> exact ⟨_, _, rfl, rfl⟩
    | ret span value => exact ⟨_, _, rfl, rfl⟩
    | defer span inner => exact ⟨_, _, rfl, rfl⟩
    | block body =>
      obtain ⟨rest, same⟩ := body.begins line
      exact ⟨_, rest, same, rfl⟩
    | skipped span => simp [wellFormed] at formed
    | _ => simp [isSimple] at simple

/-- What stands behind a line of a body: the brace that closes the body, or the next line. -/
def EndsLine (rest : List TokenKind) : Prop :=
  (∃ more, rest = .punctuation .rightBrace :: more) ∨
    ∃ kind more, rest = .lineBreak :: kind :: more ∧ kind.startsStmt

namespace EndsLine

variable {rest : List TokenKind}

theorem closed (more : List TokenKind) : EndsLine (.punctuation .rightBrace :: more) :=
  .inl ⟨more, rfl⟩

theorem next {kinds : List TokenKind} (begins : Begins TokenKind.startsStmt kinds)
    (more : List TokenKind) : EndsLine (.lineBreak :: (kinds ++ more)) := by
  obtain ⟨first, others, rfl, starts⟩ := begins
  exact .inr ⟨first, others ++ more, rfl, starts⟩

theorem upcoming_cases (ends : EndsLine rest) :
    upcoming rest = .punctuation .rightBrace ∨ upcoming rest = .lineBreak := by
  rcases ends with ⟨more, rfl⟩ | ⟨kind, more, rfl, _⟩
  · exact .inl rfl
  · exact .inr rfl

theorem endsStatement (ends : EndsLine rest) : Skip.endsStatement (upcoming rest) := by
  rcases ends.upcoming_cases with same | same <;> simp [same, Skip.endsStatement]

theorem mayFollow (ends : EndsLine rest) (level : Nat) : (upcoming rest).mayFollow level := by
  rcases ends.upcoming_cases with same | same <;> simp [same, TokenKind.mayFollow]

theorem ne_colon (ends : EndsLine rest) : upcoming rest ≠ .punctuation .colon :=
  ne_of_class (ends.mayFollow 0) _ rfl

end EndsLine

end MoSyntax
