import MoSyntax.Token.Operator

/-!
What an operator token means by its place. Between operands it is a binary operator of one of four
tiers, of which bitwise operators and shifts share the tightest with multiplication; before an
operand it is a unary one. The operators of the two tighter tiers may stand in a compound
assignment.
-/
namespace MoSyntax

inductive Precedence where
  | equality
  | comparison
  | term
  | factor
deriving DecidableEq, Repr

namespace Precedence

/-- From the loosest tier to the tightest. -/
def all : List Precedence := [equality, comparison, term, factor]

/-- The place of a tier in that order. -/
def level : Precedence → Nat
  | equality => 0
  | comparison => 1
  | term => 2
  | factor => 3

/-- The tiers that bind tighter, the nearest first. -/
def tighter (tier : Precedence) : List Precedence := all.drop (tier.level + 1)

end Precedence

inductive BinaryOperator where
  | equal
  | notEqual
  | greater
  | greaterEqual
  | less
  | lessEqual
  | add
  | subtract
  | divide
  | multiply
  | remainder
  | bitAnd
  | tilde
  | shiftLeft
  | shiftRight
  | bitXor
  | bitOr
deriving DecidableEq, Repr

namespace BinaryOperator

def sign : BinaryOperator → Operator
  | equal => .equal
  | notEqual => .notEqual
  | greater => .greater
  | greaterEqual => .greaterEqual
  | less => .less
  | lessEqual => .lessEqual
  | add => .plus
  | subtract => .minus
  | divide => .slash
  | multiply => .star
  | remainder => .percent
  | bitAnd => .ampersand
  | tilde => .tilde
  | shiftLeft => .shiftLeft
  | shiftRight => .shiftRight
  | bitXor => .caret
  | bitOr => .pipe

def symbol (operator : BinaryOperator) : Text := operator.sign.symbol

def precedence : BinaryOperator → Precedence
  | equal | notEqual => .equality
  | greater | greaterEqual | less | lessEqual => .comparison
  | add | subtract => .term
  | divide | multiply | remainder | bitAnd | tilde | shiftLeft | shiftRight | bitXor | bitOr =>
    .factor

/-- What an operator token means between two operands. -/
def ofSign? : Operator → Option BinaryOperator
  | .equal => some equal
  | .notEqual => some notEqual
  | .greater => some greater
  | .greaterEqual => some greaterEqual
  | .less => some less
  | .lessEqual => some lessEqual
  | .plus => some add
  | .minus => some subtract
  | .slash => some divide
  | .star => some multiply
  | .percent => some remainder
  | .ampersand => some bitAnd
  | .tilde => some tilde
  | .shiftLeft => some shiftLeft
  | .shiftRight => some shiftRight
  | .caret => some bitXor
  | .pipe => some bitOr
  | .bang | .assign | .declare => none

/-- Whether `=` may follow the operator in an assignment. -/
def compounds (operator : BinaryOperator) : Bool :=
  operator.precedence == .term || operator.precedence == .factor

def ofCompoundSign? (sign : Operator) : Option BinaryOperator := (ofSign? sign).filter compounds

end BinaryOperator

inductive UnaryOperator where
  | not
  | negate
  | addressOf
  | dereference
deriving DecidableEq, Repr

namespace UnaryOperator

def sign : UnaryOperator → Operator
  | not => .bang
  | negate => .minus
  | addressOf => .ampersand
  | dereference => .star

def symbol (operator : UnaryOperator) : Text := operator.sign.symbol

/-- What an operator token means before an operand. -/
def ofSign? : Operator → Option UnaryOperator
  | .bang => some not
  | .minus => some negate
  | .ampersand => some addressOf
  | .star => some dereference
  | _ => none

end UnaryOperator

end MoSyntax
