import MoSyntax.Text

/-!
Operators and punctuation marks, each with the symbol that writes it. In `Operator.all` a symbol
stands before every symbol that begins it, so the first operator that begins a text is the longest.
-/
namespace MoSyntax

inductive Operator where
  | shiftLeft
  | shiftRight
  | equal
  | notEqual
  | lessEqual
  | greaterEqual
  | declare
  | plus
  | minus
  | star
  | slash
  | percent
  | ampersand
  | pipe
  | caret
  | tilde
  | bang
  | less
  | greater
  | assign
deriving DecidableEq, Repr

namespace Operator

def all : List Operator :=
  [shiftLeft, shiftRight, equal, notEqual, lessEqual, greaterEqual, declare, plus, minus, star,
    slash, percent, ampersand, pipe, caret, tilde, bang, less, greater, assign]

def symbol : Operator → Text
  | shiftLeft => ['<', '<']
  | shiftRight => ['>', '>']
  | equal => ['=', '=']
  | notEqual => ['!', '=']
  | lessEqual => ['<', '=']
  | greaterEqual => ['>', '=']
  | declare => [':', '=']
  | plus => ['+']
  | minus => ['-']
  | star => ['*']
  | slash => ['/']
  | percent => ['%']
  | ampersand => ['&']
  | pipe => ['|']
  | caret => ['^']
  | tilde => ['~']
  | bang => ['!']
  | less => ['<']
  | greater => ['>']
  | assign => ['=']

def leading? (text : Text) : Option Operator :=
  all.find? fun operator => operator.symbol.isPrefixOf text

end Operator

inductive Punctuation where
  | leftParen
  | rightParen
  | leftBrace
  | rightBrace
  | leftBracket
  | rightBracket
  | comma
  | dot
  | colon
deriving DecidableEq, Repr

namespace Punctuation

def all : List Punctuation :=
  [leftParen, rightParen, leftBrace, rightBrace, leftBracket, rightBracket, comma, dot, colon]

def symbol : Punctuation → Char
  | leftParen => '('
  | rightParen => ')'
  | leftBrace => '{'
  | rightBrace => '}'
  | leftBracket => '['
  | rightBracket => ']'
  | comma => ','
  | dot => '.'
  | colon => ':'

def ofChar? (c : Char) : Option Punctuation := all.find? fun mark => mark.symbol == c

def opens : Punctuation → Bool
  | leftParen | leftBrace | leftBracket => true
  | _ => false

def closes : Punctuation → Bool
  | rightParen | rightBrace | rightBracket => true
  | _ => false

end Punctuation

end MoSyntax
