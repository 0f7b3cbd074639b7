import MoSyntax.Text

/-! The reserved words of the language. -/
namespace MoSyntax

inductive Keyword where
  | useWord
  | structWord
  | fnWord
  | forWord
  | ifWord
  | elseWord
  | retWord
  | deferWord
  | trueWord
  | falseWord
deriving DecidableEq, Repr

namespace Keyword

def all : List Keyword :=
  [useWord, structWord, fnWord, forWord, ifWord, elseWord, retWord, deferWord, trueWord, falseWord]

def text : Keyword → Text
  | useWord => "use".toList
  | structWord => "struct".toList
  | fnWord => "fn".toList
  | forWord => "for".toList
  | ifWord => "if".toList
  | elseWord => "else".toList
  | retWord => "ret".toList
  | deferWord => "defer".toList
  | trueWord => "true".toList
  | falseWord => "false".toList

def ofText? (word : Text) : Option Keyword := all.find? fun keyword => keyword.text == word

def startsDeclaration : Keyword → Bool
  | useWord | structWord | fnWord => true
  | _ => false

end Keyword

end MoSyntax
