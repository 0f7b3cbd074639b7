import MoSyntax.Text

/-!
Number literals. A literal is a base marker and digits; underscores only space the digits out.
Decimal literals may have a fraction. The value of a whole literal is known when it is below 2^64.
-/
namespace MoSyntax

inductive Radix where
  | binary
  | octal
  | decimal
  | hexadecimal
deriving DecidableEq, Repr

namespace Radix

def all : List Radix := [binary, octal, decimal, hexadecimal]

def base : Radix → Nat
  | binary => 2
  | octal => 8
  | decimal => 10
  | hexadecimal => 16

def marker : Radix → Text
  | binary => ['0', 'b']
  | octal => ['0', 'o']
  | decimal => []
  | hexadecimal => ['0', 'x']

def title : Radix → String
  | binary => "binary"
  | octal => "octal"
  | decimal => "decimal"
  | hexadecimal => "hexadecimal"

/-- The value of a digit, in this base. -/
def digit? (radix : Radix) (c : Char) : Option Nat :=
  let value? :=
    if '0' ≤ c ∧ c ≤ '9' then some (c.toNat - '0'.toNat)
    else if 'a' ≤ c ∧ c ≤ 'f' then some (c.toNat - 'a'.toNat + 10)
    else if 'A' ≤ c ∧ c ≤ 'F' then some (c.toNat - 'A'.toNat + 10)
    else none
  value?.filter fun value => value < radix.base

end Radix

/-- The digits carry neither marker nor underscores. -/
structure NumberLiteral where
  radix : Radix
  fractional : Bool
  digits : Text
deriving DecidableEq, Repr

inductive NumberError where
  | missingDigits (literal : Text) (radix : Radix)
  | invalidDigit (literal : Text) (digit : Char) (radix : Radix)
deriving DecidableEq, Repr

def NumberError.message : NumberError → String
  | missingDigits literal radix =>
    "number literal `" ++ String.ofList literal ++ "` has no digits after its `" ++
      String.ofList radix.marker ++ "` prefix"
  | invalidDigit literal digit radix =>
    "invalid digit `" ++ String.ofList [digit] ++ "` in " ++ radix.title ++ " literal `" ++
      String.ofList literal ++ "`"

namespace NumberLiteral

/-- The base a literal declares, and what follows the marker. -/
def splitRadix : Text → Radix × Text
  | '0' :: 'x' :: body => (.hexadecimal, body)
  | '0' :: 'o' :: body => (.octal, body)
  | '0' :: 'b' :: body => (.binary, body)
  | text => (.decimal, text)

/-- The first character of a body that is not a digit, an underscore or the point. -/
def stray? (radix : Radix) (body : Text) : Option Char :=
  body.find? fun c =>
    !(c == '_' || (radix == .decimal && c == '.') || (radix.digit? c).isSome)

/-- A body of underscores alone stands for zero, after a marker. -/
def read (text : Text) : Except NumberError NumberLiteral :=
  let (radix, body) := splitRadix text
  match stray? radix body with
  | some c => .error (.invalidDigit text c radix)
  | none =>
    let fractional := radix == .decimal && body.contains '.'
    match body.filter (· != '_') with
    | [] =>
      if radix == .decimal || body.isEmpty then .error (.missingDigits text radix)
      else .ok ⟨radix, fractional, ['0']⟩
    | digits => .ok ⟨radix, fractional, digits⟩

/-- The number that digits write; every digit has to be one of the base. -/
def digitsValue? (radix : Radix) (digits : Text) : Option Nat :=
  digits.foldl (fun value? c => do return (← value?) * radix.base + (← radix.digit? c)) (some 0)

/-- One plus sign may stand before the digits. -/
def wholeValue? (radix : Radix) (digits : Text) : Option Nat :=
  match digits with
  | '+' :: digits => if digits.isEmpty then none else digitsValue? radix digits
  | digits => if digits.isEmpty then none else digitsValue? radix digits

/-- A number that fits into 64 bits. -/
def wordValue? (radix : Radix) (digits : Text) : Option Nat :=
  (wholeValue? radix digits).filter (· < UInt64.size)

def value? (literal : NumberLiteral) : Option Nat :=
  if literal.fractional then none else wordValue? literal.radix literal.digits

/-- The plain way to write the literal. -/
def text (literal : NumberLiteral) : Text := literal.radix.marker ++ literal.digits

end NumberLiteral

end MoSyntax
