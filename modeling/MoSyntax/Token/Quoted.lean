import MoSyntax.Span

/-!
The inside of a string literal, read in units: a plain character, a backslash with the character
after it, or a backslash with nothing left on the line. A unit whose escape has no meaning stands
for its own characters.
-/
namespace MoSyntax

inductive StringUnit where
  | plain (c : Char)
  | escape (c : Char)
  | loneBackslash
deriving DecidableEq, Repr

namespace StringUnit

/-- The character that an escape stands for. -/
def meaning? : Char → Option Char
  | '"' => some '"'
  | '\\' => some '\\'
  | 'n' => some '\n'
  | 'r' => some '\r'
  | 't' => some '\t'
  | '0' => some '\x00'
  | '\'' => some '\''
  | _ => none

def text : StringUnit → Text
  | plain c => [c]
  | escape c => ['\\', c]
  | loneBackslash => ['\\']

def value : StringUnit → Text
  | escape c =>
    match meaning? c with
    | some meant => [meant]
    | none => ['\\', c]
  | unit => unit.text

/-- The character of an escape that has no meaning. -/
def bad? : StringUnit → Option Char
  | escape c => if (meaning? c).isNone then some c else none
  | _ => none

end StringUnit

/-- Strings stay on their line. -/
def endsLine (c : Char) : Bool := c == '\n' || c == '\r'

/-- The units up to a quote or the end of the line, and what follows them. -/
def readUnits : Text → List StringUnit × Text
  | [] => ([], [])
  | '\\' :: c :: text =>
    if endsLine c then ([.loneBackslash], c :: text)
    else
      let (units, rest) := readUnits text
      (.escape c :: units, rest)
  | '\\' :: [] => ([.loneBackslash], [])
  | c :: text =>
    if c == '"' || endsLine c then ([], c :: text)
    else
      let (units, rest) := readUnits text
      (.plain c :: units, rest)

namespace StringUnit

def textOf (units : List StringUnit) : Text := units.flatMap text

def valueOf (units : List StringUnit) : Text := units.flatMap value

/-- The escapes without a meaning, when the units begin at a given offset. -/
def badEscapes : Nat → List StringUnit → List (Span × Char)
  | _, [] => []
  | offset, unit :: units =>
    let stop := offset + Text.byteSize unit.text
    (unit.bad?.map fun c => (⟨offset, stop⟩, c)).toList ++ badEscapes stop units

end StringUnit

end MoSyntax
