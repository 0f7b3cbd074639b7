import MoSyntax.Parser.Depth
import MoSyntax.Parser.Symbol

/-!
Types: a name, a pointer `*T`, or an array `[]T` or `[4]T` whose length is a whole decimal number.
-/
namespace MoSyntax.Parser

def arrayLength : Parser (Option (Located NumberLiteral)) := do
  let found ← current
  match found.kind with
  | .number literal =>
    if literal.radix == .decimal && !literal.fractional then
      advance
      return some ⟨found.span, literal⟩
    else
      reject (Report.lengthNotDecimal found)
  | _ => return none

def arrayType (type : Parser TypeExpr) : Parser TypeExpr := do
  let opening ← expect (.punctuation .leftBracket) "expected `[` to start an array type"
  let length ← arrayLength
  let _ ← expect (.punctuation .rightBracket) "expected `]` after the array length"
  let element ← type
  return .array (opening.through element.span) length element

def pointerType (type : Parser TypeExpr) : Parser TypeExpr := do
  let star ← current
  advance
  let target ← type
  return .pointer (star.span.through target.span) target

/-- A type whose parts are read by the given parser. -/
def typeLevel (type : Parser TypeExpr) : Parser TypeExpr := do
  let found ← current
  match found.kind with
  | .punctuation .leftBracket => arrayType type
  | .operator .star => pointerType type
  | .identifier _ => return .named (← name "expected a type name")
  | _ => reject (Report.unexpected "a type" found)

def typeExpr (limit : Nat) : Nat → Cursor → Reply TypeExpr
  | 0, cursor => tooDeep limit Skip.stopsType .skipped cursor
  | budget + 1, cursor => inside (limit - budget) (typeLevel (typeExpr limit budget)) cursor

end MoSyntax.Parser
