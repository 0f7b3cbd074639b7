import MoSyntax.Text
import MoSyntax.Text.Graphic

/-! Characters and texts as messages show them: what has no visible form is written as an escape. -/
namespace MoSyntax.Text

def codeEscape (c : Char) : Text :=
  "\\u\x7b".toList ++ Nat.toDigits 16 c.toNat ++ "\x7d".toList

/-- A character inside a message. -/
def escaped (c : Char) : Text :=
  match c with
  | '\x00' => "\\0".toList
  | '\t' => "\\t".toList
  | '\r' => "\\r".toList
  | '\n' => "\\n".toList
  | '\'' => "\\'".toList
  | '"' => "\\\"".toList
  | '\\' => "\\\\".toList
  | c => if isGraphic c then [c] else codeEscape c

/-- A text in double quotes; single quotes inside it need no escape. -/
def quoted (text : Text) : Text :=
  '"' :: text.flatMap (fun c => if c = '\'' then [c] else escaped c) ++ ['"']

end MoSyntax.Text
