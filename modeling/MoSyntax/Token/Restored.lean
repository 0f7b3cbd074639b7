import MoSyntax.Token.Basic

/-!
A text restored from its tokens: every token except comments at its own offset, and spaces for
every other byte.
-/
namespace MoSyntax.Token

/-- Spaces that lengthen a text to a size in bytes. -/
def padding (size : Nat) (text : Text) : Text := List.replicate (size - Text.byteSize text) ' '

def append (text : Text) (token : Token) : Text :=
  text ++ padding token.span.start text ++ token.lexeme

def restore (size : Nat) (tokens : List Token) : Text :=
  let shown := tokens.filter fun token => !token.isComment && !token.isEndOfFile
  let text := shown.foldl append []
  text ++ padding size text

end MoSyntax.Token
