import MoSyntax.Diagnostic.Bag
import MoSyntax.Parser.Decl
import MoSyntax.Token.Lexed
import MoSyntax.Token.Restored

/-!
From a source text to its syntax tree. A parse always has a tree; what was wrong with the text is
in the diagnostics, in source order, and the course of the parse is in its log.
-/
namespace MoSyntax

/-- The limits on a parse. Comments and the end of the file do not count as tokens. -/
structure Limits where
  depth : Nat := 64
  tokens : Option Nat := none
deriving DecidableEq, Repr

structure Outcome where
  name : Text
  program : Program
  diagnostics : List Diagnostic
  log : List Event
  missteps : List Misstep

namespace Outcome

def hasErrors (outcome : Outcome) : Bool := !outcome.diagnostics.isEmpty

end Outcome

def unnamed : Text := "<input>".toList

/-- Cuts off the tokens past the limit. -/
def limitTokens (limit : Option Nat) (cursor : Cursor) : Cursor × List Diagnostic :=
  match limit with
  | none => (cursor, [])
  | some limit =>
    let (cursor, dropped) := cursor.truncate limit
    (cursor, (dropped.map fun token => Report.tooManyTokens limit token.span).toList)

def parse (source : Text) (name : Text := unnamed) (limits : Limits := {}) : Outcome :=
  let lexed := Lexed.ofText source
  let (cursor, cut) := limitTokens limits.tokens (Cursor.ofTokens lexed.tokens)
  let reply := Parser.declarations limits.depth cursor
  let found := reply.value.getD []
  let bag := (Bag.ofSource source).reportAll (lexed.reports ++ cut ++ reply.reports)
  { name
    program := ⟨⟨0, reply.cursor.current.span.stop⟩, found⟩
    diagnostics := bag.sorted
    log :=
      .lexed lexed.tokens.length lexed.base lexed.reports.length ::
        reply.events ++
      [.parsed found.length bag.size, .finished name (Text.byteSize source) bag.size]
    missteps := reply.missteps }

/-- The source with spaces for all that the grammar does not see. -/
def restored (source : Text) : Text :=
  Token.restore (Text.byteSize source) (Lexed.ofText source).tokens

end MoSyntax
