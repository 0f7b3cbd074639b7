import MoSyntax.Parser.Report
import MoSyntax.Parser.Skip

/-!
The limit on nesting. Expressions, statements and types are read with a budget of levels. Where it
is used up, the subtree is skipped and a placeholder takes its place; a place where nothing can be
skipped is a failure, so that whoever repeats the construct gets on.
-/
namespace MoSyntax.Parser

def tooDeep {α : Type} (limit : Nat) (stops : TokenKind → Bool) (placeholder : Span → α) :
    Parser α := do
  report (Report.tooDeep limit (← current).span)
  match ← skipSubtree stops with
  | some span => return placeholder span
  | none => fail

end MoSyntax.Parser
