import MoSyntax.Lines

/-!
What a parse tells of its own course: how far each stage came, and which readings were tried where
the grammar leaves a choice.
-/
namespace MoSyntax

/-- A reading that is given up when it does not fit. -/
inductive Trial where
  | typedDeclaration
  | elementType
deriving DecidableEq, Repr

def Trial.title : Trial → String
  | typedDeclaration => "typed declaration"
  | elementType => "array literal element type"

inductive Event where
  | lexed (tokens base diagnostics : Nat)
  | matched (trial : Trial) (position : Position)
  | abandoned (trial : Trial) (position : Position)
  | plainStatement (position : Position)
  | parsed (declarations diagnostics : Nat)
  | finished (name : Text) (size diagnostics : Nat)
deriving DecidableEq, Repr

namespace Event

/-- Whether the event is a detail of one choice. -/
def isDetail : Event → Bool
  | matched _ _ | abandoned _ _ | plainStatement _ => true
  | lexed _ _ _ | parsed _ _ | finished _ _ _ => false

def level (event : Event) : String := if event.isDetail then "TRACE" else "DEBUG"

def target : Event → String
  | lexed _ _ _ => "mo_parser::lexer"
  | matched _ _ | abandoned _ _ | parsed _ _ => "mo_parser::parser"
  | plainStatement _ => "mo_parser::parser::statements"
  | finished _ _ _ => "mo_parser"

def message : Event → String
  | lexed tokens base diagnostics =>
    s!"lexed {tokens} tokens from offset {base} ({diagnostics} diagnostics so far)"
  | matched trial position =>
    trial.title ++ s!" matched at {position.line}:{position.column}"
  | abandoned trial position =>
    trial.title ++ s!" did not match, backtracking to {position.line}:{position.column}"
  | plainStatement position =>
    s!"statement at {position.line}:{position.column} is an expression"
  | parsed declarations diagnostics =>
    s!"parsed {declarations} top-level declarations ({diagnostics} diagnostics)"
  | finished name size diagnostics =>
    "finished parsing " ++ String.ofList name ++ s!" ({size} bytes, {diagnostics} diagnostics)"

def line (event : Event) : String := s!"[{event.level} {event.target}] {event.message}"

end Event

end MoSyntax
